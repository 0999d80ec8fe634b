import ExprShell.Proofs.Sentence.Grammar
import Mathlib.Order.CompletePartialOrder

/-!
# What may stand behind a part

A reader that gives each word to the innermost part that will take it may end a part later than a
derivation does.  That this loses no sentence is a matter of what may stand behind the part.  Call a
language of continuations *tame* if a word in front that an inner part could take (an operator, an
opening parenthesis, `ELIF`, `ELSE`) is followed by what that part needs and by a continuation
again.  A part that takes the word then leaves a continuation, as it would have done without.

* `Grammar.word`   one word, as a language;
* `Grammar.Fits`   what must stand behind a word;
* `Grammar.Tame`   continuations that fit; those that arise in the grammar are all tame.
-/

namespace ExprShell.Grammar

variable {bound : Names} {K J M : Language Token} {t : Token} {u : List Token}

def word (p : Token → Prop) : Language Token := {w | ∃ t, p t ∧ w = [t]}

abbrev ofKind (k : Token.Kind) : Language Token := word fun t => t.kind = k

abbrev keyword (k : Keyword) : Language Token := word fun t => t.is k

theorem cons_mem_word_mul {p : Token → Prop} (ht : p t) (hu : u ∈ K) : t :: u ∈ word p * K := by
  have h : [t] ∈ word p := ⟨t, ht, rfl⟩
  exact Language.append_mem_mul h hu

theorem mem_word_mul {p : Token → Prop} {ts : List Token} (h : ts ∈ word p * K) :
    ∃ t u, ts = t :: u ∧ p t ∧ u ∈ K := by
  obtain ⟨_, ⟨t, ht, rfl⟩, u, hu, rfl⟩ := Language.mem_mul.mp h
  exact ⟨t, u, rfl, ht, hu⟩

theorem of_cons_mem_word_mul {p : Token → Prop} (h : t :: u ∈ word p * K) : p t ∧ u ∈ K := by
  obtain ⟨_, _, htu, ht, hu⟩ := mem_word_mul h
  cases htu
  exact ⟨ht, hu⟩

/-- words that cannot begin with a further part belong to what stands behind it -/
theorem mem_of_mem_add {p : Token → Prop} {ts : List Token} (h : ts ∈ K + word p * J)
    (hp : ∀ t u, ts = t :: u → ¬ p t) : ts ∈ K := by
  rcases h with h | h
  · exact h
  · obtain ⟨t, u, htu, ht, -⟩ := mem_word_mul h
    exact absurd ht (hp t u htu)

/-- behind a word that nothing else can begin with stands what that word asks for -/
theorem mem_of_cons_mem_add {p : Token → Prop} (h : t :: u ∈ K + word p * J)
    (hK : t :: u ∈ K → u ∈ J) : u ∈ J := by
  rcases h with h | h
  · exact hK h
  · exact (of_cons_mem_word_mul h).2

theorem mem_mul_of_le {L : Language Token} (h : K ≤ J) (hu : u ∈ L * K) : u ∈ L * J :=
  mul_le_mul_right h L hu

/-! ## Tame continuations -/

/-- behind the word `t`, should an inner part take it, stands what that part needs -/
structure Fits (bound : Names) (K : Language Token) (t : Token) (u : List Token) : Prop where
  sign : ∀ l : Loop, l.sign t → u ∈ language bound (.operand l) * K
  call : t.kind = .lparen → u ∈ language bound .args * (ofKind .rparen * K)
  elif : t.is .elif → u ∈ language bound .branches * K
  otherwise : t.is .else → u ∈ language bound .expr * K
  equal : t.kind ≠ .equal

/-- a language of continuations that an inner part may cut into -/
def Tame (bound : Names) (K : Language Token) : Prop := ∀ t u, t :: u ∈ K → Fits bound K t u

namespace Fits

theorem mono (hKJ : K ≤ J) (h : Fits bound K t u) : Fits bound J t u where
  sign l hl := mem_mul_of_le hKJ (h.sign l hl)
  call ht := mem_mul_of_le (mul_le_mul_right hKJ _) (h.call ht)
  elif ht := mem_mul_of_le hKJ (h.elif ht)
  otherwise ht := mem_mul_of_le hKJ (h.otherwise ht)
  equal := h.equal

theorem of_sign {l : Loop} (ht : l.sign t) (hu : u ∈ language bound (.operand l) * K) :
    Fits bound K t u where
  sign j hj := by
    rw [l.sign_unique ht hj]
    exact hu
  call h := absurd ht (l.not_sign_of_kind (.inl h))
  elif h := absurd ht (l.not_sign_of_is h (by decide))
  otherwise h := absurd ht (l.not_sign_of_is h (by decide))
  equal h := l.not_sign_of_kind (.inr (.inr (.inr h))) ht

theorem of_call (ht : t.kind = .lparen) (hu : u ∈ language bound .args * (ofKind .rparen * K)) :
    Fits bound K t u where
  sign l h := absurd h (l.not_sign_of_kind (.inl ht))
  call _ := hu
  elif h := by simp [kind_of_is h] at ht
  otherwise h := by simp [kind_of_is h] at ht
  equal := by simp [ht]

theorem of_elif (ht : t.is .elif) (hu : u ∈ language bound .branches * K) :
    Fits bound K t u where
  sign l h := absurd h (l.not_sign_of_is ht (by decide))
  call h := by simp [kind_of_is ht] at h
  elif _ := hu
  otherwise h := by simp [is_iff ht] at h
  equal := by simp [kind_of_is ht]

theorem of_else (ht : t.is .else) (hu : u ∈ language bound .expr * K) : Fits bound K t u where
  sign l h := absurd h (l.not_sign_of_is ht (by decide))
  call h := by simp [kind_of_is ht] at h
  elif h := by simp [is_iff ht] at h
  otherwise _ := hu
  equal := by simp [kind_of_is ht]

/-- no inner part takes a closing parenthesis or a comma -/
theorem of_closing (ht : t.kind = .rparen ∨ t.kind = .comma) : Fits bound K t u where
  sign l h := absurd h (l.not_sign_of_kind (.inr (ht.imp_right .inl)))
  call h := by simp [h] at ht
  elif h := by simp [kind_of_is h] at ht
  otherwise h := by simp [kind_of_is h] at ht
  equal h := by simp [h] at ht

theorem of_keyword {k : Keyword} (ht : t.is k) (hk : k = .then ∨ k = .to ∨ k = .step) :
    Fits bound K t u where
  sign l h := absurd h (l.not_sign_of_is ht (by rcases hk with rfl | rfl | rfl <;> decide))
  call h := by simp [kind_of_is ht] at h
  elif h := by
    rw [is_iff ht] at h
    simp [← h] at hk
  otherwise h := by
    rw [is_iff ht] at h
    simp [← h] at hk
  equal := by simp [kind_of_is ht]

end Fits

theorem language_chain_mul (l : Loop) (K : Language Token) :
    language bound (.chain l) * K =
      K + word (fun t => l.sign t) *
        (language bound (.operand l) * (language bound (.chain l) * K)) := by
  ext ts
  constructor
  · intro h
    obtain ⟨w, ⟨f, hw⟩, u, hu, rfl⟩ := Language.mem_mul.mp h
    cases hw with
    | stop => exact .inl hu
    | next ht hw hv =>
      refine .inr ?_
      rw [List.cons_append, List.append_assoc]
      exact cons_mem_word_mul ht (Language.append_mem_mul hw.mem
        (Language.append_mem_mul hv.mem hu))
  · rintro (h | h)
    · exact Language.append_mem_mul Derives.stop.mem h
    · obtain ⟨t, _, rfl, ht, hu⟩ := mem_word_mul h
      obtain ⟨w, ⟨e, hw⟩, _, hvu, rfl⟩ := Language.mem_mul.mp hu
      obtain ⟨v, ⟨f, hv⟩, u, hK, rfl⟩ := Language.mem_mul.mp hvu
      rw [← List.append_assoc, ← List.cons_append]
      exact Language.append_mem_mul (Derives.next ht hw hv).mem hK

theorem language_clause_mul (k : Keyword) (K : Language Token) :
    language bound (.clause k) * K = K + keyword k * (language bound .expr * K) := by
  ext ts
  constructor
  · intro h
    obtain ⟨w, ⟨f, hw⟩, u, hu, rfl⟩ := Language.mem_mul.mp h
    cases hw with
    | noClause => exact .inl hu
    | someClause ht hw => exact .inr (cons_mem_word_mul ht (Language.append_mem_mul hw.mem hu))
  · rintro (h | h)
    · exact Language.append_mem_mul Derives.noClause.mem h
    · obtain ⟨t, _, rfl, ht, hu⟩ := mem_word_mul h
      obtain ⟨w, ⟨e, hw⟩, u, hK, rfl⟩ := Language.mem_mul.mp hu
      rw [← List.cons_append]
      exact Language.append_mem_mul (Derives.someClause ht hw).mem hK

namespace Tame

theorem nextIs_equal (hK : Tame bound K) (hu : u ∈ K) : Sentence.nextIs .equal u = false := by
  cases u with
  | nil => rfl
  | cons t u => simpa [Sentence.nextIs] using (hK t u hu).equal

/-- further continuations are tame if they fit behind their first word -/
theorem extend {p : Token → Prop} (hK : Tame bound K) (hJ : J = K + word p * M)
    (hM : ∀ t u, p t → u ∈ M → Fits bound J t u) : Tame bound J := by
  intro t u h
  have hKJ : K ≤ J := by
    rw [hJ]
    exact le_self_add
  rw [hJ] at h
  rcases h with h | h
  · exact (hK t u h).mono hKJ
  · obtain ⟨ht, hu⟩ := of_cons_mem_word_mul h
    exact hM t u ht hu

theorem zero : Tame bound 0 := by
  intro t u h
  cases h

theorem one : Tame bound 1 := by
  intro t u h
  cases h

theorem of_closing (M : Language Token) : Tame bound (ofKind .rparen * M) :=
  zero.extend (zero_add _).symm fun _ _ ht _ => .of_closing (.inl ht)

theorem of_keyword {k : Keyword} (hk : k = .then ∨ k = .to ∨ k = .step) (M : Language Token) :
    Tame bound (keyword k * M) :=
  zero.extend (zero_add _).symm fun _ _ ht _ => .of_keyword ht hk

theorem chain (hK : Tame bound K) (l : Loop) : Tame bound (language bound (.chain l) * K) :=
  hK.extend (language_chain_mul l K) fun _ _ ht hu => .of_sign ht hu

theorem call (hK : Tame bound K) :
    Tame bound (K + ofKind .lparen * (language bound .args * (ofKind .rparen * K))) := by
  refine hK.extend rfl fun t u ht hu => .of_call ht ?_
  exact mem_mul_of_le (mul_le_mul_right (le_self_add) _) hu

theorem elif (hK : Tame bound K) :
    Tame bound (K + keyword .elif * (language bound .branches * K)) := by
  refine hK.extend rfl fun t u ht hu => .of_elif ht ?_
  exact mem_mul_of_le (le_self_add) hu

theorem otherwise (hK : Tame bound K) : Tame bound (language bound (.clause .else) * K) := by
  refine hK.extend (language_clause_mul .else K) fun t u ht hu => .of_else ht ?_
  refine mem_mul_of_le ?_ hu
  rw [language_clause_mul]
  exact le_self_add

theorem step (hK : Tame bound K) : Tame bound (language bound (.clause .step) * K) :=
  hK.extend (language_clause_mul .step K) fun _ _ ht _ => .of_keyword ht (by simp)

theorem comma (hK : Tame bound K) (M : Language Token) : Tame bound (K + ofKind .comma * M) :=
  hK.extend rfl fun _ _ ht _ => .of_closing (.inr ht)

end Tame

end ExprShell.Grammar
