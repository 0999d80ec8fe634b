import ExprShell.Proofs.Sentence.Stuck

/-!
# Errors stand at the first word that is wrong

A sentence that cannot be read is wrong at one token.  The words before it can still be completed to
a sentence of the grammar, and those up to it cannot, so that the token is the earliest one that no
continuation mends; if it is the end mark, the words are no sentence as they stand.  A name that is
not bound could have been read as it stands, and is wrong for the sake of the equals sign behind it.

* `Sentence.split_of_error`   the words before the token that is wrong, and those from it on;
* `parse_error_earliest`      the same with the place of the token among all that were given.
-/

namespace ExprShell
open Grammar

namespace Sentence

variable {bound : Names}

/-- words are not completed if no words behind them let the reading come to its end -/
theorem not_viable (stop : Token) {u : List Token}
    (h : ∀ z m e, expr bound stop m (u ++ z) ≠ .ok (e, [])) : ¬ Viable (language bound .expr) u := by
  rintro ⟨z, hz⟩
  obtain ⟨m, e, hread⟩ := exists_read_of_mem stop hz
  exact h z _ e hread

/-- the words `w` before an error, and the words `r` from it on -/
inductive Wrong (bound : Names) (w r : List Token) (c : ParseError.Cause) : Prop
  | word (hc : c ≠ .undeclared)
    (next : ∀ t s, r = t :: s → ¬ Viable (language bound .expr) (w ++ [t]))
  | name {t q : Token} {s : List Token} (hc : c = .undeclared) (words : r = t :: q :: s)
    (ht : t.kind = .identifier) (hb : bound t.literal = false) (hq : q.kind = .equal)
    (one : Viable (language bound .expr) (w ++ [t]))
    (two : ¬ Viable (language bound .expr) (w ++ [t, q]))

theorem Wrong.of_stuck {stop : Token} {w r : List Token} {c : ParseError.Cause}
    (h : Stuck bound (language bound .expr) w r c)
    (alike : ∀ m s, s.take (look c) = r.take (look c) →
      EndsAs (expr bound stop m (w ++ s)) (.error ⟨s.headD stop, c⟩)) : Wrong bound w r c := by
  by_cases hc : c = .undeclared
  · subst hc
    obtain ⟨t, q, s, rfl, ht, hb, hq, hone⟩ := h.name rfl
    refine .name rfl rfl ht hb hq hone (not_viable stop fun z m e hread => ?_)
    rw [List.append_assoc] at hread
    cases (alike m ([t, q] ++ z) rfl).eq_ok hread
  · have hlook : look c = 1 := by
      cases c with
      | undeclared => exact absurd rfl hc
      | _ => rfl
    refine .word hc ?_
    rintro t s rfl
    refine not_viable stop fun z m e hread => ?_
    rw [List.append_assoc] at hread
    have hends := alike m ([t] ++ z) (by rw [hlook]; rfl)
    cases hends.eq_ok hread

theorem split_of_error {s : Sentence} {err : ParseError} (h : s.parse bound = .error err) :
    ∃ w r, s.words = w ++ r ∧ err.token = r.headD s.stop ∧ Viable (language bound .expr) w ∧
      Wrong bound w r err.cause := by
  obtain ⟨words, stop⟩ := s
  cases words with
  | nil =>
    cases h
    exact ⟨[], [], rfl, rfl, by simp, .word (by simp) (by simp)⟩
  | cons t ts =>
    have hfuel : 10 * (t :: ts).length + Goal.expr.spare ≤ fuel (t :: ts) := by
      simp only [fuel, Goal.spare]
      omega
    have hread : Settled bound stop (language bound .expr) (expr bound stop) (fuel (t :: ts))
        (t :: ts) := Goal.expr.settled hfuel
    simp only [parse] at h
    cases hread with
    | @error w r c words result stuck alike =>
      rw [result] at h
      cases h
      exact ⟨w, r, words, rfl, stuck.viable, .of_stuck stuck alike⟩
    | @ok w r a words result mem alike =>
      rw [result] at h
      cases r with
      | nil => cases h
      | cons u r =>
        cases h
        refine ⟨w, u :: r, words, rfl, .of_mem mem, .word (by simp) ?_⟩
        rintro _ _ ⟨⟩
        refine not_viable stop fun z m e hread => ?_
        rw [List.append_assoc] at hread
        cases (alike m ([u] ++ z) rfl).eq_ok hread

/-- the words and the end mark are the first of the tokens -/
theorem ofTokens_append (ts : List Token) :
    ∃ rest, ts ++ [Token.missing] = (ofTokens ts).words ++ (ofTokens ts).stop :: rest := by
  induction ts with
  | nil => exact ⟨[], rfl⟩
  | cons t ts ih =>
    cases ht : isEnd t with
    | true => exact ⟨ts ++ [Token.missing], by simp [ofTokens, ht]⟩
    | false =>
      obtain ⟨rest, hrest⟩ := ih
      refine ⟨rest, ?_⟩
      simp only [ofTokens, List.cons_append, List.takeWhile_cons, List.find?_cons, ht,
        Bool.not_false, if_true, List.cons.injEq, true_and] at hrest ⊢
      exact hrest

theorem getElem?_of_words {ts w r : List Token} (h : (ofTokens ts).words = w ++ r) :
    (ts ++ [Token.missing])[w.length]? = some (r.headD (ofTokens ts).stop) := by
  obtain ⟨rest, hrest⟩ := ofTokens_append ts
  rw [hrest, h, List.append_assoc, List.getElem?_append_right (Nat.le_refl _), Nat.sub_self]
  cases r with
  | nil => rfl
  | cons t r => rfl

end Sentence

/-- **An error stands at the earliest token that is wrong.**  The tokens end with the first end
mark, one at no place if none was given. -/
theorem parse_error_earliest {bound : Names} {ts : List Token} {err : ParseError}
    (h : parse bound ts = .error err) :
    let words := ts.takeWhile fun t => t.kind ≠ .eof
    let tokens := ts ++ [Token.missing]
    let viable (k : Nat) := Viable (language bound .expr) (words.take k)
    ∃ i t, i ≤ words.length ∧ tokens[i]? = some t ∧ err.token = t ∧ err.pos = t.pos ∧ viable i ∧
      (err.cause ≠ .undeclared ∧
          (i = words.length ∧ words ∉ language bound .expr ∨ i < words.length ∧ ¬ viable (i + 1)) ∨
        err.cause = .undeclared ∧ t.kind = .identifier ∧ bound t.literal = false ∧
          (∃ q, tokens[i + 1]? = some q ∧ q.kind = .equal) ∧ viable (i + 1) ∧ ¬ viable (i + 2)) := by
  intro words tokens viable
  have hwords : words = (Sentence.ofTokens ts).words := by
    simp [words, Sentence.ofTokens, Sentence.isEnd]
  obtain ⟨w, r, hsplit, htoken, hviable, hwrong⟩ := Sentence.split_of_error h
  rw [hsplit] at hwords
  have htake (k : Nat) : words.take (w.length + k) = w ++ r.take k := by
    rw [hwords, List.take_length_add_append]
  have hi : viable w.length := by
    show Viable _ (words.take (w.length + 0))
    rwa [htake, List.take_zero, List.append_nil]
  have hget : tokens[w.length]? = some err.token := by
    rw [htoken]
    exact Sentence.getElem?_of_words hsplit
  refine ⟨w.length, err.token, by simp [hwords], hget, rfl, rfl, hi, ?_⟩
  cases hwrong with
  | word hc next =>
    refine .inl ⟨hc, ?_⟩
    cases r with
    | nil =>
      refine .inl ⟨by simp [hwords], fun hmem => ?_⟩
      rw [hwords, ← hsplit] at hmem
      obtain ⟨e, he⟩ := Sentence.parse_of_mem hmem
      cases h.symm.trans he
    | cons t r =>
      refine .inr ⟨by simp [hwords], ?_⟩
      show ¬ Viable _ (words.take (w.length + 1))
      rw [htake]
      exact next t r rfl
  | @name t q s hc hr ht hb hq one two =>
    subst hr
    obtain rfl : err.token = t := htoken
    have hwords' : (Sentence.ofTokens ts).words = (w ++ [err.token]) ++ q :: s := by
      rw [hsplit, List.append_assoc]
      rfl
    have hnext := Sentence.getElem?_of_words hwords'
    rw [List.length_append] at hnext
    refine .inr ⟨hc, ht, hb, ⟨q, hnext, hq⟩, ?_, ?_⟩
    · show Viable _ (words.take (w.length + 1))
      rw [htake]
      exact one
    · show ¬ Viable _ (words.take (w.length + 2))
      rw [htake]
      exact two

/-- `( x = 1` without a closing parenthesis: the name comes first, which is not bound; the
parenthesis could still have been closed -/
theorem parse_error_earliest_unbound :
    let bound : Names := fun _ => false
    let word (k : Token.Kind) (s : String) : Token := ⟨k, s, s, ⟨1, 1⟩⟩
    let ts := [word .lparen "(", word .identifier "x", word .equal "=", word .int "1"]
    let err : ParseError := ⟨word .identifier "x", .undeclared⟩
    let words := ts.takeWhile fun t => t.kind ≠ .eof
    let tokens := ts ++ [Token.missing]
    let viable (k : Nat) := Viable (language bound .expr) (words.take k)
    parse bound ts = .error err ∧
    ∃ i t, i ≤ words.length ∧ tokens[i]? = some t ∧ err.token = t ∧ err.pos = t.pos ∧ viable i ∧
      (err.cause ≠ .undeclared ∧
          (i = words.length ∧ words ∉ language bound .expr ∨ i < words.length ∧ ¬ viable (i + 1)) ∨
        err.cause = .undeclared ∧ t.kind = .identifier ∧ bound t.literal = false ∧
          (∃ q, tokens[i + 1]? = some q ∧ q.kind = .equal) ∧ viable (i + 1) ∧ ¬ viable (i + 2)) :=
  ⟨rfl, parse_error_earliest rfl⟩

end ExprShell
