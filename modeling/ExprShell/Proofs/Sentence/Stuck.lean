import ExprShell.Proofs.Sentence.Complete

/-!
# Where a reading gets stuck

A reading ends for a reason that stands in the words it took and the word ahead of it; for a name
that is not bound, in the word behind that one too.  Other words with the same beginning are
therefore read to the same end, whatever follows.  And as long as no word is wrong, those taken can
still be completed: each level needs only more words to come to an end.

* `Grammar.Viable`            words that can be completed;
* `Sentence.EndsAs`           the same end of two readings, but for fuel;
* `Sentence.Settled`          a reading with its reason, on given words;
* `Sentence.Script.Settles`   a script whose words can be completed as long as none is wrong;
* `Sentence.Goal.settles`     the scripts of the grammar;
* `Sentence.Goal.settled`     the reading of any goal is settled.
-/

namespace ExprShell

namespace Grammar

/-- words that can be completed -/
def Viable (L : Language Token) (w : List Token) : Prop := ∃ z, w ++ z ∈ L

variable {L M : Language Token} {w v : List Token}

theorem Viable.of_mem (h : w ∈ L) : Viable L w := ⟨[], by rwa [List.append_nil]⟩

theorem Viable.imp {u : List Token} (h : Viable M v) (hM : ∀ x ∈ M, u ++ x ∈ L) :
    Viable L (u ++ v) := by
  obtain ⟨z, hz⟩ := h
  exact ⟨z, by simpa using hM _ hz⟩

theorem Viable.mul (h : Viable L w) (hM : Viable M []) : Viable (L * M) w := by
  obtain ⟨z, hz⟩ := h
  obtain ⟨x, hx⟩ := hM
  exact ⟨z ++ x, by simpa using Language.append_mem_mul hz hx⟩

@[simp] theorem viable_nil_mul : Viable (L * M) [] ↔ Viable L [] ∧ Viable M [] := by
  constructor
  · rintro ⟨_, u, hu, v, hv, -⟩
    exact ⟨⟨u, hu⟩, ⟨v, hv⟩⟩
  · rintro ⟨hL, hM⟩
    exact hL.mul hM

@[simp] theorem viable_nil_one : Viable 1 [] := .of_mem Language.nil_mem_one

@[simp] theorem viable_nil_one_add : Viable (1 + L) [] := .of_mem (.inl Language.nil_mem_one)

@[simp] theorem viable_nil_ofKind (k : Token.Kind) : Viable (ofKind k) [] :=
  ⟨[⟨k, "", "", Position.start⟩], _, rfl, rfl⟩

@[simp] theorem viable_nil_keyword (k : Keyword) : Viable (keyword k) [] :=
  ⟨[⟨.keyword, "", k.spelling, Position.start⟩], _, by simp [Token.is], rfl⟩

theorem language_clause (bound : Names) (k : Keyword) :
    language bound (.clause k) = 1 + keyword k * language bound .expr := by
  have h := @language_clause_mul bound k 1
  rwa [mul_one, mul_one] at h

@[simp] theorem viable_nil_language (bound : Names) (p : Part) : Viable (language bound p) [] := by
  let sign (k : Token.Kind) : Token := ⟨k, "", "", Position.start⟩
  let key (k : Keyword) : Token := ⟨.keyword, "", k.spelling, Position.start⟩
  have hkey (k : Keyword) : (key k).is k := by simp [key, Token.is]
  have hfactor : Derives bound .factor [sign .int] _ := .number (.inl rfl)
  have happlication := Derives.plain hfactor
  have hproduct := Derives.product happlication .stop
  have hsum := Derives.sum hproduct .stop
  have hcomparison := Derives.comparison hsum .stop
  have hexpr := Derives.logic hcomparison .stop
  have hbranches := Derives.lastBranch hexpr (hkey .then) hexpr
  have hname : Derives bound .names [sign .identifier] _ := .lastName rfl
  have hmem {p : Part} {w : List Token} {e : p.Tree} (h : Derives bound p w e) :
      Viable (language bound p) [] := ⟨w, h.mem⟩
  cases p with
  | expr => exact hmem hexpr
  | application => exact hmem happlication
  | conditional => exact hmem (.cond (hkey .if) hbranches .noClause)
  | counted =>
    exact hmem (.count (x := sign .identifier) (q := sign .equal) (hkey .for) rfl rfl hexpr
      (hkey .to) hexpr .noClause (hkey .then) hexpr)
  | looping => exact hmem (.loop (hkey .while) hexpr (hkey .then) hexpr)
  | function =>
    exact hmem (.func (p := sign .lparen) (q := sign .rparen) (r := sign .arrow) (hkey .fn) .noTitle
      rfl .noParams rfl rfl hexpr)
  | operand l =>
    cases l with
    | logic => exact hmem hcomparison
    | comparison => exact hmem hsum
    | sum => exact hmem hproduct
    | product => exact hmem hfactor
  | chain l => exact hmem .stop
  | args => exact hmem .noArgs
  | exprs => exact hmem (.lastExpr hexpr)
  | branches => exact hmem hbranches
  | clause k => exact hmem .noClause
  | title => exact hmem .noTitle
  | params => exact hmem .noParams
  | names => exact hmem hname

end Grammar

namespace Sentence
open Grammar

/-- the first reading ends like the second, unless it runs out of fuel -/
def EndsAs {α : Type} (x y : Except ParseError α) : Prop :=
  x = y ∨ ∃ t, x = .error ⟨t, .exhausted⟩

namespace EndsAs

variable {α β : Type} {x : Except ParseError α} {f : α → Except ParseError β}

theorem bind {a : α} {y : Except ParseError β} (h : EndsAs x (.ok a)) (hf : EndsAs (f a) y) :
    EndsAs (x >>= f) y := by
  obtain rfl | ⟨t, rfl⟩ := h
  · exact hf
  · exact .inr ⟨t, rfl⟩

theorem eq_ok {a : α} {y : Except ParseError α} (h : EndsAs x y) (hx : x = .ok a) : y = .ok a := by
  obtain rfl | ⟨t, rfl⟩ := h
  · exact hx
  · cases hx

theorem bind_error {e : ParseError} (h : EndsAs x (.error e)) : EndsAs (x >>= f) (.error e) := by
  obtain rfl | ⟨t, rfl⟩ := h
  · exact .inl rfl
  · exact .inr ⟨t, rfl⟩

end EndsAs

/-- how many words ahead bear the blame -/
def look : ParseError.Cause → Nat
  | .undeclared => 2
  | _ => 1

theorem head?_of_take {c : ParseError.Cause} {r s : List Token}
    (h : r.take (look c) = s.take (look c)) : r.head? = s.head? := by
  have hc : look c ≠ 0 := by cases c <;> simp [look]
  have hhead := congrArg List.head? h
  simpa [List.head?_take, hc] using hhead

theorem head?_append_left (w : List Token) {r s : List Token} (h : r.head? = s.head?) :
    (w ++ r).head? = (w ++ s).head? := by
  cases w with
  | nil => exact h
  | cons t w => rfl

theorem nextIs_of_head? {k : Token.Kind} {r s : List Token} (h : r.head? = s.head?) :
    nextIs k r = nextIs k s := by
  cases r <;> cases s <;> simp_all [nextIs]

theorem exists_of_nextIs {k : Token.Kind} {ts : List Token} (h : nextIs k ts) :
    ∃ t us, ts = t :: us ∧ t.kind = k := by
  cases ts with
  | nil => cases h
  | cons t us => exact ⟨t, us, rfl, by simpa [nextIs] using h⟩

/-- the words `w` of a language were taken, and `r` ahead is wrong -/
structure Stuck (bound : Names) (L : Language Token) (w r : List Token) (c : ParseError.Cause) :
    Prop where
  viable : Viable L w
  fuelled : c ≠ .exhausted
  name : c = .undeclared → ∃ t q s, r = t :: q :: s ∧ t.kind = .identifier ∧
    bound t.literal = false ∧ q.kind = .equal ∧ Viable L (w ++ [t])

theorem Stuck.imp {bound : Names} {L M : Language Token} {w r u : List Token}
    {c : ParseError.Cause} (h : Stuck bound M w r c)
    (hM : ∀ x, Viable M x → Viable L (u ++ x)) : Stuck bound L (u ++ w) r c where
  viable := hM _ h.viable
  fuelled := h.fuelled
  name hc := by
    obtain ⟨t, q, s, hr, ht, hb, hq, hv⟩ := h.name hc
    exact ⟨t, q, s, hr, ht, hb, hq, by simpa using hM _ hv⟩

/-- the reading of `ts` with fuel `n`, and the end of every reading that begins with the words it
took and the word ahead -/
inductive Settled {α : Type} (bound : Names) (stop : Token) (L : Language Token)
    (G : Nat → List Token → Except ParseError (α × List Token)) (n : Nat) (ts : List Token) : Prop
  | ok {w r : List Token} {a : α} (words : ts = w ++ r) (result : G n ts = .ok (a, r))
    (mem : w ∈ L) (alike : ∀ m s, s.head? = r.head? → EndsAs (G m (w ++ s)) (.ok (a, s)))
  | error {w r : List Token} {c : ParseError.Cause} (words : ts = w ++ r)
    (result : G n ts = .error ⟨r.headD stop, c⟩) (stuck : Stuck bound L w r c)
    (alike : ∀ m s, s.take (look c) = r.take (look c) →
      EndsAs (G m (w ++ s)) (.error ⟨s.headD stop, c⟩))

namespace Settled

variable {α β : Type} {bound : Names} {stop t : Token} {L M : Language Token} {n : Nat}
  {ts : List Token} {G H : Nat → List Token → Except ParseError (α × List Token)}

/-- another reader that does the same on all words with this beginning -/
theorem transfer {k : Nat} (h : Settled bound stop L H n ts) (hn : G k ts = H n ts)
    (hG : ∀ m us, us.head? = ts.head? →
      (∃ u, G m us = .error ⟨u, .exhausted⟩) ∨ ∃ j, G m us = H j us) :
    Settled bound stop L G k ts := by
  have hends {m : Nat} {us : List Token} {y : Except ParseError (α × List Token)}
      (hus : us.head? = ts.head?) (hH : ∀ j, EndsAs (H j us) y) : EndsAs (G m us) y := by
    obtain h | ⟨j, h⟩ := hG m us hus
    · exact .inr h
    · rw [h]
      exact hH j
  cases h with
  | @ok w r a words result mem alike =>
    refine .ok words (hn.trans result) mem fun m s hs => hends ?_ fun j => alike j s hs
    rw [words]
    exact head?_append_left w hs
  | @error w r c words result stuck alike =>
    refine .error words (hn.trans result) stuck fun m s hs => hends ?_ fun j => alike j s hs
    rw [words]
    exact head?_append_left w (head?_of_take hs)

theorem congr_head (h : Settled bound stop L H n (t :: ts))
    (hG : ∀ m us, G m (t :: us) = H m (t :: us)) : Settled bound stop L G n (t :: ts) := by
  refine h.transfer (hG n ts) fun m us hus => .inr ⟨m, ?_⟩
  obtain ⟨us, rfl⟩ := List.head?_eq_some_iff.mp hus
  exact hG m us

theorem congr_nil (h : Settled bound stop L H n []) (hG : ∀ m, G m [] = H m []) :
    Settled bound stop L G n [] := by
  refine h.transfer (hG n) fun m us hus => .inr ⟨m, ?_⟩
  obtain rfl := List.head?_eq_none_iff.mp hus
  exact hG m

theorem succ (h : Settled bound stop L (fun m => G (m + 1)) n ts)
    (hzero : ∀ us, ∃ u, G 0 us = .error ⟨u, .exhausted⟩) : Settled bound stop L G (n + 1) ts := by
  refine h.transfer rfl fun m us _ => ?_
  cases m with
  | zero => exact .inl (hzero us)
  | succ m => exact .inr ⟨m, rfl⟩

theorem mono (h : Settled bound stop L G n ts) (hL : ∀ w ∈ L, w ∈ M) :
    Settled bound stop M G n ts := by
  cases h with
  | ok words result mem alike => exact .ok words result (hL _ mem) alike
  | error words result stuck alike =>
    exact .error words result (stuck.imp (u := []) fun _ hx => hx.imp (u := []) hL) alike

/-- the same for words that begin with a name and no equals sign: that the name is taken tells the
next word, as long as the name alone is read to its end -/
theorem congr_name (h : Settled bound stop L H n (t :: ts)) (hts : nextIs .equal ts = false)
    (hone : ∃ m a, G m [t] = .ok (a, []))
    (hG : ∀ m us, nextIs .equal us = false → G m (t :: us) = H m (t :: us)) :
    Settled bound stop L G n (t :: ts) := by
  obtain ⟨k, b, hone⟩ := hone
  rw [hG k [] rfl] at hone
  have hnext {us : List Token} (hus : us.head? = ts.head?) : nextIs .equal us = false := by
    rw [nextIs_of_head? hus, hts]
  cases h with
  | @ok w r a words result mem alike =>
    cases w with
    | nil =>
      -- if the name were left, so it would be where it stands alone
      obtain rfl : t :: ts = r := words
      cases (alike k [t] rfl).eq_ok hone
    | cons t' w =>
      obtain ⟨rfl, rfl⟩ := List.cons.inj words
      refine .ok (w := t :: w) rfl ((hG n _ hts).trans result) mem fun m s hs => ?_
      rw [List.cons_append, hG m _ (hnext (head?_append_left w hs))]
      exact alike m s hs
  | @error w r c words result stuck alike =>
    cases w with
    | nil =>
      obtain rfl : t :: ts = r := words
      have hlook : [t].take (look c) = (t :: ts).take (look c) := by
        cases c with
        | undeclared =>
          obtain ⟨_, q, s, hr, -, -, hq, -⟩ := stuck.name rfl
          cases hr
          simp [nextIs, hq] at hts
        | _ => rfl
      cases (alike k [t] hlook).eq_ok hone
    | cons t' w =>
      obtain ⟨rfl, rfl⟩ := List.cons.inj words
      refine .error (w := t :: w) rfl ((hG n _ hts).trans result) stuck fun m s hs => ?_
      rw [List.cons_append, hG m _ (hnext (head?_append_left w (head?_of_take hs)))]
      exact alike m s hs

theorem stay {a : α} (hL : [] ∈ L) (hG : ∀ m us, us.head? = ts.head? → G m us = .ok (a, us)) :
    Settled bound stop L G n ts :=
  .ok (w := []) rfl (hG n ts rfl) hL fun m s hs => .inl (hG m s hs)

theorem stay_nil {a : α} (hL : [] ∈ L) (hG : ∀ m, G m [] = .ok (a, [])) :
    Settled bound stop L G n [] := by
  refine .stay (a := a) hL fun m us hus => ?_
  obtain rfl := List.head?_eq_none_iff.mp hus
  exact hG m

theorem stay_cons {a : α} (hL : [] ∈ L) (hG : ∀ m us, G m (t :: us) = .ok (a, t :: us)) :
    Settled bound stop L G n (t :: ts) := by
  refine .stay (a := a) hL fun m us hus => ?_
  obtain ⟨us, rfl⟩ := List.head?_eq_some_iff.mp hus
  exact hG m us

theorem pure {a : α} (hG : ∀ m us, G m us = .ok (a, us)) : Settled bound stop 1 G n ts :=
  .stay Language.nil_mem_one fun m us _ => hG m us

theorem wrong {w : Want} (hL : Viable L [])
    (hG : ∀ m us, us.head? = ts.head? → G m us = .error ⟨us.headD stop, .wanted w⟩) :
    Settled bound stop L G n ts := by
  refine .error (w := []) rfl (hG n ts rfl) ⟨hL, by simp, by simp⟩ fun m s hs => .inl ?_
  exact hG m s (head?_of_take hs)

theorem wrong_nil {w : Want} (hL : Viable L []) (hG : ∀ m, G m [] = .error ⟨stop, .wanted w⟩) :
    Settled bound stop L G n [] := by
  refine .wrong (w := w) hL fun m us hus => ?_
  obtain rfl := List.head?_eq_none_iff.mp hus
  exact hG m

theorem wrong_cons {w : Want} (hL : Viable L [])
    (hG : ∀ m us, G m (t :: us) = .error ⟨t, .wanted w⟩) : Settled bound stop L G n (t :: ts) := by
  refine .wrong (w := w) hL fun m us hus => ?_
  obtain ⟨us, rfl⟩ := List.head?_eq_some_iff.mp hus
  exact hG m us

theorem cons (h : Settled bound stop M H n ts) (hG : ∀ m us, G m (t :: us) = H m us)
    (hM : ∀ u ∈ M, t :: u ∈ L) : Settled bound stop L G n (t :: ts) := by
  cases h with
  | @ok w r a words result mem alike =>
    refine .ok (w := t :: w) (by rw [words]; rfl) ((hG n ts).trans result) (hM w mem) ?_
    intro m s hs
    rw [List.cons_append, hG]
    exact alike m s hs
  | @error w r c words result stuck alike =>
    have hstuck : Stuck bound L ([t] ++ w) r c := stuck.imp fun _ hx => hx.imp hM
    refine .error (w := [t] ++ w) (by rw [words]; rfl) ((hG n ts).trans result) hstuck ?_
    intro m s hs
    rw [List.append_assoc, List.singleton_append, hG]
    exact alike m s hs

/-- one reading after the other: the word ahead of the first is the first of the second, or the
word ahead of both -/
theorem bind {f : Nat → α × List Token → Except ParseError (β × List Token)}
    (h : Settled bound stop L G n ts) (hM : Viable M [])
    (hf : ∀ a r, r.length ≤ ts.length → Settled bound stop M (fun m us => f m (a, us)) n r) :
    Settled bound stop (L * M) (fun m us => G m us >>= f m) n ts := by
  cases h with
  | @error w r c words result stuck alike =>
    refine .error words (by simp only [result]; rfl) ?_ fun m s hs => (alike m s hs).bind_error
    exact stuck.imp (u := []) fun _ hx => hx.mul hM
  | @ok w r a words result mem alike =>
    have hlen : r.length ≤ ts.length := by simp [words]
    cases hf a r hlen with
    | @ok v s b words' result' mem' alike' =>
      refine .ok (w := w ++ v) (by rw [words, words', List.append_assoc])
        (by simp only [result]; exact result') (Language.append_mem_mul mem mem') ?_
      intro m s' hs
      rw [List.append_assoc]
      refine (alike m _ ?_).bind (alike' m s' hs)
      rw [words']
      exact head?_append_left v hs
    | @error v s c words' result' stuck' alike' =>
      refine .error (w := w ++ v) (by rw [words, words', List.append_assoc])
        (by simp only [result]; exact result') ?_ ?_
      · exact stuck'.imp fun _ hx => hx.imp fun _ => Language.append_mem_mul mem
      intro m s' hs
      rw [List.append_assoc]
      refine (alike m _ ?_).bind (alike' m s' hs)
      rw [words']
      exact head?_append_left v (head?_of_take hs)

/-- the last reading, of which the result is changed -/
theorem map {f : Nat → α × List Token → Except ParseError (β × List Token)} {g : α → β}
    (h : Settled bound stop L G n ts) (hf : ∀ m a r, f m (a, r) = .ok (g a, r)) :
    Settled bound stop L (fun m us => G m us >>= f m) n ts := by
  have hlast := h.bind (f := f) viable_nil_one fun a r _ => .pure fun m us => hf m a us
  rwa [mul_one] at hlast

theorem word {p : Token → Prop} {w : Want}
    {F : Token → Nat → List Token → Except ParseError (α × List Token)}
    (hM : Viable (Grammar.word p * M) []) (hnil : ∀ m, G m [] = .error ⟨stop, .wanted w⟩)
    (hyes : ∀ t m us, p t → G m (t :: us) = F t m us)
    (hno : ∀ t m us, ¬ p t → G m (t :: us) = .error ⟨t, .wanted w⟩)
    (hF : ∀ t r, p t → r.length < ts.length → Settled bound stop M (F t) n r) :
    Settled bound stop (Grammar.word p * M) G n ts := by
  cases ts with
  | nil => exact .wrong_nil hM hnil
  | cons t ts =>
    by_cases ht : p t
    · exact (hF t ts ht (Nat.lt_succ_self _)).cons (fun m us => hyes t m us ht)
        fun _ => cons_mem_word_mul ht
    · exact .wrong_cons hM fun m us => hno t m us ht

theorem option {p : Token → Prop} {a : α}
    {F : Token → Nat → List Token → Except ParseError (α × List Token)}
    (hnil : ∀ m, G m [] = .ok (a, [])) (hyes : ∀ t m us, p t → G m (t :: us) = F t m us)
    (hno : ∀ t m us, ¬ p t → G m (t :: us) = .ok (a, t :: us))
    (hF : ∀ t r, p t → r.length < ts.length → Settled bound stop M (F t) n r) :
    Settled bound stop (1 + Grammar.word p * M) G n ts := by
  cases ts with
  | nil => exact .stay_nil (.inl Language.nil_mem_one) hnil
  | cons t ts =>
    by_cases ht : p t
    · exact (hF t ts ht (Nat.lt_succ_self _)).cons (fun m us => hyes t m us ht)
        fun _ hu => .inr (cons_mem_word_mul ht hu)
    · exact .stay_cons (.inl Language.nil_mem_one) fun m us => hno t m us ht

end Settled

/-! ## The head of a function -/

section

variable {bound : Names} {stop : Token} {n : Nat} {ts : List Token}

theorem settled_names (bound : Names) (stop : Token) (n : Nat) (ts : List Token) :
    Settled bound stop (language bound .names) (fun _ us => params stop us) n ts := by
  induction hlen : ts.length using Nat.strong_induction_on generalizing ts with
  | h k ih =>
    have hall : Settled bound stop
        (ofKind .identifier * (1 + ofKind .comma * language bound .names))
        (fun _ us => params stop us) n ts := by
      refine .word (w := .paramName) (F := fun t _ us => params stop (t :: us)) (by simp)
        (fun _ => by rw [params]) (fun _ _ _ _ => rfl) (fun t m us ht => ?_) fun t r ht hr => ?_
      · unfold params
        rw [if_neg ht]
      refine .option (a := [t.literal])
        (F := fun _ _ us => params stop us >>= fun p => pure (t.literal :: p.1, p.2))
        (fun _ => ?_) (fun c m us hc => ?_) (fun c m us hc => ?_) fun c r' hc hr' => ?_
      · rw [params, if_pos ht]
      · rw [params, if_pos ht]
        exact if_pos hc
      · rw [params, if_pos ht]
        exact if_neg hc
      · exact (ih r'.length (by omega) r' rfl).map fun _ _ _ => rfl
    refine hall.mono ?_
    rintro _ ⟨_, ⟨t, ht, rfl⟩, _, rfl | ⟨_, ⟨c, hc, rfl⟩, w, ⟨ps, hw⟩, rfl⟩, rfl⟩
    · exact (Derives.lastName ht).mem
    · exact (Derives.nextName ht hc hw).mem

theorem settled_params (bound : Names) (stop : Token) (n : Nat) (ts : List Token) :
    Settled bound stop (language bound .params) (fun _ us => paramList stop us) n ts := by
  have hnone : [] ∈ language bound .params := Derives.noParams.mem
  cases ts with
  | nil => exact .stay_nil hnone fun _ => rfl
  | cons t ts =>
    by_cases ht : t.kind = .identifier
    · have hnames := settled_names bound stop n (t :: ts)
      refine (hnames.mono ?_).congr_head fun m us => if_pos (by simpa [nextIs] using ht)
      rintro w ⟨ps, hw⟩
      exact (Derives.someParams hw).mem
    · exact .stay_cons hnone fun m us => if_neg (by simpa [nextIs] using ht)

end

/-- a name that is not bound stands before an equals sign -/
theorem settled_undeclared {α : Type} {bound : Names} {stop : Token} {L : Language Token} {n : Nat}
    {G : Nat → List Token → Except ParseError (α × List Token)} {t q : Token} {ts : List Token}
    (ht : t.kind = .identifier) (hb : bound t.literal = false) (hq : q.kind = .equal)
    (hL : [t] ∈ L) (hG : ∀ m us, G m (t :: q :: us) = .error ⟨t, .undeclared⟩) :
    Settled bound stop L G n (t :: q :: ts) := by
  have hstuck : Stuck bound L [] (t :: q :: ts) .undeclared :=
    ⟨⟨[t], hL⟩, by simp, fun _ => ⟨t, q, ts, rfl, ht, hb, hq, .of_mem hL⟩⟩
  refine .error (w := []) rfl (hG n ts) hstuck fun m s hs => .inl ?_
  match s, hs with
  | t' :: q' :: s, hs =>
    simp only [look, List.take_succ_cons, List.take_zero, List.cons.injEq, and_true] at hs
    obtain ⟨rfl, rfl⟩ := hs
    exact hG m s

/-! ## All goals -/

theorem derives_name {bound : Names} {t : Token} (ht : t.kind = .identifier) :
    [t] ∈ language bound .expr := by
  have hfactor : Derives bound .factor [t] _ := .name ht
  have hsum := Derives.sum (.product (.plain hfactor) .stop) .stop
  exact (Derives.logic (.comparison hsum .stop) .stop).mem

/-- a sentence is read to its end, with enough fuel -/
theorem exists_read_of_mem {bound : Names} (stop : Token) {w : List Token}
    (h : w ∈ language bound .expr) : ∃ m e, expr bound stop (m + 1) w = .ok (e, []) := by
  have hw : w ∈ language bound .expr * 1 := by simpa using h
  obtain ⟨e, r, hread, hr, -⟩ : Leaves (expr bound stop (10 * w.length + 5 + 1) w) 1 w.length :=
    Goal.expr.leaves stop .one hw (Nat.le_refl _)
  obtain rfl : r = [] := hr
  exact ⟨_, e, hread⟩

/-- the words that a script takes are those of a language, and as long as no word is wrong they can
be completed -/
inductive Script.Settles (bound : Names) (stop : Token) {α : Type} :
    Script α → Language Token → Prop
  | done {L : Language Token} {a : α} (h : [] ∈ L) : Settles bound stop (.done a) L
  | wrong {L : Language Token} {w : Want} (h : Viable L []) : Settles bound stop (.wrong w) L
  | option {L M : Language Token} {p : Token → Prop} [DecidablePred p] {yes : Token → Script α}
    {no : Script α} (hyes : ∀ t, p t → Settles bound stop (yes t) M)
    (hM : ∀ t u, p t → u ∈ M → t :: u ∈ L) (hno : Settles bound stop no L) :
    Settles bound stop (.option p yes no) L
  | stay {L : Language Token} {p : Token → Prop} [DecidablePred p] {yes no : Script α}
    (hyes : Settles bound stop yes L) (hno : Settles bound stop no L) :
    Settles bound stop (.stay p yes no) L
  | target {L M : Language Token} {yes : Token → Script α} {no : Script α}
    (hyes : ∀ t, t.kind = .identifier → bound t.literal → Settles bound stop (yes t) M)
    (hM : ∀ t u, t.kind = .identifier → bound t.literal → u ∈ M → t :: u ∈ L)
    (hno : Settles bound stop no L)
    (hone : ∀ t, t.kind = .identifier → [t] ∈ L ∧
      ∃ m a, no.read bound stop (fun _ g => g.read bound stop m) [t] = .ok (a, [])) :
    Settles bound stop (.target yes no) L
  | ask {β : Type} {L M : Language Token} {g : Goal β} {rest : β → Script α}
    (h : ∀ b, Settles bound stop (rest b) M) (hM : Viable M [])
    (hL : ∀ w ∈ g.language bound * M, w ∈ L) : Settles bound stop (.ask g rest) L
  | params {L M : Language Token} {rest : List String → Script α}
    (h : ∀ ps, Settles bound stop (rest ps) M) (hM : Viable M [])
    (hL : ∀ w ∈ Grammar.language bound .params * M, w ∈ L) : Settles bound stop (.params rest) L

namespace Script.Settles

variable {α : Type} {bound : Names} {stop : Token} {L M : Language Token}

theorem settled {s : Script α} {k n : Nat} {ts : List Token} (h : s.Settles bound stop L)
    (hfuel : s.Fuelled k) (hn : 10 * ts.length + k ≤ n)
    (hgoal : ∀ β (g : Goal β) ts, 10 * ts.length + g.spare ≤ n →
      Settled bound stop (g.language bound) (fun m => g.read bound stop m) n ts) :
    Settled bound stop L (fun m => s.read bound stop fun _ g => g.read bound stop m) n ts := by
  induction h generalizing k ts with
  | done h => exact .stay h fun _ _ _ => rfl
  | wrong h => exact .wrong h fun _ _ _ => rfl
  | @option L M p _ yes no hyes hM hno ihyes ihno =>
    cases hfuel with
    | option fyes fno =>
      cases ts with
      | nil => exact (ihno fno hn).congr_nil fun _ => rfl
      | cons t ts =>
        by_cases ht : p t
        · rw [List.length_cons] at hn
          exact (ihyes t ht (fyes t ht) (by omega)).cons (fun _ _ => if_pos ht) (hM t · ht)
        · exact (ihno fno hn).congr_head fun _ _ => if_neg ht
  | @stay L p _ yes no _ _ ihyes ihno =>
    cases hfuel with
    | stay fyes fno =>
      cases ts with
      | nil => exact (ihno fno hn).congr_nil fun _ => rfl
      | cons t ts =>
        by_cases ht : p t
        · exact (ihyes fyes hn).congr_head fun _ _ => if_pos ht
        · exact (ihno fno hn).congr_head fun _ _ => if_neg ht
  | @target L M yes no hyes hM hno hone ihyes ihno =>
    cases hfuel with
    | target fyes fno =>
      cases ts with
      | nil => exact (ihno fno hn).congr_nil fun _ => rfl
      | cons t ts =>
        by_cases hname : t.kind = .identifier ∧ nextIs .equal ts
        · obtain ⟨ht, hequal⟩ := hname
          obtain ⟨q, ts, rfl, hq⟩ := exists_of_nextIs hequal
          have hcond (us : List Token) : t.kind = .identifier ∧ nextIs .equal (q :: us) :=
            ⟨ht, hequal⟩
          cases hb : bound t.literal with
          | true =>
            rw [List.length_cons] at hn
            have hlen : 10 * (q :: ts).length + (k + 10) ≤ n := by omega
            have hrest := ihyes t ht hb (fyes t) hlen
            refine .cons (hrest.congr_head fun m us => ?_) (fun _ _ => rfl) (hM t · ht hb)
            exact (if_pos (hcond us)).trans (if_pos hb)
          | false =>
            refine settled_undeclared ht hb hq (hone t ht).1 fun m us => ?_
            exact (if_pos (hcond us)).trans (if_neg (by simp [hb]))
        by_cases ht : t.kind = .identifier
        · have hequal : nextIs .equal ts = false := by simpa [ht] using hname
          have hskip (m : Nat) (us : List Token) (hus : nextIs .equal us = false) :
              (Script.target yes no).read bound stop (fun _ g => g.read bound stop m) (t :: us) =
                no.read bound stop (fun _ g => g.read bound stop m) (t :: us) :=
            if_neg (by simp [hus])
          obtain ⟨m, a, hread⟩ := (hone t ht).2
          exact (ihno fno hn).congr_name hequal ⟨m, a, (hskip m [] rfl).trans hread⟩ hskip
        · exact (ihno fno hn).congr_head fun m us => if_neg fun h => ht h.1
  | @ask β L M g rest _ hM hL ih =>
    cases hfuel with
    | ask hg frest =>
      refine Settled.mono ((hgoal _ g ts (by omega)).bind hM fun b r hr => ?_) hL
      exact ih b (frest b) (by omega)
  | @params L M rest _ hM hL ih =>
    cases hfuel with
    | params frest =>
      refine Settled.mono ((settled_params bound stop n ts).bind hM fun ps r hr => ?_) hL
      exact ih ps (frest ps) (by omega)

theorem expect {k : Token.Kind} {w : Want} {rest : Token → Script α} (hM : Viable M [])
    (h : ∀ t, t.kind = k → Script.Settles bound stop (rest t) M) :
    Script.Settles bound stop (.expect k w rest) (ofKind k * M) :=
  .option h (fun _ _ ht hu => cons_mem_word_mul ht hu) (.wrong (by simpa using hM))

theorem expectWord {k : Keyword} {rest : Script α} (hM : Viable M [])
    (h : Script.Settles bound stop rest M) :
    Script.Settles bound stop (.expectWord k rest) (keyword k * M) :=
  .option (fun _ _ => h) (fun _ _ ht hu => cons_mem_word_mul ht hu) (.wrong (by simpa using hM))

theorem optional {p : Token → Prop} [DecidablePred p] {yes : Token → Script α} {a : α}
    (h : ∀ t, p t → Script.Settles bound stop (yes t) M) :
    Script.Settles bound stop (.option p yes (.done a)) (1 + Grammar.word p * M) :=
  .option h (fun _ _ ht hu => .inr (cons_mem_word_mul ht hu)) (.done (.inl Language.nil_mem_one))

theorem more {w : Want} {rest : Script α} (hL : Viable L [])
    (h : Script.Settles bound stop rest L) : Script.Settles bound stop (.more w rest) L :=
  .stay h (.wrong hL)

theorem mul {β : Type} {g : Goal β} {rest : β → Script α} (hM : Viable M [])
    (h : ∀ b, Script.Settles bound stop (rest b) M) :
    Script.Settles bound stop (.ask g rest) (g.language bound * M) :=
  .ask h hM fun _ hw => hw

theorem last {β : Type} {g : Goal β} {f : β → α} :
    Script.Settles bound stop (.ask g fun b => .done (f b)) (g.language bound) :=
  .ask (M := 1) (fun _ => .done Language.nil_mem_one) viable_nil_one fun w hw => by
    rwa [mul_one] at hw

theorem mono {s : Script α} (h : s.Settles bound stop M) (hL : M ≤ L) : s.Settles bound stop L := by
  induction h generalizing L with
  | done h => exact .done (hL h)
  | wrong h => exact .wrong (h.imp (u := []) hL)
  | option hyes hM _ _ ihno => exact .option hyes (fun t u ht hu => hL (hM t u ht hu)) (ihno hL)
  | stay _ _ ihyes ihno => exact .stay (ihyes hL) (ihno hL)
  | target hyes hM _ hone _ ihno =>
    refine .target hyes (fun t u ht hb hu => hL (hM t u ht hb hu)) (ihno hL) fun t ht => ?_
    exact ⟨hL (hone t ht).1, (hone t ht).2⟩
  | ask h hM hsub _ => exact .ask h hM fun w hw => hL (hsub w hw)
  | params h hM hsub _ => exact .params h hM fun w hw => hL (hsub w hw)

end Script.Settles

section

variable {bound : Names} {stop : Token}

theorem level_settles {L : Language Token} {first : Goal Expr} {l : Loop}
    (hL : ∀ w ∈ first.language bound * language bound (.chain l), w ∈ L) :
    (Script.level first l).Settles bound stop L :=
  .ask (M := language bound (.chain l)) (fun _ => .last) (by simp) hL

theorem keyword_settles : keywordScript.Settles bound stop (language bound .factor) := by
  refine .option (fun t _ => .last) (fun t u ht hu => ?_) ?_
  · obtain ⟨w, ⟨bs, hw⟩, v, ⟨e, hv⟩, rfl⟩ := hu
    exact (Derives.conditional (.cond ht hw hv)).mem
  refine .option (fun t _ => .last) (fun t u ht hu => ?_) ?_
  · obtain ⟨_, ⟨x, hx, rfl⟩, _, ⟨_, ⟨q, hq, rfl⟩, _, ⟨u, ⟨a, hu⟩, _, ⟨_, ⟨r, hr, rfl⟩, _,
      ⟨v, ⟨b, hv⟩, _, ⟨z, ⟨c, hz⟩, _, ⟨_, ⟨s, hs, rfl⟩, w, ⟨e, hw⟩, rfl⟩, rfl⟩, rfl⟩, rfl⟩, rfl⟩,
      rfl⟩, rfl⟩ := hu
    exact (Derives.counted (.count ht hx hq hu hr hv hz hs hw)).mem
  refine .option (fun t _ => .last) (fun t u ht hu => ?_) ?_
  · obtain ⟨w, ⟨c, hw⟩, _, ⟨_, ⟨s, hs, rfl⟩, v, ⟨e, hv⟩, rfl⟩, rfl⟩ := hu
    exact (Derives.looping (.loop ht hw hs hv)).mem
  refine .option (fun t _ => .last) (fun t u ht hu => ?_) (.wrong (by simp))
  · obtain ⟨u, ⟨x, hu⟩, _, ⟨_, ⟨p, hp, rfl⟩, _, ⟨v, ⟨ps, hv⟩, _, ⟨_, ⟨q, hq, rfl⟩, _,
      ⟨_, ⟨r, hr, rfl⟩, w, ⟨e, hw⟩, rfl⟩, rfl⟩, rfl⟩, rfl⟩, rfl⟩ := hu
    exact (Derives.function (.func ht hu hp hv hq hr hw)).mem

theorem factor_settles : factorScript.Settles bound stop (language bound .factor) := by
  refine .option (fun t _ => .last) (fun t u ht hu => ?_) ?_
  · obtain ⟨e, hu⟩ := hu
    exact (Derives.signed ht hu).mem
  refine .option (M := 1) (fun t _ => .done Language.nil_mem_one) (fun t u ht hu => ?_) ?_
  · obtain rfl : u = [] := hu
    exact (Derives.number ht).mem
  refine .option (M := 1) (fun t _ => .done Language.nil_mem_one) (fun t u ht hu => ?_) ?_
  · obtain rfl : u = [] := hu
    exact (Derives.name ht).mem
  refine .option (M := language bound .expr * (ofKind .rparen * 1)) (fun t _ => ?_) ?_ ?_
  · refine .mul (by simp) fun e => .expect viable_nil_one fun q _ => ?_
    exact .done Language.nil_mem_one
  · rintro t _ ht ⟨w, ⟨e, hw⟩, _, ⟨_, ⟨q, hq, rfl⟩, _, rfl, rfl⟩, rfl⟩
    exact (Derives.group ht hw hq).mem
  · exact keyword_settles

theorem function_settles (t : Token) (x : String) :
    (functionScript t x).Settles bound stop (ofKind .lparen * (language bound .params *
      (ofKind .rparen * (ofKind .arrow * language bound .expr)))) := by
  refine .expect (by simp) fun _ _ => .params (fun ps => ?_) (by simp) fun _ hw => hw
  exact .expect (by simp) fun _ _ => .expect (by simp) fun _ _ => .last

/-- a name that no equals sign stands behind is read as an expression -/
theorem exists_read_name {t : Token} (ht : t.kind = .identifier) : ∃ m a,
    (Script.level (.operand .logic) .logic).read bound stop (fun _ g => g.read bound stop m) [t] =
      .ok (a, []) := by
  have hname : [t] ∈ language bound .expr := derives_name ht
  obtain ⟨m, e, hread⟩ := exists_read_of_mem stop hname
  have hvar : ¬ t.is .var := by simp [Token.is, ht]
  refine ⟨m, e, ?_⟩
  rw [Script.read_level]
  refine Eq.trans ?_ hread
  exact ((if_neg hvar).trans (if_neg (by simp [nextIs]))).symm

theorem expr_settles : Goal.expr.script.Settles bound stop (language bound .expr) := by
  refine .more (by simp) ?_
  refine .option (M := ofKind .identifier * (ofKind .equal * language bound .sum))
    (fun t _ => .expect (by simp) fun x _ => .last) ?_ ?_
  · rintro t _ ht ⟨_, ⟨x, hx, rfl⟩, _, ⟨_, ⟨q, hq, rfl⟩, w, ⟨e, hw⟩, rfl⟩, rfl⟩
    exact (Derives.declare ht hx hq hw).mem
  refine .target (M := ofKind .equal * language bound .sum) (fun t _ _ => .last) ?_ ?_ ?_
  · rintro t _ ht hb ⟨_, ⟨q, hq, rfl⟩, w, ⟨e, hw⟩, rfl⟩
    exact (Derives.assign ht hb hq hw).mem
  · refine level_settles ?_
    rintro _ ⟨w, ⟨e, hw⟩, v, ⟨f, hv⟩, rfl⟩
    exact (Derives.logic hw hv).mem
  · exact fun t ht => ⟨derives_name ht, exists_read_name ht⟩

theorem comparison_settles :
    (Goal.operand .logic).script.Settles bound stop (language bound .comparison) := by
  refine .more (by simp) (.option (fun t _ => .last) ?_ (level_settles ?_))
  · rintro t u ht ⟨e, hu⟩
    exact (Derives.negation ht hu).mem
  · rintro _ ⟨w, ⟨e, hw⟩, v, ⟨f, hv⟩, rfl⟩
    exact (Derives.comparison hw hv).mem

theorem Goal.settles {α : Type} (g : Goal α) : g.script.Settles bound stop (g.language bound) := by
  cases g with
  | expr => exact expr_settles
  | assignment t x => exact .expect (by simp) fun _ _ => .last
  | operand l =>
    cases l with
    | logic => exact comparison_settles
    | comparison =>
      refine level_settles ?_
      rintro _ ⟨w, ⟨e, hw⟩, v, ⟨f, hv⟩, rfl⟩
      exact (Derives.sum hw hv).mem
    | sum =>
      refine level_settles ?_
      rintro _ ⟨w, ⟨e, hw⟩, v, ⟨f, hv⟩, rfl⟩
      exact (Derives.product hw hv).mem
    | product => exact factor_settles
  | chain l e =>
    refine .option
      (fun t _ => .mul (M := Grammar.language bound (.chain l)) (by simp) fun b => .last)
      ?_ (.done Derives.stop.mem)
    rintro t _ ht ⟨w, ⟨b, hw⟩, v, ⟨f, hv⟩, rfl⟩
    exact (Derives.next ht hw hv).mem
  | application =>
    refine .ask
      (fun f => .optional fun t _ => .mul (M := ofKind .rparen * 1) (by simp) fun as => ?_)
      viable_nil_one_add ?_
    · exact .expect viable_nil_one fun q _ => .done Language.nil_mem_one
    · rintro _ ⟨w, ⟨e, hw⟩, _, rfl | ⟨_, ⟨t, ht, rfl⟩, _, ⟨v, ⟨as, hv⟩, _, ⟨_, ⟨q, hq, rfl⟩, _, rfl,
        rfl⟩, rfl⟩, rfl⟩, rfl⟩
      · show w ++ [] ∈ Grammar.language bound .application
        simpa using (Derives.plain hw).mem
      · exact (Derives.call hw ht hv hq).mem
  | arguments =>
    refine .stay (.done Derives.noArgs.mem) (Script.Settles.mono .last ?_)
    rintro w ⟨as, hw⟩
    exact (Derives.someArgs hw).mem
  | exprs =>
    refine .ask (fun a => .optional fun t _ => .last) viable_nil_one_add ?_
    rintro _ ⟨w, ⟨e, hw⟩, _, rfl | ⟨_, ⟨t, ht, rfl⟩, v, ⟨as, hv⟩, rfl⟩, rfl⟩
    · show w ++ [] ∈ Grammar.language bound .exprs
      simpa using (Derives.lastExpr hw).mem
    · exact (Derives.nextExpr hw ht hv).mem
  | conditional t =>
    refine .mul (by simp) fun bs => ?_
    rw [language_clause]
    exact .optional fun u _ => .last
  | branches =>
    refine .ask (M := keyword .then * (Grammar.language bound .expr *
      (1 + keyword .elif * Grammar.language bound .branches))) (fun c => ?_) (by simp) ?_
    · exact .expectWord (by simp) (.mul (by simp) fun e => .optional fun u _ => .last)
    rintro _ ⟨w, ⟨c, hw⟩, _, ⟨_, ⟨t, ht, rfl⟩, _, ⟨v, ⟨e, hv⟩, _,
      rfl | ⟨_, ⟨s, hs, rfl⟩, u, ⟨bs, hu⟩, rfl⟩, rfl⟩, rfl⟩, rfl⟩
    · show w ++ t :: (v ++ []) ∈ Grammar.language bound .branches
      simpa using (Derives.lastBranch hw ht hv).mem
    · exact (Derives.nextBranch hw ht hv hs hu).mem
  | counted t =>
    refine .expect (by simp) fun x _ => .expect (by simp) fun _ _ => .mul (by simp) fun a => ?_
    refine .expectWord (by simp) <| .mul (by simp) fun b => .mul (by simp) fun s => ?_
    exact .expectWord (by simp) .last
  | step =>
    rw [language, language_clause]
    exact .optional fun t _ => .last
  | looping t => exact .mul (by simp) fun c => .expectWord (by simp) .last
  | function t =>
    refine .option (fun x _ => function_settles t x.literal) (fun x u hx hu => ?_)
      ((function_settles t "").mono fun u hu => ?_)
    · exact Language.append_mem_mul (Derives.someTitle hx).mem hu
    · exact Language.append_mem_mul Derives.noTitle.mem hu

end

/-- with enough fuel the reading of any goal is settled -/
theorem Goal.settled {α : Type} {bound : Names} {stop : Token} {n : Nat} {ts : List Token}
    (g : Goal α) (hn : 10 * ts.length + g.spare ≤ n) :
    Settled bound stop (g.language bound) (fun m => g.read bound stop m) n ts := by
  obtain ⟨k, hk, hfuel⟩ := g.fuelled
  induction n generalizing α ts k with
  | zero => omega
  | succ n ih =>
    refine .succ ?_ fun us => ⟨_, g.read_zero bound stop us⟩
    have hstep : (fun m => g.read bound stop (m + 1)) =
        fun m => g.script.read bound stop fun _ g => g.read bound stop m :=
      funext fun m => funext fun us => g.read_succ bound stop m us
    rw [hstep]
    refine g.settles.settled hfuel (by omega) fun β g ts hn => ?_
    obtain ⟨k, hk, hfuel⟩ := g.fuelled
    exact ih g hn k hk hfuel

end Sentence

end ExprShell
