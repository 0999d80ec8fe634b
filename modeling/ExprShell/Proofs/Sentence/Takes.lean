import ExprShell.Proofs.Sentence.Grammar

/-!
# Readings that end where they are told to

What a level reads is fixed by what the parts inside it read, as long as it is known where each of
them ends.  A part ends before a calm word at the latest, and a factor before any word; so a factor
before a calm word is an operand of every level.

* `Takes k f ts r P`       given ten units of fuel for every word and `k` more, `f` reads the words
                           `ts` up to `r`;
* `Calm r`                 no level goes on with the next word;
* `Takes.expr_of_factor`   a factor before a calm word is an expression;
* `Takes.expr_of_binary`   two factors with an operator between them are an expression.
-/

namespace ExprShell.Sentence
open Grammar

/-- with this much fuel, words are read up to `r`, with a result of which `P` holds -/
def Takes {α : Type} (k : Nat) (f : Nat → List Token → Except ParseError (α × List Token))
    (ts r : List Token) (P : α → Prop) : Prop :=
  ∀ n, 10 * ts.length + k ≤ n → ∃ a, f n ts = .ok (a, r) ∧ P a

/-- the next word is no operator, no call and no equals sign -/
def Calm (r : List Token) : Prop :=
  ∀ t u, r = t :: u → (∀ l : Loop, ¬ l.sign t) ∧ t.kind ≠ .lparen ∧ t.kind ≠ .equal

variable {bound : Names} {stop : Token} {ts r : List Token} {P Q : Expr → Prop}

theorem tail_of_quiet {l : Loop} (hr : ∀ t u, r = t :: u → ¬ l.sign t) (e : Expr) {n : Nat}
    (hn : 1 ≤ n) : l.tail bound stop n e r = .ok (e, r) := by
  obtain ⟨n, rfl⟩ := Nat.exists_eq_add_of_le' hn
  cases r with
  | nil => rw [Loop.tail_nil]
  | cons t r => rw [Loop.tail_cons, if_neg (hr t r rfl)]

theorem tail_of_takes {l : Loop} {o : Token} (ho : l.sign o)
    (hr : ∀ t u, r = t :: u → ¬ l.sign t) (h : Takes 5 (l.reader bound stop) ts r Q) (e : Expr)
    {n : Nat} (hn : 10 * (o :: ts).length ≤ n) :
    ∃ b, l.tail bound stop n e (o :: ts) = .ok (.binary e o b, r) ∧ Q b := by
  rw [List.length_cons] at hn
  obtain ⟨n, rfl⟩ := Nat.exists_eq_add_of_le' (show 1 ≤ n by omega)
  obtain ⟨b, hb, hQ⟩ := h n (by omega)
  refine ⟨b, ?_, hQ⟩
  rw [Loop.tail_cons, if_pos ho, hb]
  exact tail_of_quiet hr _ (by omega)

/-! ## From level to level -/

namespace Takes

theorem mono {α : Type} {f : Nat → List Token → Except ParseError (α × List Token)} {P : α → Prop}
    {k j : Nat} (h : Takes k f ts r P) (hkj : k ≤ j) : Takes j f ts r P :=
  fun n hn => h n (by omega)

theorem imp {α : Type} {f : Nat → List Token → Except ParseError (α × List Token)}
    {P Q : α → Prop} {k : Nat} (h : Takes k f ts r P) (hPQ : ∀ a, P a → Q a) :
    Takes k f ts r Q := by
  intro n hn
  obtain ⟨a, ha, hP⟩ := h n hn
  exact ⟨a, ha, hPQ a hP⟩

theorem application (h : Takes 1 (factor bound stop) ts r P)
    (hr : ∀ t u, r = t :: u → t.kind ≠ .lparen) : Takes 2 (application bound stop) ts r P := by
  intro n hn
  obtain ⟨n, rfl⟩ := Nat.exists_eq_add_of_le' (show 1 ≤ n by omega)
  obtain ⟨a, ha, hP⟩ := h n (by omega)
  refine ⟨a, ?_, hP⟩
  rw [Sentence.application, ha]
  cases r with
  | nil => rfl
  | cons t r => exact if_neg (hr t r rfl)

/-- a level whose operators do not go on with the next word -/
theorem level {first whole : Nat → List Token → Parsed} {l : Loop} {k : Nat}
    (hwhole : ∀ n, whole (n + 1) ts = first n ts >>= fun p => l.tail bound stop n p.1 p.2)
    (h : Takes k first ts r P) (hk : 1 ≤ k) (hr : ∀ t u, r = t :: u → ¬ l.sign t) :
    Takes (k + 1) whole ts r P := by
  intro n hn
  obtain ⟨n, rfl⟩ := Nat.exists_eq_add_of_le' (show 1 ≤ n by omega)
  obtain ⟨a, ha, hP⟩ := h n (by omega)
  refine ⟨a, ?_, hP⟩
  rw [hwhole, ha]
  exact tail_of_quiet hr a (by omega)

theorem level_binary {first whole : Nat → List Token → Parsed} {l : Loop} {k : Nat} {o : Token}
    {us : List Token}
    (hwhole : ∀ n, whole (n + 1) ts = first n ts >>= fun p => l.tail bound stop n p.1 p.2)
    (h : Takes k first ts (o :: us) P) (ho : l.sign o) (hu : Takes 5 (l.reader bound stop) us r Q)
    (hlen : us.length + 1 < ts.length) (hr : ∀ t u, r = t :: u → ¬ l.sign t) :
    Takes (k + 1) whole ts r fun e => ∃ a b, e = .binary a o b ∧ P a ∧ Q b := by
  intro n hn
  obtain ⟨n, rfl⟩ := Nat.exists_eq_add_of_le' (show 1 ≤ n by omega)
  obtain ⟨a, ha, hP⟩ := h n (by omega)
  obtain ⟨b, hb, hQ⟩ := tail_of_takes ho hr hu a (n := n) (by simp only [List.length_cons]; omega)
  refine ⟨.binary a o b, ?_, a, b, rfl, hP, hQ⟩
  rw [hwhole, ha]
  exact hb

end Takes

theorem comparison_eq (hts : Begins ts) (n : Nat) :
    Sentence.comparison bound stop (n + 1) ts =
      Sentence.sum bound stop n ts >>= fun p => Loop.comparison.tail bound stop n p.1 p.2 := by
  obtain ⟨t, v, rfl, ht, -⟩ := hts
  exact if_neg (not_is_of_opens ht (by simp))

theorem expr_eq {t : Token} (hvar : ¬ t.is .var)
    (hname : ¬ (t.kind = .identifier ∧ nextIs .equal ts)) (n : Nat) :
    Sentence.expr bound stop (n + 1) (t :: ts) =
      Sentence.comparison bound stop n (t :: ts) >>= fun p =>
        Loop.logic.tail bound stop n p.1 p.2 :=
  (if_neg hvar).trans (if_neg hname)

theorem expr_eq_of_begins (hts : Begins ts) (n : Nat) :
    Sentence.expr bound stop (n + 1) ts =
      Sentence.comparison bound stop n ts >>= fun p => Loop.logic.tail bound stop n p.1 p.2 := by
  obtain ⟨t, v, rfl, ht, hname⟩ := hts
  refine expr_eq (not_is_of_opens ht (by simp)) (fun h => ?_) n
  simp [hname h.1] at h

namespace Takes

theorem sum_of_application (h : Takes 2 (Sentence.application bound stop) ts r P) (hr : Calm r) :
    Takes 4 (Sentence.sum bound stop) ts r P := by
  have hp : Takes 3 (Sentence.product bound stop) ts r P :=
    level (l := .product) (fun _ => rfl) h (by decide) fun t u htu => (hr t u htu).1 _
  exact level (l := .sum) (fun _ => rfl) hp (by decide) fun t u htu => (hr t u htu).1 _

theorem comparison_of_application (h : Takes 2 (Sentence.application bound stop) ts r P)
    (hts : Begins ts) (hr : Calm r) : Takes 5 (Sentence.comparison bound stop) ts r P :=
  level (comparison_eq hts) (h.sum_of_application hr) (by decide) fun t u htu => (hr t u htu).1 _

theorem expr_of_application (h : Takes 2 (Sentence.application bound stop) ts r P)
    (hts : Begins ts) (hr : Calm r) : Takes 6 (Sentence.expr bound stop) ts r P :=
  level (expr_eq_of_begins hts) (h.comparison_of_application hts hr) (by decide)
    fun t u htu => (hr t u htu).1 _

theorem expr_of_factor (h : Takes 1 (Sentence.factor bound stop) ts r P) (hts : Begins ts)
    (hr : Calm r) : Takes 6 (Sentence.expr bound stop) ts r P :=
  (h.application fun t u htu => (hr t u htu).2.1).expr_of_application hts hr

theorem expr_of_binary {l : Loop} {o : Token} {us : List Token} (ho : l.sign o)
    (hleft : Takes 1 (Sentence.factor bound stop) ts (o :: us) P)
    (hright : Takes 1 (Sentence.factor bound stop) us r Q) (hts : Begins ts) (hus : Begins us)
    (hlen : us.length + 1 < ts.length) (hr : Calm r) :
    Takes 6 (Sentence.expr bound stop) ts r fun e => ∃ a b, e = .binary a o b ∧ P a ∧ Q b := by
  have hcall : ∀ t u, o :: us = t :: u → t.kind ≠ .lparen := by
    rintro _ _ ⟨rfl, rfl⟩ hk
    exact l.not_sign_of_kind (.inl hk) ho
  have hquiet (j : Loop) (hj : j ≠ l) : ∀ t u, o :: us = t :: u → ¬ j.sign t := by
    rintro _ _ ⟨rfl, rfl⟩ hs
    exact hj (l.sign_unique ho hs)
  have hcalm (j : Loop) : ∀ t u, r = t :: u → ¬ j.sign t := fun t u htu => (hr t u htu).1 j
  have hfirst : Takes 2 (Sentence.application bound stop) ts (o :: us) P := hleft.application hcall
  have hus2 : Takes 2 (Sentence.application bound stop) us r Q :=
    hright.application fun t u htu => (hr t u htu).2.1
  cases l with
  | product =>
    have h3 : Takes 3 (Sentence.product bound stop) ts r _ :=
      level_binary (fun _ => rfl) hfirst ho (hright.mono (by decide)) hlen (hcalm _)
    have h4 : Takes 4 (Sentence.sum bound stop) ts r _ :=
      level (l := .sum) (fun _ => rfl) h3 (by decide) (hcalm _)
    have h5 := level (comparison_eq hts) h4 (by decide) (hcalm _)
    exact level (expr_eq_of_begins hts) h5 (by decide) (hcalm _)
  | sum =>
    have h3 : Takes 3 (Sentence.product bound stop) ts (o :: us) P :=
      level (l := .product) (fun _ => rfl) hfirst (by decide) (hquiet _ (by simp))
    have hus3 : Takes 3 (Sentence.product bound stop) us r Q :=
      level (l := .product) (fun _ => rfl) hus2 (by decide) (hcalm _)
    have h4 : Takes 4 (Sentence.sum bound stop) ts r _ :=
      level_binary (fun _ => rfl) h3 ho (hus3.mono (by decide)) hlen (hcalm _)
    have h5 := level (comparison_eq hts) h4 (by decide) (hcalm _)
    exact level (expr_eq_of_begins hts) h5 (by decide) (hcalm _)
  | comparison =>
    have h3 : Takes 3 (Sentence.product bound stop) ts (o :: us) P :=
      level (l := .product) (fun _ => rfl) hfirst (by decide) (hquiet _ (by simp))
    have h4 : Takes 4 (Sentence.sum bound stop) ts (o :: us) P :=
      level (l := .sum) (fun _ => rfl) h3 (by decide) (hquiet _ (by simp))
    have hus4 := hus2.sum_of_application hr
    have h5 := level_binary (comparison_eq hts) h4 ho (hus4.mono (by decide)) hlen (hcalm _)
    exact level (expr_eq_of_begins hts) h5 (by decide) (hcalm _)
  | logic =>
    have h3 : Takes 3 (Sentence.product bound stop) ts (o :: us) P :=
      level (l := .product) (fun _ => rfl) hfirst (by decide) (hquiet _ (by simp))
    have h4 : Takes 4 (Sentence.sum bound stop) ts (o :: us) P :=
      level (l := .sum) (fun _ => rfl) h3 (by decide) (hquiet _ (by simp))
    have h5 := level (comparison_eq hts) h4 (by decide) (hquiet _ (by simp))
    have hus5 := hus2.comparison_of_application hus hr
    exact level_binary (expr_eq_of_begins hts) h5 ho hus5 hlen (hcalm _)

end Takes

/-! ## Calm words -/

theorem calm_of_kind {t : Token} (u : List Token) (h : t.kind = .rparen ∨ t.kind = .comma) :
    Calm (t :: u) := by
  rintro _ _ ⟨rfl, rfl⟩
  refine ⟨fun l => l.not_sign_of_kind (.inr (h.imp_right .inl)), ?_, ?_⟩
  · rcases h with h | h <;> simp [h]
  · rcases h with h | h <;> simp [h]

theorem calm_of_is {t : Token} {k : Keyword} (u : List Token) (h : t.is k)
    (hk : k ≠ .and ∧ k ≠ .or) : Calm (t :: u) := by
  rintro _ _ ⟨rfl, rfl⟩
  refine ⟨fun l => l.not_sign_of_is h hk, ?_, ?_⟩
  · simp [kind_of_is h]
  · simp [kind_of_is h]

theorem Calm.nextIs_equal (h : Calm r) : nextIs .equal r = false := by
  cases r with
  | nil => rfl
  | cons t r => simpa [nextIs] using (h t r rfl).2.2

/-! ## One form after the other -/

namespace Takes

theorem group {p q : Token} (hp : p.kind = .lparen) (hq : q.kind = .rparen)
    (h : Takes 6 (Sentence.expr bound stop) ts (q :: r) P) :
    Takes 1 (Sentence.factor bound stop) (p :: ts) r P := by
  intro n hn
  rw [List.length_cons] at hn
  obtain ⟨n, rfl⟩ := Nat.exists_eq_add_of_le' (show 1 ≤ n by omega)
  obtain ⟨a, ha, hP⟩ := h n (by omega)
  have hclose : expect stop .rparen .closing (q :: r) = .ok (q, r) := if_pos hq
  refine ⟨a, ?_, hP⟩
  rw [Sentence.factor, hp]
  show (Sentence.expr bound stop n ts >>= _) = _
  rw [ha]
  show (expect stop .rparen .closing (q :: r) >>= _) = _
  rw [hclose]
  rfl

theorem number {t : Token} (ht : t.kind = .int ∨ t.kind = .double) :
    Takes 1 (Sentence.factor bound stop) (t :: r) r fun e => e = .number t := by
  intro n hn
  obtain ⟨n, rfl⟩ := Nat.exists_eq_add_of_le' (show 1 ≤ n by omega)
  refine ⟨.number t, ?_, rfl⟩
  rw [Sentence.factor]
  rcases ht with ht | ht
  · rw [ht]
  · rw [ht]

theorem signed {o : Token} (ho : o.kind = .plus ∨ o.kind = .minus)
    (h : Takes 1 (Sentence.factor bound stop) ts r P) :
    Takes 1 (Sentence.factor bound stop) (o :: ts) r fun e => ∃ a, e = .unary o a ∧ P a := by
  intro n hn
  rw [List.length_cons] at hn
  obtain ⟨n, rfl⟩ := Nat.exists_eq_add_of_le' (show 1 ≤ n by omega)
  obtain ⟨a, ha, hP⟩ := h n (by omega)
  refine ⟨.unary o a, ?_, a, rfl, hP⟩
  rw [Sentence.factor]
  rcases ho with ho | ho
  · rw [ho]
    show (Sentence.factor bound stop n ts >>= _) = _
    rw [ha]
    rfl
  · rw [ho]
    show (Sentence.factor bound stop n ts >>= _) = _
    rw [ha]
    rfl

theorem negation {o : Token} (ho : o.is .not) (hr : Calm r)
    (h : Takes 5 (Sentence.comparison bound stop) ts r P) :
    Takes 6 (Sentence.expr bound stop) (o :: ts) r fun e => ∃ a, e = .unary o a ∧ P a := by
  have hcomp : Takes 5 (Sentence.comparison bound stop) (o :: ts) r
      fun e => ∃ a, e = .unary o a ∧ P a := by
    intro n hn
    rw [List.length_cons] at hn
    obtain ⟨n, rfl⟩ := Nat.exists_eq_add_of_le' (show 1 ≤ n by omega)
    obtain ⟨a, ha, hP⟩ := h n (by omega)
    refine ⟨.unary o a, ?_, a, rfl, hP⟩
    rw [Sentence.comparison, if_pos ho, ha]
    rfl
  have hvar : ¬ o.is .var := by simp [is_iff ho]
  have hname : ¬ (o.kind = .identifier ∧ nextIs .equal ts) := by simp [kind_of_is ho]
  exact level (expr_eq hvar hname) hcomp (by decide) fun t u htu => (hr t u htu).1 _

theorem declare {t x q : Token} (ht : t.is .var) (hx : x.kind = .identifier)
    (hq : q.kind = .equal) (h : Takes 4 (Sentence.sum bound stop) ts r P) :
    Takes 6 (Sentence.expr bound stop) (t :: x :: q :: ts) r
      fun e => ∃ a, e = .assign t x.literal a ∧ P a := by
  intro n hn
  simp only [List.length_cons] at hn
  obtain ⟨n, rfl⟩ := Nat.exists_eq_add_of_le' (show 2 ≤ n by omega)
  obtain ⟨a, ha, hP⟩ := h n (by omega)
  refine ⟨.assign t x.literal a, ?_, a, rfl, hP⟩
  rw [Sentence.expr, if_pos ht]
  have hname : expect stop .identifier .nameAfterVar (x :: q :: ts) = .ok (x, q :: ts) := if_pos hx
  have hsign : expect stop .equal .equals (q :: ts) = .ok (q, ts) := if_pos hq
  rw [hname]
  show (expect stop .equal .equals (q :: ts) >>= _) = _
  rw [hsign]
  show (Sentence.sum bound stop n ts >>= _) = _
  rw [ha]
  rfl

theorem call {t q : Token} {us : List Token} {A : List Expr → Prop} (ht : t.kind = .lparen)
    (hq : q.kind = .rparen) (hf : Takes 1 (Sentence.factor bound stop) ts (t :: us) P)
    (ha : Takes 8 (Sentence.arguments bound stop) us (q :: r) A) (hlen : us.length < ts.length) :
    Takes 2 (Sentence.application bound stop) ts r
      fun e => ∃ f as, e = .call t f as ∧ P f ∧ A as := by
  intro n hn
  obtain ⟨n, rfl⟩ := Nat.exists_eq_add_of_le' (show 1 ≤ n by omega)
  obtain ⟨f, hf, hP⟩ := hf n (by omega)
  obtain ⟨as, has, hA⟩ := ha n (by omega)
  have hclose : expect stop .rparen .commaOrClosing (q :: r) = .ok (q, r) := if_pos hq
  refine ⟨.call t f as, ?_, f, as, rfl, hP, hA⟩
  rw [Sentence.application, hf]
  show (if t.kind = .lparen then _ else _) = _
  rw [if_pos ht, has]
  show (expect stop .rparen .commaOrClosing (q :: r) >>= _) = _
  rw [hclose]
  rfl

theorem looping {t s : Token} {us : List Token} (ht : t.is .while) (hs : s.is .then)
    (hc : Takes 6 (Sentence.expr bound stop) ts (s :: us) P)
    (he : Takes 6 (Sentence.expr bound stop) us r Q) (hlen : us.length < ts.length) :
    Takes 1 (Sentence.factor bound stop) (t :: ts) r
      fun e => ∃ c b, e = .loop t c b ∧ P c ∧ Q b := by
  intro n hn
  rw [List.length_cons] at hn
  obtain ⟨n, rfl⟩ := Nat.exists_eq_add_of_le' (show 2 ≤ n by omega)
  obtain ⟨c, hc, hP⟩ := hc n (by omega)
  obtain ⟨b, hb, hQ⟩ := he n (by omega)
  have hthen : expectWord stop .then (s :: us) = .ok us := if_pos hs
  refine ⟨.loop t c b, ?_, c, b, rfl, hP, hQ⟩
  rw [Sentence.factor, kind_of_is ht, if_neg (by simp [is_iff ht]), if_neg (by simp [is_iff ht]),
    if_pos ht, Sentence.looping, hc]
  show (expectWord stop .then (s :: us) >>= _) = _
  rw [hthen]
  show (Sentence.expr bound stop n us >>= _) = _
  rw [hb]
  rfl

theorem function {t : Token} {x : String} {ps : List String} {us : List Token} (ht : t.is .fn)
    (hhead : funcHead stop ts = .ok (x, ps, us))
    (he : Takes 6 (Sentence.expr bound stop) us r P) (hlen : us.length < ts.length) :
    Takes 1 (Sentence.factor bound stop) (t :: ts) r
      fun e => ∃ b, e = .func t x ps b ∧ P b := by
  intro n hn
  rw [List.length_cons] at hn
  obtain ⟨n, rfl⟩ := Nat.exists_eq_add_of_le' (show 2 ≤ n by omega)
  obtain ⟨b, hb, hP⟩ := he n (by omega)
  refine ⟨.func t x ps b, ?_, b, rfl, hP⟩
  rw [Sentence.factor, kind_of_is ht, if_neg (by simp [is_iff ht]), if_neg (by simp [is_iff ht]),
    if_neg (by simp [is_iff ht]), if_pos ht, Sentence.function, hhead]
  show (Sentence.expr bound stop n us >>= _) = _
  rw [hb]
  rfl

theorem step_none {s : Token} (hs : s.is .then) :
    Takes 1 (Sentence.step bound stop) (s :: r) (s :: r) fun e => e = .absent := by
  intro n hn
  obtain ⟨n, rfl⟩ := Nat.exists_eq_add_of_le' (show 1 ≤ n by omega)
  have hstep : ¬ s.is .step := by simp [is_iff hs]
  exact ⟨.absent, if_neg hstep, rfl⟩

theorem step_some {s : Token} (hs : s.is .step) (h : Takes 6 (Sentence.expr bound stop) ts r P) :
    Takes 1 (Sentence.step bound stop) (s :: ts) r P := by
  intro n hn
  rw [List.length_cons] at hn
  obtain ⟨n, rfl⟩ := Nat.exists_eq_add_of_le' (show 1 ≤ n by omega)
  obtain ⟨a, ha, hP⟩ := h n (by omega)
  exact ⟨a, (if_pos hs).trans ha, hP⟩

theorem counted {t x q s s' : Token} {us vs ws : List Token} {S E : Expr → Prop} (ht : t.is .for)
    (hx : x.kind = .identifier) (hq : q.kind = .equal) (hs : s.is .to) (hs' : s'.is .then)
    (ha : Takes 6 (Sentence.expr bound stop) ts (s :: us) P)
    (hb : Takes 6 (Sentence.expr bound stop) us vs Q)
    (hstep : Takes 1 (Sentence.step bound stop) vs (s' :: ws) S)
    (he : Takes 6 (Sentence.expr bound stop) ws r E) (hus : us.length < ts.length)
    (hvs : vs.length < us.length) (hws : ws.length < vs.length) :
    Takes 1 (Sentence.factor bound stop) (t :: x :: q :: ts) r fun e =>
      ∃ a b c d, e = .count t x.literal a b c d ∧ P a ∧ Q b ∧ S c ∧ E d := by
  intro n hn
  simp only [List.length_cons] at hn
  obtain ⟨n, rfl⟩ := Nat.exists_eq_add_of_le' (show 2 ≤ n by omega)
  obtain ⟨a, ha, hP⟩ := ha n (by omega)
  obtain ⟨b, hb, hQ⟩ := hb n (by omega)
  obtain ⟨c, hc, hS⟩ := hstep n (by omega)
  obtain ⟨d, hd, hE⟩ := he n (by omega)
  have hname : expect stop .identifier .loopName (x :: q :: ts) = .ok (x, q :: ts) := if_pos hx
  have hsign : expect stop .equal .equals (q :: ts) = .ok (q, ts) := if_pos hq
  have hto : expectWord stop .to (s :: us) = .ok us := if_pos hs
  have hthen : expectWord stop .then (s' :: ws) = .ok ws := if_pos hs'
  refine ⟨.count t x.literal a b c d, ?_, a, b, c, d, rfl, hP, hQ, hS, hE⟩
  rw [Sentence.factor, kind_of_is ht, if_neg (by simp [is_iff ht]), if_pos ht, Sentence.counted,
    hname]
  show (expect stop .equal .equals (q :: ts) >>= _) = _
  rw [hsign]
  show (Sentence.expr bound stop n ts >>= _) = _
  rw [ha]
  show (expectWord stop .to (s :: us) >>= _) = _
  rw [hto]
  show (Sentence.expr bound stop n us >>= _) = _
  rw [hb]
  show (Sentence.step bound stop n vs >>= _) = _
  rw [hc]
  show (expectWord stop .then (s' :: ws) >>= _) = _
  rw [hthen]
  show (Sentence.expr bound stop n ws >>= _) = _
  rw [hd]
  rfl

theorem branches_last {s : Token} {us : List Token} (hs : s.is .then)
    (hr : ∀ t u, r = t :: u → ¬ t.is .elif) (hc : Takes 6 (Sentence.expr bound stop) ts (s :: us) P)
    (he : Takes 6 (Sentence.expr bound stop) us r Q) (hlen : us.length < ts.length) :
    Takes 7 (Sentence.branches bound stop) ts r fun bs => ∃ c b, bs = [(c, b)] ∧ P c ∧ Q b := by
  intro n hn
  obtain ⟨n, rfl⟩ := Nat.exists_eq_add_of_le' (show 1 ≤ n by omega)
  obtain ⟨c, hc, hP⟩ := hc n (by omega)
  obtain ⟨b, hb, hQ⟩ := he n (by omega)
  have hthen : expectWord stop .then (s :: us) = .ok us := if_pos hs
  refine ⟨[(c, b)], ?_, c, b, rfl, hP, hQ⟩
  rw [Sentence.branches, hc]
  show (expectWord stop .then (s :: us) >>= _) = _
  rw [hthen]
  show (Sentence.expr bound stop n us >>= _) = _
  rw [hb]
  cases r with
  | nil => rfl
  | cons t r => exact if_neg (hr t r rfl)

theorem branches_next {s t : Token} {us vs : List Token} {B : List (Expr × Expr) → Prop}
    (hs : s.is .then) (ht : t.is .elif) (hc : Takes 6 (Sentence.expr bound stop) ts (s :: us) P)
    (he : Takes 6 (Sentence.expr bound stop) us (t :: vs) Q)
    (hbs : Takes 7 (Sentence.branches bound stop) vs r B) (hus : us.length < ts.length)
    (hvs : vs.length < us.length) :
    Takes 7 (Sentence.branches bound stop) ts r
      fun bs => ∃ c b cs, bs = (c, b) :: cs ∧ P c ∧ Q b ∧ B cs := by
  intro n hn
  obtain ⟨n, rfl⟩ := Nat.exists_eq_add_of_le' (show 1 ≤ n by omega)
  obtain ⟨c, hc, hP⟩ := hc n (by omega)
  obtain ⟨b, hb, hQ⟩ := he n (by omega)
  obtain ⟨cs, hcs, hB⟩ := hbs n (by omega)
  have hthen : expectWord stop .then (s :: us) = .ok us := if_pos hs
  refine ⟨(c, b) :: cs, ?_, c, b, cs, rfl, hP, hQ, hB⟩
  rw [Sentence.branches, hc]
  show (expectWord stop .then (s :: us) >>= _) = _
  rw [hthen]
  show (Sentence.expr bound stop n us >>= _) = _
  rw [hb]
  show (if t.is .elif then _ else _) = _
  rw [if_pos ht, hcs]
  rfl

theorem conditional_plain {t : Token} {B : List (Expr × Expr) → Prop} (ht : t.is .if)
    (hr : ∀ t u, r = t :: u → ¬ t.is .else) (h : Takes 7 (Sentence.branches bound stop) ts r B) :
    Takes 1 (Sentence.factor bound stop) (t :: ts) r
      fun e => ∃ bs, e = .cond t bs .absent ∧ B bs := by
  intro n hn
  rw [List.length_cons] at hn
  obtain ⟨n, rfl⟩ := Nat.exists_eq_add_of_le' (show 2 ≤ n by omega)
  obtain ⟨bs, hbs, hB⟩ := h n (by omega)
  refine ⟨.cond t bs .absent, ?_, bs, rfl, hB⟩
  rw [Sentence.factor, kind_of_is ht, if_pos ht, Sentence.conditional, hbs]
  cases r with
  | nil => rfl
  | cons u r => exact if_neg (hr u r rfl)

theorem conditional_else {t s : Token} {us : List Token} {B : List (Expr × Expr) → Prop}
    (ht : t.is .if) (hs : s.is .else) (h : Takes 7 (Sentence.branches bound stop) ts (s :: us) B)
    (he : Takes 6 (Sentence.expr bound stop) us r P) (hlen : us.length < ts.length) :
    Takes 1 (Sentence.factor bound stop) (t :: ts) r
      fun e => ∃ bs b, e = .cond t bs b ∧ B bs ∧ P b := by
  intro n hn
  rw [List.length_cons] at hn
  obtain ⟨n, rfl⟩ := Nat.exists_eq_add_of_le' (show 2 ≤ n by omega)
  obtain ⟨bs, hbs, hB⟩ := h n (by omega)
  obtain ⟨b, hb, hP⟩ := he n (by omega)
  refine ⟨.cond t bs b, ?_, bs, b, rfl, hB, hP⟩
  rw [Sentence.factor, kind_of_is ht, if_pos ht, Sentence.conditional, hbs]
  show (if s.is .else then _ else _) = _
  rw [if_pos hs, hb]
  rfl

theorem exprs_last {q : Token} (hq : q.kind ≠ .comma)
    (h : Takes 6 (Sentence.expr bound stop) ts (q :: r) P) :
    Takes 7 (Sentence.exprs bound stop) ts (q :: r) fun as => ∃ a, as = [a] ∧ P a := by
  intro n hn
  obtain ⟨n, rfl⟩ := Nat.exists_eq_add_of_le' (show 1 ≤ n by omega)
  obtain ⟨a, ha, hP⟩ := h n (by omega)
  refine ⟨[a], ?_, a, rfl, hP⟩
  rw [Sentence.exprs, ha]
  exact if_neg hq

theorem exprs_next {q : Token} {us : List Token} {A : List Expr → Prop} (hq : q.kind = .comma)
    (h : Takes 6 (Sentence.expr bound stop) ts (q :: us) P)
    (ha : Takes 7 (Sentence.exprs bound stop) us r A) (hlen : us.length < ts.length) :
    Takes 7 (Sentence.exprs bound stop) ts r fun as => ∃ a bs, as = a :: bs ∧ P a ∧ A bs := by
  intro n hn
  obtain ⟨n, rfl⟩ := Nat.exists_eq_add_of_le' (show 1 ≤ n by omega)
  obtain ⟨a, ha', hP⟩ := h n (by omega)
  obtain ⟨bs, hbs, hA⟩ := ha n (by omega)
  refine ⟨a :: bs, ?_, a, bs, rfl, hP, hA⟩
  rw [Sentence.exprs, ha']
  show (if q.kind = .comma then _ else _) = _
  rw [if_pos hq, hbs]
  rfl

/-- an expression up to the end of the words is the whole sentence -/
theorem parse (h : Takes 6 (Sentence.expr bound stop) ts [] P) (hts : ts ≠ []) :
    ∃ a, Sentence.parse bound ⟨ts, stop⟩ = .ok a ∧ P a := by
  obtain ⟨a, ha, hP⟩ := h (fuel ts) (by simp only [fuel]; omega)
  refine ⟨a, ?_, hP⟩
  cases ts with
  | nil => exact absurd rfl hts
  | cons t ts =>
    simp only [Sentence.parse, ha]
    rfl

end Takes

end ExprShell.Sentence
