import ExprShell.Proofs.Sentence.Script

/-!
# What is read is a sentence of the grammar

Whatever is read for a goal, the words that were taken derive from that part of the grammar, and
the result is the tree of the derivation.

* `Sentence.Reads`          the words a reading takes, and what holds of them and of its result;
* `Sentence.Script.Sound`   the same said of a script, whatever words there are;
* `Sentence.Goal.sound`     the scripts of the grammar are sound;
* `Sentence.Goal.reads`     what is read of any goal, at every amount of fuel.
-/

namespace ExprShell.Sentence
open Grammar

/-- if words are read, then `D` holds of those that were taken and of the result -/
def Reads {α : Type} (x : Except ParseError (α × List Token)) (ts : List Token)
    (D : List Token → α → Prop) : Prop :=
  ∀ a r, x = .ok (a, r) → ∃ w, ts = w ++ r ∧ D w a

namespace Reads

variable {α β : Type} {ts : List Token} {D : List Token → α → Prop} {E : List Token → β → Prop}

theorem ok {a : α} (h : D [] a) : Reads (.ok (a, ts)) ts D := by
  intro b r hb
  cases hb
  exact ⟨[], rfl, h⟩

theorem error (e : ParseError) : Reads (.error e) ts D := by
  intro a r h
  cases h

/-- the words of the first reading stand before those of the second -/
theorem bind {x : Except ParseError (α × List Token)}
    {f : α × List Token → Except ParseError (β × List Token)} (hx : Reads x ts D)
    (hf : ∀ w a r, D w a → Reads (f (a, r)) r fun v b => E (w ++ v) b) :
    Reads (x >>= f) ts E := by
  intro b s h
  cases x with
  | error e => cases h
  | ok p =>
    obtain ⟨a, r⟩ := p
    obtain ⟨w, rfl, hw⟩ := hx a r rfl
    obtain ⟨v, rfl, hv⟩ := hf w a r hw b s h
    exact ⟨w ++ v, (List.append_assoc _ _ _).symm, hv⟩

theorem cons {x : Except ParseError (α × List Token)} {t : Token}
    (h : Reads x ts fun w a => D (t :: w) a) : Reads x (t :: ts) D := by
  intro a r ha
  obtain ⟨w, rfl, hw⟩ := h a r ha
  exact ⟨t :: w, rfl, hw⟩

theorem mono {x : Except ParseError (α × List Token)} {D' : List Token → α → Prop}
    (h : Reads x ts D) (hD : ∀ w a, D w a → D' w a) : Reads x ts D' := by
  intro a r ha
  obtain ⟨w, hr, hw⟩ := h a r ha
  exact ⟨w, hr, hD w a hw⟩

end Reads

/-! ## The parameters of a function -/

variable {bound : Names} {stop : Token}

theorem reads_names (bound : Names) (ts : List Token) :
    Reads (params stop ts) ts (Derives bound .names) := by
  induction ts using params.induct with
  | case1 => exact .error _
  | case2 t ht =>
    rw [params, if_pos ht]
    exact .cons (.ok (.lastName ht))
  | case3 t ht c rest hc ih =>
    rw [params, if_pos ht]
    show Reads (if c.kind = .comma then _ else _) _ _
    rw [if_pos hc]
    refine .cons (.cons (ih.bind ?_))
    intro w ps r hw
    exact .ok (by simpa using .nextName ht hc hw)
  | case4 t ht c rest hc =>
    rw [params, if_pos ht]
    show Reads (if c.kind = .comma then _ else _) _ _
    rw [if_neg hc]
    exact .cons (.ok (.lastName ht))
  | case5 t ts ht =>
    unfold params
    rw [if_neg ht]
    exact .error _

theorem reads_params (bound : Names) (ts : List Token) :
    Reads (paramList stop ts) ts (Derives bound .params) := by
  unfold paramList
  split
  · exact (reads_names bound ts).mono fun _ _ => .someParams
  · exact .ok .noParams

/-! ## All goals -/

def Goal.Derives {α : Type} (bound : Names) : Goal α → List Token → α → Prop
  | .expr => Grammar.Derives bound .expr
  | .assignment t x => fun w a =>
    ∃ q v e, w = q :: v ∧ q.kind = .equal ∧ Grammar.Derives bound .sum v e ∧ a = .assign t x e
  | .operand l => Grammar.Derives bound (.operand l)
  | .chain l e => fun w a => ∃ f, Grammar.Derives bound (.chain l) w f ∧ a = f e
  | .application => Grammar.Derives bound .application
  | .arguments => Grammar.Derives bound .args
  | .exprs => Grammar.Derives bound .exprs
  | .conditional t => fun w a => t.is .if → Grammar.Derives bound .conditional (t :: w) a
  | .branches => Grammar.Derives bound .branches
  | .counted t => fun w a => t.is .for → Grammar.Derives bound .counted (t :: w) a
  | .step => Grammar.Derives bound (.clause .step)
  | .looping t => fun w a => t.is .while → Grammar.Derives bound .looping (t :: w) a
  | .function t => fun w a => t.is .fn → Grammar.Derives bound .function (t :: w) a

/-- `D` holds of the words that are taken and of the result, whatever words there are -/
inductive Script.Sound (bound : Names) {α : Type} : (List Token → α → Prop) → Script α → Prop
  | done {D : List Token → α → Prop} {a : α} (h : D [] a) : Sound bound D (.done a)
  | wrong {D : List Token → α → Prop} (w : Want) : Sound bound D (.wrong w)
  | option {D : List Token → α → Prop} {p : Token → Prop} [DecidablePred p]
    {yes : Token → Script α} {no : Script α}
    (hyes : ∀ t, p t → Sound bound (fun w => D (t :: w)) (yes t)) (hno : Sound bound D no) :
    Sound bound D (.option p yes no)
  | stay {D : List Token → α → Prop} {p : Token → Prop} [DecidablePred p] {yes no : Script α}
    (hyes : Sound bound D yes) (hno : Sound bound D no) : Sound bound D (.stay p yes no)
  | target {D : List Token → α → Prop} {yes : Token → Script α} {no : Script α}
    (hyes : ∀ t, t.kind = .identifier → bound t.literal →
      Sound bound (fun w => D (t :: w)) (yes t))
    (hno : Sound bound D no) : Sound bound D (.target yes no)
  | ask {β : Type} {D : List Token → α → Prop} {g : Goal β} {rest : β → Script α}
    (h : ∀ w b, g.Derives bound w b → Sound bound (fun v => D (w ++ v)) (rest b)) :
    Sound bound D (.ask g rest)
  | params {D : List Token → α → Prop} {rest : List String → Script α}
    (h : ∀ w ps, Derives bound .params w ps → Sound bound (fun v => D (w ++ v)) (rest ps)) :
    Sound bound D (.params rest)

namespace Script.Sound

variable {α : Type} {D : List Token → α → Prop}

theorem expect {k : Token.Kind} {w : Want} {rest : Token → Script α}
    (h : ∀ t, t.kind = k → Script.Sound bound (fun w => D (t :: w)) (rest t)) :
    Script.Sound bound D (.expect k w rest) :=
  .option h (.wrong w)

theorem expectWord {k : Keyword} {rest : Script α}
    (h : ∀ t, t.is k → Script.Sound bound (fun w => D (t :: w)) rest) :
    Script.Sound bound D (.expectWord k rest) :=
  .option h (.wrong _)

/-- a goal whose words, behind those that were taken, are all that is left to take -/
theorem same {g : Goal α} (h : ∀ w a, g.Derives bound w a → D w a) :
    Script.Sound bound D (.same g) := by
  refine .ask fun w a hw => .done ?_
  rw [List.append_nil]
  exact h w a hw

theorem reads {rd : Reader} {s : Script α} (h : s.Sound bound D)
    (hrd : ∀ β (g : Goal β) ts, Reads (rd β g ts) ts (g.Derives bound)) (ts : List Token) :
    Reads (s.read bound stop rd ts) ts D := by
  induction h generalizing ts with
  | done h => exact .ok h
  | wrong w => exact .error _
  | option _ _ ihyes ihno =>
    cases ts with
    | nil => exact ihno []
    | cons t ts =>
      rw [Script.read]
      split
      · next ht => exact .cons (ihyes t ht ts)
      · exact ihno (t :: ts)
  | stay _ _ ihyes ihno =>
    cases ts with
    | nil => exact ihno []
    | cons t ts =>
      rw [Script.read]
      split
      · exact ihyes (t :: ts)
      · exact ihno (t :: ts)
  | target _ _ ihyes ihno =>
    cases ts with
    | nil => exact ihno []
    | cons t ts =>
      rw [Script.read]
      split
      · next ht =>
        split
        · next hb => exact .cons (ihyes t ht.1 hb ts)
        · exact .error _
      · exact ihno (t :: ts)
  | ask _ ih => exact (hrd _ _ ts).bind fun w b r hw => ih w b hw r
  | params _ ih => exact (reads_params bound ts).bind fun w ps r hw => ih w ps hw r

end Script.Sound

theorem factor_sound (bound : Names) :
    factorScript.Sound bound (Grammar.Derives bound .factor) := by
  refine .option (fun t ht => .ask fun w e hw => .done ?_) ?_
  · simpa using .signed ht hw
  refine .option (fun t ht => .done (.number ht)) ?_
  refine .option (fun t ht => .done (.name ht)) ?_
  refine .option (fun t ht => .ask fun w e hw => .expect fun q hq => .done ?_) ?_
  · exact .group ht hw hq
  refine .option (fun t ht => .same fun w e hw => .conditional (hw ht)) ?_
  refine .option (fun t ht => .same fun w e hw => .counted (hw ht)) ?_
  refine .option (fun t ht => .same fun w e hw => .looping (hw ht)) ?_
  refine .option (fun t ht => .same fun w e hw => .function (hw ht)) ?_
  exact .wrong _

theorem function_sound {t : Token} {u : List Token} {x : String}
    (hu : Grammar.Derives bound .title u x) : (functionScript t x).Sound bound
      fun w a => t.is .fn → Grammar.Derives bound .function (t :: (u ++ w)) a := by
  refine .expect fun p hp => .params fun v ps hv => .expect fun q hq => .expect fun r hr => ?_
  exact .ask fun w e hw => .done fun ht => by simpa using .func ht hu hp hv hq hr hw

theorem Goal.sound {α : Type} (bound : Names) (g : Goal α) :
    g.script.Sound bound (g.Derives bound) := by
  cases g with
  | expr =>
    refine .stay (.option (fun t ht => .expect fun x hx => .same ?_) ?_) (.wrong _)
    · rintro _ _ ⟨q, v, e, rfl, hq, hv, rfl⟩
      exact .declare ht hx hq hv
    refine .target (fun t ht hb => .same ?_) ?_
    · rintro _ _ ⟨q, v, e, rfl, hq, hv, rfl⟩
      exact .assign ht hb hq hv
    · refine .ask fun w e hw => .same ?_
      rintro v _ ⟨f, hv, rfl⟩
      exact .logic hw hv
  | assignment t x =>
    refine .expect fun q hq => .ask fun v e hv => .done ?_
    exact ⟨q, v, e, by simp, hq, hv, rfl⟩
  | operand l =>
    cases l with
    | logic =>
      refine .stay (.option (fun t ht => .ask fun w e hw => .done ?_) ?_) (.wrong _)
      · simpa using .negation ht hw
      · refine .ask fun w e hw => .same ?_
        rintro v _ ⟨f, hv, rfl⟩
        exact .comparison hw hv
    | comparison =>
      refine .ask fun w e hw => .same ?_
      rintro v _ ⟨f, hv, rfl⟩
      exact .sum hw hv
    | sum =>
      refine .ask fun w e hw => .same ?_
      rintro v _ ⟨f, hv, rfl⟩
      exact .product hw hv
    | product => exact factor_sound bound
  | chain l e =>
    refine .option (fun t ht => .ask fun w b hw => .same ?_) (.done ⟨id, .stop, rfl⟩)
    rintro v _ ⟨f, hv, rfl⟩
    exact ⟨_, .next ht hw hv, rfl⟩
  | application =>
    refine .ask fun w f hw => .option (fun t ht => .ask fun v as hv => .expect fun q hq => ?_) ?_
    · exact .done (by simpa using .call hw ht hv hq)
    · exact .done (by simpa using .plain hw)
  | arguments => exact .stay (.done .noArgs) (.same fun w as hw => .someArgs hw)
  | exprs =>
    refine .ask fun w a hw => .option (fun t ht => .ask fun v as hv => .done ?_) (.done ?_)
    · simpa using .nextExpr hw ht hv
    · simpa using .lastExpr hw
  | conditional t =>
    refine .ask fun w bs hw => .option (fun u hu => .ask fun v e hv => .done fun ht => ?_)
      (.done fun ht => .cond ht hw .noClause)
    simpa using .cond ht hw (.someClause hu hv)
  | branches =>
    refine .ask fun w c hw => .expectWord fun t ht => .ask fun v e hv => ?_
    refine .option (fun s hs => .ask fun u bs hu => .done ?_) (.done ?_)
    · simpa using .nextBranch hw ht hv hs hu
    · simpa using .lastBranch hw ht hv
  | counted t =>
    refine .expect fun x hx => .expect fun q hq => .ask fun u a hu => .expectWord fun r hr => ?_
    refine .ask fun v b hv => .ask fun z c hz => .expectWord fun s hs => .ask fun w e hw => ?_
    exact .done fun ht => by simpa using .count ht hx hq hu hr hv hz hs hw
  | step => exact .option (fun t ht => .same fun w e hw => .someClause ht hw) (.done .noClause)
  | looping t =>
    refine .ask fun w c hw => .expectWord fun s hs => .ask fun v e hv => .done fun ht => ?_
    simpa using .loop ht hw hs hv
  | function t =>
    exact .option (fun x hx => function_sound (.someTitle hx)) (function_sound .noTitle)

/-- whatever is read, the words that were taken derive it -/
theorem Goal.reads {α : Type} (bound : Names) (stop : Token) (n : Nat) (g : Goal α)
    (ts : List Token) : Reads (g.read bound stop n ts) ts (g.Derives bound) := by
  induction n generalizing α ts with
  | zero =>
    rw [read_zero]
    exact .error _
  | succ n ih =>
    rw [read_succ]
    exact (g.sound bound).reads (fun _ g ts => ih g ts) ts

/-- a sentence that is read derives from `expr`, and the tree is that of the derivation -/
theorem derives_of_parse {s : Sentence} {e : Expr} (h : s.parse bound = .ok e) :
    Grammar.Derives bound .expr s.words e := by
  obtain ⟨words, stop⟩ := s
  cases words with
  | nil => cases h
  | cons t ts =>
    have hread : Reads (Sentence.expr bound stop (fuel (t :: ts)) (t :: ts)) (t :: ts)
        (Grammar.Derives bound .expr) := Goal.reads bound stop (fuel (t :: ts)) .expr (t :: ts)
    simp only [parse] at h
    generalize Sentence.expr bound stop (fuel (t :: ts)) (t :: ts) = x at h hread
    cases x with
    | error e => cases h
    | ok p =>
      obtain ⟨b, r⟩ := p
      cases r with
      | cons u r => cases h
      | nil =>
        cases h
        obtain ⟨w, hts, hw⟩ := hread b [] rfl
        rw [List.append_nil] at hts
        rw [hts]
        exact hw

end ExprShell.Sentence
