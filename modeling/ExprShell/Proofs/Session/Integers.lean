import ExprShell.Proofs.Eval.Arithmetic
import ExprShell.Proofs.Expr.RoundTrip
import ExprShell.Proofs.Session.Course
import Mathlib.Data.Nat.Digits.Defs

/-!
# Integers that are shown and run again

A line of digits is one word, however long it is, and the integer it stands for, if that fits.  An
integer below zero is shown with a minus before its digits, which is read as an operator: the
digits must fit by themselves.  So the least integer, and no other, cannot be run as it is shown.

* `Session.Gives`, `Session.Refuses`   a line ends with a value, or with a number that does not fit;
* `Session.gives_digits`, `Session.refuses_digits`   lines of digits;
* `Session.gives_minus`, `Session.refuses_minus`     the same behind a minus;
* `Session.integers_read_back`         integers as they are shown, and all lines of digits.
-/

namespace ExprShell

/-! ## Reading digits -/

namespace Decimal
open Text

/-- digits are read as a numeral in base ten, whose first digit counts most -/
theorem value_eq_ofDigits (ds : List Char) :
    value ds = Nat.ofDigits 10 (ds.reverse.map digitValue) := by
  induction ds using List.reverseRecOn with
  | nil => rfl
  | append_singleton ds c ih =>
    rw [value_append_singleton, ih, List.reverse_append, List.reverse_singleton,
      List.singleton_append, List.map_cons, Nat.ofDigits_cons]
    omega

theorem readInt?_of_isDigits {ds : List Char} (h : isDigits ds = true) :
    readInt? ds = some (value ds : Int) := by
  simp only [isDigits, Bool.and_eq_true, decide_eq_true_eq] at h
  have hread : readNat? ds = some (value ds) := if_pos h
  have hdigit : ∀ c ∈ ds, isDigit c = true := List.all_eq_true.mp h.2
  unfold readInt?
  split
  · exact absurd (hdigit '+' List.mem_cons_self) (by decide)
  · exact absurd (hdigit '-' List.mem_cons_self) (by decide)
  · rw [hread]
    rfl

end Decimal

theorem Integer.read?_of_isDigits {ds : List Char} (h : isDigits ds = true) :
    Integer.read? (String.ofList ds) = Integer.fit? (Decimal.value ds) := by
  rw [Integer.read?, String.toList_ofList, Decimal.readInt?_of_isDigits h, Option.bind_some]

/-! ## The words of a line -/

open Token

def Token.Counts (t : Token) (ds : List Char) : Prop := t.kind = .int ∧ t.literal = String.ofList ds

theorem Token.counts_of_unplaced {t : Token} {ds : List Char}
    (h : t.unplaced = written .int ds) : t.Counts ds :=
  ⟨congrArg Token.kind h, congrArg Token.literal h⟩

theorem spelt_digits {ds : List Char} (h : isDigits ds = true) : Spelt ds [written .int ds] := by
  have hend : Ends [] := fun c r hc => nomatch hc
  simpa using Spelt.whole h hend .nil

theorem spelt_minus {ds : List Char} (h : isDigits ds = true) :
    Spelt ('-' :: ds) [written .minus ['-'], written .int ds] := by
  refine .minus (fun r hr => ?_) (spelt_digits h)
  rw [hr] at h
  simp [isDigits, Text.isDigit] at h

theorem scanned_digits {ds : List Char} (h : isDigits ds = true) :
    ∃ t : Token, scanned ds = [t] ∧ t.Counts ds := by
  have hmap := (spelt_digits h).map_unplaced
  obtain ⟨t, hscan, ht⟩ := List.map_eq_singleton_iff.mp hmap
  exact ⟨t, hscan, Token.counts_of_unplaced ht⟩

theorem scanned_minus {ds : List Char} (h : isDigits ds = true) :
    ∃ m t : Token, scanned ('-' :: ds) = [m, t] ∧ m.kind = .minus ∧ t.Counts ds := by
  have hmap := (spelt_minus h).map_unplaced
  obtain ⟨m, ts, hscan, hm, hts⟩ := List.map_eq_cons_iff.mp hmap
  obtain ⟨t, rfl, ht⟩ := List.map_eq_singleton_iff.mp hts
  exact ⟨m, t, hscan, congrArg Token.kind hm, Token.counts_of_unplaced ht⟩

/-! ## Values -/

namespace Eval

variable {r : CallRule} {n d : Nat} {s : ScopeId} {σ : State} {t m : Token} {ds : List Char}

theorem eval_counts {v : Integer} (ht : t.Counts ds) (h : isDigits ds = true)
    (hv : v.toInt = Decimal.value ds) : eval r (n + 1) d s (.number t) σ = .done (.int v) σ := by
  have hlit : Operators.literal t = .ok (.int v) := by
    simp only [Operators.literal, ht.1, ht.2, Integer.read?_of_isDigits h,
      Integer.fit?_eq_some_iff.mpr hv]
  show settle (fun _ => t.pos) (Operators.literal t) σ = _
  rw [hlit]
  rfl

theorem eval_counts_beyond (ht : t.Counts ds) (h : isDigits ds = true)
    (hv : 2 ^ 63 - 1 < Decimal.value ds) :
    eval r (n + 1) d s (.number t) σ = .failed ⟨t.pos, .intLiteral t.literal⟩ σ := by
  have hnone : Integer.fit? (Decimal.value ds : Int) = none :=
    Integer.fit?_eq_none_of_not (by omega)
  have hlit : Operators.literal t = .error (.intLiteral t.literal) := by
    simp only [Operators.literal, ht.1, ht.2, Integer.read?_of_isDigits h, hnone]
  show settle (fun _ => t.pos) (Operators.literal t) σ = _
  rw [hlit]
  rfl

end Eval

/-! ## Lines -/

theorem Store.restore_bindings (st : Store) (s : ScopeId) : st.restore s (st.bindings s) = st := by
  have hframe : ∀ f, st.frames[s]? = some f → (⟨st.bindings s, f.parent⟩ : Frame) = f := by
    intro f hf
    rw [bindings, hf]
  refine congrArg Store.mk (Array.ext_getElem? fun i => ?_)
  by_cases hi : s = i
  · subst hi
    rw [Array.getElem?_modify, if_pos rfl]
    cases hf : st.frames[s]? with
    | none => rfl
    | some f => exact congrArg some (hframe f hf)
  · rw [Array.getElem?_modify, if_neg hi]

namespace Session

/-- the line is run without warnings, has this value, and leaves the session as it was -/
structure Gives (s : Session) (fuel : Nat) (line : List Char) (v : Value) : Prop where
  warnings : (s.eval fuel line).1.warnings = []
  answer : (s.eval fuel line).1.answer = .value v
  unchanged : (s.eval fuel line).2 = s

/-- the line is run without warnings, has a number that is not valid, and leaves the session as it
was -/
structure Refuses (s : Session) (fuel : Nat) (line : List Char) : Prop where
  warnings : (s.eval fuel line).1.warnings = []
  answer : ∃ e, (s.eval fuel line).1.answer = .evalError e ∧ e.kind = .invalidNumber
  unchanged : (s.eval fuel line).2 = s

variable {s : Session} {fuel : Nat} {line ds : List Char} {tree : Expr}

theorem gives_of_done {v : Value} (hp : s.parse line = ([], .ok tree))
    (h : Eval.eval s.rule fuel 0 s.global tree ⟨s.store, #[]⟩ = .done v ⟨s.store, #[]⟩) :
    s.Gives fuel line v := by
  have hline := eval_of_done hp h
  constructor
  · rw [hline]
  · rw [hline]
  · rw [hline]

theorem refuses_of_failed {e : EvalError} (hp : s.parse line = ([], .ok tree))
    (h : Eval.eval s.rule fuel 0 s.global tree ⟨s.store, #[]⟩ = .failed e ⟨s.store, #[]⟩)
    (he : e.kind = .invalidNumber) : s.Refuses fuel line := by
  have hline := eval_of_failed hp h
  constructor
  · rw [hline]
  · rw [hline]
    exact ⟨e, rfl, he⟩
  · rw [hline, bindings, Store.restore_bindings]

/-- a line that is scanned without fault, and is one factor, is read as that factor -/
theorem parse_of_factor {ts : List Token} {P : Expr → Prop} (hspelt : Spelt line ts)
    (hbeg : Grammar.Begins (scanned line))
    (h : ∀ bound stop, Sentence.Takes 1 (Sentence.factor bound stop) (scanned line) [] P) :
    ∃ tree, s.parse line = ([], .ok tree) ∧ P tree := by
  have hcalm : Sentence.Calm [] := fun t u htu => nomatch htu
  have hne : scanned line ≠ [] := by
    obtain ⟨t, v, htv, -⟩ := hbeg
    exact htv ▸ List.cons_ne_nil t v
  have hfactor := h (s.store.has s.global) (Sentence.ofTokens (scan line).tokens).stop
  have hexpr := hfactor.expr_of_factor
    hbeg hcalm
  obtain ⟨tree, htree, hP⟩ := hexpr.parse hne
  refine ⟨tree, ?_, hP⟩
  rw [← words_ofTokens_scan] at htree
  rw [Session.parse, hspelt.diagnostics, ExprShell.parse]
  exact congrArg _ htree

theorem parse_digits (s : Session) (h : isDigits ds = true) :
    ∃ t : Token, s.parse ds = ([], .ok (.number t)) ∧ t.Counts ds := by
  obtain ⟨t, hscan, ht⟩ := scanned_digits h
  have hbeg : Grammar.Begins (scanned ds) := by
    rw [hscan]
    exact .sign _ (.inr (.inr (.inl ht.1)))
  obtain ⟨tree, hparse, rfl⟩ := parse_of_factor (s := s) (spelt_digits h) hbeg fun bound stop => by
    rw [hscan]
    exact .number (.inl ht.1)
  exact ⟨t, hparse, ht⟩

theorem parse_minus (s : Session) (h : isDigits ds = true) :
    ∃ m t : Token, s.parse ('-' :: ds) = ([], .ok (.unary m (.number t))) ∧ m.kind = .minus ∧
      t.Counts ds := by
  obtain ⟨m, t, hscan, hm, ht⟩ := scanned_minus h
  have hbeg : Grammar.Begins (scanned ('-' :: ds)) := by
    rw [hscan]
    exact .sign _ (.inr (.inl hm))
  obtain ⟨tree, hparse, a, rfl, rfl⟩ :=
    parse_of_factor (s := s) (spelt_minus h) hbeg fun bound stop => by
      rw [hscan]
      exact .signed (.inr hm) (.number (.inl ht.1))
  exact ⟨m, t, hparse, hm, ht⟩

theorem gives_digits (s : Session) (fuel : Nat) (h : isDigits ds = true) {v : Integer}
    (hv : v.toInt = Decimal.value ds) : s.Gives (fuel + 1) ds (.int v) := by
  obtain ⟨t, hparse, ht⟩ := s.parse_digits h
  exact gives_of_done hparse (Eval.eval_counts ht h hv)

theorem refuses_digits (s : Session) (fuel : Nat) (h : isDigits ds = true)
    (hv : 2 ^ 63 - 1 < Decimal.value ds) : s.Refuses (fuel + 1) ds := by
  obtain ⟨t, hparse, ht⟩ := s.parse_digits h
  exact refuses_of_failed hparse (Eval.eval_counts_beyond ht h hv) rfl

/-- what is behind the minus fits if its negation does, the least integer apart -/
theorem gives_minus (s : Session) (fuel : Nat) (h : isDigits ds = true) {v : Integer}
    (hv : v.toInt = -Decimal.value ds) (hleast : v.toInt ≠ -2 ^ 63) :
    s.Gives (fuel + 2) ('-' :: ds) (.int v) := by
  obtain ⟨m, t, hparse, hm, ht⟩ := s.parse_minus h
  have hlow := v.le_toInt
  obtain ⟨w, hw, -⟩ := Integer.exists_toInt_eq (z := Decimal.value ds) (by omega)
  have hneg : Operators.unary m (.int w) = .ok (.int v) := by
    have hfit : Integer.fit? (-w.toInt) = some v := Integer.fit?_eq_some_iff.mpr (by omega)
    rw [Operators.unary_minus_integer hm, hfit]
  refine gives_of_done hparse ?_
  show (Eval.eval s.rule (fuel + 1) 0 s.global (.number t) >>= fun v =>
    Eval.settle (fun _ => m.pos) (Operators.unary m v)) _ = _
  rw [Run.bind_done (Eval.eval_counts ht h hw), hneg]
  rfl

theorem refuses_minus (s : Session) (fuel : Nat) (h : isDigits ds = true)
    (hv : 2 ^ 63 - 1 < Decimal.value ds) : s.Refuses (fuel + 2) ('-' :: ds) := by
  obtain ⟨m, t, hparse, -, ht⟩ := s.parse_minus h
  exact refuses_of_failed hparse (Run.bind_failed (Eval.eval_counts_beyond ht h hv)) rfl

/-! ## Integers as they are shown -/

/-- an integer is shown as its digits, behind a minus if it is below zero -/
theorem text_cases (v : Integer) :
    ∃ ds, isDigits ds = true ∧
      (v.toInt = Decimal.value ds ∧ (Value.text (.int v)).toList = ds ∨
        v.toInt = -Decimal.value ds ∧ v.toInt < 0 ∧ (Value.text (.int v)).toList = '-' :: ds) := by
  have hdigits (n : Nat) : isDigits (Decimal.digits n) = true := by
    simpa [isDigits, Decimal.digits_ne_nil] using Decimal.isDigit_of_mem_digits n
  rw [Value.text, Integer.text]
  cases hz : v.toInt with
  | ofNat n =>
    refine ⟨Decimal.digits n, hdigits n, .inl ⟨?_, String.toList_ofList⟩⟩
    rw [Decimal.value_digits]
    rfl
  | negSucc n =>
    refine ⟨Decimal.digits (n + 1), hdigits (n + 1), .inr ⟨?_, ?_, String.toList_ofList⟩⟩
    · rw [Decimal.value_digits]
      rfl
    · exact Int.negSucc_lt_zero n

/-- **An integer that is shown can be run again, but for the least one.**  In any session the line
that shows an integer has that integer as its value, without warnings, and leaves the session as it
was; the digits of the least integer do not fit without their minus, and are refused.  A line of
digits, with any number of zeros before it, has the integer that it stands for as its value, or is
refused if that does not fit. -/
theorem integers_read_back (s : Session) (fuel : Nat) :
    (∀ v : Integer,
      (v.toInt ≠ -2 ^ 63 → s.Gives (fuel + 2) (Value.text (.int v)).toList (.int v)) ∧
      (v.toInt = -2 ^ 63 → s.Refuses (fuel + 2) (Value.text (.int v)).toList)) ∧
    ∀ ds : List Char, ds ≠ [] → (∀ c ∈ ds, Text.isDigit c = true) →
      let n : Nat := Nat.ofDigits 10 (ds.reverse.map Decimal.digitValue)
      (n ≤ 2 ^ 63 - 1 → ∃ w : Integer, w.toInt = n ∧ s.Gives (fuel + 1) ds (.int w)) ∧
      (2 ^ 63 - 1 < n → s.Refuses (fuel + 1) ds) := by
  constructor
  · intro v
    obtain ⟨ds, h, ⟨hv, htext⟩ | ⟨hv, hneg, htext⟩⟩ := text_cases v
    · rw [htext]
      refine ⟨fun _ => s.gives_digits (fuel + 1) h hv, fun hleast => ?_⟩
      omega
    · rw [htext]
      refine ⟨fun hleast => s.gives_minus fuel h hv hleast, fun hleast => ?_⟩
      exact s.refuses_minus fuel h (by omega)
  · intro ds hne hds n
    have h : isDigits ds = true := by simpa [isDigits, hne] using hds
    have hn : Decimal.value ds = n := Decimal.value_eq_ofDigits ds
    constructor
    · intro hfits
      obtain ⟨w, hw, -⟩ := Integer.exists_toInt_eq (z := n) (by omega)
      exact ⟨w, hw, s.gives_digits fuel h (by rw [hw, hn])⟩
    · intro hbeyond
      exact s.refuses_digits fuel h (by omega)

/-- `-7`, the least integer, digits with zeros before them, and the first number that is too
great -/
theorem integers_read_back_bounds :
    let s := Session.new ⟨.lexical, 5⟩ true
    s.Gives 2 "-7".toList (.int (-7)) ∧ s.Refuses 2 "-9223372036854775808".toList ∧
      (∃ w : Integer, w.toInt = 7 ∧ s.Gives 1 "007".toList (.int w)) ∧
      s.Refuses 1 "9223372036854775808".toList := by
  intro s
  obtain ⟨hshown, hdigits⟩ := integers_read_back s 0
  have hseven : (Value.text (.int (-7))).toList = "-7".toList := by decide +kernel
  have hleast : (Value.text (.int Int64.minValue)).toList = "-9223372036854775808".toList := by
    decide +kernel
  refine ⟨?_, ?_, ?_, ?_⟩
  · exact hseven ▸ (hshown (-7)).1 (by decide)
  · exact hleast ▸ (hshown Int64.minValue).2 (by decide)
  · have hall : ∀ c ∈ "007".toList, Text.isDigit c = true := List.all_eq_true.mp (by decide)
    exact (hdigits _ (by decide) hall).1 (by decide +kernel)
  · have hall : ∀ c ∈ "9223372036854775808".toList, Text.isDigit c = true :=
      List.all_eq_true.mp (by decide)
    exact (hdigits _ (by decide) hall).2 (by decide +kernel)

end Session

end ExprShell
