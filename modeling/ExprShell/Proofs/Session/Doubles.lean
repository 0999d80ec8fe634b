import ExprShell.Proofs.Eval.Invariant
import ExprShell.Proofs.Expr.Nodes
import ExprShell.Proofs.Session.Course

/-!
# Where doubles come from

A double is written, or it counts the rounds of a loop; no operator makes one from other values.
So a session whose lines hold neither a double nor the word `FOR` knows no doubles: not as an
answer, not as an argument, and not in any scope, whether its lines fail or not.

* `Expr.Exact`              a tree without doubles and without counted loops;
* `Value.Exact`             no double, and no function with one in its body;
* `Eval.exactness`          such values are an invariant;
* `Session.no_doubles`      sessions.
-/

namespace ExprShell

namespace Expr

/-- no number of the tree is a double, and no loop of it counts -/
structure Exact (e : Expr) : Prop where
  number : ∀ t, (number t).Inside e → t.kind ≠ .double
  count : ∀ t x a b c f, ¬ (count t x a b c f).Inside e

theorem Exact.child {e a : Expr} (h : e.Exact) (ha : a ∈ e.children) : a.Exact where
  number t ht := h.number t (inside_iff_child.mpr (.inr ⟨a, ha, ht⟩))
  count t x b c d f hf := h.count t x b c d f (inside_iff_child.mpr (.inr ⟨a, ha, hf⟩))

theorem mem_children_of_mem_parts {e a : Expr} (h : a ∈ e.parts) : a ∈ e.children := by
  cases e with
  | func t x ps e => cases h
  | _ => exact h

namespace Built

variable {bound : Names} {w : List Token} {e a : Expr}

theorem child (h : e.Built bound w) (ha : a ∈ e.children) (hne : a ≠ .absent) :
    a.Built bound w := by
  cases h with
  | number | var => cases ha
  | declare _ _ _ he | assign _ _ he | unary _ _ he | func _ _ _ he =>
    exact List.mem_singleton.mp ha ▸ he
  | binary _ _ hl hr => rcases List.mem_pair.mp ha with rfl | rfl <;> assumption
  | loop _ _ hc he => rcases List.mem_pair.mp ha with rfl | rfl <;> assumption
  | cond _ htests hbodies he =>
    rcases List.mem_append.mp ha with ha | ha
    · obtain ⟨b, hb, ha⟩ := List.mem_flatMap.mp ha
      rcases List.mem_pair.mp ha with rfl | rfl
      · exact htests b hb
      · exact hbodies b hb
    · obtain rfl := List.mem_singleton.mp ha
      exact he hne
  | count _ _ _ ha' hb hs he =>
    simp only [children, List.mem_cons, List.not_mem_nil, or_false] at ha
    rcases ha with rfl | rfl | rfl | rfl
    · exact ha'
    · exact hb
    · exact hs hne
    · exact he
  | call hf has =>
    rcases List.mem_cons.mp ha with rfl | ha
    · exact hf
    · exact has a ha

/-- what stands inside a tree is built from the same words -/
theorem inside (h : e.Built bound w) (ha : a.Inside e) (hne : a ≠ .absent) : a.Built bound w := by
  induction ha with
  | self => exact h
  | @child b c e _ hc ih =>
    have hb : b ≠ .absent := by
      rintro rfl
      cases hc
    exact (ih h hb).child hc hne

/-- a tree holds doubles and counted loops only if its words do -/
theorem exact (h : e.Built bound w) (hw : ∀ t ∈ w, t.kind ≠ .double ∧ t.is .for = false) :
    e.Exact where
  number t ht := by
    have hbuilt := h.inside ht nofun
    cases hbuilt with
    | number hmem _ => exact (hw t hmem).1
  count t x a b c f hf := by
    have hbuilt := h.inside hf nofun
    cases hbuilt with
    | count htx hfor =>
      rw [(hw t (htx.subset List.mem_cons_self)).2] at hfor
      cases hfor

end Built

end Expr

/-! ## Values -/

/-- no double, and no function with doubles or counted loops in its body -/
def Value.Exact : Value → Prop
  | .double _ => False
  | .function f => f.body.Exact
  | _ => True

theorem Value.Exact.kind_ne {v : Value} (h : v.Exact) : v.kind ≠ .double := by
  cases v with
  | double _ => exact h.elim
  | _ => exact nofun

namespace Operators

inductive Whole : Except EvalError.Cause Value → Prop
  | int (v : Integer) : Whole (.ok (.int v))
  | error (c : EvalError.Cause) : Whole (.error c)

theorem Whole.exact {x : Except EvalError.Cause Value} {v : Value} (h : Whole x)
    (hx : x = .ok v) : v.Exact := by
  subst hx
  cases h
  trivial

variable {v w : Value}

theorem literal_whole {t : Token} (ht : t.kind ≠ .double) : Whole (literal t) := by
  unfold literal
  split
  · split
    · exact .int _
    · exact .error _
  · next hk => exact absurd hk ht
  · exact .error _

theorem arithmetic_whole (f : Arithmetic) (op : String) (hv : v.Exact) (hw : w.Exact) :
    Whole (arithmetic f op v w) := by
  unfold arithmetic
  split
  · split
    · exact .error _
    · split
      · exact .int _
      · exact .error _
  · next hnot =>
    cases v with
    | double _ => exact hv.elim
    | function _ => exact .error _
    | absent => exact .error _
    | int a =>
      cases w with
      | double _ => exact hw.elim
      | function _ => exact .error _
      | absent => exact .error _
      | int b => exact absurd rfl (hnot a b rfl)

theorem compare_whole (holds : Ordering → Bool) (op : String) (v w : Value) :
    Whole (compare holds op v w) := by
  unfold compare
  split
  · exact .int _
  · exact .error _

theorem logic_whole (join : Bool → Bool → Bool) (op : String) (v w : Value) :
    Whole (logic join op v w) := by
  unfold logic
  split
  · exact .int _
  · exact .error _

theorem binary_whole (o : Token) (hv : v.Exact) (hw : w.Exact) : Whole (binary o v w) := by
  unfold binary
  split
  · exact arithmetic_whole _ _ hv hw
  · split
    · exact compare_whole _ _ v w
    · split
      · exact logic_whole _ _ v w
      · split
        · exact logic_whole _ _ v w
        · exact .error _

theorem unary_whole (o : Token) (hv : v.Exact) : Whole (unary o v) := by
  have hnegate : Whole (negate o.lexeme v) := by
    cases v with
    | double _ => exact hv.elim
    | function _ => exact .error _
    | absent => exact .error _
    | int a =>
      rw [negate]
      split
      · exact .int _
      · exact .error _
  have hposit : Whole (posit o.lexeme v) := by
    cases v with
    | double _ => exact hv.elim
    | function _ => exact .error _
    | absent => exact .error _
    | int a => exact .int a
  have hcomplement : Whole (complement o.lexeme v) := by
    unfold complement
    split
    · exact .int _
    · exact .error _
  unfold unary
  split
  · exact hnegate
  · split
    · exact hposit
    · split
      · exact hcomplement
      · exact .error _

end Operators

/-! ## Evaluation -/

/-- no value is a double, in any scope -/
def Eval.exactness (r : CallRule) : Invariant r where
  World := Unit
  le _ _ := True
  store _ st := st.Holds Value.Exact
  scope _ _ := True
  value _ v := v.Exact
  tree _ _ e := e.Exact
  refl _ := trivial
  trans _ _ := trivial
  scope_mono _ h := h
  value_mono _ h := h
  tree_mono _ h := h
  int _ _ := trivial
  absent _ := trivial
  literal h hv := (Operators.literal_whole (h.number _ .self)).exact hv
  binary hv hw hu := (Operators.binary_whole _ hv hw).exact hu
  unary hv hu := (Operators.unary_whole _ hv).exact hu
  counter _ h := absurd .self (h.count _ _ _ _ _ _)
  part h ha := h.child (Expr.mem_children_of_mem_parts ha)
  lookup hst _ hv := hst.lookup hv
  set x hst _ hv := hst.set _ x hv
  func _ h := h.child (List.mem_singleton_self _)
  enter hst _ hf hvs := ⟨(), trivial, hst.add_setAll _ _ hvs, trivial, hf⟩

/-! ## Sessions -/

namespace Session

/-- the line holds no double, and no word `FOR` -/
def ExactLine (line : List Char) : Prop :=
  ∀ t ∈ (scan line).tokens, t.kind ≠ .double ∧ t.is .for = false

instance (line : List Char) : Decidable (ExactLine line) :=
  inferInstanceAs (Decidable (∀ t ∈ (scan line).tokens, t.kind ≠ .double ∧ t.is .for = false))

theorem exact_of_parse {s : Session} {line : List Char} {ds : List Diagnostic} {tree : Expr}
    (h : s.parse line = (ds, .ok tree)) (hline : ExactLine line) : tree.Exact := by
  have hparse : ExprShell.parse (s.store.has s.global) (scan line).tokens = .ok tree :=
    congrArg Prod.snd h
  refine (built_of_parse hparse).exact fun t ht => hline t ?_
  exact (List.takeWhile_subset _) ht

theorem eval_exact {s : Session} (hs : s.store.Holds Value.Exact) (fuel : Nat) {line : List Char}
    (hline : ExactLine line) :
    (s.eval fuel line).2.store.Holds Value.Exact ∧
      ∀ v, (s.eval fuel line).1.answer = .value v → v.Exact := by
  obtain ⟨_, st, -, hst, hstore, hvalue⟩ := eval_kept (I := Eval.exactness s.rule) (W := ())
    trivial hs (fun _ _ hparse => exact_of_parse hparse hline) fuel
  refine ⟨?_, hvalue⟩
  rcases hstore with hstore | hstore
  · rw [hstore]
    exact hst
  · rw [hstore]
    exact Store.Holds.restore hst s.global (hs s.global)

theorem Course.exact {s t : Session} {xs : List (Step × Report)} (h : s.Course xs t)
    (hs : s.store.Holds Value.Exact) (hxs : ∀ line o, (.eval line, o) ∈ xs → ExactLine line) :
    t.store.Holds Value.Exact :=
  h.keeps (P := fun s => s.store.Holds Value.Exact) hs (fun _ hs => hs.add none nofun)
    fun _ hs fuel line o hmem => (eval_exact hs fuel (hxs line o hmem)).1

/-- **Doubles are written or counted.**  After any course whose lines hold no double and no `FOR`,
and for every further line of this kind: no scope binds a double; the value of the line, if it has
one, is none; and while the line is evaluated, whether it ends or not, no scope binds a double and
no function is called with one. -/
theorem no_doubles (rule : CallRule) (logs : Bool) (xs : List (Step × Report)) (s : Session)
    (h : (Session.new rule logs).Course xs s)
    (hxs : ∀ line o, (.eval line, o) ∈ xs → ExactLine line) :
    s.store.Holds (·.kind ≠ .double) ∧
    ∀ line, ExactLine line →
      (∀ fuel v, (s.eval fuel line).1.answer = .value v → v.kind ≠ .double) ∧
      (∀ fuel, (s.eval fuel line).2.store.Holds (·.kind ≠ .double)) ∧
      ∀ ds tree, s.parse line = (ds, .ok tree) →
        let M : Eval.Moment := ⟨0, s.global, .tree tree, ⟨s.store, #[]⟩⟩
        (∀ σ, M.Meets s.rule σ → σ.store.Holds (·.kind ≠ .double)) ∧
        ∀ ls k i p f vs σ, M.Calls s.rule ls k i p f vs σ → ∀ v ∈ vs, v.kind ≠ .double := by
  have hs : s.store.Holds Value.Exact := h.exact (Store.Holds.empty.add none nofun) hxs
  refine ⟨hs.mono fun _ => Value.Exact.kind_ne, fun line hline => ⟨?_, ?_, ?_⟩⟩
  · exact fun fuel v hv => ((eval_exact hs fuel hline).2 v hv).kind_ne
  · exact fun fuel => (eval_exact hs fuel hline).1.mono fun _ => Value.Exact.kind_ne
  · intro ds tree hparse M
    have htree : M.task.Held (Eval.exactness s.rule) () M.scope := exact_of_parse hparse hline
    refine ⟨fun σ hmeets => ?_, fun ls k i p f vs σ hcall v hv => ?_⟩
    · obtain ⟨_, _, hσ⟩ := hmeets.kept (I := Eval.exactness s.rule) trivial htree hs
      exact Store.Holds.mono hσ fun _ => Value.Exact.kind_ne
    · obtain ⟨_, _, _, _, hvs⟩ := hcall.kept (I := Eval.exactness s.rule) trivial htree hs
      exact Value.Exact.kind_ne (hvs v hv)

/-- a function that divides, and a line that calls it: the quotient is a whole number -/
theorem no_doubles_quotient :
    let first := "FN f(x) -> x / 2".toList
    let second := "VAR y = f(7)".toList
    ∃ o s v, (Session.new ⟨.dynamic, 5⟩ true).Course [(.eval first, o)] s ∧
      ExactLine first ∧ ExactLine second ∧ (s.eval 9 second).2.bindings.get? "y" = some v ∧
      v.text = "3" ∧ v.kind ≠ .double := by
  intro first second
  let s₀ := Session.new ⟨.dynamic, 5⟩ true
  let r₁ := s₀.take 9 (.eval first)
  have hend : s₀.Ends (.eval first) r₁.1 r₁.2 := ⟨9, rfl, by decide +kernel⟩
  have hcourse : s₀.Course [(.eval first, r₁.1)] r₁.2 := .snoc .nil hend
  have hfirst : ExactLine first := by decide +kernel
  have hsecond : ExactLine second := by decide +kernel
  have hlines : ∀ line o, (Step.eval line, o) ∈ [(Step.eval first, r₁.1)] → ExactLine line := by
    intro line o hmem
    cases List.mem_singleton.mp hmem
    exact hfirst
  obtain ⟨-, hline⟩ := no_doubles ⟨.dynamic, 5⟩ true _ _ hcourse hlines
  have htext : ((r₁.2.eval 9 second).2.bindings.get? "y").map Value.text = some "3" := by
    decide +kernel
  obtain ⟨v, hv, hthree⟩ := Option.map_eq_some_iff.mp htext
  refine ⟨r₁.1, r₁.2, v, hcourse, hfirst, hsecond, hv, hthree, ?_⟩
  exact (hline second hsecond).2.1 9 _ "y" v hv

end Session

end ExprShell
