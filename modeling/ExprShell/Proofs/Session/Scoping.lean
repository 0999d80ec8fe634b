import ExprShell.Proofs.Eval.Budget
import ExprShell.Proofs.Eval.Scoping
import ExprShell.Proofs.Session.Course

/-!
# Sessions under dynamic and lexical calls

Two sessions that differ only in the scopes around calls show the same at every step, as long as the
functions in the lines that they run are closed: what a body reads is a parameter of that function
or a global name that no function binds.

* `Session.Ends.unique`, `Session.Course.unique`   a step shows one thing only, whatever the fuel;
* `Session.Rescoped`                  sessions that show the same from now on;
* `Session.Course.rescoped`           whole courses.
-/

namespace ExprShell

namespace Session

/-! ## The fuel does not matter -/

theorem eval_of_le {s : Session} {fuel fuel' : Nat} (hle : fuel ≤ fuel') {line : List Char}
    (h : (s.eval fuel line).1.answer ≠ .unfinished) : s.eval fuel' line = s.eval fuel line := by
  rcases hp : s.parse line with ⟨ds, e | tree⟩
  · rw [eval_of_parseError hp, eval_of_parseError hp]
  · have hrun : Eval.eval s.rule fuel 0 s.global tree ⟨s.store, #[]⟩ ≠ .unfinished := by
      intro hσ
      rw [eval_of_unfinished hp hσ] at h
      exact h rfl
    have heq : Eval.eval s.rule fuel' 0 s.global tree ⟨s.store, #[]⟩ =
        Eval.eval s.rule fuel 0 s.global tree ⟨s.store, #[]⟩ :=
      Eval.run_of_le (t := .tree tree) hle hrun
    cases hσ : Eval.eval s.rule fuel 0 s.global tree ⟨s.store, #[]⟩ with
    | done v σ => rw [eval_of_done hp (heq.trans hσ), eval_of_done hp hσ]
    | failed e σ => rw [eval_of_failed hp (heq.trans hσ), eval_of_failed hp hσ]
    | unfinished => exact absurd hσ hrun

theorem take_of_le {s : Session} {fuel fuel' : Nat} (hle : fuel ≤ fuel') {x : Step}
    (h : (s.take fuel x).1.finished = true) : s.take fuel' x = s.take fuel x := by
  cases x with
  | eval line =>
    have hline : (s.eval fuel line).1.answer ≠ .unfinished := by
      intro hu
      simp [take, Report.ofLine, Report.finished, hu, Answer.shown] at h
    rw [take, take, eval_of_le hle hline]
  | parse line => rfl
  | reset => rfl

theorem Ends.unique {s t u : Session} {x : Step} {o o' : Report} (h : s.Ends x o t)
    (h' : s.Ends x o' u) : o = o' ∧ t = u := by
  obtain ⟨fuel, htake, hend⟩ := h
  obtain ⟨fuel', htake', hend'⟩ := h'
  have hfirst : (s.take fuel x).1.finished = true := by rw [htake]; exact hend
  have hsecond : (s.take fuel' x).1.finished = true := by rw [htake']; exact hend'
  have heq : (o, t) = (o', u) := by
    rcases Nat.le_total fuel fuel' with hle | hle
    · rw [← htake, ← htake', take_of_le hle hfirst]
    · rw [← htake, ← htake', take_of_le hle hsecond]
  exact Prod.mk.inj heq

theorem Course.unique {s t u : Session} {xs ys : List (Step × Report)} (h : s.Course xs t)
    (h' : s.Course ys u) (hsteps : xs.map Prod.fst = ys.map Prod.fst) : xs = ys ∧ t = u := by
  induction h generalizing ys u with
  | nil =>
    cases h' with
    | nil => exact ⟨rfl, rfl⟩
    | snoc => simp at hsteps
  | @snoc xs t t' x o before last ih =>
    cases h' with
    | nil => simp at hsteps
    | @snoc ys v _ y o' before' last' =>
      rw [List.map_append, List.map_append] at hsteps
      obtain ⟨hbefore, hlast⟩ := List.append_inj' hsteps rfl
      obtain rfl : x = y := List.singleton_inj.mp hlast
      obtain ⟨rfl, rfl⟩ := ih before' hbefore
      obtain ⟨rfl, rfl⟩ := last.unique last'
      exact ⟨rfl, rfl⟩

theorem tree_eval {s : Session} {line : List Char} {ds : List Diagnostic} {tree : Expr}
    (fuel : Nat) (h : s.parse line = (ds, .ok tree)) : (s.eval fuel line).1.tree = some tree := by
  cases hσ : Eval.eval s.rule fuel 0 s.global tree ⟨s.store, #[]⟩ with
  | done v σ => rw [eval_of_done h hσ]
  | failed e σ => rw [eval_of_failed h hσ]
  | unfinished => rw [eval_of_unfinished h hσ]

/-! ## Sessions that differ in the scopes around calls -/

variable {G : Set String}

/-- sessions that bind the same, under rules with the same limit -/
structure Rescoped (G : Set String) (s t : Session) : Prop where
  limit : s.rule.limit = t.rule.limit
  logs : s.logs = t.logs
  global : s.global = t.global
  store : ∃ W, Store.Rescoped G s.global W s.store t.store

namespace Rescoped

variable {s t : Session}

theorem bindings_eq (h : Rescoped G s t) : s.bindings = t.bindings := by
  obtain ⟨W, hW⟩ := h.store
  rw [bindings, bindings, hW.bindings, h.global]

theorem kept_eq (h : Rescoped G s t) (es : List LogEntry) : s.kept es = t.kept es := by
  rw [kept, kept, h.logs]

theorem parse_eq (h : Rescoped G s t) (line : List Char) : s.parse line = t.parse line := by
  obtain ⟨W, hW⟩ := h.store
  have hhas : s.store.has s.global = t.store.has t.global := by
    funext x
    rw [Store.has, Store.has, ← h.global,
      hW.lookup_eq (Nat.le_refl _) hW.left.global (.inl rfl)]
  rw [parse, parse, hhas]

/-- a line whose functions are closed gives the same -/
theorem eval (h : Rescoped G s t) (fuel : Nat) (line : List Char)
    (hsealed : ∀ ds e, s.parse line = (ds, .ok e) → e.Sealed G) :
    (s.eval fuel line).1 = (t.eval fuel line).1 ∧
      Rescoped G (s.eval fuel line).2 (t.eval fuel line).2 := by
  rcases hp : s.parse line with ⟨ds, e | tree⟩
  · have hq : t.parse line = (ds, .error e) := h.parse_eq line ▸ hp
    rw [eval_of_parseError hp, eval_of_parseError hq, h.kept_eq]
    exact ⟨rfl, h⟩
  · have hq : t.parse line = (ds, .ok tree) := h.parse_eq line ▸ hp
    obtain ⟨W, hW⟩ := h.store
    have hfits : Fits G s.global W s.global tree := .global hW.left.global (hsealed ds tree hp)
    have hrun := ((rescoped G s.global).agree h.limit fuel).tree W 0 s.global s.global tree tree
      ⟨rfl, rfl, hfits⟩ ⟨s.store, #[]⟩ ⟨t.store, #[]⟩ ⟨hW, rfl⟩
    generalize hσ : Eval.eval s.rule fuel 0 s.global tree ⟨s.store, #[]⟩ = x,
      hτ : Eval.eval t.rule fuel 0 s.global tree ⟨t.store, #[]⟩ = y at hrun
    rw [h.global] at hτ
    cases hrun with
    | @done V v w σ τ le state result =>
      obtain ⟨rfl, -⟩ := result
      rw [eval_of_done hp hσ, eval_of_done hq hτ, state.events, h.kept_eq]
      exact ⟨rfl, h.limit, h.logs, h.global, V, state.store⟩
    | @failed V p q c σ τ le state place =>
      obtain rfl : p = q := place
      rw [eval_of_failed hp hσ, eval_of_failed hq hτ, state.events, h.kept_eq]
      refine ⟨rfl, h.limit, h.logs, h.global, V, ?_⟩
      show Store.Rescoped G s.global V _ (τ.store.restore t.global (t.store.bindings t.global))
      rw [← h.global]
      exact state.store.restore hW le
    | unfinished =>
      rw [eval_of_unfinished hp hσ, eval_of_unfinished hq hτ]
      exact ⟨rfl, h⟩

/-- sessions that have just begun, with equally many scopes from before -/
theorem of_begin {r r' : CallRule} (hlimit : r.limit = r'.limit) (logs : Bool) {a b : Store}
    (hnext : a.next = b.next) (hbindings : ∀ i, a.bindings i = b.bindings i) :
    Rescoped G ⟨r, logs, a.add none [], a.next⟩ ⟨r', logs, b.add none [], b.next⟩ := by
  refine ⟨hlimit, rfl, hnext, .replicate (a.next + 1) [], .begin G a, ?_, fun i => ?_⟩
  · show (b.add none []).Sealed G a.next _
    rw [hnext]
    exact .begin G b
  · show (a.add none []).bindings i = (b.add none []).bindings i
    rw [a.bindings_add, b.bindings_add, hnext, hbindings i]

theorem reset (h : Rescoped G s t) : Rescoped G s.reset t.reset := by
  obtain ⟨W, hW⟩ := h.store
  have hbegin : Rescoped G ⟨s.rule, t.logs, s.store.add none [], s.store.next⟩
      ⟨t.rule, t.logs, t.store.add none [], t.store.next⟩ :=
    of_begin h.limit t.logs hW.next_eq hW.bindings
  rw [← h.logs] at hbegin
  rw [Session.reset, Session.reset, ← h.logs]
  exact hbegin

/-- every step is taken in the same way, if the functions of a line that is run are closed -/
theorem take (h : Rescoped G s t) (fuel : Nat) (x : Step)
    (hsealed : ∀ line, x = .eval line → ∀ e, (s.take fuel x).1.tree = some e → e.Sealed G) :
    (s.take fuel x).1 = (t.take fuel x).1 ∧ Rescoped G (s.take fuel x).2 (t.take fuel x).2 := by
  cases x with
  | eval line =>
    obtain ⟨hline, hafter⟩ := h.eval fuel line fun ds e hp =>
      hsealed line rfl e (tree_eval fuel hp)
    refine ⟨?_, hafter⟩
    show Report.ofLine (s.eval fuel line).1 (s.eval fuel line).2 =
      Report.ofLine (t.eval fuel line).1 (t.eval fuel line).2
    rw [Report.ofLine, Report.ofLine, hline, hafter.bindings_eq]
  | parse line =>
    simp only [Session.take, h.parse_eq line, h.bindings_eq]
    split
    · exact ⟨rfl, h⟩
    · exact ⟨rfl, h⟩
  | reset =>
    refine ⟨?_, h.reset⟩
    simp only [Session.take, h.reset.bindings_eq]

end Rescoped

/-! ## Courses -/

/-- every function in a line that was run is closed -/
def Closed (G : Set String) (xs : List (Step × Report)) : Prop :=
  ∀ line o, (Step.eval line, o) ∈ xs → ∀ e, o.tree = some e → e.Sealed G

theorem Course.rescoped {r : CallRule} {logs : Bool} {s : Session} {xs : List (Step × Report)}
    (h : (Session.new r logs).Course xs s) (hclosed : Closed G xs) (r' : CallRule)
    (hlimit : r.limit = r'.limit) :
    ∃ t, (Session.new r' logs).Course xs t ∧ Rescoped G s t := by
  induction h with
  | nil => exact ⟨Session.new r' logs, .nil, .of_begin hlimit logs rfl fun _ => rfl⟩
  | @snoc xs s u x o before last ih =>
    obtain ⟨t, ht, hst⟩ := ih fun line o ho => hclosed line o (List.mem_append_left _ ho)
    obtain ⟨fuel, htake, hend⟩ := last
    have hlast : ∀ line, x = .eval line → ∀ e, (s.take fuel x).1.tree = some e → e.Sealed G := by
      rintro line rfl e he
      rw [htake] at he
      exact hclosed line o (List.mem_append_right _ (List.mem_singleton_self _)) e he
    obtain ⟨hreport, hafter⟩ := hst.take fuel x hlast
    rw [htake] at hreport hafter
    exact ⟨(t.take fuel x).2, .snoc ht ⟨fuel, Prod.ext hreport.symm rfl, hend⟩, hafter⟩

/-- **Dynamic and lexical calls agree on closed functions.**  Let every function in the lines that
are run read only its parameters and names of `G`, and let no function have a name of `G` as a
parameter or assign one.  Then a session under dynamic calls goes through a course if and only if a
session under lexical calls does; and whatever the second shows at the same steps is what the first
shows. -/
theorem scoping_agrees (G : Set String) (limit : Nat) (logs : Bool) (xs : List (Step × Report))
    (hclosed : Closed G xs) :
    ((∃ s, (Session.new ⟨.dynamic, limit⟩ logs).Course xs s) ↔
        ∃ t, (Session.new ⟨.lexical, limit⟩ logs).Course xs t) ∧
      ∀ ys s t, (Session.new ⟨.dynamic, limit⟩ logs).Course xs s →
        (Session.new ⟨.lexical, limit⟩ logs).Course ys t →
        ys.map Prod.fst = xs.map Prod.fst → ys = xs ∧ t.bindings = s.bindings := by
  refine ⟨⟨?_, ?_⟩, ?_⟩
  · rintro ⟨s, hs⟩
    obtain ⟨t, ht, -⟩ := hs.rescoped hclosed ⟨.lexical, limit⟩ rfl
    exact ⟨t, ht⟩
  · rintro ⟨t, ht⟩
    obtain ⟨s, hs, -⟩ := ht.rescoped hclosed ⟨.dynamic, limit⟩ rfl
    exact ⟨s, hs⟩
  · intro ys s t hs ht hsteps
    obtain ⟨u, hu, hsu⟩ := hs.rescoped hclosed ⟨.lexical, limit⟩ rfl
    obtain ⟨hys, htu⟩ := ht.unique hu hsteps
    exact ⟨hys, htu ▸ hsu.bindings_eq.symm⟩

/-- a function that calls the function it is given, and one that is given to it; both read the
global name `k` -/
theorem scoping_agrees_passed_function :
    ∃ xs s t, (Session.new ⟨.dynamic, 5⟩ true).Course xs s ∧
      (Session.new ⟨.lexical, 5⟩ true).Course xs t ∧
      xs.map Prod.fst = [.eval "VAR k = 2".toList, .eval "FN g(h, x) -> h(x) * k".toList,
        .eval "g(FN (y) -> y + k, 3)".toList] ∧
      ∀ o ∈ xs.map Prod.snd, o.succeeded = true := by
  let s₀ := Session.new ⟨.dynamic, 5⟩ true
  let r₁ := s₀.take 20 (.eval "VAR k = 2".toList)
  let r₂ := r₁.2.take 20 (.eval "FN g(h, x) -> h(x) * k".toList)
  let r₃ := r₂.2.take 20 (.eval "g(FN (y) -> y + k, 3)".toList)
  let xs : List (Step × Report) := [(.eval "VAR k = 2".toList, r₁.1),
    (.eval "FN g(h, x) -> h(x) * k".toList, r₂.1), (.eval "g(FN (y) -> y + k, 3)".toList, r₃.1)]
  let G : Set String := {x | x ∈ ["k"]}
  have hcourse : s₀.Course xs r₃.2 :=
    .snoc (.snoc (.snoc .nil ⟨20, rfl, by decide +kernel⟩) ⟨20, rfl, by decide +kernel⟩)
      ⟨20, rfl, by decide +kernel⟩
  have hclosed : Closed G xs := by
    have h₁ : ∀ e ∈ r₁.1.tree, e.Sealed G := by decide +kernel
    have h₂ : ∀ e ∈ r₂.1.tree, e.Sealed G := by decide +kernel
    have h₃ : ∀ e ∈ r₃.1.tree, e.Sealed G := by decide +kernel
    intro line o ho e he
    simp only [xs, List.mem_cons, Prod.mk.injEq, List.not_mem_nil, or_false] at ho
    rcases ho with ⟨-, rfl⟩ | ⟨-, rfl⟩ | ⟨-, rfl⟩
    · exact h₁ e he
    · exact h₂ e he
    · exact h₃ e he
  have hsucceeded : ∀ o ∈ xs.map Prod.snd, o.succeeded = true := by decide +kernel
  obtain ⟨t, ht⟩ := (scoping_agrees G 5 true xs hclosed).1.1 ⟨r₃.2, hcourse⟩
  exact ⟨xs, r₃.2, t, hcourse, ht, rfl, hsucceeded⟩

end Session

end ExprShell
