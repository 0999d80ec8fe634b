import ExprShell.Proofs.Expr.Assigned
import ExprShell.Proofs.Session.Course
import ExprShell.Proofs.Store.Names

/-!
# What a line does to the global names

A line that gives a value binds only names that it assigns outside the bodies of its functions, and
a name that was not bound before is one that it declares: whatever functions it calls, their bodies
bind names in scopes of their own.  A bare assignment declares nothing, since the line would not
have been read if the name had not been bound; that is asked of the global scope, and no scope lies
around that one.

* `Session.Rooted`        the global scope is there, and nothing lies around it;
* `Session.Ends.done`     how a line that gives a value is run;
* `Session.globals_named` which names are bound after it, and which values they have.
-/

namespace ExprShell

/-- a name is bound in a scope around which nothing lies, or not at all -/
theorem Store.has_of_root {st : Store} {s : ScopeId} (hs : st.parent s = none) (x : String) :
    st.has s x = ((st.bindings s).get? x).isSome := by
  rw [Store.has, Store.lookup, hs]
  cases (st.bindings s).get? x <;> rfl

namespace Session

/-- the global scope is there, and nothing lies around it -/
structure Rooted (s : Session) : Prop where
  there : s.global < s.store.frames.size
  root : s.store.parent s.global = none

namespace Rooted

theorem of_begin (rule : CallRule) (logs : Bool) (st : Store) :
    Rooted ⟨rule, logs, st.add none [], st.next⟩ where
  there := by simp [Store.add, Store.next]
  root := by rw [st.parent_add, if_pos rfl]

/-- a run from the global scope leaves it where it lay -/
theorem of_confined {s : Session} (h : Rooted s) {X : List String} {st : Store}
    (hc : Confined s.global X s.store st) : Rooted { s with store := st } where
  there := Nat.lt_of_lt_of_le h.there hc.grows
  root := (hc.parent h.there).trans h.root

theorem restore {s : Session} (h : Rooted s) (bs : Bindings) :
    Rooted { s with store := s.store.restore s.global bs } where
  there := by
    rw [Store.restore, Array.size_modify]
    exact h.there
  root := (s.store.parent_restore s.global bs s.global).trans h.root

theorem eval {s : Session} (h : Rooted s) (fuel : Nat) (line : List Char) :
    Rooted (s.eval fuel line).2 := by
  rcases hp : s.parse line with ⟨ds, e | tree⟩
  · rw [eval_of_parseError hp]
    exact h
  · have hstay := Eval.eval_stays s.rule fuel 0 s.global tree ⟨s.store, #[]⟩
    cases hσ : Eval.eval s.rule fuel 0 s.global tree ⟨s.store, #[]⟩ with
    | done v σ =>
      rw [eval_of_done hp hσ]
      exact h.of_confined (hstay σ (by rw [hσ]; rfl))
    | failed e σ =>
      rw [eval_of_failed hp hσ]
      exact (h.of_confined (hstay σ (by rw [hσ]; rfl))).restore s.bindings
    | unfinished =>
      rw [eval_of_unfinished hp hσ]
      exact h

end Rooted

theorem Course.rooted {s t : Session} {xs : List (Step × Report)} (h : s.Course xs t)
    (hs : Rooted s) : Rooted t :=
  h.keeps hs (fun s _ => .of_begin s.rule s.logs s.store)
    fun _ hs fuel line _ _ => hs.eval fuel line

/-- a line that gives a value was read, and its tree was evaluated -/
theorem Ends.done {s s' : Session} {line : List Char} {o : Report}
    (h : s.Ends (.eval line) o s') (ho : o.succeeded = true) :
    ∃ ds tree fuel v σ, s.parse line = (ds, .ok tree) ∧
      Eval.eval s.rule fuel 0 s.global tree ⟨s.store, #[]⟩ = .done v σ ∧
      o.tree = some tree ∧ s' = { s with store := σ.store } := by
  obtain ⟨fuel, rfl, rfl⟩ := h.line
  rcases hp : s.parse line with ⟨ds, e | tree⟩
  · rw [eval_of_parseError hp] at ho
    cases ho
  · cases hσ : Eval.eval s.rule fuel 0 s.global tree ⟨s.store, #[]⟩ with
    | done v σ =>
      rw [eval_of_done hp hσ]
      exact ⟨ds, tree, fuel, v, σ, rfl, hσ, rfl, rfl⟩
    | failed e σ =>
      rw [eval_of_failed hp hσ] at ho
      cases ho
    | unfinished =>
      rw [eval_of_unfinished hp hσ] at ho
      cases ho

section
variable {s : Session} {line : List Char} {ds : List Diagnostic} {tree : Expr} {st : Store}

/-- a name that was not assigned has the value that it had -/
theorem get?_of_not_assigned (hs : Rooted s) (hc : Confined s.global tree.targets s.store st)
    {x : String} (hx : x ∉ tree.assignments.map Prod.snd) :
    (st.bindings s.global).get? x = s.bindings.get? x := by
  rw [Expr.map_assignments] at hx
  exact hc.values hs.there x hx

/-- a name that was not bound before is declared -/
theorem declares_of_new (hs : Rooted s) (hparse : s.parse line = (ds, .ok tree))
    (hc : Confined s.global tree.targets s.store st) {x : String}
    (hx : ((st.bindings s.global).get? x).isSome) (hbefore : s.bindings.get? x = none) :
    ∃ k, (k, x) ∈ tree.assignments ∧ Declares (scanned line) k x := by
  have hmem : x ∈ tree.assignments.map Prod.snd := by
    by_contra hnot
    rw [get?_of_not_assigned hs hc hnot, hbefore] at hx
    cases hx
  obtain ⟨⟨k, y⟩, ha, rfl⟩ := List.mem_map.mp hmem
  have hread : ExprShell.parse (s.store.has s.global) (scan line).tokens = .ok tree :=
    congrArg Prod.snd hparse
  rcases (built_of_parse_scan hread).assignment ha with hdecl | hbound
  · exact ⟨k, ha, hdecl⟩
  · rw [Store.has_of_root hs.root] at hbound
    have hsome : (s.bindings.get? y).isSome = true := hbound
    rw [hbefore] at hsome
    cases hsome

end

/-- **A line changes only the global names that it assigns, and binds only those that it declares.**
After any course, and for every line that gives a value: what was bound is still bound; a name that
is bound now and was not before stands in the line behind `VAR`, `FOR` or `FN`, outside the bodies
of functions; and a name that is not assigned there has the value that it had.  So the names are the
same if no such word stands there, whatever the line calls. -/
theorem globals_named (rule : CallRule) (logs : Bool) (xs : List (Step × Report)) (s s' : Session)
    (line : List Char) (o : Report) (h : (Session.new rule logs).Course xs s)
    (hend : s.Ends (.eval line) o s') (ho : o.succeeded = true) :
    ∃ tree, o.tree = some tree ∧
      (∀ x, (s.bindings.get? x).isSome → (s'.bindings.get? x).isSome) ∧
      (∀ x, (s'.bindings.get? x).isSome → s.bindings.get? x = none →
        ∃ k, (k, x) ∈ tree.assignments ∧ Declares (scanned line) k x) ∧
      (∀ x, x ∉ tree.assignments.map Prod.snd → s'.bindings.get? x = s.bindings.get? x) ∧
      ((∀ a ∈ tree.assignments, ¬ (a.1.is .var ∨ a.1.is .for ∨ a.1.is .fn)) →
        ∀ x, (s'.bindings.get? x).isSome = (s.bindings.get? x).isSome) := by
  have hroot := h.rooted (.of_begin rule logs .empty)
  obtain ⟨ds, tree, fuel, v, σ, hparse, hrun, htree, rfl⟩ := hend.done ho
  have hc : Confined s.global tree.targets s.store σ.store :=
    Eval.eval_stays s.rule fuel 0 s.global tree ⟨s.store, #[]⟩ σ (by rw [hrun]; rfl)
  have hkept := hc.names hroot.there
  refine ⟨tree, htree, hkept, fun x hx hbefore => declares_of_new hroot hparse hc hx hbefore,
    fun x hx => get?_of_not_assigned hroot hc hx, ?_⟩
  intro hnone x
  rw [Bool.eq_iff_iff]
  refine ⟨fun hx => ?_, hkept x⟩
  by_contra hnot
  have hbefore : s.bindings.get? x = none := by simpa using hnot
  obtain ⟨k, ha, hdecl⟩ := declares_of_new hroot hparse hc hx hbefore
  exact hnone (k, x) ha hdecl.word

/-- a line that defines a function and calls it: the body declares an `a` for itself, and the global
one is what it was -/
theorem globals_named_own_scope :
    let first := "VAR a = 1".toList
    let second := "VAR b = (FN f(a) -> VAR a = a + 1)(a)".toList
    ∃ o₁ s₁ o₂ s₂, (Session.new ⟨.dynamic, 5⟩ true).Course [(.eval first, o₁)] s₁ ∧
      s₁.Ends (.eval second) o₂ s₂ ∧ o₂.succeeded = true ∧
      s₁.bindings.get? "b" = none ∧ (s₂.bindings.get? "b").isSome ∧
      (∃ k, Declares (scanned second) k "b") ∧
      (s₁.bindings.get? "a").isSome ∧ s₂.bindings.get? "a" = s₁.bindings.get? "a" := by
  intro first second
  let s₀ := Session.new ⟨.dynamic, 5⟩ true
  let r₁ := s₀.take 9 (.eval first)
  let r₂ := r₁.2.take 9 (.eval second)
  have hend₁ : s₀.Ends (.eval first) r₁.1 r₁.2 := ⟨9, rfl, by decide +kernel⟩
  have hend₂ : r₁.2.Ends (.eval second) r₂.1 r₂.2 := ⟨9, rfl, by decide +kernel⟩
  have hsucc : r₂.1.succeeded = true := by decide +kernel
  have hcourse : s₀.Course [(.eval first, r₁.1)] r₁.2 := .snoc .nil hend₁
  have hold : r₁.2.bindings.get? "b" = none := Option.isNone_iff_eq_none.mp (by decide +kernel)
  have hnew : (r₂.2.bindings.get? "b").isSome := by decide +kernel
  have hassigned : r₂.1.tree.map (·.assignments.map Prod.snd) = some ["b", "f"] := by
    decide +kernel
  obtain ⟨tree, htree, -, hdecl, hsame, -⟩ :=
    globals_named ⟨.dynamic, 5⟩ true _ _ _ _ _ hcourse hend₂ hsucc
  rw [htree] at hassigned
  have hnames : tree.assignments.map Prod.snd = ["b", "f"] := Option.some.inj hassigned
  have ha : "a" ∉ tree.assignments.map Prod.snd := by
    rw [hnames]
    decide
  obtain ⟨k, -, hk⟩ := hdecl "b" hnew hold
  exact ⟨r₁.1, r₁.2, r₂.1, r₂.2, hcourse, hend₂, hsucc, hold, hnew, ⟨k, hk⟩, by decide +kernel,
    hsame "a" ha⟩

end Session

end ExprShell
