import ExprShell.Proofs.Eval.Ending
import ExprShell.Proofs.Session.Proper

/-!
# Sessions without loops

In a session that never ran a line with `FOR` or `WHILE` every line comes to an end, because no
function that it binds can have a loop in its body.
-/

namespace ExprShell

instance (w : List Token) : Decidable (Loopless w) :=
  inferInstanceAs (Decidable (∀ t ∈ w, ¬ t.is .for ∧ ¬ t.is .while))

namespace Session

/-- some amount of fuel is enough for a line without loops -/
theorem eval_ends {s : Session} (hs : s.store.Holds (Value.Proper Loopless)) {line : List Char}
    (hline : Loopless (scanned line)) : ∃ fuel, (s.eval fuel line).1.answer ≠ .unfinished := by
  rcases hp : s.parse line with ⟨ds, e | tree⟩
  · refine ⟨0, ?_⟩
    rw [eval_of_parseError hp]
    nofun
  · obtain ⟨fuel, hfuel⟩ := Eval.eval_ends (r := s.rule) (d := 0) (fun _ hw => hw)
      (proper_of_parse hp hline) s.global (σ := ⟨s.store, #[]⟩) hs
    refine ⟨fuel, ?_⟩
    cases hσ : Eval.eval s.rule fuel 0 s.global tree ⟨s.store, #[]⟩ with
    | done v σ =>
      rw [eval_of_done hp hσ]
      nofun
    | failed e σ =>
      rw [eval_of_failed hp hσ]
      nofun
    | unfinished => exact absurd hσ hfuel

theorem finished_ofLine {r : LineResult} {s : Session} :
    (Report.ofLine r s).finished = true ↔ r.answer ≠ .unfinished := by
  obtain ⟨tree, ds, answer, log⟩ := r
  cases answer <;> simp [Report.ofLine, Report.finished, Answer.shown]

theorem exists_ends {s : Session} (hs : s.store.Holds (Value.Proper Loopless)) (x : Step)
    (hx : ∀ line, x = .eval line → Loopless (scanned line)) : ∃ o s', s.Ends x o s' := by
  cases x with
  | eval line =>
    obtain ⟨fuel, hfuel⟩ := eval_ends hs (hx line rfl)
    exact ⟨_, _, fuel, rfl, finished_ofLine.mpr hfuel⟩
  | parse line =>
    refine ⟨_, _, 0, rfl, ?_⟩
    show (s.take 0 (.parse line)).1.finished = true
    simp only [take]
    split <;> rfl
  | reset => exact ⟨_, _, 0, rfl, rfl⟩

/-- the step shows a value or an error -/
def Report.Answered (o : Report) : Prop :=
  (∃ v, o.answer = some (.value v)) ∨ (∃ e, o.answer = some (.parseError e)) ∨
    ∃ e, o.answer = some (.evalError e)

theorem Ends.answered {s s' : Session} {line : List Char} {o : Report}
    (h : s.Ends (.eval line) o s') : o.Answered := by
  have hfin := h.finished
  obtain ⟨fuel, rfl, -⟩ := h.line
  generalize (s.eval fuel line).1 = r, (s.eval fuel line).2 = t at hfin
  obtain ⟨tree, ds, answer, log⟩ := r
  cases answer with
  | value v => exact .inl ⟨v.shown, rfl⟩
  | parseError e => exact .inr (.inl ⟨e, rfl⟩)
  | evalError e => exact .inr (.inr ⟨e, rfl⟩)
  | unfinished => cases hfin

theorem Course.answered {s t : Session} {xs : List (Step × Report)} (h : s.Course xs t)
    {line : List Char} {o : Report} (hmem : (.eval line, o) ∈ xs) : o.Answered := by
  induction h with
  | nil => cases hmem
  | snoc _ last ih =>
    rcases List.mem_append.mp hmem with hbefore | hlast
    · exact ih hbefore
    · cases List.mem_singleton.mp hlast
      exact last.answered

theorem exists_course (rule : CallRule) (logs : Bool) {steps : List Step}
    (h : ∀ line, .eval line ∈ steps → Loopless (scanned line)) :
    ∃ xs s, (Session.new rule logs).Course xs s ∧ xs.map Prod.fst = steps := by
  -- on the steps from their end; before the last one all functions are without loops
  induction steps using List.reverseRecOn with
  | nil => exact ⟨[], _, .nil, rfl⟩
  | append_singleton steps x ih =>
    have hbefore : ∀ line, .eval line ∈ steps → Loopless (scanned line) := fun line hmem =>
      h line (List.mem_append_left _ hmem)
    obtain ⟨xs, s, hxs, rfl⟩ := ih hbefore
    have hs : s.store.Holds (Value.Proper Loopless) := hxs.proper (new_proper rule logs)
      fun line o hmem => hbefore line (List.mem_map.mpr ⟨(.eval line, o), hmem, rfl⟩)
    obtain ⟨o, s', hend⟩ := exists_ends hs x fun line hx =>
      h line (List.mem_append_right _ (List.mem_singleton.mpr hx.symm))
    exact ⟨xs ++ [(x, o)], s', .snoc hxs hend, List.map_append⟩

/-- **Without loops every line comes to an end.**  Under every rule, whatever functions the lines
define and call, steps among which no line has `FOR` or `WHILE` can all be taken, one after the
other, and each line that is run gives a value or an error. -/
theorem loopless_course_ends (rule : CallRule) (logs : Bool) (steps : List Step)
    (h : ∀ line, .eval line ∈ steps → Loopless (scan line).tokens) :
    ∃ xs s, (Session.new rule logs).Course xs s ∧ xs.map Prod.fst = steps ∧
      ∀ line o, (.eval line, o) ∈ xs → o.Answered := by
  have hwords : ∀ line, .eval line ∈ steps → Loopless (scanned line) := by
    intro line hmem t ht
    refine h line hmem t ?_
    rw [tokens_scan]
    exact List.mem_append_left _ ht
  obtain ⟨xs, s, hxs, hsteps⟩ := exists_course rule logs hwords
  exact ⟨xs, s, hxs, hsteps, fun line o hmem => hxs.answered hmem⟩

/-- a function that calls its argument on itself, called with itself -/
theorem loopless_course_ends_self_call :
    let steps : List Step := [.eval "FN f(g) -> g(g)".toList, .eval "f(f)".toList]
    (∀ line, .eval line ∈ steps → Loopless (scan line).tokens) ∧
      ∃ xs s, (Session.new ⟨.dynamic, 40⟩ false).Course xs s ∧ xs.map Prod.fst = steps ∧
        ∀ line o, (.eval line, o) ∈ xs → o.Answered := by
  intro steps
  have hsteps : ∀ line, .eval line ∈ steps → Loopless (scan line).tokens := by
    intro line hmem
    simp only [steps, List.mem_cons, Step.eval.injEq, List.not_mem_nil, or_false] at hmem
    rcases hmem with rfl | rfl
    · decide +kernel
    · decide +kernel
  exact ⟨hsteps, loopless_course_ends ⟨.dynamic, 40⟩ false steps hsteps⟩

end Session

end ExprShell
