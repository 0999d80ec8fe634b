import ExprShell.Proofs.Eval.Proper
import ExprShell.Proofs.Session.Course
import ExprShell.Proofs.Token.Places

/-!
# Sessions run what was read

Every function that a session ever binds was read from one of the lines that it ran.  So no line
makes the evaluator report an error of its own, and an error stands at a token of the line, or of an
earlier line that gave a value: a line that failed left no function behind that can be called.

* `Session.Course.proper`     all functions are read from the lines of the course;
* `Session.no_internal_error` what the evaluator is given, and what it reports.
-/

namespace ExprShell

namespace Session

variable {Q : List Token → Prop}

theorem proper_of_parse {s : Session} {line : List Char} {ds : List Diagnostic} {tree : Expr}
    (h : s.parse line = (ds, .ok tree)) (hline : Q (scanned line)) : tree.Proper Q := by
  have hparse : ExprShell.parse (s.store.has s.global) (scan line).tokens = .ok tree :=
    congrArg Prod.snd h
  exact ⟨_, scanned line, hline, built_of_parse_scan hparse⟩

/-! ## One step -/

theorem eval_proper {s : Session} (hs : s.store.Holds (Value.Proper Q)) (fuel : Nat)
    {line : List Char} (hline : Q (scanned line)) :
    (s.eval fuel line).2.store.Holds (Value.Proper Q) ∧
      ∀ e, (s.eval fuel line).1.answer = .evalError e → e.Proper Q := by
  rcases hp : s.parse line with ⟨ds, e | tree⟩
  · rw [eval_of_parseError hp]
    exact ⟨hs, nofun⟩
  · have hend := Eval.eval_proper (proper_of_parse hp hline) s.rule fuel 0 s.global
      ⟨s.store, #[]⟩ hs
    cases hσ : Eval.eval s.rule fuel 0 s.global tree ⟨s.store, #[]⟩ with
    | done v σ =>
      rw [hσ] at hend
      rw [eval_of_done hp hσ]
      exact ⟨hend.2, nofun⟩
    | failed e σ =>
      rw [hσ] at hend
      rw [eval_of_failed hp hσ]
      refine ⟨hend.2.restore s.global (hs s.global), ?_⟩
      rintro _ ⟨⟩
      exact hend.1
    | unfinished =>
      rw [eval_of_unfinished hp hσ]
      exact ⟨hs, nofun⟩

theorem reset_proper {s : Session} (hs : s.store.Holds (Value.Proper Q)) :
    s.reset.store.Holds (Value.Proper Q) := hs.add none nofun

theorem new_proper (rule : CallRule) (logs : Bool) :
    (Session.new rule logs).store.Holds (Value.Proper Q) := Store.Holds.empty.add none nofun

/-! ## Courses -/

/-- all functions are read from the lines of the course -/
theorem Course.proper {s t : Session} {xs : List (Step × Report)} (h : s.Course xs t)
    (hs : s.store.Holds (Value.Proper Q))
    (hxs : ∀ line o, (.eval line, o) ∈ xs → Q (scanned line)) :
    t.store.Holds (Value.Proper Q) :=
  h.keeps (P := fun s => s.store.Holds (Value.Proper Q)) hs (fun _ hs => reset_proper hs)
    fun _ hs fuel line o hmem => (eval_proper hs fuel (hxs line o hmem)).1

theorem mem_remembered {xs : List (Step × Report)} {x : Step × Report} (h : x ∈ remembered xs) :
    x ∈ xs ∧ x.2.succeeded = true := by
  induction xs using List.reverseRecOn with
  | nil => cases h
  | append_singleton xs y ih =>
    rw [remembered_snoc] at h
    have hbefore : x ∈ remembered xs → x ∈ xs ++ [y] ∧ x.2.succeeded = true := fun hx =>
      ⟨List.mem_append_left _ (ih hx).1, (ih hx).2⟩
    obtain ⟨step, o⟩ := y
    cases step with
    | eval line =>
      rw [remember] at h
      split at h
      · next ho =>
        rcases List.mem_append.mp h with hx | hx
        · exact hbefore hx
        · rw [List.mem_singleton.mp hx]
          exact ⟨List.mem_append_right _ (List.mem_singleton_self _), ho⟩
      · exact hbefore h
    | parse line => exact hbefore h
    | reset => cases h

def Report.error? (o : Report) : Option EvalError :=
  match o.answer with
  | some (.evalError e) => some e
  | _ => none

theorem answer_of_error? {r : LineResult} {s : Session} {e : EvalError}
    (h : (Report.ofLine r s).error? = some e) : r.answer = .evalError e := by
  obtain ⟨tree, ds, answer, log⟩ := r
  cases answer with
  | evalError e' =>
    cases h
    rfl
  | _ => cases h

theorem Ends.error_proper {s s' : Session} {line : List Char} {o : Report} {e : EvalError}
    (h : s.Ends (.eval line) o s') (ho : o.error? = some e)
    (hs : s.store.Holds (Value.Proper Q)) (hline : Q (scanned line)) : e.Proper Q := by
  obtain ⟨fuel, rfl, -⟩ := h.line
  exact (eval_proper hs fuel hline).2 e (answer_of_error? ho)

/-- **No line reaches an internal error.**  After any course an error of the evaluator is no
internal one; it stands at a token of the line, or of an earlier line that gave a value.  Every tree
that is evaluated on the way was built by the grammar, from the words of this line or of one before.
The same holds of trees read from any tokens: if the functions in the store were read from tokens,
whatever these are, no internal error comes up, and the functions were read from tokens again. -/
theorem no_internal_error (rule : CallRule) (logs : Bool) (xs : List (Step × Report))
    (s : Session) (h : (Session.new rule logs).Course xs s) :
    (∀ line o s' e, s.Ends (.eval line) o s' → o.error? = some e →
      e.kind ≠ .unknownNode ∧
        ∃ t : Token, (t ∈ scanned line ∨
            ∃ line' o', (.eval line', o') ∈ xs ∧ o'.succeeded = true ∧ t ∈ scanned line') ∧
          e.pos = t.pos ∧ 1 ≤ e.pos.line ∧ 1 ≤ e.pos.col) ∧
    (∀ line ds tree, s.parse line = (ds, .ok tree) → ∀ k M,
      Eval.Moment.Reaches s.rule.scoping ⟨0, s.global, .tree tree, ⟨s.store, #[]⟩⟩ k M →
      M.task.Proper fun w => w = scanned line ∨ ∃ line' o', (.eval line', o') ∈ xs ∧
        w = scanned line') ∧
    ∀ (bound : Names) (ts : List Token) (e : Expr), ExprShell.parse bound ts = .ok e →
      ∀ (r : CallRule) (n d : Nat) (i : ScopeId) (σ : State),
        σ.store.Holds (Value.Proper fun _ => True) →
        (Eval.eval r n d i e σ).Proper (fun _ => True) True (Value.Proper fun _ => True) := by
  refine ⟨?_, ?_, ?_⟩
  · intro line o s' e hend ho
    obtain ⟨t, ht, hlinked⟩ := h.linked_remembered
    obtain ⟨t', hend', -⟩ := hlinked.ends hend
    have hproper : e.Proper fun w => w = scanned line ∨
        ∃ line' o', (.eval line', o') ∈ remembered xs ∧ w = scanned line' :=
      hend'.error_proper ho
        (ht.proper (new_proper rule logs) fun line' o' hmem => .inr ⟨line', o', hmem, rfl⟩)
        (.inl rfl)
    obtain ⟨hknown, w, hw, k, hk, hpos⟩ := hproper
    refine ⟨hknown, k, ?_, hpos, ?_⟩
    · rcases hw with rfl | ⟨line', o', hmem, rfl⟩
      · exact .inl hk
      · obtain ⟨hxs, hsucc⟩ := mem_remembered hmem
        exact .inr ⟨line', o', hxs, hsucc, hk⟩
    · rw [hpos]
      rcases hw with rfl | ⟨line', o', -, rfl⟩
      · exact one_le_pos_of_mem_scanned hk
      · exact one_le_pos_of_mem_scanned hk
  · intro line ds tree hparse k M hreach
    refine (hreach.proper (proper_of_parse hparse (.inl rfl)) ?_).1
    exact h.proper (new_proper rule logs) fun line' o' hmem => .inr ⟨line', o', hmem, rfl⟩
  · intro bound ts e hparse r n d i σ hσ
    exact Eval.eval_proper ⟨bound, _, trivial, built_of_parse hparse⟩ r n d i σ hσ

/-- `FN f(x) -> 1 / x` and then `f(0)`: the division by zero stands at the `x` of the first line -/
theorem no_internal_error_earlier_line :
    let first := "FN f(x) -> 1 / x".toList
    let second := "f(0)".toList
    ∃ o₁ s₁ o₂ s₂ e t, (Session.new ⟨.lexical, 5⟩ true).Course [(.eval first, o₁)] s₁ ∧
      s₁.Ends (.eval second) o₂ s₂ ∧ o₂.error? = some e ∧ e.kind = .divisionByZero ∧
      e.kind ≠ .unknownNode ∧
      (t ∈ scanned second ∨ ∃ line' o', (.eval line', o') ∈ [(Step.eval first, o₁)] ∧
        o'.succeeded = true ∧ t ∈ scanned line') ∧ e.pos = t.pos ∧ 1 ≤ e.pos.col := by
  intro first second
  let s₀ := Session.new ⟨.lexical, 5⟩ true
  let r₁ := s₀.take 9 (.eval first)
  let r₂ := r₁.2.take 9 (.eval second)
  let e : EvalError := ⟨⟨1, 16⟩, .divisionByZero⟩
  have hend₁ : s₀.Ends (.eval first) r₁.1 r₁.2 := ⟨9, rfl, by decide +kernel⟩
  have hend₂ : r₁.2.Ends (.eval second) r₂.1 r₂.2 := ⟨9, rfl, by decide +kernel⟩
  have herror : r₂.1.error? = some e := by decide +kernel
  have hcourse : s₀.Course [(.eval first, r₁.1)] r₁.2 := .snoc .nil hend₁
  obtain ⟨hkind, t, ht, hpos, -, hcol⟩ :=
    (no_internal_error ⟨.lexical, 5⟩ true _ _ hcourse).1 _ _ _ e hend₂ herror
  exact ⟨r₁.1, r₁.2, r₂.1, r₂.2, e, t, hcourse, hend₂, herror, rfl, hkind, ht, hpos, hcol⟩

end Session

end ExprShell
