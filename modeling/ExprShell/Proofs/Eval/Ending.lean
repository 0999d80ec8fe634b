import ExprShell.Proofs.Eval.Proper

/-!
# Evaluation without loops comes to an end

A call goes on with a tree that is no part of the tree at hand, so the size of the tree alone says
nothing; but a call uses up one of the active calls that the limit allows.  In between the trees get
smaller, unless there is a loop.  This needs that all functions in the store, which may be called,
have bodies without loops.

* `Loopless`             words among which no loop begins;
* `exec_ends`            one step, if the tasks it asks for and the calls it makes end;
* `run_ends_of_deeper`   the induction, on the calls that are left and then on the size of the
                         task.
-/

namespace ExprShell

/-- no loop begins at one of the words -/
def Loopless (w : List Token) : Prop := ∀ t ∈ w, ¬ t.is .for ∧ ¬ t.is .while

variable {Q : List Token → Prop}

theorem Outcome.Proper.ne_unfinished {α : Type} {R : α → Prop} {o : Outcome α}
    (h : o.Proper Q False R) : o ≠ .unfinished := by
  rintro rfl
  exact h

namespace Eval

/-- without the words for loops there is no loop -/
theorem isLoop_of_loopless (hQ : ∀ w, Q w → Loopless w) {α : Type} {t : Task α} (h : t.Proper Q)
    (ht : t.isRound = false) : t.isLoop = false := by
  cases t with
  | tree e =>
    obtain ⟨bound, w, hw, hbuilt⟩ := h
    cases hbuilt with
    | @count t _ _ _ _ _ htx hk =>
      have hmem : t ∈ w := htx.subset List.mem_cons_self
      exact absurd hk (hQ w hw t hmem).1
    | @loop t _ _ hmem hk => exact absurd hk (hQ w hw t hmem).2
    | _ => rfl
  | _ => exact ht

section
variable {r : CallRule} {d : Nat}

theorem exec_ends {α : Type} {asks : (β : Type) → Task β → Prop} {R : α → Prop} {c : Script α}
    (hc : c.Proper Q asks R) {s : ScopeId}
    (hask : ∀ {β : Type} (u : Task β), u.Proper Q → asks β u → ∀ σ : State,
      σ.store.Holds (Value.Proper Q) → ∃ n, u.run r n d s σ ≠ .unfinished)
    (hcall : d < r.limit → ∀ (e : Expr) (l : ScopeId) (σ : State), e.Proper Q →
      σ.store.Holds (Value.Proper Q) → ∃ n, eval r n (d + 1) l e σ ≠ .unfinished)
    {σ : State} (hσ : σ.store.Holds (Value.Proper Q)) :
    ∃ n, c.exec r (fun d s _ t => t.run r n d s) d s σ ≠ .unfinished := by
  induction hc generalizing σ with
  | last h => exact ⟨0, (h σ hσ).ne_unfinished⟩
  | @act α β R S x rest h hrest ih =>
    have hx := h σ hσ
    cases ho : x σ with
    | done b τ =>
      rw [ho] at hx
      obtain ⟨n, hn⟩ := ih b hx.1 hx.2
      refine ⟨n, ?_⟩
      rw [Script.exec, Run.bind_done ho]
      exact hn
    | failed e τ =>
      refine ⟨0, ?_⟩
      rw [Script.exec, Run.bind_failed ho]
      rintro ⟨⟩
    | unfinished => exact absurd ho hx.ne_unfinished
  | @ask α β R t rest h hasks hrest ih =>
    obtain ⟨n₁, h₁⟩ := hask t h hasks σ hσ
    have hx := run_proper h r n₁ d s σ hσ
    cases ho : t.run r n₁ d s σ with
    | done b τ =>
      rw [ho] at hx
      obtain ⟨n₂, h₂⟩ := ih b hx.1 hx.2
      refine ⟨max n₁ n₂, ?_⟩
      have hdone : t.run r (max n₁ n₂) d s σ = .done b τ :=
        (run_of_le (Nat.le_max_left n₁ n₂) h₁).trans ho
      rw [Script.exec, Run.bind_done hdone, exec_of_le (Nat.le_max_right n₁ n₂) h₂]
      exact h₂
    | failed e τ =>
      refine ⟨n₁, ?_⟩
      rw [Script.exec, Run.bind_failed ho]
      rintro ⟨⟩
    | unfinished => exact absurd ho h₁
  | @call e f vs he hf hvs =>
    have hx : Outcome.Proper Q False (fun _ => True) _ := open?_proper he r d s f hvs σ hσ
    cases ho : open? r d s e.pos f vs σ with
    | done l τ =>
      rw [ho] at hx
      obtain ⟨n, hn⟩ := hcall (lt_of_open? ho) f.body l τ hf hx.2
      refine ⟨n, ?_⟩
      rw [Script.exec, Run.bind_done ho]
      exact hn
    | failed e τ =>
      refine ⟨0, ?_⟩
      rw [Script.exec, Run.bind_failed ho]
      rintro ⟨⟩
    | unfinished => exact absurd ho hx.ne_unfinished

/-- with `d` calls active tasks end, if the bodies of further calls do -/
theorem run_ends_of_deeper (hQ : ∀ w, Q w → Loopless w)
    (hcall : d < r.limit → ∀ (e : Expr) (l : ScopeId) (σ : State), e.Proper Q →
      σ.store.Holds (Value.Proper Q) → ∃ n, eval r n (d + 1) l e σ ≠ .unfinished)
    {α : Type} {t : Task α} (h : t.Proper Q) (ht : t.isRound = false) (s : ScopeId) {σ : State}
    (hσ : σ.store.Holds (Value.Proper Q)) : ∃ n, t.run r n d s σ ≠ .unfinished := by
  induction hk : t.size using Nat.strongRecOn generalizing α σ with
  | ind k ih =>
    have hask : ∀ {β : Type} (u : Task β), u.Proper Q → u.Under t → ∀ σ : State,
        σ.store.Holds (Value.Proper Q) → ∃ n, u.run r n d s σ ≠ .unfinished := by
      intro β u hu hunder σ hσ
      rcases hunder with hloop | ⟨hround, hlt⟩
      · rw [isLoop_of_loopless hQ h ht] at hloop
        cases hloop
      · exact ih u.size (hk ▸ hlt) hu hround hσ rfl
    obtain ⟨n, hn⟩ := exec_ends (script_proper h s) hask hcall hσ
    refine ⟨n + 1, ?_⟩
    rw [run_succ]
    exact hn

/-- **The evaluator comes to an end**, if there are no loops. -/
theorem eval_ends (hQ : ∀ w, Q w → Loopless w) {e : Expr} (h : e.Proper Q) (s : ScopeId)
    {σ : State} (hσ : σ.store.Holds (Value.Proper Q)) : ∃ n, eval r n d s e σ ≠ .unfinished := by
  induction hk : r.limit - d using Nat.strongRecOn generalizing d e s σ with
  | ind k ih =>
    refine run_ends_of_deeper (t := .tree e) hQ (fun hd e l σ he hσ => ?_) h rfl s hσ
    exact ih (r.limit - (d + 1)) (by omega) he l hσ rfl

end

end Eval

end ExprShell
