import ExprShell.Proofs.Eval.Compare
import ExprShell.Proofs.Store.Link

/-!
# Evaluation does not see the numbers of scopes

From linked states, in linked scopes, an expression is evaluated in the same way: with the same
error, or with linked values, and with the same events.  The states at the end are linked by the
pairs that were there and by one pair for every call that was made.

* `Run.Linked`        two runs that end in the same way from linked states;
* `linked`            the comparison of linked states; its worlds are the links;
* `Eval.eval_linked`  the evaluator, at every amount of fuel.
-/

namespace ExprShell

structure State.Linked (L : Link) (σ τ : State) : Prop where
  store : Store.Linked L σ.store τ.store
  events : σ.events = τ.events

/-- the same ending, with results related by `R`, in states linked by the pairs of `L` and others -/
inductive Outcome.Linked {α β : Type} (L : Link) (R : Link → α → β → Prop) :
    Outcome α → Outcome β → Prop
  | done {M : Link} {a : α} {b : β} {σ τ : State} (sub : L.Sub M) (state : State.Linked M σ τ)
    (result : R M a b) : Linked L R (.done a σ) (.done b τ)
  | failed {M : Link} {e : EvalError} {σ τ : State} (sub : L.Sub M) (state : State.Linked M σ τ) :
    Linked L R (.failed e σ) (.failed e τ)
  | unfinished : Linked L R .unfinished .unfinished

namespace Run

/-- two runs that end in the same way from states linked by `L` -/
def Linked {α β : Type} (L : Link) (R : Link → α → β → Prop) (x : Run α) (y : Run β) : Prop :=
  ∀ σ τ, State.Linked L σ τ → Outcome.Linked L R (x σ) (y τ)

end Run

/-! ## The comparison -/

theorem Value.Linked.alike {L : Link} {v w : Value} (h : Value.Linked L v w) : v.Alike w := by
  cases h with
  | int v => exact .int v
  | double x => exact .double x
  | absent => exact .absent
  | function home => exact .function rfl rfl

theorem Value.Linked.function_eq {L : Link} {f g : Function}
    (h : Value.Linked L (.function f) (.function g)) :
    Option.Rel L f.home g.home ∧ f.params = g.params ∧ f.body = g.body := by
  cases h with
  | function home => exact ⟨home, rfl, rfl⟩

theorem Eval.outer_linked (r : CallRule) {L : Link} {s t : ScopeId} (hst : L s t) {f g : Function}
    (h : Value.Linked L (.function f) (.function g)) :
    Option.Rel L (outer r s f) (outer r t g) := by
  unfold outer
  split
  · exact .some hst
  · exact h.function_eq.1

/-- the same tree in linked scopes, in linked stores -/
def linked (r : CallRule) : Comparison r r where
  World := Link
  le := Link.Sub
  store := Store.Linked
  value := Value.Linked
  tree L s t e e' := L s t ∧ e = e'
  reads L s t _ := L s t
  writes L s t _ := L s t
  place p q := p = q
  refl := Link.Sub.refl
  trans h₁ h₂ := h₁.trans h₂
  value_mono hsub h := h.mono hsub
  tree_mono hsub h := ⟨hsub _ _ h.1, h.2⟩
  writes_mono hsub h := hsub _ _ h
  int _ v := .int v
  double _ x := .double x
  absent _ := .absent
  alike h := h.alike
  pos h := congrArg Expr.pos h.2
  layer h := by
    obtain ⟨hst, rfl⟩ := h
    exact .refl (fun _ => hst) (fun _ => hst) (fun _ => ⟨hst, rfl⟩) _
  lookup h hst := h.lookup _ hst
  set h hst hv := h.set hst _ hv
  func h := by
    obtain ⟨hst, heq⟩ := h
    cases heq
    exact .function (.some hst)
  enter := by
    intro L a b s t e e' f f' vs ws hstore htree hf hvs _
    have hout := Eval.outer_linked r htree.1 hf
    obtain ⟨-, hparams, hbody⟩ := hf.function_eq
    refine ⟨L.add a.next b.next, L.sub_add _ _, ?_, L.add_self _ _, hbody⟩
    rw [← hparams]
    exact hstore.add hout (.setAll .nil f.params hvs)

/-! ## The evaluator -/

theorem Run.Agree.linked {r : CallRule} {α β : Type} {L : Link} {R : Link → α → β → Prop}
    {x : Run α} {y : Run β} (h : Run.Agree (linked r) L R x y) : Run.Linked L R x y := by
  intro σ τ hσ
  have hend := h σ τ ⟨hσ.store, hσ.events⟩
  generalize x σ = ox, y τ = oy at hend
  cases hend with
  | done le state result => exact .done le ⟨state.store, state.events⟩ result
  | failed le state place =>
    cases place
    exact .failed le ⟨state.store, state.events⟩
  | unfinished => exact .unfinished

namespace Eval

/-- whatever fuel it gets, the evaluator ends in the same way from linked states -/
theorem eval_linked (r : CallRule) (n d : Nat) {L : Link} {s t : ScopeId} (hst : L s t)
    (e : Expr) : Run.Linked L Value.Linked (eval r n d s e) (eval r n d t e) :=
  (((linked r).agree rfl n).tree L d s t e e ⟨hst, rfl⟩).linked

end Eval

end ExprShell
