import ExprShell.Store
import ExprShell.Eval.Error

/-!
# Runs

An evaluation reads and writes a state, the scopes and the events so far, and has one of three
outcomes: a value, an error, or nothing yet because its fuel was used up.  The state is kept in
the first two cases: an error does not undo what was done before it.
-/

namespace ExprShell

inductive Event
  /-- a function body was entered: how the function is shown, the number of arguments, the depth -/
  | called (function : String) (args depth : Nat)
  /-- a counted loop came to its end -/
  | counted (name : String) (iterations : Nat)
  /-- a loop under a condition came to its end -/
  | looped (iterations : Nat)
  deriving DecidableEq, Repr

structure State where
  store : Store
  events : Array Event

inductive Outcome (α : Type)
  | done (a : α) (σ : State)
  | failed (e : EvalError) (σ : State)
  /-- the fuel was used up -/
  | unfinished

def Run (α : Type) := State → Outcome α

namespace Run

@[always_inline, inline] def ret {α : Type} (a : α) : Run α := fun σ => .done a σ

/-- one run after another; an error or an unfinished run ends it -/
@[always_inline, inline] def andThen {α β : Type} (x : Run α) (f : α → Run β) : Run β := fun σ =>
  match x σ with
  | .done a σ => f a σ
  | .failed e σ => .failed e σ
  | .unfinished => .unfinished

@[always_inline, inline] instance : Monad Run where
  pure := ret
  bind := andThen

/-- the fuel is used up -/
def unfinished {α : Type} : Run α := fun _ => .unfinished

def fail {α : Type} (p : Position) (c : EvalError.Cause) : Run α := fun σ => .failed ⟨p, c⟩ σ

def lookup (s : ScopeId) (x : String) : Run (Option Value) := fun σ =>
  .done (σ.store.lookup s x) σ

def bindName (s : ScopeId) (x : String) (v : Value) : Run Unit := fun σ =>
  .done () ⟨σ.store.set s x v, σ.events⟩

def enter (parent : Option ScopeId) (bs : Bindings) : Run ScopeId := fun σ =>
  .done σ.store.next ⟨σ.store.add parent bs, σ.events⟩

def emit (e : Event) : Run Unit := fun σ => .done () ⟨σ.store, σ.events.push e⟩

/-! ## Running in steps -/

theorem bind_apply {α β : Type} (x : Run α) (f : α → Run β) (σ : State) :
    (x >>= f) σ = match x σ with
      | .done a σ => f a σ
      | .failed e σ => .failed e σ
      | .unfinished => .unfinished := rfl

theorem bind_done {α β : Type} {x : Run α} {f : α → Run β} {σ τ : State} {a : α}
    (h : x σ = .done a τ) : (x >>= f) σ = f a τ := by
  rw [bind_apply, h]

theorem bind_failed {α β : Type} {x : Run α} {f : α → Run β} {σ τ : State} {e : EvalError}
    (h : x σ = .failed e τ) : (x >>= f) σ = .failed e τ := by
  rw [bind_apply, h]

theorem bind_unfinished {α β : Type} {x : Run α} {f : α → Run β} {σ : State}
    (h : x σ = .unfinished) : (x >>= f) σ = .unfinished := by
  rw [bind_apply, h]

end Run

end ExprShell
