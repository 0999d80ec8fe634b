import ExprShell.Eval.Operators
import ExprShell.Eval.Run

/-!
# Evaluation

An expression is evaluated in a scope, with a number of calls already active.  Both operands of an
operator are evaluated, in order; so are all arguments of a call.  A function body runs in a new
scope that holds the arguments.  Around it lies the caller's scope if calls are dynamic, and the
scope in which the function was made if they are lexical.  Loops run in the scope they stand in.

Evaluation need not end, so it takes fuel: one unit for every step down the tree, into a body or
to the next round of a loop.
-/

namespace ExprShell

inductive Scoping
  | dynamic
  | lexical
  deriving DecidableEq, Repr

/-- how calls are made -/
structure CallRule where
  scoping : Scoping
  /-- the greatest number of active calls -/
  limit : Nat
  deriving DecidableEq, Repr

namespace Eval

open EvalError (Cause)

/-- the result of an operator, or its error at a place -/
def settle (place : Cause → Position) : Except Cause Value → Run Value
  | .ok v => pure v
  | .error c => Run.fail (place c) c

/-- where an operator between two operands fails: a division by zero at the divisor -/
def binaryPlace (l r : Expr) : Cause → Position
  | .divisionByZero => r.pos
  | _ => l.pos

def truth (e : Expr) (v : Value) : Run Bool :=
  match v.truth? with
  | some b => pure b
  | none => Run.fail e.pos (.condition v.kind)

def bound (e : Expr) (v : Value) : Run Float :=
  match v.toFloat? with
  | some x => pure x
  | none => Run.fail e.pos (.bound v.kind)

def goesOn (step cur stop : Float) : Bool :=
  (0.0 ≤ step && cur < stop) || (step < 0.0 && stop < cur)

def outer (r : CallRule) (caller : ScopeId) (f : Function) : Option ScopeId :=
  match r.scoping with
  | .dynamic => some caller
  | .lexical => f.home

/-- a new function, bound to its name if it has one -/
def define (s : ScopeId) (f : Function) : Run Value := do
  if f.name ≠ "" then Run.bindName s f.name (.function f)
  return .function f

def read (s : ScopeId) (p : Position) (x : String) : Run Value := do
  match ← Run.lookup s x with
  | some v => return v
  | none => Run.fail p (.unbound x)

/-- the scope of a call, if the call can be made -/
def open? (r : CallRule) (d : Nat) (s : ScopeId) (p : Position) (f : Function) (vs : List Value) :
    Run ScopeId := do
  if vs.length ≠ f.params.length then
    Run.fail p (.arity f.text f.params.length vs.length)
  else if r.limit ≤ d then
    Run.fail p (.callDepth r.limit)
  else do
    let l ← Run.enter (outer r s f) (Bindings.setAll [] f.params vs)
    Run.emit (.called f.text vs.length (d + 1))
    return l

mutual

/-- evaluates an expression in a scope, with `d` calls active -/
def eval (r : CallRule) : Nat → Nat → ScopeId → Expr → Run Value
  | 0, _, _, _ => Run.unfinished
  | n + 1, d, s, e =>
    match e with
    | .absent => Run.fail ⟨0, 0⟩ .noExpression
    | .number t => settle (fun _ => t.pos) (Operators.literal t)
    | .var t x => read s t.pos x
    | .assign _ x e => do
      let v ← eval r n d s e
      Run.bindName s x v
      return v
    | .binary l op e => do
      let a ← eval r n d s l
      let b ← eval r n d s e
      settle (binaryPlace l e) (Operators.binary op a b)
    | .unary op e => do
      let v ← eval r n d s e
      settle (fun _ => op.pos) (Operators.unary op v)
    | .cond _ bs e => branches r n d s bs e
    | .count _ x a b st e => do
      let start ← bound a (← eval r n d s a)
      let stop ← bound b (← eval r n d s b)
      let step ← stepOf r n d s st
      countLoop r n d s x e stop step start (.int 0) 0
    | .loop _ c e => testLoop r n d s c e (.int 0) 0
    | .func _ x ps e => define s ⟨x, ps, e, some s⟩
    | .call _ f as => do
      match ← eval r n d s f with
      | .function g => do
        let vs ← args r n d s as
        let l ← open? r d s f.pos g vs
        eval r n (d + 1) l g.body
      | v => Run.fail f.pos (.notCallable v.kind)
termination_by structural n => n

/-- the step of a counted loop, one if there is none -/
def stepOf (r : CallRule) : Nat → Nat → ScopeId → Expr → Run Float
  | 0, _, _, _ => Run.unfinished
  | _ + 1, _, _, .absent => pure 1.0
  | n + 1, d, s, e => do bound e (← eval r n d s e)
termination_by structural n => n

def args (r : CallRule) : Nat → Nat → ScopeId → List Expr → Run (List Value)
  | 0, _, _, _ => Run.unfinished
  | _ + 1, _, _, [] => pure []
  | n + 1, d, s, a :: as => do
    let v ← eval r n d s a
    let vs ← args r n d s as
    return v :: vs
termination_by structural n => n

/-- the first branch whose condition is true -/
def branches (r : CallRule) : Nat → Nat → ScopeId → List (Expr × Expr) → Expr → Run Value
  | 0, _, _, _, _ => Run.unfinished
  | _ + 1, _, _, [], .absent => pure .absent
  | n + 1, d, s, [], e => eval r n d s e
  | n + 1, d, s, (c, b) :: bs, e => do
    let v ← eval r n d s c
    if ← truth c v then eval r n d s b else branches r n d s bs e
termination_by structural n => n

/-- the rounds of a counted loop from `cur` on; `v` is the value of the round before -/
def countLoop (r : CallRule) :
    Nat → Nat → ScopeId → String → Expr → Float → Float → Float → Value → Nat → Run Value
  | 0, _, _, _, _, _, _, _, _, _ => Run.unfinished
  | n + 1, d, s, x, e, stop, step, cur, v, k => do
    if goesOn step cur stop then
      Run.bindName s x (.double cur)
      let v ← eval r n d s e
      countLoop r n d s x e stop step (cur + step) v (k + 1)
    else
      Run.emit (.counted x k)
      return v
termination_by structural n => n

/-- the rounds of a loop under a condition; `v` is the value of the round before -/
def testLoop (r : CallRule) : Nat → Nat → ScopeId → Expr → Expr → Value → Nat → Run Value
  | 0, _, _, _, _, _, _ => Run.unfinished
  | n + 1, d, s, c, e, v, k => do
    let t ← eval r n d s c
    if ← truth c t then
      let v ← eval r n d s e
      testLoop r n d s c e v (k + 1)
    else
      Run.emit (.looped k)
      return v
termination_by structural n => n

end

end Eval

end ExprShell
