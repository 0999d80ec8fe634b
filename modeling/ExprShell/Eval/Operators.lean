import ExprShell.Eval.Error
import ExprShell.Number.Numeral

/-!
# Operators on values

Two integers give an integer or an error, never a wrapped result.  An integer and a double are
taken as two doubles.  Comparisons are made on doubles in a total order in which the value that is
no number lies above all others; they give one or zero.  `AND`, `OR` and `NOT` take numbers as
truth values and give one or zero.
-/

namespace ExprShell.Operators

open EvalError (Cause)

def literal (t : Token) : Except Cause Value :=
  match t.kind with
  | .int =>
    match Integer.read? t.literal with
    | some v => .ok (.int v)
    | none => .error (.intLiteral t.literal)
  | .double =>
    match Numeral.read? t.literal with
    | some x => .ok (.double x)
    | none => .error (.doubleLiteral t.literal)
  | k => .error (.numberToken k)

/-! ## Arithmetic -/

inductive Arithmetic
  | add | sub | mul | div
  deriving DecidableEq

namespace Arithmetic

def ofKind? : Token.Kind → Option Arithmetic
  | .plus => some .add
  | .minus => some .sub
  | .mul => some .mul
  | .div => some .div
  | _ => none

/-- on integers; none if the result does not fit -/
def onIntegers? : Arithmetic → Integer → Integer → Option Integer
  | .add, l, r => Integer.add? l r
  | .sub, l, r => Integer.sub? l r
  | .mul, l, r => Integer.mul? l r
  | .div, l, r => Integer.quot? l r

def onFloats : Arithmetic → Float → Float → Float
  | .add, l, r => l + r
  | .sub, l, r => l - r
  | .mul, l, r => l * r
  | .div, l, r => l / r

end Arithmetic

def floats? (l r : Value) : Option (Float × Float) :=
  match l.toFloat?, r.toFloat? with
  | some a, some b => some (a, b)
  | _, _ => none

/-- an operation on two values; `op` is how it was written -/
def arithmetic (f : Arithmetic) (op : String) (l r : Value) : Except Cause Value :=
  match l, r with
  | .int a, .int b =>
    if f = .div ∧ b = 0 then .error .divisionByZero
    else match f.onIntegers? a b with
      | some v => .ok (.int v)
      | none => .error (.overflow a op b)
  | l, r =>
    match floats? l r with
    | some (a, b) => .ok (.double (f.onFloats a b))
    | none => .error (.operands op l.kind r.kind)

/-! ## Comparison -/

/-- the order of doubles: no number is above all numbers and equal to itself -/
def order (a b : Float) : Ordering :=
  if a.isNaN then (if b.isNaN then .eq else .gt)
  else if b.isNaN then .lt
  else if a < b then .lt
  else if b < a then .gt
  else .eq

/-- what a comparison sign asks of the order; none for another sign -/
def comparison? : Token.Kind → Option (Ordering → Bool)
  | .ee => some (· == .eq)
  | .ne => some (· != .eq)
  | .lt => some (· == .lt)
  | .gt => some (· == .gt)
  | .lte => some (· != .gt)
  | .gte => some (· != .lt)
  | _ => none

def compare (holds : Ordering → Bool) (op : String) (l r : Value) : Except Cause Value :=
  match floats? l r with
  | some (a, b) => .ok (.ofBool (holds (order a b)))
  | none => .error (.operands op l.kind r.kind)

/-! ## Logic -/

def logic (join : Bool → Bool → Bool) (op : String) (l r : Value) : Except Cause Value :=
  match l.truth?, r.truth? with
  | some a, some b => .ok (.ofBool (join a b))
  | _, _ => .error (.operands op l.kind r.kind)

/-! ## By token -/

def binary (op : Token) (l r : Value) : Except Cause Value :=
  match Arithmetic.ofKind? op.kind with
  | some f => arithmetic f op.lexeme l r
  | none =>
    match comparison? op.kind with
    | some holds => compare holds op.lexeme l r
    | none =>
      if op.is .and then logic (· && ·) op.lexeme l r
      else if op.is .or then logic (· || ·) op.lexeme l r
      else .error (.binaryOperator op.lexeme)

def negate (op : String) : Value → Except Cause Value
  | .int x =>
    match Integer.neg? x with
    | some v => .ok (.int v)
    | none => .error (.negation x)
  | .double x => .ok (.double (-x))
  | v => .error (.operand op v.kind)

def posit (op : String) (v : Value) : Except Cause Value :=
  match v with
  | .int _ | .double _ => .ok v
  | v => .error (.operand op v.kind)

def complement (op : String) (v : Value) : Except Cause Value :=
  match v.truth? with
  | some b => .ok (.ofBool !b)
  | none => .error (.operand op v.kind)

def unary (op : Token) (v : Value) : Except Cause Value :=
  if op.kind = .minus then negate op.lexeme v
  else if op.kind = .plus then posit op.lexeme v
  else if op.is .not then complement op.lexeme v
  else .error (.unaryOperator op.lexeme)

end ExprShell.Operators
