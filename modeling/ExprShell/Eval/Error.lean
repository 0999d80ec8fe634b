import ExprShell.Value

/-!
# What can go wrong in an evaluation

An error has a cause and the place of the expression that failed.  The causes fall into nine kinds,
and each cause has its wording here.
-/

namespace ExprShell

namespace EvalError

inductive Kind
  | unbound | notCallable | arity | operandType | divisionByZero | invalidNumber | unknownNode
  | callDepth | overflow
  deriving DecidableEq, Repr

namespace Kind

def name : Kind → String
  | .unbound => "unbound variable"
  | .notCallable => "not callable"
  | .arity => "arity mismatch"
  | .operandType => "operand type"
  | .divisionByZero => "division by zero"
  | .invalidNumber => "invalid number"
  | .unknownNode => "unknown node"
  | .callDepth => "call depth exceeded"
  | .overflow => "integer overflow"

/-- the kinds in the order of their numbers, which begin with one -/
def all : List Kind :=
  [.unbound, .notCallable, .arity, .operandType, .divisionByZero, .invalidNumber, .unknownNode,
   .callDepth, .overflow]

def nameOfCode (n : Int) : String :=
  match (if n < 1 then none else all[(n - 1).toNat]?) with
  | some k => k.name
  | none => "ErrorKind(" ++ Decimal.ofInt n ++ ")"

end Kind

/-- causes of errors -/
inductive Cause
  /-- the name is not bound -/
  | unbound (name : String)
  /-- the integer literal is no integer of 64 bits -/
  | intLiteral (text : String)
  /-- the double literal is no double -/
  | doubleLiteral (text : String)
  /-- a number whose token is of another kind -/
  | numberToken (kind : Token.Kind)
  /-- no operator between two operands -/
  | binaryOperator (op : String)
  /-- no operator before an operand -/
  | unaryOperator (op : String)
  /-- there is no expression -/
  | noExpression
  /-- operands that the operator does not take -/
  | operands (op : String) (left right : Value.Kind)
  /-- an operand that the operator does not take -/
  | operand (op : String) (kind : Value.Kind)
  /-- a condition that is no number -/
  | condition (kind : Value.Kind)
  /-- a loop bound that is no number -/
  | bound (kind : Value.Kind)
  | divisionByZero
  /-- the result does not fit -/
  | overflow (left : Integer) (op : String) (right : Integer)
  /-- the negated integer does not fit -/
  | negation (x : Integer)
  /-- a value that is no function is called -/
  | notCallable (kind : Value.Kind)
  /-- a function is called with too few or too many arguments -/
  | arity (function : String) (params args : Nat)
  /-- too many calls are active -/
  | callDepth (limit : Nat)
  deriving DecidableEq

namespace Cause

def kind : Cause → Kind
  | .unbound _ => .unbound
  | .intLiteral _ => .invalidNumber
  | .doubleLiteral _ => .invalidNumber
  | .numberToken _ => .unknownNode
  | .binaryOperator _ => .unknownNode
  | .unaryOperator _ => .unknownNode
  | .noExpression => .unknownNode
  | .operands _ _ _ => .operandType
  | .operand _ _ => .operandType
  | .condition _ => .operandType
  | .bound _ => .operandType
  | .divisionByZero => .divisionByZero
  | .overflow _ _ _ => .overflow
  | .negation _ => .overflow
  | .notCallable _ => .notCallable
  | .arity _ _ _ => .arity
  | .callDepth _ => .callDepth

def message : Cause → String
  | .unbound x => x ++ " is not defined"
  | .intLiteral s => "integer literal " ++ s ++ " out of range"
  | .doubleLiteral s => "bad double literal " ++ s
  | .numberToken k => "number literal with token " ++ k.name
  | .binaryOperator op => "unknown binary operator " ++ op
  | .unaryOperator op => "unknown unary operator " ++ op
  | .noExpression => "nil node"
  | .operands op l r =>
    "unsupported operand types for " ++ op ++ ": " ++ l.name ++ " and " ++ r.name
  | .operand op k => "unsupported operand type for unary " ++ op ++ ": " ++ k.name
  | .condition k => k.name ++ " cannot be used as a condition"
  | .bound k => "expected a number, got " ++ k.name
  | .divisionByZero => "integer division by zero"
  | .overflow l op r =>
    "integer overflow in " ++ Integer.text l ++ " " ++ op ++ " " ++ Integer.text r
  | .negation x => "integer overflow in -(" ++ Integer.text x ++ ")"
  | .notCallable k => "cannot call a value of type " ++ k.name
  | .arity f n m =>
    f ++ " expects " ++ Decimal.ofNat n ++ " argument(s), got " ++ Decimal.ofNat m
  | .callDepth n => "maximum call depth " ++ Decimal.ofNat n ++ " exceeded"

end Cause

end EvalError

structure EvalError where
  pos : Position
  cause : EvalError.Cause
  deriving DecidableEq

namespace EvalError

def kind (e : EvalError) : Kind := e.cause.kind

def message (e : EvalError) : String := e.cause.message

def text (e : EvalError) : String := "EVAL ERROR at " ++ e.pos.text ++ ": " ++ e.message

end EvalError

end ExprShell
