import ExprShell.Expr
import ExprShell.Number.Integer
import ExprShell.Number.Layout

/-!
# Values

An integer, a double, a function, or the absent value of a condition that has no matching branch.
A function remembers the scope in which it was made, which only lexical calls look at; a function
that was made by no expression has none.
-/

namespace ExprShell

abbrev ScopeId := Nat

structure Function where
  /-- empty if the function has no name -/
  name : String
  params : List String
  body : Expr
  /-- where the function was made -/
  home : Option ScopeId
  deriving Inhabited

def Function.text (f : Function) : String :=
  "<function: " ++ (if f.name = "" then "<anonymous>" else f.name) ++ ">"

/-- values -/
inductive Value
  | int (v : Integer)
  | double (x : Float)
  | function (f : Function)
  | absent
  deriving Inhabited

namespace Value

inductive Kind
  | int | double | function | absent
  deriving DecidableEq, Repr

namespace Kind

def name : Kind → String
  | .int => "Int"
  | .double => "Double"
  | .function => "Function"
  | .absent => "null"

def all : List Kind := [.int, .double, .function, .absent]

def nameOfCode (n : Int) : String :=
  match (if n < 0 then none else all[n.toNat]?) with
  | some k => k.name
  | none => "Kind(" ++ Decimal.ofInt n ++ ")"

end Kind

def kind : Value → Kind
  | .int _ => .int
  | .double _ => .double
  | .function _ => .function
  | .absent => .absent

def text : Value → String
  | .int v => Integer.text v
  | .double x => Layout.double.write x
  | .function f => f.text
  | .absent => "null"

/-- a number is true if it is not zero; other values are neither true nor false -/
def truth? : Value → Option Bool
  | .int v => some (v != 0)
  | .double x => some (x != 0.0)
  | _ => none

/-- one for true and zero for false -/
def ofBool (b : Bool) : Value := .int (if b then 1 else 0)

def toFloat? : Value → Option Float
  | .int v => some v.toFloat
  | .double x => some x
  | _ => none

end Value

end ExprShell
