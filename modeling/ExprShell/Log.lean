import ExprShell.Eval.Run
import ExprShell.Number.Integer
import ExprShell.Text.Blank
import ExprShell.Text.Case
import ExprShell.Text.Quoted

/-!
# Log levels and log lines

A level is a number of 64 bits; four of them have names, and the others are named by their distance
from a named one.  The only level that anything is reported at is `debug`.  A line of the log holds
a message and named values, in quotes where they would not read as one word.
-/

namespace ExprShell
open Text

abbrev Level := Int64

namespace Level

def debug : Level := -4

def info : Level := 0

def warn : Level := 4

def error : Level := 8

def withOffset (base : String) (d : Int64) : String :=
  if d = 0 then base else base ++ Decimal.ofIntSigned d.toInt

/-- the name of a level: the highest named level not above it, or `DEBUG`, and the distance -/
def name (l : Level) : String :=
  if l < info then withOffset "DEBUG" (l - debug)
  else if l < warn then withOffset "INFO" (l - info)
  else if l < error then withOffset "WARN" (l - warn)
  else withOffset "ERROR" (l - error)

def ofName? (s : String) : Option Level :=
  if s = "DEBUG" then some debug
  else if s = "INFO" then some info
  else if s = "WARN" then some warn
  else if s = "ERROR" then some error
  else none

def isSign (c : Char) : Bool := c = '+' || c = '-'

/-- reads a level in any case, with a distance behind it; no text means `warn` -/
def read? (s : String) : Option Level :=
  if s = "" then some warn
  else
    let cs := s.toList.map upper
    let base := ofName? (String.ofList (cs.takeWhile fun c => !isSign c))
    match cs.dropWhile fun c => !isSign c with
    | [] => base
    | offset => do return (← base) + (← Integer.read? (String.ofList offset))

def showsDebug (l : Level) : Bool := l ≤ debug

end Level

structure LogEntry where
  message : String
  values : List (String × String)
  deriving DecidableEq, Repr

namespace LogEntry

/-- does the character keep a value from standing without quotes? -/
def breaksWord (c : Char) : Bool :=
  if c.toNat < 128 then c = ' ' || c = '=' || c = '"' || c.toNat < 32
  else c.toNat = 0xfffd || isBlank c || !isPrintable c

def word (s : String) : String :=
  if s = "" ∨ s.toList.any breaksWord then quote s else s

def text (e : LogEntry) : String :=
  e.values.foldl (fun acc v => acc ++ " " ++ v.1 ++ "=" ++ word v.2)
    ("level=DEBUG msg=" ++ word e.message)

def ofEvent : Event → LogEntry
  | .called f n d =>
    ⟨"function call",
     [("function", f), ("argument-count", Decimal.ofNat n), ("depth", Decimal.ofNat d)]⟩
  | .counted x n => ⟨"for loop done", [("var", x), ("iterations", Decimal.ofNat n)]⟩
  | .looped n => ⟨"while loop done", [("iterations", Decimal.ofNat n)]⟩

def parseFailed (error : String) : LogEntry := ⟨"parse failed", [("error", error)]⟩

def evaluationFailed (error : String) : LogEntry :=
  ⟨"evaluation failed, global scope restored", [("error", error)]⟩

end LogEntry

end ExprShell
