import ExprShell.Eval
import ExprShell.Log
import ExprShell.Text.Path

/-!
# Settings

The settings of a shell as they are written down.  They are checked before a shell is started by
the command line; a shell that is given unchecked settings takes dynamic calls for an unknown
scoping, `warn` for an unknown level, and the usual limit if none is positive.
-/

namespace ExprShell
open Text

namespace Scoping

def name : Scoping → String
  | .dynamic => "dynamic"
  | .lexical => "lexical"

def read? (s : String) : Option Scoping :=
  if s = "dynamic" ∨ s = "" then some .dynamic
  else if s = "lexical" then some .lexical
  else none

/-- the name of the scoping with a number; one is lexical -/
def nameOfCode (n : Int) : String := if n = 1 then name .lexical else name .dynamic

end Scoping

/-- the limit of active calls if none is set -/
def CallRule.usualLimit : Nat := 10000

def CallRule.limitOf (n : Int) : Nat := if 0 < n then n.toNat else usualLimit

def CallRule.usual : CallRule := ⟨.dynamic, usualLimit⟩

/-- settings -/
structure Config where
  prompt : String
  historyFile : String
  scoping : String
  maxCallDepth : Int
  logLevel : String
  showTree : Bool
  deriving DecidableEq, Repr

inductive ConfigError
  | scoping (text : String)
  | level (text : String)
  | depth (n : Int)
  deriving DecidableEq, Repr

def ConfigError.message : ConfigError → String
  | .scoping s => "unknown scoping " ++ quote s ++ " (want dynamic or lexical)"
  | .level s => "unknown log level " ++ quote s
  | .depth n => "max_call_depth must not be negative, got " ++ Decimal.ofInt n

namespace Config

/-- a file in the home directory; without one there is no path -/
def inHome (home : String) (name : String) : String :=
  if home = "" then "" else inDirectory home name

def historyName : String := ".ember_history"

def fileName : String := ".ember.yaml"

def defaultPath (home : String) : String := inHome home fileName

def default (home : String) : Config where
  prompt := "ember> "
  historyFile := inHome home historyName
  scoping := "dynamic"
  maxCallDepth := CallRule.usualLimit
  logLevel := "warn"
  showTree := false

/-- the first setting that cannot be used -/
def fault? (c : Config) : Option ConfigError :=
  if (Scoping.read? c.scoping).isNone then some (.scoping c.scoping)
  else if (Level.read? c.logLevel).isNone then some (.level c.logLevel)
  else if c.maxCallDepth < 0 then some (.depth c.maxCallDepth)
  else none

def callRule (c : Config) : CallRule :=
  ⟨(Scoping.read? c.scoping).getD .dynamic, CallRule.limitOf c.maxCallDepth⟩

def level (c : Config) : Level := (Level.read? c.logLevel).getD Level.warn

end Config

end ExprShell
