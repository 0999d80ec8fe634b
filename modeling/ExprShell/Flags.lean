import ExprShell.Text.Quoted

/-!
# Command line flags

A flag begins with one dash or two.  Its value stands behind an equals sign or is the next
argument; a flag that is on or off takes only the first form, and is on without a value.  Flags end
at the first argument that is none, or behind two dashes.  Of a flag that is given twice the last
value counts.

* `Flags.read`   the flags of a list of arguments, or why they are refused.
-/

namespace ExprShell
open Text

/-- what the flags ask for; a text that is not given is empty -/
structure Flags where
  config : String := ""
  line : String := ""
  scoping : String := ""
  logLevel : String := ""
  showTree : Bool := false
  deriving DecidableEq, Repr

inductive FlagError
  | help
  | badForm (argument : String)
  | unknown (name : String)
  | noValue (name : String)
  | notBool (name value : String)
  deriving DecidableEq, Repr

namespace FlagError

def usage : String :=
  "Usage of ember:\n" ++
  "  -ast\n    \tprint the parsed tree before each result\n" ++
  "  -config string\n    \tYAML config file (default $HOME/.ember.yaml)\n" ++
  "  -e string\n    \tevaluate one line and exit\n" ++
  "  -log-level string\n    \tlog level: debug, info, warn or error\n" ++
  "  -scoping string\n    \tfunction call scoping: dynamic or lexical\n"

/-- what is wrong; a call for help is not wrong -/
def message? : FlagError → Option String
  | .help => none
  | .badForm a => some ("bad flag syntax: " ++ a)
  | .unknown n => some ("flag provided but not defined: -" ++ n)
  | .noValue n => some ("flag needs an argument: -" ++ n)
  | .notBool n v => some ("invalid boolean value " ++ quote v ++ " for -" ++ n ++ ": parse error")

/-- what is written: the message if there is one, and how the flags are used -/
def text (e : FlagError) : String :=
  match e.message? with
  | some m => m ++ "\n" ++ usage
  | none => usage

end FlagError

inductive Argument
  /-- the flags end before it, or behind it -/
  | plain
  | badForm
  | flag (name : String) (value : Option String)
  deriving DecidableEq, Repr

def Argument.ofText (s : String) : Argument :=
  match s.toList with
  | ['-', '-'] => .plain
  | '-' :: c :: cs =>
    match (if c = '-' then cs else c :: cs) with
    | [] => .plain
    | d :: body =>
      if d = '-' ∨ d = '=' then .badForm
      else
        let name := String.ofList (d :: body.takeWhile (· ≠ '='))
        match body.dropWhile (· ≠ '=') with
        | [] => .flag name none
        | _ :: value => .flag name (some (String.ofList value))
  | _ => .plain

namespace Flags

def truth? (s : String) : Option Bool :=
  if ["1", "t", "T", "true", "TRUE", "True"].contains s then some true
  else if ["0", "f", "F", "false", "FALSE", "False"].contains s then some false
  else none

/-- sets the flag of a name to a text; none if there is no such flag -/
def set? (f : Flags) (name value : String) : Option Flags :=
  match name with
  | "config" => some { f with config := value }
  | "e" => some { f with line := value }
  | "scoping" => some { f with scoping := value }
  | "log-level" => some { f with logLevel := value }
  | _ => none

def readOver (f : Flags) : List String → Except FlagError Flags
  | [] => .ok f
  | s :: args =>
    match Argument.ofText s with
    | .plain => .ok f
    | .badForm => .error (.badForm s)
    | .flag name value =>
      if name = "ast" then
        match truth? (value.getD "true") with
        | some b => { f with showTree := b }.readOver args
        | none => .error (.notBool name (value.getD "true"))
      else if (f.set? name "").isNone then
        .error (if name = "help" ∨ name = "h" then .help else .unknown name)
      else match value, args with
        | some v, args => ((f.set? name v).getD f).readOver args
        | none, v :: args => ((f.set? name v).getD f).readOver args
        | none, [] => .error (.noValue name)

def read (args : List String) : Except FlagError Flags := readOver {} args

end Flags

end ExprShell
