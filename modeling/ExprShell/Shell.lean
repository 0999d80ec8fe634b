import ExprShell.Config
import ExprShell.Expr.Dump
import ExprShell.Expr.Render
import ExprShell.Session
import ExprShell.Text.Blank
import ExprShell.Text.Case

/-!
# The shell

The shell takes lines of text.  A blank line does nothing, a line that begins with a colon is a
command, and any other line is run in the session.  What is written goes to one of two streams; log
lines come before the rest of what a line writes to the second.
-/

namespace ExprShell
open Text

structure Reply where
  quit : Bool
  out : String
  err : String
  log : List String
  deriving DecidableEq, Repr

def Reply.silent : Reply := ⟨false, "", "", []⟩

inductive Command
  | quit
  | help
  | ast
  | vars
  | reset
  deriving DecidableEq, Repr

def Command.ofWord? (word : List Char) : Option Command :=
  let w := String.ofList (word.map lower)
  if w = ":quit" ∨ w = ":q" ∨ w = ":exit" then some .quit
  else if w = ":help" then some .help
  else if w = ":ast" then some .ast
  else if w = ":vars" then some .vars
  else if w = ":reset" then some .reset
  else none

/-- a shell -/
structure Shell where
  showTree : Bool
  session : Session
  /-- the number of lines that failed -/
  failures : Nat

namespace Shell

def new (c : Config) (logs : Bool) : Shell :=
  ⟨c.showTree, Session.new c.callRule (logs && c.level.showsDebug), 0⟩

def helpText : String :=
  "Commands:\n" ++
  "  :quit        exit\n" ++
  "  :help        show this text\n" ++
  "  :ast <expr>  print the parsed tree without evaluating it\n" ++
  "  :vars        list global bindings\n" ++
  "  :reset       clear all global bindings\n" ++
  "Anything else is evaluated as an expression."

def line (s : String) : String := s ++ "\n"

def warningText (ds : List Diagnostic) : String :=
  ds.foldl (fun acc d => acc ++ line ("warning: " ++ d.text)) ""

def bindingText (bs : Bindings) : String :=
  bs.sorted.foldl (fun acc b => acc ++ line (b.1 ++ " = " ++ b.2.text)) ""

def report (showTree : Bool) (r : LineResult) : Reply :=
  let tree := match r.tree with
    | some e => if showTree then line e.dump else ""
    | none => ""
  let warnings := warningText r.warnings
  let log := r.log.map LogEntry.text
  match r.answer with
  | .value v => ⟨false, tree ++ line v.text, warnings, log⟩
  | .parseError e => ⟨false, tree, warnings ++ line e.text, log⟩
  | .evalError e => ⟨false, tree, warnings ++ line e.text, log⟩
  | .unfinished => ⟨false, tree, warnings, log⟩

def isFailure : Answer → Bool
  | .parseError _ | .evalError _ => true
  | _ => false

def readingReply (s : Session) (text : List Char) : Reply :=
  let (ds, parsed) := s.parse text
  match parsed with
  | .error e => ⟨false, "", warningText ds ++ line e.text, []⟩
  | .ok e => ⟨false, line e.render ++ line e.dump, warningText ds, []⟩

/-- the word before the first space, and the text behind that space -/
def cutAtSpace (cs : List Char) : List Char × List Char :=
  (cs.takeWhile (· ≠ ' '), (cs.dropWhile (· ≠ ' ')).drop 1)

def command (sh : Shell) (cs : List Char) : Reply × Shell :=
  let (word, text) := cutAtSpace cs
  match Command.ofWord? word with
  | some .quit => ({ Reply.silent with quit := true }, sh)
  | some .help => ({ Reply.silent with out := line helpText }, sh)
  | some .ast => (readingReply sh.session text, sh)
  | some .vars => ({ Reply.silent with out := bindingText sh.session.bindings }, sh)
  | some .reset => (Reply.silent, { sh with session := sh.session.reset })
  | none =>
    ({ Reply.silent with
        err := line ("unknown command " ++ String.ofList word ++ ". Type :help for a list.") }, sh)

/-- takes a line -/
def handle (sh : Shell) (fuel : Nat) (text : List Char) : Reply × Shell :=
  match trim text with
  | [] => (Reply.silent, sh)
  | ':' :: cs => sh.command (':' :: cs)
  | cs =>
    let ⟨showTree, session, failures⟩ := sh
    let (r, session) := session.eval fuel cs
    (report showTree r, ⟨showTree, session, if isFailure r.answer then failures + 1 else failures⟩)

end Shell

end ExprShell
