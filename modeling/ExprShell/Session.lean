import ExprShell.Eval
import ExprShell.Log
import ExprShell.Sentence.Parse
import ExprShell.Token.Scan

/-!
# Sessions

A session keeps the global scope from line to line.  A line is scanned, read and evaluated; if it
fails, the global scope binds again exactly what it bound before the line.

* `Session.parse`   reads a line without evaluating it;
* `Session.eval`    runs a line;
* `Session.reset`   a new global scope, with nothing bound.
-/

namespace ExprShell

/-- a session -/
structure Session where
  rule : CallRule
  /-- are log lines kept? -/
  logs : Bool
  store : Store
  global : ScopeId

inductive Answer
  | value (v : Value)
  | parseError (e : ParseError)
  | evalError (e : EvalError)
  /-- the fuel was used up -/
  | unfinished

structure LineResult where
  tree : Option Expr
  warnings : List Diagnostic
  answer : Answer
  log : List LogEntry

namespace Session

/-- fuel for more steps than any line can take in a lifetime -/
def ample : Nat := 0x4000000000000000

def new (rule : CallRule) (logs : Bool) : Session :=
  let (g, st) := Store.empty.child none
  ⟨rule, logs, st, g⟩

def reset (s : Session) : Session :=
  let (g, st) := s.store.child none
  { s with store := st, global := g }

def bindings (s : Session) : Bindings := s.store.bindings s.global

/-- reads a line under the names that are bound now -/
def parse (s : Session) (line : List Char) : List Diagnostic × Except ParseError Expr :=
  let r := scan line
  (r.diagnostics, ExprShell.parse (s.store.has s.global) r.tokens)

def kept (s : Session) (es : List LogEntry) : List LogEntry := if s.logs then es else []

/-- runs a line -/
def eval (s : Session) (fuel : Nat) (line : List Char) : LineResult × Session :=
  let (warnings, parsed) := s.parse line
  match parsed with
  | .error e => (⟨none, warnings, .parseError e, s.kept [.parseFailed e.text]⟩, s)
  | .ok tree =>
    let before := s.bindings
    let ⟨rule, logs, store, global⟩ := s
    match Eval.eval rule fuel 0 global tree ⟨store, #[]⟩ with
    | .done v σ =>
      let after : Session := ⟨rule, logs, σ.store, global⟩
      (⟨some tree, warnings, .value v, after.kept (σ.events.toList.map .ofEvent)⟩, after)
    | .failed e σ =>
      let after : Session := ⟨rule, logs, σ.store.restore global before, global⟩
      (⟨some tree, warnings, .evalError e,
        after.kept (σ.events.toList.map .ofEvent ++ [.evaluationFailed e.text])⟩, after)
    | .unfinished => (⟨some tree, warnings, .unfinished, []⟩, ⟨rule, logs, store, global⟩)

end Session

end ExprShell
