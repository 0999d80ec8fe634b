import ExprShell.Expr
import ExprShell.Text.Quoted

/-!
# Sentences and what can be wrong with them

The words of a sentence are the tokens before the first end mark; nothing behind that mark is ever
looked at.  A sentence that cannot be read is wrong at one token, which is a word or the end mark.
-/

namespace ExprShell
open Text

/-- the words to be read, and the mark that ends them -/
structure Sentence where
  words : List Token
  stop : Token
  deriving DecidableEq, Repr

namespace Sentence

def isEnd (t : Token) : Bool := t.kind = .eof

/-- the tokens up to the first end mark; if there is none, one without a place is added -/
def ofTokens (ts : List Token) : Sentence :=
  ⟨ts.takeWhile fun t => !isEnd t, (ts.find? isEnd).getD Token.missing⟩

end Sentence

inductive Want
  | expression
  | nameAfterVar
  | loopName
  | paramName
  | equals
  | opening
  | closing
  | commaOrClosing
  | arrow
  | word (k : Keyword)
  deriving DecidableEq, Repr

def Want.text : Want → String
  | .expression => "an expression"
  | .nameAfterVar => "identifier after 'VAR'"
  | .loopName => "loop variable after 'FOR'"
  | .paramName => "parameter name"
  | .equals => "'='"
  | .opening => "'('"
  | .closing => "')'"
  | .commaOrClosing => "',' or ')'"
  | .arrow => "'->'"
  | .word k => "'" ++ k.spelling ++ "'"

namespace ParseError

inductive Cause
  /-- there are no words -/
  | empty
  /-- an expression ends before this word -/
  | leftover
  /-- something else should stand here -/
  | wanted (w : Want)
  /-- a name is assigned to that is not bound -/
  | undeclared
  /-- the reader was given too little fuel; `Sentence.parse` gives enough -/
  | exhausted
  deriving DecidableEq, Repr

end ParseError

structure ParseError where
  token : Token
  cause : ParseError.Cause
  deriving DecidableEq, Repr

namespace ParseError

def message (e : ParseError) : String :=
  match e.cause with
  | .empty => "empty input"
  | .leftover => "unexpected " ++ quote e.token.lexeme ++ " after expression"
  | .wanted w => "expected " ++ w.text ++ ", got " ++ quote e.token.shown
  | .undeclared =>
    "cannot assign to undeclared variable " ++ e.token.literal ++ " (use VAR " ++
      e.token.literal ++ " = ...)"
  | .exhausted => "nesting too deep"

def pos (e : ParseError) : Position := e.token.pos

def text (e : ParseError) : String := "PARSE ERROR at " ++ e.pos.text ++ ": " ++ e.message

end ParseError

end ExprShell
