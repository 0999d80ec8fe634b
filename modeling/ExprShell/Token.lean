import ExprShell.Number.Decimal

/-!
# Tokens

A token is the smallest unit of a line: its kind, its text as written (the lexeme), the payload of
words and numbers (the literal), and the place where it begins.

* `Token.Kind`      the kinds, with a name and a number each; other numbers are kept as they are;
* `Keyword`         the thirteen reserved words, in capitals only;
* `Token.is`        a keyword is told by its literal, whatever its lexeme.
-/

namespace ExprShell

/-- a place in a text, counted in characters; a scanned text begins at line 1, column 1 -/
structure Position where
  line : Int
  col : Int
  deriving DecidableEq, Repr

namespace Position

def start : Position := ⟨1, 1⟩

def next (p : Position) (c : Char) : Position :=
  if c = '\n' then ⟨p.line + 1, 1⟩ else ⟨p.line, p.col + 1⟩

def after (p : Position) (cs : List Char) : Position := cs.foldl next p

@[simp] theorem after_nil (p : Position) : p.after [] = p := rfl

@[simp] theorem after_cons (p : Position) (c : Char) (cs : List Char) :
    p.after (c :: cs) = (p.next c).after cs := rfl

theorem after_append (p : Position) (cs ds : List Char) :
    p.after (cs ++ ds) = (p.after cs).after ds := List.foldl_append

def text (p : Position) : String := Decimal.ofInt p.line ++ ":" ++ Decimal.ofInt p.col

end Position

inductive Keyword
  | var | and | or | not | if | then | elif | else | for | to | step | while | fn
  deriving DecidableEq, Repr

namespace Keyword

def spelling : Keyword → String
  | .var => "VAR"
  | .and => "AND"
  | .or => "OR"
  | .not => "NOT"
  | .if => "IF"
  | .then => "THEN"
  | .elif => "ELIF"
  | .else => "ELSE"
  | .for => "FOR"
  | .to => "TO"
  | .step => "STEP"
  | .while => "WHILE"
  | .fn => "FN"

def all : List Keyword :=
  [.var, .and, .or, .not, .if, .then, .elif, .else, .for, .to, .step, .while, .fn]

theorem mem_all (k : Keyword) : k ∈ all := by
  cases k <;> decide

def reserves (word : String) : Bool := all.any fun k => k.spelling = word

theorem reserves_spelling (k : Keyword) : reserves k.spelling = true :=
  List.any_eq_true.mpr ⟨k, mem_all k, by simp⟩

end Keyword

namespace Token

/-- the kinds of tokens; `other` keeps a number that names no kind -/
inductive Kind
  | eof
  | lparen | rparen | comma | arrow
  | plus | minus | mul | div
  | ee | ne | lt | gt | lte | gte
  | equal
  | int | double | identifier | keyword
  | other (code : Int)
  deriving DecidableEq, Repr

namespace Kind

/-- the named kinds, in the order of their numbers -/
def all : List Kind :=
  [.eof, .lparen, .rparen, .comma, .arrow, .plus, .minus, .mul, .div, .ee, .ne, .lt, .gt, .lte,
   .gte, .equal, .int, .double, .identifier, .keyword]

def code : Kind → Int
  | .eof => 0
  | .lparen => 1
  | .rparen => 2
  | .comma => 3
  | .arrow => 4
  | .plus => 5
  | .minus => 6
  | .mul => 7
  | .div => 8
  | .ee => 9
  | .ne => 10
  | .lt => 11
  | .gt => 12
  | .lte => 13
  | .gte => 14
  | .equal => 15
  | .int => 16
  | .double => 17
  | .identifier => 18
  | .keyword => 19
  | .other n => n

def ofCode (n : Int) : Kind := (all.find? fun k => k.code = n).getD (.other n)

def name : Kind → String
  | .eof => "EOF"
  | .lparen => "LPAREN"
  | .rparen => "RPAREN"
  | .comma => "COMMA"
  | .arrow => "ARROW"
  | .plus => "PLUS"
  | .minus => "MINUS"
  | .mul => "MUL"
  | .div => "DIV"
  | .ee => "EE"
  | .ne => "NE"
  | .lt => "LT"
  | .gt => "GT"
  | .lte => "LTE"
  | .gte => "GTE"
  | .equal => "EQUAL"
  | .int => "INT"
  | .double => "DOUBLE"
  | .identifier => "IDENTIFIER"
  | .keyword => "KEYWORD"
  | .other n => "TokenType(" ++ Decimal.ofInt n ++ ")"

def ofName? (s : String) : Option Kind := all.find? fun k => k.name = s

/-- reserved words are keywords, all other words are identifiers -/
def ofWord (word : String) : Kind := if Keyword.reserves word then .keyword else .identifier

/-- words and numbers carry their text as a literal -/
def hasLiteral : Kind → Bool
  | .int | .double | .identifier | .keyword => true
  | _ => false

def isComparison : Kind → Bool
  | .ee | .ne | .lt | .gt | .lte | .gte => true
  | _ => false

end Kind

end Token

/-- a token -/
structure Token where
  kind : Token.Kind
  lexeme : String
  literal : String
  pos : Position
  deriving DecidableEq, Repr

namespace Token

/-- the token that stands where none was given: an end of input at no place -/
def missing : Token := ⟨.eof, "", "", ⟨0, 0⟩⟩

def is (t : Token) (k : Keyword) : Bool := t.kind = .keyword && t.literal = k.spelling

def shown (t : Token) : String := if t.kind = .eof then "end of input" else t.lexeme

/-- the same kind and the same text, wherever they stand -/
def same (a b : Token) : Bool := a.kind = b.kind && a.lexeme = b.lexeme

end Token

end ExprShell
