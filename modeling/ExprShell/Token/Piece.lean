import ExprShell.Text.Quoted
import ExprShell.Token

/-!
# A text in pieces

Every text falls into pieces without gap or overlap: lexemes, single layout characters, and single
characters with which nothing begins.  A piece is taken off the front as long as it can be made;
the rest is shorter, and so on to the end.

* `Piece.first`   the first piece of a non-empty text, and the rest;
* `Piece.split`   all pieces.
-/

namespace ExprShell
open Text Token

inductive Fault
  /-- no token begins with it -/
  | illegal (c : Char)
  /-- a `!` with no `=` behind it -/
  | loneBang
  deriving DecidableEq, Repr

namespace Fault

def char : Fault → Char
  | .illegal c => c
  | .loneBang => '!'

def message : Fault → String
  | .illegal c => "illegal character " ++ quoteChar c
  | .loneBang => "'!' must be followed by '='"

end Fault

/-- a piece of a text -/
inductive Piece
  | lexeme (kind : Kind) (text : List Char)
  | layout (c : Char)
  | skipped (fault : Fault)
  deriving DecidableEq, Repr

namespace Piece

def text : Piece → List Char
  | .lexeme _ t => t
  | .layout c => [c]
  | .skipped f => [f.char]

/-- space, tab, carriage return and line feed separate tokens -/
def isLayout (c : Char) : Bool := c = ' ' || c = '\t' || c = '\r' || c = '\n'

def word (c : Char) (cs : List Char) : Piece × List Char :=
  let w := c :: cs.takeWhile isLetter
  (.lexeme (Kind.ofWord (String.ofList w)) w, cs.dropWhile isLetter)

/-- digits that begin with `c`, with a fraction if a point and a digit follow -/
def number (c : Char) (cs : List Char) : Piece × List Char :=
  let w := c :: cs.takeWhile isDigit
  match cs.dropWhile isDigit with
  | '.' :: d :: r =>
    if isDigit d then
      (.lexeme .double (w ++ '.' :: d :: r.takeWhile isDigit), r.dropWhile isDigit)
    else (.lexeme .int w, '.' :: d :: r)
  | r => (.lexeme .int w, r)

/-- an operator or a delimiter, or a character that is skipped -/
def sign (c : Char) (cs : List Char) : Piece × List Char :=
  match c, cs with
  | '(', r => (.lexeme .lparen ['('], r)
  | ')', r => (.lexeme .rparen [')'], r)
  | ',', r => (.lexeme .comma [','], r)
  | '+', r => (.lexeme .plus ['+'], r)
  | '*', r => (.lexeme .mul ['*'], r)
  | '/', r => (.lexeme .div ['/'], r)
  | '-', '>' :: r => (.lexeme .arrow ['-', '>'], r)
  | '-', r => (.lexeme .minus ['-'], r)
  | '=', '=' :: r => (.lexeme .ee ['=', '='], r)
  | '=', r => (.lexeme .equal ['='], r)
  | '!', '=' :: r => (.lexeme .ne ['!', '='], r)
  | '!', r => (.skipped .loneBang, r)
  | '<', '=' :: r => (.lexeme .lte ['<', '='], r)
  | '<', r => (.lexeme .lt ['<'], r)
  | '>', '=' :: r => (.lexeme .gte ['>', '='], r)
  | '>', r => (.lexeme .gt ['>'], r)
  | c, r => (.skipped (.illegal c), r)

def first (c : Char) (cs : List Char) : Piece × List Char :=
  if isLayout c then (.layout c, cs)
  else if isLetter c then word c cs
  else if isDigit c then number c cs
  else sign c cs

/-! ## Nothing is lost -/

theorem text_word (c : Char) (cs : List Char) : (word c cs).1.text ++ (word c cs).2 = c :: cs := by
  show c :: (cs.takeWhile isLetter ++ cs.dropWhile isLetter) = c :: cs
  rw [List.takeWhile_append_dropWhile]

theorem text_number (c : Char) (cs : List Char) :
    (number c cs).1.text ++ (number c cs).2 = c :: cs := by
  have h : cs.takeWhile isDigit ++ cs.dropWhile isDigit = cs := List.takeWhile_append_dropWhile
  unfold number
  split
  · next d r hd =>
    rw [hd] at h
    split
    · show (c :: cs.takeWhile isDigit ++ '.' :: d :: r.takeWhile isDigit) ++ r.dropWhile isDigit = _
      rw [List.append_assoc, List.cons_append, List.cons_append, List.cons_append,
        List.takeWhile_append_dropWhile, h]
    · show c :: (cs.takeWhile isDigit ++ _) = _
      rw [h]
  · show c :: (cs.takeWhile isDigit ++ cs.dropWhile isDigit) = _
    rw [h]

theorem text_sign (c : Char) (cs : List Char) : (sign c cs).1.text ++ (sign c cs).2 = c :: cs := by
  unfold sign
  split <;> rfl

theorem text_first (c : Char) (cs : List Char) :
    (first c cs).1.text ++ (first c cs).2 = c :: cs := by
  unfold first
  split
  · rfl
  · split
    · exact text_word c cs
    · split
      · exact text_number c cs
      · exact text_sign c cs

theorem text_ne_nil_word (c : Char) (cs : List Char) : (word c cs).1.text ≠ [] := by
  simp [word, text]

theorem text_ne_nil_number (c : Char) (cs : List Char) : (number c cs).1.text ≠ [] := by
  unfold number
  split
  · split <;> simp [text]
  · simp [text]

theorem text_ne_nil_sign (c : Char) (cs : List Char) : (sign c cs).1.text ≠ [] := by
  unfold sign
  split <;> simp [text]

theorem text_first_ne_nil (c : Char) (cs : List Char) : (first c cs).1.text ≠ [] := by
  unfold first
  split
  · simp [text]
  · split
    · exact text_ne_nil_word c cs
    · split
      · exact text_ne_nil_number c cs
      · exact text_ne_nil_sign c cs

theorem length_first (c : Char) (cs : List Char) : (first c cs).2.length ≤ cs.length := by
  have h := congrArg List.length (text_first c cs)
  have h1 := List.length_pos_iff.mpr (text_first_ne_nil c cs)
  rw [List.length_append, List.length_cons] at h
  omega

/-! ## All pieces -/

/-- the pieces of a text, in order -/
def split : List Char → List Piece
  | [] => []
  | c :: cs => (first c cs).1 :: split (first c cs).2
termination_by cs => cs.length
decreasing_by
  have := length_first c cs
  simp only [List.length_cons]
  omega

@[simp] theorem split_nil : split [] = [] := by rw [split]

theorem split_cons (c : Char) (cs : List Char) :
    split (c :: cs) = (first c cs).1 :: split (first c cs).2 := by rw [split]

end Piece

end ExprShell
