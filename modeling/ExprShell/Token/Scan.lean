import ExprShell.Token.Piece

/-!
# Scanning

Scanning puts the pieces of a text in their places.  Lexemes become tokens, skipped characters
become diagnostics, layout leaves nothing; the tokens end with one end mark, at the place behind
the last character.  Scanning never fails.

* `scan`          all tokens and diagnostics of a text;
* `Reader.next`   one token at a time; at the end the same end mark again and again.
-/

namespace ExprShell
open Text Token

structure Diagnostic where
  pos : Position
  fault : Fault
  deriving DecidableEq, Repr

namespace Diagnostic

def message (d : Diagnostic) : String := d.fault.message

def text (d : Diagnostic) : String := "LEX ERROR at " ++ d.pos.text ++ ": " ++ d.message

end Diagnostic

structure Placed where
  pos : Position
  piece : Piece
  deriving DecidableEq, Repr

namespace Placed

def place : Position → List Piece → List Placed
  | _, [] => []
  | p, x :: xs => ⟨p, x⟩ :: place (p.after x.text) xs

def token? (x : Placed) : Option Token :=
  match x.piece with
  | .lexeme k t =>
    let s := String.ofList t
    some ⟨k, s, if k.hasLiteral then s else "", x.pos⟩
  | _ => none

def diagnostic? (x : Placed) : Option Diagnostic :=
  match x.piece with
  | .skipped f => some ⟨x.pos, f⟩
  | _ => none

@[simp] theorem place_cons (p : Position) (x : Piece) (xs : List Piece) :
    place p (x :: xs) = ⟨p, x⟩ :: place (p.after x.text) xs := rfl

end Placed

def Token.endAt (p : Position) : Token := ⟨.eof, "", "", p⟩

def placed (cs : List Char) : List Placed := Placed.place Position.start (Piece.split cs)

structure Scan where
  tokens : List Token
  diagnostics : List Diagnostic
  deriving DecidableEq, Repr

/-- scans a text -/
def scan (cs : List Char) : Scan :=
  let xs := placed cs
  ⟨xs.filterMap Placed.token? ++ [Token.endAt (Position.start.after cs)],
   xs.filterMap Placed.diagnostic?⟩

/-! ## One token at a time -/

/-- what is left to read, where it ends, and what was skipped so far -/
structure Reader where
  ahead : List Placed
  stop : Position
  skipped : List Diagnostic

namespace Reader

def ofText (cs : List Char) : Reader := ⟨placed cs, Position.start.after cs, []⟩

/-- skips to the next token; the diagnostics on the way come last in the second part -/
def advance : List Placed → List Diagnostic → Option Token × List Placed × List Diagnostic
  | [], ds => (none, [], ds)
  | x :: xs, ds =>
    match x.token? with
    | some t => (some t, xs, ds)
    | none => advance xs (ds ++ x.diagnostic?.toList)

def next (r : Reader) : Token × Reader :=
  let (t, ahead, skipped) := advance r.ahead r.skipped
  (t.getD (Token.endAt r.stop), ⟨ahead, r.stop, skipped⟩)

end Reader

end ExprShell
