/-!
# A place in a YAML text

A text is loaded in pieces of at most 512 bytes, and only when a step needs characters that are not
loaded yet; a character that may not stand in a YAML text is an error once its piece is loaded, and
no error as long as nobody asks for it.  A line ends at a line feed, a carriage return, both
together, a next-line character, or one of the two Unicode separators; all but the separators are
read as a line feed.

* `Cursor`       what is loaded, what is not, and where we are;
* `Look`         a step over a text, which may fail;
* `Look.need`    loads until so many characters are there, or the text ends.
-/

namespace ExprShell.Yaml

structure Mark where
  index : Nat
  line : Nat
  col : Nat
  deriving DecidableEq, Repr, Inhabited

def isAllowed (c : Char) : Bool :=
  let n := c.toNat
  n = 9 || n = 10 || n = 13 || (0x20 ≤ n && n ≤ 0x7e) || n = 0x85 || (0xa0 ≤ n && n ≤ 0xfffd) ||
    0x10000 ≤ n

def isBreak (c : Char) : Bool :=
  let n := c.toNat
  n = 10 || n = 13 || n = 0x85 || n = 0x2028 || n = 0x2029

/-- space and tab -/
def isGap (c : Char) : Bool := c = ' ' || c = '\t'

def isByteOrderMark (c : Char) : Bool := c.toNat = 0xfeff

/-- the most characters that fit into so many bytes, and the others -/
def piece : Nat → List Char → List Char × List Char
  | _, [] => ([], [])
  | room, c :: cs =>
    if c.utf8Size ≤ room then
      let (now, later) := piece (room - c.utf8Size) cs
      (c :: now, later)
    else ([], c :: cs)

structure Cursor where
  /-- what is loaded -/
  ahead : List Char
  /-- what is not loaded yet -/
  later : List Char
  /-- how many characters behind the end of the text are loaded -/
  beyond : Nat
  /-- did a byte order mark stand here when something was last loaded? -/
  marked : Bool
  mark : Mark
  /-- has a line ended, with only gaps behind it? -/
  fresh : Bool
  /-- the number of characters in the whole text -/
  size : Nat

namespace Cursor

def pieceSize : Nat := 512

/-- the start of a text; a byte order mark there counts as loaded and is dropped -/
def start? (cs : List Char) : Option Cursor :=
  let (room, body) := match cs with
    | c :: r => if isByteOrderMark c then (pieceSize - c.utf8Size, r) else (pieceSize, cs)
    | [] => (pieceSize, [])
  let (now, later) := piece room body
  if now.all isAllowed then
    some ⟨now, later, if body = [] then 1 else 0, now.head?.any isByteOrderMark, ⟨0, 0, 0⟩, false,
      cs.length⟩
  else none

def peek (c : Cursor) (k : Nat) : Option Char := c.ahead[k]?

def sees (c : Cursor) (k : Nat) (x : Char) : Bool := c.peek k == some x

def atEnd (c : Cursor) : Bool := c.ahead.isEmpty

def breakOrEnd (c : Cursor) (k : Nat) : Bool := (c.peek k).all isBreak

/-- does a gap, a line or the text end `k` places ahead? -/
def gapOrEnd (c : Cursor) (k : Nat) : Bool := (c.peek k).all fun x => isGap x || isBreak x

def gap (c : Cursor) (k : Nat) : Bool := (c.peek k).any isGap

def lineEnd (c : Cursor) (k : Nat) : Bool := (c.peek k).any isBreak

def documentMark (c : Cursor) : Option Char :=
  if c.mark.col ≠ 0 ∨ !c.gapOrEnd 3 then none
  else match c.ahead with
    | '-' :: '-' :: '-' :: _ => some '-'
    | '.' :: '.' :: '.' :: _ => some '.'
    | _ => none

def has (c : Cursor) (n : Nat) : Bool := n ≤ (c.ahead.take n).length + c.beyond

/-- loads pieces until so many characters are there; at the end of the text it loads one more
character behind it and stops -/
def fill? (n : Nat) : Nat → Cursor → Option Cursor
  | 0, c => some c
  | fuel + 1, c =>
    if c.has n then some c
    else if c.later = [] then some { c with beyond := c.beyond + 1 }
    else
      let (now, later) := piece pieceSize c.later
      if now.all isAllowed then fill? n fuel { c with ahead := c.ahead ++ now, later := later }
      else none

/-- the next character is passed, on the same line -/
def right (c : Cursor) : Cursor :=
  let mark : Mark := ⟨c.mark.index + 1, c.mark.line, c.mark.col + 1⟩
  match c.ahead with
  | x :: xs => { c with ahead := xs, mark := mark, fresh := c.fresh && isGap x }
  | [] => { c with beyond := c.beyond - 1, mark := mark, fresh := false }

/-- so many characters are passed, which end a line -/
def down (c : Cursor) (n : Nat) : Cursor :=
  { c with
    ahead := c.ahead.drop n, mark := ⟨c.mark.index + n, c.mark.line + 1, 0⟩, fresh := true }

end Cursor

abbrev Look (α : Type) := StateT Cursor Option α

namespace Look

/-- loads until so many characters are there, or the text ends -/
def need (n : Nat) : Look Unit := do
  let c ← get
  if !c.has n then
    let c ← Cursor.fill? n (n + 1) c
    set { c with marked := (c.peek 0).any isByteOrderMark }

def sees (p : Cursor → Bool) : Look Bool := return p (← get)

def skip : Look Unit := modify Cursor.right

def skipMany : Nat → Look Unit
  | 0 => return ()
  | n + 1 => do
    skip
    skipMany n

/-- passes a line end and gives the character that it is read as; nothing happens elsewhere -/
def lineBreak : Look (List Char) := do
  let c ← get
  match c.ahead with
  | '\r' :: '\n' :: _ =>
    set (c.down 2)
    return ['\n']
  | x :: _ =>
    if isBreak x then
      set (c.down 1)
      return if x.toNat = 0x2028 ∨ x.toNat = 0x2029 then [x] else ['\n']
    else return []
  | [] => return []

/-- takes characters while they belong to a class, onto those before them, last first -/
def takeOnto (p : Char → Bool) : Nat → List Char → Look (List Char)
  | 0, acc => return acc
  | fuel + 1, acc => do
    match (← get).peek 0 with
    | some x =>
      if p x then
        skip
        need 1
        takeOnto p fuel (x :: acc)
      else return acc
    | none => return acc

def takeWhile (p : Char → Bool) : Look (List Char) := do
  need 1
  return (← takeOnto p (← get).size []).reverse

def skipWhile (p : Char → Bool) : Look Unit := do
  let _ ← takeWhile p

def endLine : Look Unit := do
  if ← sees (·.lineEnd 0) then
    need 2
    let _ ← lineBreak

/-! ## Comments -/

/-- how far a comment may lie ahead to be found -/
def sight : Nat := 512

/-- how far ahead a comment begins, if only characters of a class stand before it -/
def findComment (p : Char → Bool) : Nat → Nat → Look (Option Nat)
  | 0, _ => return none
  | fuel + 1, k => do
    need (k + 1)
    match (← get).peek k with
    | some x =>
      if x = '#' then return some k
      else if p x then findComment p fuel (k + 1)
      else return none
    | none => return none

/-- passes everything up to an index, and what follows on that line -/
def skipThrough (index : Nat) : Nat → Look Unit
  | 0 => return ()
  | fuel + 1 => do
    need 1
    let c ← get
    if c.breakOrEnd 0 then
      if c.mark.index < index then
        endLine
        skipThrough index fuel
    else
      skip
      skipThrough index fuel

def skipComment (k : Nat) : Look Unit := do
  let c ← get
  skipThrough (c.mark.index + k) (c.size + 1)

/-- passes comments that only white space separates, from `k` places ahead; whatever stands behind
the last one is left -/
def skipComments : Nat → Nat → Look Unit
  | 0, _ => return ()
  | fuel + 1, k => do
    match ← findComment (fun x => isGap x || x = '\n' || x = '\r') (sight - k) k with
    | some j =>
      skipComment j
      skipComments fuel 1
    | none => return ()

def comments : Look Unit := do skipComments ((← get).size + 1) 0

def lineComment : Look Unit := do
  if !(← sees (·.fresh)) then
    match ← findComment isGap sight 0 with
    | some k => skipComment k
    | none => return ()

end Look

end ExprShell.Yaml
