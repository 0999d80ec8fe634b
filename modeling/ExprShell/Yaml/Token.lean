import ExprShell.Yaml.Scalar
import ExprShell.Yaml.Tag

/-!
# YAML tokens

The signs and scalars of a YAML text, with the tokens that indentation stands for: the start of a
block collection where a line goes further in, and its end where a line comes back out.  A key is
found only at its colon, so the tokens before it are put in then; a key must be on one line and
not too long.  Tokens wait in a queue: the first of them is given out once it cannot be a key any
more and two others stand behind it.

* `Scan.fetch`   one more sign or scalar;
* `Scan.peek`    the first token of the queue, when it is settled;
* `Scan.skip`    takes it.
-/

namespace ExprShell.Yaml

inductive TokenKind
  | streamEnd
  | directive (d : Directive)
  | documentStart
  | documentEnd
  | blockSequence
  | blockMapping
  | blockEnd
  | flowSequence
  | flowSequenceEnd
  | flowMapping
  | flowMappingEnd
  | blockEntry
  | flowEntry
  | key
  | value
  | reference (name : List Char)
  | anchor (name : List Char)
  | tag (handle rest : List Char)
  | scalar (style : Style) (text : List Char)
  deriving DecidableEq

structure Token where
  kind : TokenKind
  mark : Mark
  deriving DecidableEq

structure KeyMark where
  possible : Bool
  /-- must it be a key? -/
  required : Bool
  /-- does its token wait until this is known? -/
  awaited : Bool
  /-- the number of the token that would be the key -/
  token : Nat
  mark : Mark

structure Scanner where
  cursor : Cursor
  /-- the tokens that wait -/
  queue : List Token
  /-- the number of tokens that were taken -/
  taken : Nat
  /-- the column of the current block, -1 outside all blocks -/
  indent : Int
  /-- the columns of the blocks around it -/
  indents : List Int
  /-- may a key begin here? -/
  keyAllowed : Bool
  /-- the possible key of this level -/
  keyMark : KeyMark
  /-- the possible keys of the levels around open brackets, the innermost first -/
  outerKeys : List KeyMark

namespace Scanner

def start? (cs : List Char) : Option Scanner := do
  let c ← Cursor.start? cs
  return ⟨c, [], 0, -1, [], true, ⟨false, false, false, 0, c.mark⟩, []⟩

def inFlow (s : Scanner) : Bool := !s.outerKeys.isEmpty

def next (s : Scanner) : Nat := s.taken + s.queue.length

def push (s : Scanner) (k : TokenKind) (m : Mark) : Scanner :=
  { s with queue := s.queue ++ [⟨k, m⟩] }

/-- a token before the token with a number, or at the end if that one was taken -/
def insertAt (s : Scanner) (n : Nat) (k : TokenKind) (m : Mark) : Scanner :=
  if n < s.taken then s.push k m
  else
    let i := n - s.taken
    { s with queue := s.queue.take i ++ ⟨k, m⟩ :: s.queue.drop i }

/-- the possible key that the first token of the queue waits for -/
def awaitedKey? (s : Scanner) : Option KeyMark :=
  (s.keyMark :: s.outerKeys).find? fun k => k.possible && k.awaited && k.token == s.taken

/-- is a possible key too far back: on another line, or more than 1024 characters? -/
def isPast (s : Scanner) (k : KeyMark) : Bool :=
  let m := s.cursor.mark
  k.mark.line < m.line || k.mark.index + 1024 < m.index

end Scanner

abbrev Scan (α : Type) := StateT Scanner Option α

namespace Scan

def look {α : Type} (x : Look α) : Scan α := do
  let s ← get
  let (a, c) ← x.run s.cursor
  set { s with cursor := c }
  return a

def push (k : TokenKind) (m : Mark) : Scan Unit := modify (·.push k m)

def sign (k : TokenKind) (width : Nat) : Scan Unit := do
  let m := (← get).cursor.mark
  look (Look.skipMany width)
  push k m

/-! ## Blocks -/

/-- the greatest number of blocks or brackets inside each other -/
def depthLimit : Nat := 10000

/-- the end of every block right of a column -/
def unroll (col : Int) : Nat → Scan Unit
  | 0 => return ()
  | fuel + 1 => do
    let s ← get
    if !s.inFlow ∧ col < s.indent then
      push .blockEnd s.cursor.mark
      modify fun s => { s with indent := s.indents.headD (-1), indents := s.indents.drop 1 }
      unroll col fuel

def leave (col : Int) : Scan Unit := do unroll col ((← get).indents.length + 1)

/-- the start of a block at a column, if it lies right of the current one; the token goes before
the token with a number, or at the end -/
def roll (col : Nat) (number : Option Nat) (k : TokenKind) (m : Mark) : Scan Unit := do
  let s ← get
  if !s.inFlow ∧ s.indent < col then
    if depthLimit ≤ s.indents.length then failure
    let s := { s with indents := s.indent :: s.indents, indent := col }
    set (match number with
      | some n => s.insertAt n k m
      | none => s.push k m)

/-! ## Keys -/

/-- forgets a possible key; a key that must be there is missed -/
def dropKey : Scan Unit := do
  let s ← get
  let k := s.keyMark
  if k.possible then
    if k.required then failure
    set { s with keyMark := { k with possible := false } }

def saveKey : Scan Unit := do
  if (← get).keyAllowed then
    dropKey
    modify fun s =>
      let required := !s.inFlow && s.indent == s.cursor.mark.col
      { s with keyMark := ⟨true, required, true, s.next, s.cursor.mark⟩ }

/-- the key that a colon here would end, if there is one; one that must be and cannot is an
error -/
def liveKey : Scan (Option KeyMark) := do
  let s ← get
  let k := s.keyMark
  if !k.possible then return none
  else if s.isPast k then
    if k.required then failure
    set { s with keyMark := { k with possible := false } }
    return none
  else return some k

/-! ## Signs -/

def openFlow (k : TokenKind) : Scan Unit := do
  saveKey
  let s ← get
  if depthLimit ≤ s.outerKeys.length then failure
  set { s with
    outerKeys := s.keyMark :: s.outerKeys
    keyMark := ⟨false, false, false, s.next, s.cursor.mark⟩
    keyAllowed := true }
  sign k 1

/-- a closing bracket; brackets in which no key could begin do not wait to become a key -/
def closeFlow (k : TokenKind) : Scan Unit := do
  dropKey
  let s ← get
  match s.outerKeys with
  | key :: keys =>
    let awaited := key.awaited && key.token != s.keyMark.token
    set { s with keyMark := { key with awaited := awaited }, outerKeys := keys }
  | [] => pure ()
  modify fun s => { s with keyAllowed := false }
  sign k 1

def comma : Scan Unit := do
  dropKey
  modify fun s => { s with keyAllowed := true }
  sign .flowEntry 1

/-- a dash or a question mark that begins an entry of a block -/
def entry (block k : TokenKind) (keys : Bool) : Scan Unit := do
  let s ← get
  let m := s.cursor.mark
  if !s.inFlow ∧ !s.keyAllowed then failure
  roll m.col none block m
  dropKey
  modify fun s => { s with keyAllowed := keys }
  sign k 1

/-- a colon: what stands before it on the line is the key -/
def colon : Scan Unit := do
  match ← liveKey with
  | some k =>
    modify (·.insertAt k.token .key k.mark)
    roll k.mark.col (some k.token) .blockMapping k.mark
    modify fun s => { s with keyMark := { k with possible := false }, keyAllowed := false }
  | none =>
    let s ← get
    let m := s.cursor.mark
    if !s.inFlow ∧ !s.keyAllowed then failure
    roll m.col none .blockMapping m
    modify fun s => { s with keyAllowed := !s.inFlow }
  sign .value 1

/-- leaves all blocks, before a document mark, a directive or the end -/
def toMargin : Scan Unit := do
  leave (-1)
  dropKey
  modify fun s => { s with keyAllowed := false }

/-- the end of the text, which ends the last line -/
def finish : Scan Unit := do
  modify fun s =>
    let m := s.cursor.mark
    let mark := if m.col = 0 then m else ⟨m.index, m.line + 1, 0⟩
    { s with cursor := { s.cursor with mark := mark } }
  toMargin
  push .streamEnd (← get).cursor.mark

def directive : Scan Unit := do
  toMargin
  let m := (← get).cursor.mark
  push (.directive (← look Look.directive)) m

/-- a token that may be a key: one that a step over the text finds -/
def keyed (x : Look TokenKind) : Scan Unit := do
  saveKey
  modify fun s => { s with keyAllowed := false }
  let m := (← get).cursor.mark
  push (← look x) m

/-! ## Names and scalars -/

def anchorName : Look (List Char) := do
  Look.skip
  let name ← Look.takeWhile isWordChar
  let c ← get
  let follows := c.gapOrEnd 0 || (c.peek 0).any fun x =>
    "?:,]\x7d%@".toList.contains x || x.toNat = 96
  if name = [] ∨ !follows then failure
  return name

def blockScalar (literal : Bool) : Scan Unit := do
  dropKey
  modify fun s => { s with keyAllowed := true }
  let s ← get
  push (.scalar .block (← look (Look.block literal s.indent))) s.cursor.mark

/-- a plain scalar; a key may follow it on another line -/
def plainScalar : Scan Unit := do
  saveKey
  let s ← get
  let (text, broken) ← look (Look.plain s.inFlow (s.indent + 1).toNat)
  modify fun s => { s with keyAllowed := broken }
  push (.scalar .plain text) s.cursor.mark

def beginsPlain (flow : Bool) (c : Cursor) : Bool :=
  match c.peek 0 with
  | none => false
  | some x =>
    if x = '-' then !c.gap 1
    else if x = '?' ∨ x = ':' then !flow && !c.gapOrEnd 1
    else !(isGap x || isBreak x || ",[]\x7b\x7d#&*!|>'\"%@".toList.contains x || x.toNat = 96)

def token (x : Char) : Scan Unit := do
  let s ← get
  let c := s.cursor
  if x = '[' then openFlow .flowSequence
  else if x = '\x7b' then openFlow .flowMapping
  else if x = ']' then closeFlow .flowSequenceEnd
  else if x = '\x7d' then closeFlow .flowMappingEnd
  else if x = ',' then comma
  else if x = '-' ∧ c.gapOrEnd 1 then entry .blockSequence .blockEntry true
  else if x = '?' ∧ (s.inFlow ∨ c.gapOrEnd 1) then entry .blockMapping .key (!s.inFlow)
  else if x = ':' ∧ (s.inFlow ∨ c.gapOrEnd 1) then colon
  else if x = '*' then keyed (TokenKind.reference <$> anchorName)
  else if x = '&' then keyed (TokenKind.anchor <$> anchorName)
  else if x = '!' then keyed ((fun t => TokenKind.tag t.1 t.2) <$> Look.tag)
  else if x = '|' ∧ !s.inFlow then blockScalar true
  else if x = '>' ∧ !s.inFlow then blockScalar false
  else if x = '\x27' ∨ x = '"' then keyed (TokenKind.scalar .quoted <$> Look.quoted x)
  else if beginsPlain s.inFlow c then plainScalar
  else failure

/-! ## The queue -/

/-- past gaps, comments and line ends; a tab is no indentation.  Where a byte order mark was loaded
last, a line loses its first character. -/
def toNext : Nat → Scan Unit
  | 0 => return ()
  | fuel + 1 => do
    look (Look.need 1)
    let s ← get
    if s.cursor.mark.col = 0 ∧ s.cursor.marked then look Look.skip
    let tabs := s.inFlow || !s.keyAllowed
    look (Look.skipWhile fun x => x = ' ' || (tabs && x = '\t'))
    if (← get).cursor.sees 0 '#' then look Look.comments
    if (← get).cursor.lineEnd 0 then
      look Look.endLine
      modify fun s => { s with keyAllowed := s.keyAllowed || !s.inFlow }
      toNext fuel

/-- one more sign or scalar; a comment behind it is passed, but not behind the dash of an entry -/
def fetch : Scan Unit := do
  look (Look.need 1)
  toNext ((← get).cursor.size + 2)
  leave (← get).cursor.mark.col
  look (Look.need 4)
  let c := (← get).cursor
  match c.peek 0, c.documentMark with
  | none, _ => finish
  | some x, mark =>
    if c.mark.col = 0 ∧ x = '%' then directive
    else match mark with
      | some d =>
        toMargin
        sign (if d = '-' then .documentStart else .documentEnd) 3
      | none =>
        token x
        if (← get).queue.getLast?.all fun t => t.kind ≠ .blockEntry then look Look.lineComment

/-- is the first token settled?  A token that must be a key and cannot is an error. -/
def isSettled : Scan Bool := do
  let s ← get
  if s.queue.length < 3 then return false
  else
    match s.awaitedKey? with
    | none => return true
    | some k =>
      if !s.isPast k then return false
      else if k.required then failure
      else return true

def settle : Nat → Scan Unit
  | 0 => failure
  | fuel + 1 => do
    if !(← isSettled) then
      fetch
      settle fuel

def peek : Scan Token := do
  settle ((← get).cursor.size + 8)
  match (← get).queue with
  | t :: _ => return t
  | [] => failure

def skip : Scan Unit := modify fun s => { s with queue := s.queue.drop 1, taken := s.taken + 1 }

end Scan

end ExprShell.Yaml
