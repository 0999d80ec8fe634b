import ExprShell.Number.Numeral
import ExprShell.Yaml.Cursor

/-!
# Scalars in a YAML text

Plain scalars, scalars in single and double quotes, and block scalars.  Inside a scalar a single
line end becomes a space and further ones stay, except in a literal block, where all stay.  Texts
are gathered last character first.

* `Look.plain`    a plain scalar;
* `Look.quoted`   a scalar in quotes;
* `Look.block`    a literal or folded block.
-/

namespace ExprShell.Yaml

/-- how a scalar is written -/
inductive Style
  | plain
  | quoted
  | block
  deriving DecidableEq, Repr

/-- white space inside a scalar, last character first -/
structure Space where
  /-- gaps on the same line -/
  gaps : List Char
  /-- the first line end -/
  first : List Char
  /-- further line ends -/
  more : List Char
  /-- was there a line end? -/
  broken : Bool

namespace Space

def none : Space := ⟨[], [], [], false⟩

/-- one more gap; gaps after a line end are dropped -/
def gap (s : Space) (x : Char) : Space := if s.broken then s else { s with gaps := x :: s.gaps }

def lineEnd (s : Space) (b : List Char) : Space :=
  if s.broken then { s with more := b ++ s.more } else ⟨[], b, [], true⟩

/-- what the white space stands for, put onto what stands before it -/
def onto (s : Space) (acc : List Char) : List Char :=
  if s.broken then
    if s.first.head? = some '\n' then (if s.more = [] then ' ' :: acc else s.more ++ acc)
    else s.more ++ s.first ++ acc
  else s.gaps ++ acc

end Space

namespace Look

/-- takes white space.  A tab that stands for indentation, left of column `least`, is refused. -/
def space (least : Nat) : Nat → Space → Look Space
  | 0, s => return s
  | fuel + 1, s => do
    let c ← get
    match c.peek 0 with
    | some x =>
      if isGap x then
        if s.broken ∧ x = '\t' ∧ c.mark.col < least then failure
        skip
        need 1
        space least fuel (s.gap x)
      else if isBreak x then
        need 2
        let b ← lineBreak
        need 1
        space least fuel (s.lineEnd b)
      else return s
    | none => return s

/-! ## Plain scalars -/

def endsPlain (flow : Bool) (c : Cursor) : Bool :=
  c.gapOrEnd 0 || (c.sees 0 ':' && c.gapOrEnd 1) ||
    (flow && (c.peek 0).any fun x => ",?[]\x7b\x7d".toList.contains x)

def plainRun (flow : Bool) : Nat → List Char → Look (List Char)
  | 0, acc => return acc
  | fuel + 1, acc => do
    let c ← get
    match c.peek 0 with
    | some x =>
      if endsPlain flow c then return acc
      else
        skip
        need 2
        plainRun flow fuel (x :: acc)
    | none => return acc

/-- runs of a plain scalar with white space between them, at column `least` or right of it; `s` is
the white space before the next run -/
def plainRuns (flow : Bool) (least : Nat) : Nat → List Char → Space → Look (List Char × Space)
  | 0, acc, s => return (acc, s)
  | fuel + 1, acc, s => do
    need 4
    if ← sees fun c => c.documentMark.isSome || c.sees 0 '#' then return (acc, s)
    else
      let size := (← get).size
      let run ← plainRun flow size []
      let (acc, s) := if run = [] then (acc, s) else (run ++ s.onto acc, Space.none)
      if ← sees fun c => !(c.gap 0 || c.lineEnd 0) then return (acc, s)
      else
        let s ← space least (size + 1) s
        if ← sees fun c => !flow && decide (c.mark.col < least) then return (acc, s)
        else plainRuns flow least fuel acc s

/-- a plain scalar, and whether a line end follows it -/
def plain (flow : Bool) (least : Nat) : Look (List Char × Bool) := do
  let (acc, s) ← plainRuns flow least ((← get).size + 1) [] Space.none
  return (acc.reverse, s.broken)

/-! ## Quoted scalars -/

/-- what a letter behind a backslash stands for -/
def escaped? (c : Char) : Option Char :=
  match c with
  | '0' => some (Char.ofNat 0)
  | 'a' => some (Char.ofNat 7)
  | 'b' => some (Char.ofNat 8)
  | 't' => some '\t'
  | '\t' => some '\t'
  | 'n' => some '\n'
  | 'v' => some (Char.ofNat 11)
  | 'f' => some (Char.ofNat 12)
  | 'r' => some '\r'
  | 'e' => some (Char.ofNat 27)
  | ' ' => some ' '
  | '"' => some '"'
  | '\x27' => some '\x27'
  | '\\' => some '\\'
  | 'N' => some (Char.ofNat 0x85)
  | '_' => some (Char.ofNat 0xa0)
  | 'L' => some (Char.ofNat 0x2028)
  | 'P' => some (Char.ofNat 0x2029)
  | _ => none

def codeWidth : Char → Nat
  | 'x' => 2
  | 'u' => 4
  | 'U' => 8
  | _ => 0

def hexNumber? (cs : List Char) : Option Nat :=
  cs.foldlM (fun a c => (Numeral.hexValue? c).map (a * 16 + ·)) 0

def escape : Look Char := do
  let x ← (← get).peek 1
  skipMany 2
  match escaped? x with
  | some y => return y
  | none =>
    let w := codeWidth x
    need w
    let digits := (← get).ahead.take w
    if w = 0 ∨ digits.length ≠ w then failure
    let n ← hexNumber? digits
    if !decide n.isValidChar then failure
    skipMany w
    return Char.ofNat n

/-- a run inside quotes without white space, and whether it ends with an escaped line end -/
def quotedRun (mark : Char) : Nat → List Char → Look (List Char × Bool)
  | 0, acc => return (acc, false)
  | fuel + 1, acc => do
    let c ← get
    match c.peek 0 with
    | none => return (acc, false)
    | some x =>
      if isGap x || isBreak x then return (acc, false)
      else if x = mark then
        if mark = '\x27' ∧ c.sees 1 mark then
          skipMany 2
          need 2
          quotedRun mark fuel (mark :: acc)
        else return (acc, false)
      else if mark = '"' ∧ x = '\\' then
        if c.lineEnd 1 then
          need 3
          skip
          let _ ← lineBreak
          return (acc, true)
        else
          let y ← escape
          need 2
          quotedRun mark fuel (y :: acc)
      else
        skip
        need 2
        quotedRun mark fuel (x :: acc)

/-- runs inside quotes with white space between them, and the last mark -/
def quotedRuns (mark : Char) : Nat → List Char → Look (List Char)
  | 0, _ => failure
  | fuel + 1, acc => do
    need 4
    if ← sees fun c => c.documentMark.isSome || c.atEnd then failure
    let size := (← get).size
    let (acc, joined) ← quotedRun mark size acc
    need 1
    if ← sees (·.sees 0 mark) then
      skip
      return acc
    else
      let s ← space 0 (size + 1) { Space.none with broken := joined }
      quotedRuns mark fuel (s.onto acc)

def quoted (mark : Char) : Look (List Char) := do
  skip
  return (← quotedRuns mark ((← get).size + 1) []).reverse

/-! ## Block scalars -/

/-- what happens to line ends behind the last line -/
inductive Chomp
  | strip
  | clip
  | keep
  deriving DecidableEq

/-- the treatment of the end, if it is written here -/
def chomp : Look (Option Chomp) := do
  need 1
  let c ← get
  if c.sees 0 '+' then
    skip
    return some .keep
  else if c.sees 0 '-' then
    skip
    return some .strip
  else return none

/-- the indentation, zero if it is not written here; zero may not be written -/
def width : Look Nat := do
  need 1
  match (← get).peek 0 with
  | some x =>
    if x = '0' then failure
    else if Text.isDigit x then
      skip
      return Decimal.digitValue x
    else return 0
  | none => return 0

/-- the marks behind the sign of a block: the treatment of the end and the indentation, in either
order -/
def blockMarks : Look (Chomp × Nat) := do
  match ← chomp with
  | some h => return (h, ← width)
  | none =>
    let w ← width
    if w = 0 then return (.clip, 0) else return ((← chomp).getD .clip, w)

/-- passes spaces, up to a column unless it is zero -/
def indentation (indent : Nat) : Nat → Look Unit
  | 0 => return ()
  | fuel + 1 => do
    need 1
    if ← sees fun c => c.sees 0 ' ' && (indent = 0 || decide (c.mark.col < indent)) then
      skip
      indentation indent fuel

/-- takes indentation and empty lines; gives the deepest column and the line ends -/
def emptyLines (indent : Nat) : Nat → Nat → List Char → Look (Nat × List Char)
  | 0, deepest, acc => return (deepest, acc)
  | fuel + 1, deepest, acc => do
    indentation indent ((← get).size + 1)
    let c ← get
    let deepest := max deepest c.mark.col
    if c.sees 0 '\t' ∧ (indent = 0 ∨ c.mark.col < indent) then failure
    if c.lineEnd 0 then
      need 2
      let b ← lineBreak
      emptyLines indent fuel deepest (b ++ acc)
    else return (deepest, acc)

/-- the lines of a block; `lead` is the line end before the current line, and `after` the empty
lines behind it -/
def blockLines (literal : Bool) (indent : Nat) (chomp : Chomp) :
    Nat → List Char → List Char → List Char → Bool → Look (List Char)
  | 0, _, _, _, _ => failure
  | fuel + 1, acc, lead, after, wasGap => do
    let c ← get
    if c.mark.col = indent ∧ !c.atEnd then
      let gap := c.gap 0
      let folded := !literal && !wasGap && !gap && lead.head? = some '\n'
      let joint := if folded then (if after = [] then [' '] else []) else lead
      let acc ← takeOnto (fun x => !isBreak x) c.size (after ++ joint ++ acc)
      need 2
      let lead ← lineBreak
      let (_, after) ← emptyLines indent (c.size + 1) 0 []
      blockLines literal indent chomp fuel acc lead after gap
    else
      match chomp with
      | .strip => return acc
      | .clip => return lead ++ acc
      | .keep => return after ++ lead ++ acc

/-- a block scalar; `outer` is the indentation around it, or -1 -/
def block (literal : Bool) (outer : Int) : Look (List Char) := do
  skip
  let (chomp, width) ← blockMarks
  skipWhile isGap
  if ← sees (·.sees 0 '#') then skipWhile fun x => !isBreak x
  if ← sees fun c => !c.breakOrEnd 0 then failure
  endLine
  let fuel := (← get).size + 2
  let set : Nat := if width = 0 then 0 else (max outer 0).toNat + width
  let (deepest, empty) ← emptyLines set fuel 0 []
  let indent := if set = 0 then max (max deepest (outer + 1).toNat) 1 else set
  return (← blockLines literal indent chomp fuel [] [] empty false).reverse

end Look

end ExprShell.Yaml
