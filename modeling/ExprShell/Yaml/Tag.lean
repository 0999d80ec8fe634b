import ExprShell.Text.Letter
import ExprShell.Text.Lines
import ExprShell.Text.Utf8
import ExprShell.Number.Decimal
import ExprShell.Number.Numeral
import ExprShell.Yaml.Cursor

/-!
# Tags and directives of a YAML text

A tag is written out between angle brackets, or as a handle and what follows it; a directive may
say what a handle stands for.  A tag may hold octets of UTF-8 in hexadecimal.

* `Look.tag`         a tag, as its handle and its rest;
* `Look.directive`   a directive, which takes its line;
* `tagName?`         the tag that a handle and a rest stand for.
-/

namespace ExprShell.Yaml
open Text

inductive Directive
  | version (major minor : Nat)
  | tag (handle stands : List Char)
  deriving DecidableEq, Repr

def isWordChar (c : Char) : Bool := isAsciiLetter c || isDigit c || c = '_' || c = '-'

def isTagChar (c : Char) : Bool := isWordChar c || ";/?:@&=+$,.!~*'()[]%".toList.contains c

namespace Look

def octet : Look UInt8 := do
  need 3
  match (← get).ahead with
  | '%' :: a :: b :: _ =>
    let n := (← Numeral.hexValue? a) * 16 + (← Numeral.hexValue? b)
    skipMany 3
    return UInt8.ofNat n
  | _ => failure

def octetCount (b : UInt8) : Nat :=
  let n := b.toNat
  if n < 0x80 then 1
  else if n < 0xc0 then 0
  else if n < 0xe0 then 2
  else if n < 0xf0 then 3
  else if n < 0xf8 then 4
  else 0

def furtherOctets : Nat → Look (List UInt8)
  | 0 => return []
  | n + 1 => do
    let b ← octet
    if (continuation? b).isNone then failure
    return b :: (← furtherOctets n)

def octets : Look (List UInt8) := do
  let b ← octet
  match octetCount b with
  | 0 => failure
  | n + 1 => return b :: (← furtherOctets n)

/-- the characters of a tag as bytes, onto those before them, last first -/
def tagBytes : Nat → List UInt8 → Look (List UInt8)
  | 0, acc => return acc
  | fuel + 1, acc => do
    need 1
    match (← get).peek 0 with
    | some x =>
      if x = '%' then tagBytes fuel ((← octets).reverse ++ acc)
      else if isTagChar x then
        skip
        tagBytes fuel (UInt8.ofNat x.toNat :: acc)
      else return acc
    | none => return acc

def tagChars : Look (List Char) := do
  return decodeUtf8 (← tagBytes ((← get).size + 1) []).reverse

/-- a handle: an exclamation mark, a word, and again a mark, which may be missing -/
def handle : Look (List Char) := do
  need 1
  if ← sees fun c => !c.sees 0 '!' then failure
  skip
  let word ← takeWhile isWordChar
  if ← sees (·.sees 0 '!') then
    skip
    return '!' :: (word ++ ['!'])
  else return '!' :: word

/-- is it a handle of its own, with a mark at its end? -/
def isClosed (handle : List Char) : Bool := 1 < handle.length && handle.getLast? = some '!'

/-- a tag, as its handle and its rest; the handle is empty where the tag is written out -/
def tag : Look (List Char × List Char) := do
  need 2
  let (h, rest) ←
    if ← sees (·.sees 1 '<') then
      skipMany 2
      let uri ← tagChars
      if ← sees fun c => !c.sees 0 '>' then failure
      skip
      if uri = [] then failure else pure ([], uri)
    else
      let h ← handle
      let uri ← tagChars
      if isClosed h then
        if uri = [] then failure else pure (h, uri)
      else
        let rest := h.drop 1 ++ uri
        pure (if rest = [] then ([], ['!']) else (['!'], rest))
  need 1
  if ← sees fun c => !c.gapOrEnd 0 then failure
  return (h, rest)

/-! ## Directives -/

def versionNumber : Look Nat := do
  let ds ← takeWhile isDigit
  if ds = [] ∨ 2 < ds.length then failure
  return Decimal.value ds

def version : Look Directive := do
  skipWhile isGap
  let major ← versionNumber
  if ← sees fun c => !c.sees 0 '.' then failure
  skip
  return .version major (← versionNumber)

def tagDirective : Look Directive := do
  skipWhile isGap
  let h ← handle
  if h ≠ ['!'] ∧ !isClosed h then failure
  need 1
  if ← sees fun c => !c.gap 0 then failure
  skipWhile isGap
  let stands ← tagChars
  if stands = [] then failure
  if ← sees fun c => !c.gapOrEnd 0 then failure
  return .tag h stands

def directive : Look Directive := do
  skip
  let name ← takeWhile isWordChar
  if ← sees fun c => !c.gapOrEnd 0 then failure
  let d ←
    if name = "YAML".toList then version
    else if name = "TAG".toList then tagDirective
    else failure
  skipWhile isGap
  if ← sees (·.sees 0 '#') then skipWhile fun x => !isBreak x
  if ← sees fun c => !c.breakOrEnd 0 then failure
  endLine
  return d

end Look

/-! ## Names of tags -/

abbrev Handles := List (List Char × List Char)

def standardTag : List Char := "tag:yaml.org,2002:".toList

def usualHandles : Handles := [(['!'], ['!']), (['!', '!'], standardTag)]

/-- a tag with two marks in place of the start of the tags of the standard -/
def shortTag (cs : List Char) : String :=
  if standardTag.isPrefixOf cs then "!!" ++ String.ofList (cs.drop standardTag.length)
  else String.ofList cs

/-- the short name of a tag; none if its handle stands for nothing -/
def tagName? (handles : Handles) (handle rest : List Char) : Option String :=
  if handle = [] then some (shortTag rest)
  else (handles.lookup handle).map fun stands => shortTag (stands ++ rest)

end ExprShell.Yaml
