import ExprShell.Number.Binary
import ExprShell.Number.Decimal

/-!
# Numerals for doubles

Reads the text of a double: a sign, decimal digits with a point on either side, a decimal
exponent; or `0x`, hexadecimal digits and a binary exponent that may not be left out; or the words
for the infinite value and for no number, in any case.  Single underscores may stand between
digits.  The value is rounded once, to the nearest double; a magnitude beyond the greatest double
is refused and one below the least gives zero.
-/

namespace ExprShell.Numeral
open Text

def hexValue? (c : Char) : Option Nat :=
  let n := c.toNat
  if 48 ≤ n ∧ n ≤ 57 then some (n - 48)
  else if 97 ≤ n ∧ n ≤ 102 then some (n - 87)
  else if 65 ≤ n ∧ n ≤ 70 then some (n - 55)
  else none

def lowerAscii (c : Char) : Char :=
  if 65 ≤ c.toNat ∧ c.toNat ≤ 90 then Char.ofNat (c.toNat + 32) else c

def digitIn? (hex : Bool) (c : Char) : Option Nat :=
  if hex then hexValue? c else if isDigit c then some (Decimal.digitValue c) else none

/-- what has been read of the digits before the exponent -/
structure Mantissa where
  value : Nat
  seen : Bool
  /-- the number of digits after the point, if there was a point -/
  places : Option Nat

def mantissa (hex : Bool) : Mantissa → List Char → Mantissa × List Char
  | m, [] => (m, [])
  | m, c :: cs =>
    if c = '_' then mantissa hex m cs
    else if c = '.' then
      match m.places with
      | some _ => (m, c :: cs)
      | none => mantissa hex { m with places := some 0 } cs
    else match digitIn? hex c with
      | some d =>
        mantissa hex ⟨m.value * (if hex then 16 else 10) + d, true, m.places.map (· + 1)⟩ cs
      | none => (m, c :: cs)

/-- Underscores stand between two digits; a base mark counts as a digit.  `after` is the class of
the character before: a digit, an underscore or something else. -/
inductive Before
  | start
  | digit
  | underscore
  | other
  deriving DecidableEq

def underscoresOk (hex : Bool) : Before → List Char → Bool
  | b, [] => b ≠ .underscore
  | b, c :: cs =>
    if (digitIn? hex c).isSome then underscoresOk hex .digit cs
    else if c = '_' then b = .digit && underscoresOk hex .underscore cs
    else b ≠ .underscore && underscoresOk hex .other cs

/-- the number that the digits of an exponent stand for; once it has five digits, further ones do
not count -/
def exponentValue (ds : List Char) : Nat :=
  ds.foldl (fun e c => if e < 10000 then e * 10 + Decimal.digitValue c else e) 0

/-- the exponent after its letter: a sign, then digits and underscores that begin with a digit -/
def exponent? (cs : List Char) : Option Int :=
  let (negative, ds) := match cs with
    | '+' :: r => (false, r)
    | '-' :: r => (true, r)
    | r => (false, r)
  match ds with
  | [] => none
  | c :: _ =>
    if isDigit c && ds.all (fun x => isDigit x || x == '_') then
      let e : Int := exponentValue (ds.filter (· ≠ '_'))
      some (if negative then -e else e)
    else none

/-- Exponents so far out that the digits cannot bring the number back: `spread` counts the bits or
digits that the mantissa has. -/
def clamp (spread : Nat) (e : Int) : Int :=
  let far : Int := spread + 2000
  if e < -far then -far else if far < e then far else e

/-- the nearest double to `value * base ^ e` -/
def scaled? (negative : Bool) (base value : Nat) (e : Int) : Option Float :=
  let e := clamp (value.log2 + 1) e
  if 0 ≤ e then Binary.nearest? negative (value * Nat.pow base e.toNat) 1
  else Binary.nearest? negative value (Nat.pow base (-e).toNat)

/-- a number without its sign -/
def unsigned? (negative : Bool) (cs : List Char) : Option Float := do
  let (hex, body) := match cs with
    | '0' :: x :: y :: r => if lowerAscii x = 'x' then (true, y :: r) else (false, cs)
    | _ => (false, cs)
  let (m, rest) := mantissa hex ⟨0, false, none⟩ body
  if !m.seen then none
  else if !underscoresOk hex (if hex then .digit else .start) body then none
  else
    let shift : Int := ((m.places.getD 0 : Nat) : Int) * (if hex then 4 else 1)
    let base := if hex then 2 else 10
    match rest with
    | [] => if hex then none else scaled? negative base m.value (-shift)
    | c :: r =>
      if lowerAscii c = (if hex then 'p' else 'e') then
        scaled? negative base m.value ((← exponent? r) - shift)
      else none

def isInfinite (cs : List Char) : Bool :=
  let w := cs.map lowerAscii
  w == "inf".toList || w == "infinity".toList

def read? (s : String) : Option Float :=
  let cs := s.toList
  let (signed, negative, body) := match cs with
    | '+' :: r => (true, false, r)
    | '-' :: r => (true, true, r)
    | r => (false, false, r)
  if isInfinite body then some (Binary.infinity negative)
  else if !signed && body.map lowerAscii == "nan".toList then some Binary.notANumber
  else unsigned? negative body

end ExprShell.Numeral
