import ExprShell.Number.Decimal

/-!
# Dates and times in a YAML text

A plain scalar is a timestamp if it is a date with a year of four digits, alone or with a time
behind it: after the letter `T` the time ends with a zone, after spaces it has none.  Only whether
a text is a timestamp matters here, not which moment it means.
-/

namespace ExprShell.Yaml.Timestamp
open Text

/-- one digit or two, from `least` to `greatest`, and the text behind them -/
def number? (least greatest : Nat) : List Char → Option (Nat × List Char)
  | a :: b :: cs =>
    if isDigit a then
      let (ds, rest) := if isDigit b then ([a, b], cs) else ([a], b :: cs)
      let n := Decimal.value ds
      if least ≤ n ∧ n ≤ greatest then some (n, rest) else none
    else none
  | [a] =>
    if isDigit a ∧ least ≤ Decimal.digitValue a then some (Decimal.digitValue a, []) else none
  | [] => none

def behind? (c : Char) : List Char → Option (List Char)
  | x :: cs => if x = c then some cs else none
  | [] => none

def isLeapYear (y : Nat) : Bool := y % 4 = 0 && (y % 100 ≠ 0 || y % 400 = 0)

def daysIn (year month : Nat) : Nat :=
  if month = 2 then (if isLeapYear year then 29 else 28)
  else if month = 4 ∨ month = 6 ∨ month = 9 ∨ month = 11 then 30
  else 31

def date? (cs : List Char) : Option (List Char) := do
  let year := cs.takeWhile isDigit
  if year.length ≠ 4 then none
  else
    let (month, cs) ← number? 1 12 (← behind? '-' (cs.drop 4))
    let (_, cs) ← number? 1 (daysIn (Decimal.value year) month) (← behind? '-' cs)
    return cs

/-- the text behind a part of a second, if there is one -/
def fraction (cs : List Char) : List Char :=
  match cs with
  | p :: d :: rest =>
    if (p = '.' ∨ p = ',') ∧ isDigit d then rest.dropWhile isDigit else cs
  | _ => cs

def clock? (cs : List Char) : Option (List Char) := do
  let (_, cs) ← number? 0 23 cs
  let (_, cs) ← number? 0 59 (← behind? ':' cs)
  let (_, cs) ← number? 0 59 (← behind? ':' cs)
  return fraction cs

/-- is the text a zone: `Z`, or a sign, hours and minutes of two digits each? -/
def isZone : List Char → Bool
  | ['Z'] => true
  | [s, a, b, ':', c, d] =>
    (s = '+' || s = '-') && [a, b, c, d].all isDigit &&
      Decimal.value [a, b] ≤ 24 && Decimal.value [c, d] ≤ 60
  | _ => false

/-- is the text a date, alone or with a time? -/
def isTimestamp (cs : List Char) : Bool :=
  match date? cs with
  | none => false
  | some [] => true
  | some (c :: rest) =>
    if c = 'T' ∨ c = 't' then (clock? rest).any isZone
    else c = ' ' && clock? (rest.dropWhile (· = ' ')) = some []

end ExprShell.Yaml.Timestamp
