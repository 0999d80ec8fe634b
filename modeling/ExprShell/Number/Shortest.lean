import ExprShell.Number.Binary
import ExprShell.Number.Decimal

/-!
# The fewest digits that read back

Around a double lies the interval of the numbers that round to it.  For one digit, two digits and
so on the two neighbours of the double on that decimal grid are tried; the first grid with a
neighbour in the interval gives the digits.  Of two neighbours the nearer one is taken, of two
equally near ones the one with the even last digit.
-/

namespace ExprShell

/-- `0.d₁d₂… * 10 ^ point`: digits without a sign, and where the point stands -/
structure Digits where
  digits : List Char
  point : Int
  deriving DecidableEq, Repr

namespace Shortest

/-- A number and the ends of its interval as multiples of one `1 / unit`; `closed` says whether the
ends belong to the interval. -/
structure Interval where
  low : Nat
  mid : Nat
  high : Nat
  unit : Nat
  closed : Bool

/-- the numbers that round to `m * 2 ^ q`; below a power of two the doubles are twice as dense -/
def interval (m : Nat) (q : Int) : Interval :=
  let below := if m = Binary.mantissas ∧ Binary.leastExponent < q then 4 * m - 1 else 4 * m - 2
  let e := q - 2
  let f := if 0 ≤ e then Nat.pow 2 e.toNat else 1
  let u := if 0 ≤ e then 1 else Nat.pow 2 (-e).toNat
  ⟨below * f, 4 * m * f, (4 * m + 2) * f, u, m % 2 = 0⟩

def Interval.holds (i : Interval) (n : Nat) (k : Int) : Bool :=
  let x := if 0 ≤ k then n * Nat.pow 10 k.toNat * i.unit else n * i.unit
  let s := if 0 ≤ k then 1 else Nat.pow 10 (-k).toNat
  if i.closed then i.low * s ≤ x && x ≤ i.high * s else i.low * s < x && x < i.high * s

/-- the number divided by `10 ^ k`, as a fraction -/
def Interval.over (i : Interval) (k : Int) : Nat × Nat :=
  if 0 ≤ k then (i.mid, i.unit * Nat.pow 10 k.toNat) else (i.mid * Nat.pow 10 (-k).toNat, i.unit)

/-- the neighbour on the grid of the multiples of `10 ^ k` that stands for the number, if one
does -/
def Interval.candidate? (i : Interval) (k : Int) : Option Nat :=
  let (n, d) := i.over k
  let a := n / d
  let nearest := Binary.roundDiv n d
  if i.holds nearest k then some nearest
  else if i.holds a k then some a
  else if i.holds (a + 1) k then some (a + 1)
  else none

def wholeDigits (n : Nat) : Nat := (Decimal.digits n).length

/-- the exponent of the first digit of a positive number -/
def Interval.exponent (i : Interval) : Int :=
  if i.unit ≤ i.mid then (wholeDigits (i.mid / i.unit) : Int) - 1
  else
    let k := wholeDigits (i.unit / i.mid)
    if i.unit ≤ i.mid * Nat.pow 10 (k - 1) then -((k : Int) - 1) else -(k : Int)

def Interval.search (i : Interval) (x : Int) : Nat → Nat → Nat × Int
  | 0, n => ((i.candidate? (x - n)).getD 0, x - n)
  | tries + 1, n =>
    match i.candidate? (x - n) with
    | some c => (c, x - n)
    | none => i.search x tries (n + 1)

/-- the digits without zeros at the end; the first digit stays -/
def dropZeros (ds : List Char) : List Char :=
  match (ds.reverse.dropWhile (· == '0')).reverse with
  | [] => ['0']
  | r => r

/-- the fewest digits of a positive number `m * 2 ^ q`; seventeen are always enough -/
def ofFinite (m : Nat) (q : Int) : Digits :=
  let i := interval m q
  let (c, k) := i.search i.exponent 16 0
  let ds := Decimal.digits c
  ⟨dropZeros ds, k + ds.length⟩

end Shortest

end ExprShell
