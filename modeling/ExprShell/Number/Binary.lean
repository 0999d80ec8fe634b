/-!
# Doubles as fractions

A finite double is a whole number times a power of two.  `parts` takes a double apart, and
`nearest?` finds the double next to a fraction of two whole numbers: a half goes to the even
neighbour, and a fraction beyond the greatest double has none.
-/

namespace ExprShell

/-- what a double stands for, its sign apart -/
inductive Magnitude
  | nan
  | infinite
  /-- `mantissa * 2 ^ exponent` -/
  | finite (mantissa : Nat) (exponent : Int)
  deriving DecidableEq, Repr

namespace Binary

/-- the least exponent, that of the denormal numbers -/
def leastExponent : Int := -1074

/-- the number of mantissas for one exponent, and the least mantissa of 53 bits: `2 ^ 52` -/
def mantissas : Nat := 0x10000000000000

def signBit : Nat := 0x8000000000000000

/-- the bits of the infinite double, the first that stand for no finite number -/
def infiniteBits : Nat := 0x7ff * mantissas

def isNegative (x : Float) : Bool := x.toBits.toNat / signBit % 2 == 1

def magnitudeOfBits (bits : Nat) : Magnitude :=
  let fraction : Nat := bits % mantissas
  let biased : Nat := bits / mantissas % 0x800
  if biased = 0x7ff then (if fraction = 0 then .infinite else .nan)
  else if biased = 0 then .finite fraction leastExponent
  else .finite (mantissas + fraction) (leastExponent + biased - 1)

def magnitude (x : Float) : Magnitude := magnitudeOfBits x.toBits.toNat

/-- the quotient to the nearest whole number, a half to the even one -/
def roundDiv (num den : Nat) : Nat :=
  let q := num / den
  let r := num % den
  if den < 2 * r ∨ (2 * r = den ∧ q % 2 = 1) then q + 1 else q

/-- the fraction `num / den` divided by `2 ^ e`, as a fraction -/
def scale (num den : Nat) (e : Int) : Nat × Nat :=
  if 0 ≤ e then (num, den * Nat.pow 2 e.toNat) else (num * Nat.pow 2 (-e).toNat, den)

/-- the exponent at which the fraction has 53 bits, or the least one -/
def exponentOf (num den : Nat) : Int :=
  let e : Int := (num.log2 : Int) - den.log2 - 52
  let (n, d) := scale num den e
  max leastExponent (if n < d * mantissas then e - 1 else e)

/-- the bits of the positive double nearest to a fraction; a mantissa of all ones that is rounded
up carries into the exponent by itself -/
def nearestBits (num den : Nat) : Nat :=
  if num = 0 then 0
  else
    let e := exponentOf num den
    let (n, d) := scale num den e
    (e - leastExponent).toNat * mantissas + roundDiv n d

def nearest? (negative : Bool) (num den : Nat) : Option Float :=
  let bits := nearestBits num den
  if bits < infiniteBits then
    some (Float.ofBits (UInt64.ofNat (if negative then signBit + bits else bits)))
  else none

def infinity (negative : Bool) : Float :=
  Float.ofBits (UInt64.ofNat (if negative then signBit + infiniteBits else infiniteBits))

def notANumber : Float := Float.ofBits (UInt64.ofNat (infiniteBits + mantissas / 2))

end Binary

end ExprShell
