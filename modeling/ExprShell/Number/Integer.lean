import ExprShell.Number.Decimal

/-!
# Integers of 64 bits

The operations wrap around, and what they give is looked at afterwards: a result that is not that
of the whole numbers is refused.  Division goes toward zero.
-/

namespace ExprShell

abbrev Integer := Int64

namespace Integer

def least : Int := -0x8000000000000000

def bound : Int := 0x8000000000000000

/-- the whole number as an integer, if it fits -/
def fit? (z : Int) : Option Integer :=
  if least ≤ z ∧ z < bound then some (Int64.ofInt z) else none

def text (v : Integer) : String := Decimal.ofInt v.toInt

/-- reads decimal digits after at most one sign; a number that does not fit is refused -/
def read? (s : String) : Option Integer := (Decimal.readInt? s.toList).bind fit?

/-- the sum; if it wrapped around, its sign is that of neither operand -/
def add? (l r : Integer) : Option Integer :=
  let s := l + r
  if 0 ≤ (l ^^^ s) &&& (r ^^^ s) then some s else none

/-- the difference; if it wrapped around, the left operand has the sign of neither the right one
nor the result -/
def sub? (l r : Integer) : Option Integer :=
  let d := l - r
  if 0 ≤ (l ^^^ r) &&& (l ^^^ d) then some d else none

/-- the product; if it wrapped around, dividing it does not give the other operand back, but for the
least integer and minus one, where the division wraps around too -/
def mul? (l r : Integer) : Option Integer :=
  if l = 0 ∨ r = 0 then some 0
  else
    let p := l * r
    if l = -1 ∧ r = Int64.minValue ∨ r = -1 ∧ l = Int64.minValue ∨ p / r ≠ l then none else some p

/-- the quotient toward zero; the divisor is not zero -/
def quot? (l r : Integer) : Option Integer :=
  if l = Int64.minValue ∧ r = -1 then none else some (l / r)

def neg? (x : Integer) : Option Integer := if x = Int64.minValue then none else some (-x)

/-! ## Fitting -/

theorem fit?_eq_some_iff {z : Int} {v : Integer} : fit? z = some v ↔ v.toInt = z := by
  unfold fit? least bound
  constructor
  · intro h
    split at h
    · next hz =>
      rw [← Option.some.inj h]
      exact Int64.toInt_ofInt_of_le (by omega) (by omega)
    · exact absurd h (by simp)
  · intro h
    subst h
    rw [if_pos ⟨v.le_toInt, v.toInt_lt⟩, Int64.ofInt_toInt]

theorem fit?_eq_none_iff {z : Int} : fit? z = none ↔ ¬ (least ≤ z ∧ z < bound) := by
  unfold fit?
  split <;> simp_all

end Integer

end ExprShell
