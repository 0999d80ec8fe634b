import ExprShell.Number.Shortest

/-!
# How a double is written

The shortest digits are set out in plain decimal or with an exponent; where the change lies, the
width of the exponent and the names of the special values are the fields of one record.
-/

namespace ExprShell

structure Layout where
  /-- the least exponent of the first digit that is written in plain decimal -/
  plainFrom : Int
  /-- the least exponent beyond it that is written with an exponent again -/
  plainBelow : Int
  /-- the least number of digits of an exponent -/
  exponentWidth : Nat
  /-- what makes a whole number look like a double -/
  wholeMark : String
  notANumber : String
  infinite : String
  negativeInfinite : String

namespace Layout

/-- Plain decimal from `0.0001` to below a million, exponents of two digits with a sign, and a
whole number ends in `.0`. -/
def double : Layout := ⟨-4, 6, 2, ".0", "NaN", "+Inf", "-Inf"⟩

def pad (width : Nat) (ds : List Char) : List Char :=
  List.replicate (width - ds.length) '0' ++ ds

/-- digits with a point after the first, and the exponent -/
def scientific (f : Layout) (d : Digits) : List Char :=
  let x := d.point - 1
  let sign := if x < 0 then '-' else '+'
  let tail := 'e' :: sign :: pad f.exponentWidth (Decimal.digits x.natAbs)
  match d.digits with
  | [] => tail
  | [a] => a :: tail
  | a :: r => a :: '.' :: (r ++ tail)

def plain (f : Layout) (d : Digits) : List Char :=
  let n := d.digits.length
  if d.point ≤ 0 then '0' :: '.' :: (List.replicate (-d.point).toNat '0' ++ d.digits)
  else if n ≤ d.point.toNat then
    d.digits ++ List.replicate (d.point.toNat - n) '0' ++ f.wholeMark.toList
  else d.digits.take d.point.toNat ++ '.' :: d.digits.drop d.point.toNat

def layOut (f : Layout) (d : Digits) : List Char :=
  let x := d.point - 1
  if x < f.plainFrom ∨ f.plainBelow ≤ x then f.scientific d else f.plain d

def write (f : Layout) (x : Float) : String :=
  match Binary.magnitude x with
  | .nan => f.notANumber
  | .infinite => if Binary.isNegative x then f.negativeInfinite else f.infinite
  | .finite m q =>
    let body := if m = 0 then f.layOut ⟨['0'], 1⟩ else f.layOut (Shortest.ofFinite m q)
    String.ofList (if Binary.isNegative x then '-' :: body else body)

end Layout

end ExprShell
