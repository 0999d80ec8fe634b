import ExprShell.Text.Letter

/-!
# Bytes as letters in base 64

Four letters stand for three bytes, six bits each; one or two equals signs at the end stand for
bytes that are not there.  Line ends between letters do not count.

* `Base64.decode?`   the bytes of a text.
-/

namespace ExprShell.Text.Base64

def value? (c : Char) : Option Nat :=
  let n := c.toNat
  if 65 ≤ n ∧ n ≤ 90 then some (n - 65)
  else if 97 ≤ n ∧ n ≤ 122 then some (n - 97 + 26)
  else if isDigit c then some (n - 48 + 52)
  else if c = '+' then some 62
  else if c = '/' then some 63
  else none

/-- the bytes of letters without line ends; bits that fill no byte do not count -/
def letters? : List Char → Option (List UInt8)
  | [] => some []
  | [a, b, '=', '='] => do
    let n := (← value? a) * 64 + (← value? b)
    return [UInt8.ofNat (n / 16)]
  | [a, b, c, '='] => do
    let n := ((← value? a) * 64 + (← value? b)) * 64 + (← value? c)
    return [UInt8.ofNat (n / 1024), UInt8.ofNat (n / 4 % 256)]
  | a :: b :: c :: d :: rest => do
    let n := (((← value? a) * 64 + (← value? b)) * 64 + (← value? c)) * 64 + (← value? d)
    let bs ← letters? rest
    return UInt8.ofNat (n / 65536) :: UInt8.ofNat (n / 256 % 256) :: UInt8.ofNat (n % 256) :: bs
  | _ => none

def decode? (cs : List Char) : Option (List UInt8) :=
  letters? (cs.filter fun c => c ≠ '\n' ∧ c ≠ '\r')

end ExprShell.Text.Base64
