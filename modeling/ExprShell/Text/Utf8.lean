/-!
# Bytes as characters

A source line is a sequence of bytes.  A byte that does not begin a well-formed UTF-8 sequence
(too long, too short, a surrogate, or beyond the last code point) stands for one replacement
character, and reading goes on with the next byte.
-/

namespace ExprShell.Text

/-- the character that stands for a byte that cannot be read -/
def replacement : Char := Char.ofNat 0xfffd

def continuation? (b : UInt8) : Option Nat :=
  if 0x80 ≤ b.toNat ∧ b.toNat < 0xc0 then some (b.toNat - 0x80) else none

/-- a code point that is written with no fewer bytes, and is a character -/
def character? (least n : Nat) : Option Char :=
  if least ≤ n ∧ n.isValidChar then some (Char.ofNat n) else none

/-- the character of a sequence of two, three or four bytes that begins with `a`, and the number
of bytes after the first -/
def sequence? (a : UInt8) (rest : List UInt8) : Option (Char × Nat) :=
  let lead := a.toNat
  if lead < 0xc0 then none
  else if lead < 0xe0 then do
    let x ← continuation? (← rest[0]?)
    return (← character? 0x80 ((lead - 0xc0) * 64 + x), 1)
  else if lead < 0xf0 then do
    let x ← continuation? (← rest[0]?)
    let y ← continuation? (← rest[1]?)
    return (← character? 0x800 (((lead - 0xe0) * 64 + x) * 64 + y), 2)
  else if lead < 0xf8 then do
    let x ← continuation? (← rest[0]?)
    let y ← continuation? (← rest[1]?)
    let z ← continuation? (← rest[2]?)
    return (← character? 0x10000 ((((lead - 0xf0) * 64 + x) * 64 + y) * 64 + z), 3)
  else none

def decodeUtf8 : List UInt8 → List Char
  | [] => []
  | a :: rest =>
    if a.toNat < 0x80 then Char.ofNat a.toNat :: decodeUtf8 rest
    else match sequence? a rest with
      | some (c, n) => c :: decodeUtf8 (rest.drop n)
      | none => replacement :: decodeUtf8 rest
termination_by bs => bs.length
decreasing_by
  all_goals simp only [List.length_cons, List.length_drop]
  all_goals omega

end ExprShell.Text
