/-!
# Case of words

Words of ASCII letters are compared without regard to case.  A letter beyond ASCII takes part only
if its other case is an ASCII letter: the dotless and the dotted i, the long s and the kelvin sign.
All other characters keep their form, since no word holds them in either case.
-/

namespace ExprShell.Text

/-- the capital of a letter, where that is an ASCII letter -/
def upper (c : Char) : Char :=
  let n := c.toNat
  if 97 ≤ n ∧ n ≤ 122 then Char.ofNat (n - 32)
  else if n = 0x131 then 'I'
  else if n = 0x17f then 'S'
  else c

/-- the small form of a letter, where that is an ASCII letter -/
def lower (c : Char) : Char :=
  let n := c.toNat
  if 65 ≤ n ∧ n ≤ 90 then Char.ofNat (n + 32)
  else if n = 0x130 then 'i'
  else if n = 0x212a then 'k'
  else c

end ExprShell.Text
