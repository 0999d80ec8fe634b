import ExprShell.Text.Printable

/-!
# Quoted text

Text inside messages stands between quotes.  The quote itself and the backslash get a backslash,
the seven control characters with a letter of their own get that letter, every other character
that is not printable is shown by its code point in hexadecimal, and the rest stays as it is.
-/

namespace ExprShell.Text

def hexDigit (n : Nat) : Char :=
  if n % 16 < 10 then Char.ofNat (48 + n % 16) else Char.ofNat (87 + n % 16)

def hexDigits : Nat → Nat → List Char
  | 0, _ => []
  | width + 1, n => hexDigits width (n / 16) ++ [hexDigit n]

/-- the letter that names a control character after a backslash -/
def controlLetter (c : Char) : Option Char :=
  match c.toNat with
  | 7 => some 'a'
  | 8 => some 'b'
  | 9 => some 't'
  | 10 => some 'n'
  | 11 => some 'v'
  | 12 => some 'f'
  | 13 => some 'r'
  | _ => none

def escape (mark c : Char) : List Char :=
  if c = mark ∨ c = '\\' then ['\\', c]
  else if isPrintable c then [c]
  else match controlLetter c with
    | some l => ['\\', l]
    | none =>
      if c.toNat < 32 ∨ c.toNat = 127 then '\\' :: 'x' :: hexDigits 2 c.toNat
      else if c.toNat < 0x10000 then '\\' :: 'u' :: hexDigits 4 c.toNat
      else '\\' :: 'U' :: hexDigits 8 c.toNat

def enclose (mark : Char) (cs : List Char) : List Char :=
  mark :: (cs.flatMap (escape mark) ++ [mark])

def quote (s : String) : String := String.ofList (enclose '"' s.toList)

def quoteChar (c : Char) : String := String.ofList (enclose '\x27' [c])

end ExprShell.Text
