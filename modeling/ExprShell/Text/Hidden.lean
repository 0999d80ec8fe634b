import ExprShell.Text.Printable

/-!
# Characters without a shape of their own

Every character that is neither printable nor a separator: control, format and private-use
characters, and code points that no character is assigned to.  A prompt that holds one cannot be
measured on a terminal line and is refused.
-/

namespace ExprShell.Text

/-- the spaces and the separators of lines and paragraphs -/
def separatorTable : Intervals :=
  [(0x20, 0x20), (0xa0, 0xa0), (0x1680, 0x1680), (0x2000, 0x200a), (0x2028, 0x2029),
   (0x202f, 0x202f), (0x205f, 0x205f), (0x3000, 0x3000)]

def isHidden (c : Char) : Bool := !(isPrintable c || separatorTable.holds c.toNat)

end ExprShell.Text
