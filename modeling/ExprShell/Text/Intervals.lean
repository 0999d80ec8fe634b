/-!
# Sets of characters as intervals of code points

A property of characters is a list of closed intervals in increasing order.  Membership is a plain
search, so a statement about a character of the table is a statement about one interval.
-/

namespace ExprShell.Text

/-- a set of code points, as closed intervals -/
abbrev Intervals := List (Nat × Nat)

def Intervals.holds (t : Intervals) (n : Nat) : Bool :=
  t.any fun i => i.1 ≤ n && n ≤ i.2

end ExprShell.Text
