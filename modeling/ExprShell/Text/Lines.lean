/-!
# Lines of a text

A line ends at a line feed; the last one may lack it.  A carriage return before the line feed
belongs to the line end.  Bytes are counted, not characters, since the limits of a line are limits
of a buffer.
-/

namespace ExprShell.Text

/-- the bytes of a line without its end, and whether it has an end -/
structure RawLine where
  bytes : List UInt8
  ended : Bool
  deriving DecidableEq, Repr

namespace RawLine

def feed : UInt8 := 10

def carriage : UInt8 := 13

/-- the lines of a text -/
def split (bs : List UInt8) : List RawLine :=
  match bs with
  | [] => []
  | b :: bs =>
    if (b :: bs).contains feed then
      ⟨(b :: bs).takeWhile (· ≠ feed), true⟩ :: split (((b :: bs).dropWhile (· ≠ feed)).drop 1)
    else [⟨b :: bs, false⟩]
termination_by bs.length
decreasing_by
  have h := (List.dropWhile_suffix (l := b :: bs) (· ≠ feed)).length_le
  simp only [List.length_cons, List.length_drop] at h ⊢
  omega

def dropCarriage (bs : List UInt8) : List UInt8 :=
  match bs.reverse with
  | c :: cs => if c = carriage then cs.reverse else bs
  | [] => []

/-- the line as it is read through a buffer of `size` bytes: a longer line comes in parts, and a
carriage return at the end of a full buffer is kept for the next part -/
def parts (size : Nat) (l : RawLine) : List (List UInt8) :=
  if h : size ≤ l.bytes.length ∧ 1 < size then
    let full := l.bytes.take size
    let n := if full.getLast? = some carriage then size - 1 else size
    l.bytes.take n :: parts size ⟨l.bytes.drop n, l.ended⟩
  else if l.ended then [dropCarriage l.bytes]
  else if l.bytes = [] then []
  else [l.bytes]
termination_by l.bytes.length
decreasing_by
  simp only [List.length_drop]
  split <;> omega

end RawLine

def bytes (s : String) : List UInt8 := s.toUTF8.toList

end ExprShell.Text
