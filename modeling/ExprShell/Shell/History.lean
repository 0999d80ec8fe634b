import ExprShell.Text.Lines
import ExprShell.Text.Utf8

/-!
# The history of an interactive shell

The lines that were given, oldest first, as bytes: two lines that look alike may still differ.  A
line is not kept if it equals the one before, and only the last thousand are kept.  In a file every
entry is a line; a line that does not fit the reading buffer ends the reading.
-/

namespace ExprShell
open Text

abbrev History := List (List UInt8)

namespace History

def limit : Nat := 1000

def bufferSize : Nat := 4096

def bounded (h : History) : History := h.drop (h.length - limit)

/-- one more entry, unless it repeats the last -/
def add (h : History) (entry : List UInt8) : History :=
  if h.getLast? = some entry then h else bounded (h ++ [entry])

def entry (l : RawLine) : List UInt8 :=
  if l.ended then RawLine.dropCarriage l.bytes else l.bytes

def ofText (s : String) : History :=
  bounded (((RawLine.split (bytes s)).takeWhile fun l => l.bytes.length < bufferSize).map entry)

def text (h : History) : String :=
  String.ofList (decodeUtf8 (h.flatMap fun e => e ++ [RawLine.feed]))

end History

end ExprShell
