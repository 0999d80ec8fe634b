import ExprShell.Text.Lines
import ExprShell.Text.Path

/-!
# The files of a working directory

Files have a name and a content.  A path may lead to one of them, to a directory, through a file as
if it were a directory, or to nothing; of what lies outside the working directory only the
directories above it are known.  The system opens no path that is too long or holds a null
character.
-/

namespace ExprShell
open Text

/-- the files of the working directory, by name -/
abbrev Folder := List (String × String)

inductive Found
  | file (content : String)
  | directory
  /-- a file stands where a directory is needed -/
  | blocked
  | missing
  /-- the path or a part of it has too many bytes -/
  | tooLong
  /-- the path holds a null character -/
  | invalid
  deriving DecidableEq, Repr

namespace Folder

def nameLimit : Nat := 255

def pathLimit : Nat := 4095

def isLong (p : List Char) : Bool := nameLimit < (bytes (String.ofList p)).length

/-- the name of the file in the working directory that a path leads to, if such a file can be
opened -/
def name? (path : String) : Option String := do
  let name ← Path.local? path
  if isLong name.toList ∨ pathLimit < (bytes path).length ∨ path.toList.contains (Char.ofNat 0) then
    none
  else some name

def read? (d : Folder) (path : String) : Option String := do
  let name ← name? path
  d.lookup name

/-- the folder with a file at a path; a path that leads elsewhere changes nothing -/
def write (d : Folder) (path content : String) : Folder :=
  match name? path with
  | some name => (name, content) :: d.filter fun f => f.1 ≠ name
  | none => d

/-- nothing is there, under a name that may be too long to look for -/
def unknown (p : List Char) : Found := if isLong p then .tooLong else .missing

/-- follows the parts of a path from a directory outside, which is empty as far as is known -/
def followOutside : List (List Char) → Found
  | [] => .directory
  | p :: ps =>
    if p = [] ∨ p = ['.'] ∨ p = ['.', '.'] then followOutside ps else unknown p

/-- follows the parts of a path that names no file here -/
def follow (d : Folder) : List (List Char) → Found
  | [] => .directory
  | p :: ps =>
    if p = [] ∨ p = ['.'] then d.follow ps
    else if p = ['.', '.'] then followOutside ps
    else if (d.lookup (String.ofList p)).isSome then .blocked
    else unknown p

def find (d : Folder) (path : String) : Found :=
  match d.read? path with
  | some content => .file content
  | none =>
    if path = "" then .missing
    else if path.toList.contains (Char.ofNat 0) then .invalid
    else if pathLimit < (bytes path).length then .tooLong
    else
      let parts := Path.parts path.toList
      if Path.isRooted path.toList then followOutside parts
      else if (Path.local? path).isSome then unknown (parts.getLast?.getD [])
      else d.follow parts

end Folder

end ExprShell
