/-!
# Paths

A path is cleaned by its text alone: empty parts and single dots are dropped, and two dots take
back the part before them.  Two dots at the root are dropped, at the start of a relative path they
stay.
-/

namespace ExprShell.Text

namespace Path

def parts : List Char → List (List Char)
  | [] => [[]]
  | c :: cs =>
    match parts cs with
    | p :: ps => if c = '/' then [] :: p :: ps else (c :: p) :: ps
    | [] => [[c]]

/-- one more part behind cleaned parts, the last of which comes first -/
def push (rooted : Bool) (stack : List (List Char)) (p : List Char) : List (List Char) :=
  if p = [] ∨ p = ['.'] then stack
  else if p = ['.', '.'] then
    match stack with
    | [] => if rooted then [] else [p]
    | q :: rest => if q = ['.', '.'] then p :: stack else rest
  else p :: stack

def join : List (List Char) → List Char
  | [] => []
  | [p] => p
  | p :: ps => p ++ '/' :: join ps

def isRooted : List Char → Bool
  | '/' :: _ => true
  | _ => false

def clean (cs : List Char) : List Char :=
  let rooted := isRooted cs
  let body := join ((parts cs).foldl (push rooted) []).reverse
  if rooted then '/' :: body else if body = [] then ['.'] else body

/-- the name of a file in the working directory that a path leads to, if it leads to one -/
def local? (path : String) : Option String :=
  match (parts path.toList).reverse with
  | [] => none
  | p :: ps =>
    if p = [] ∨ p = ['.'] ∨ p = ['.', '.'] ∨ isRooted path.toList then none
    else if ps.all (fun q => q = [] ∨ q = ['.']) then some (String.ofList p)
    else none

end Path

def inDirectory (dir name : String) : String :=
  String.ofList (Path.clean (dir.toList ++ '/' :: name.toList))

end ExprShell.Text
