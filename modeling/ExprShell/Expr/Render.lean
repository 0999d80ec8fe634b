import ExprShell.Expr

/-!
# Expressions as text

Every compound expression stands in parentheses, so the text of a tree reads back to the same tree,
places apart.  An assignment is always written with its keyword.
-/

namespace ExprShell.Expr

def commas : List (List Char) → List Char
  | [] => []
  | [a] => a
  | a :: as => a ++ ',' :: ' ' :: commas as

@[simp] theorem commas_cons_cons (a b : List Char) (as : List (List Char)) :
    commas (a :: b :: as) = a ++ ',' :: ' ' :: commas (b :: as) := rfl

mutual

def chars : Expr → List Char
  | .absent => []
  | .number t => t.lexeme.toList
  | .var _ x => x.toList
  | .assign _ x e => "(VAR ".toList ++ x.toList ++ " = ".toList ++ e.chars ++ [')']
  | .binary l o r => '(' :: (l.chars ++ ' ' :: (o.lexeme.toList ++ ' ' :: (r.chars ++ [')'])))
  | .unary o e =>
    let gap := if o.kind = .keyword then [' '] else []
    '(' :: (o.lexeme.toList ++ gap ++ e.chars ++ [')'])
  | .cond _ bs e =>
    let last := if e.isAbsent then [] else " ELSE ".toList ++ e.chars
    '(' :: (branchChars "IF ".toList bs ++ last ++ [')'])
  | .count _ x a b s e =>
    let step := if s.isAbsent then [] else " STEP ".toList ++ s.chars
    "(FOR ".toList ++ x.toList ++ " = ".toList ++ a.chars ++ " TO ".toList ++ b.chars ++ step ++
      " THEN ".toList ++ e.chars ++ [')']
  | .loop _ c e => "(WHILE ".toList ++ c.chars ++ " THEN ".toList ++ e.chars ++ [')']
  | .func _ x ps e =>
    "(FN ".toList ++ x.toList ++ '(' :: (commas (ps.map String.toList) ++ ") -> ".toList ++
      e.chars ++ [')'])
  | .call _ f as => '(' :: (f.chars ++ '(' :: (commas (argChars as) ++ [')', ')']))

/-- branches, each after its word: `IF` for the first, `ELIF` for the others -/
def branchChars (word : List Char) : List (Expr × Expr) → List Char
  | [] => []
  | (c, e) :: bs =>
    word ++ c.chars ++ " THEN ".toList ++ e.chars ++ branchChars " ELIF ".toList bs

def argChars : List Expr → List (List Char)
  | [] => []
  | a :: as => a.chars :: argChars as

end

def render (e : Expr) : String := String.ofList e.chars

end ExprShell.Expr
