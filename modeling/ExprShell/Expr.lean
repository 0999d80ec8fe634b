import ExprShell.Token

/-!
# Expressions

Everything in the language is an expression and has a value, loops and function definitions
included.  A tree made by hand may lack a child anywhere; `absent` stands there.  Parsed trees lack
at most the last branch of a condition and the step of a counted loop.

* `Expr.token`   the token where an expression begins, by which errors are placed;
* `Expr.same`    equality up to places: numbers and operators by kind and text, names by name;
* `Expr.erase`   the tree with everything dropped that `same` does not look at.
-/

namespace ExprShell

/-- expressions -/
inductive Expr
  /-- a child that is not there -/
  | absent
  /-- a number, read from the token's literal when it is evaluated -/
  | number (token : Token)
  /-- the value of a name -/
  | var (token : Token) (name : String)
  /-- binds a name in the innermost scope; the token is the word before the name, or the name -/
  | assign (token : Token) (name : String) (value : Expr)
  | binary (left : Expr) (op : Token) (right : Expr)
  | unary (op : Token) (operand : Expr)
  /-- the first branch whose condition is true; `otherwise` may be absent -/
  | cond (token : Token) (branches : List (Expr × Expr)) (otherwise : Expr)
  /-- a counted loop; `step` may be absent -/
  | count (token : Token) (name : String) (start stop step body : Expr)
  /-- a loop under a condition -/
  | loop (token : Token) (test body : Expr)
  /-- a function; its name is empty if it has none -/
  | func (token : Token) (name : String) (params : List String) (body : Expr)
  /-- a call; the token is the opening parenthesis -/
  | call (token : Token) (callee : Expr) (args : List Expr)
  deriving Repr, Inhabited

namespace Expr

def isAbsent : Expr → Bool
  | .absent => true
  | _ => false

def token : Expr → Token
  | .absent => Token.missing
  | .number t => t
  | .var t _ => t
  | .assign t _ _ => t
  | .binary l _ _ => l.token
  | .unary op _ => op
  | .cond t _ _ => t
  | .count t _ _ _ _ _ => t
  | .loop t _ _ => t
  | .func t _ _ _ => t
  | .call _ f _ => f.token

def pos (e : Expr) : Position := e.token.pos

/-! ## Equality up to places -/

mutual

/-- the same tree, wherever its tokens stand -/
def same : Expr → Expr → Bool
  | .absent, .absent => true
  | .number a, .number b => a.same b
  | .var _ x, .var _ y => x = y
  | .assign _ x a, .assign _ y b => x = y && a.same b
  | .binary l o r, .binary l2 o2 r2 => o.same o2 && l.same l2 && r.same r2
  | .unary o a, .unary o2 b => o.same o2 && a.same b
  | .cond _ bs e, .cond _ bs2 e2 => sameBranches bs bs2 && e.same e2
  | .count _ x a b s e, .count _ y a2 b2 s2 e2 =>
    x = y && a.same a2 && b.same b2 && s.same s2 && e.same e2
  | .loop _ c e, .loop _ c2 e2 => c.same c2 && e.same e2
  | .func _ x ps e, .func _ y qs e2 => x = y && ps = qs && e.same e2
  | .call _ f as, .call _ g bs => f.same g && sameArgs as bs
  | _, _ => false

def sameBranches : List (Expr × Expr) → List (Expr × Expr) → Bool
  | [], [] => true
  | (c, e) :: bs, (c2, e2) :: bs2 => c.same c2 && e.same e2 && sameBranches bs bs2
  | _, _ => false

def sameArgs : List Expr → List Expr → Bool
  | [], [] => true
  | a :: as, b :: bs => a.same b && sameArgs as bs
  | _, _ => false

end

/-- a token without its literal and its place -/
def bare (t : Token) : Token := ⟨t.kind, t.lexeme, "", ⟨0, 0⟩⟩

mutual

/-- the tree without places: numbers and operators keep kind and text, other tokens are dropped -/
def erase : Expr → Expr
  | .absent => .absent
  | .number t => .number (bare t)
  | .var _ x => .var Token.missing x
  | .assign _ x e => .assign Token.missing x e.erase
  | .binary l o r => .binary l.erase (bare o) r.erase
  | .unary o e => .unary (bare o) e.erase
  | .cond _ bs e => .cond Token.missing (eraseBranches bs) e.erase
  | .count _ x a b s e => .count Token.missing x a.erase b.erase s.erase e.erase
  | .loop _ c e => .loop Token.missing c.erase e.erase
  | .func _ x ps e => .func Token.missing x ps e.erase
  | .call _ f as => .call Token.missing f.erase (eraseArgs as)

def eraseBranches : List (Expr × Expr) → List (Expr × Expr)
  | [] => []
  | (c, e) :: bs => (c.erase, e.erase) :: eraseBranches bs

def eraseArgs : List Expr → List Expr
  | [] => []
  | a :: as => a.erase :: eraseArgs as

end

theorem same_eq_true_iff_bare (a b : Token) : a.same b = true ↔ bare a = bare b := by
  simp [Token.same, bare]

end Expr

end ExprShell
