import ExprShell.Proofs.Sentence.Grammar

/-!
# Reading with a cursor

`Sentence.parse` cuts the tokens at the first end mark and reads lists of words.  Here the same
grammar is read from all the tokens that were given, behind an end mark in their middle too, by a
cursor that only ever looks at one token and the next:

* the cursor moves on by one token, and stays where it is on the last one;
* a token is asked for by its place, and there may be none at that place (`Halt.outside`);
* every look and every move is written down, and so is every level of the grammar that was read,
  with the place of the cursor before and behind it (`Event`);
* every node of the tree has the places between which it was read (`Spanned`).

Nothing here knows where the first end mark is.

* `Walk`        what can be done with a cursor: it gives a result, a place, and what was done;
* `Walk.read`   reads an expression from the tokens.
-/

namespace ExprShell
open Grammar Sentence

/-- a tree whose nodes have the place of their first token, and the place behind their last -/
structure Spanned where
  expr : Expr
  start : Nat
  stop : Nat
  parts : List Spanned

namespace Walk

inductive Event
  /-- the token at this place was asked for -/
  | looked (i : Nat)
  /-- the cursor was moved to this place -/
  | moved (i : Nat)
  /-- a part of the grammar was read; the cursor was at `i` and is at `j` -/
  | read (p : Part) (i j : Nat)
  deriving DecidableEq, Repr

/-- why a walk ends without a result -/
inductive Halt
  | wrong (e : ParseError)
  /-- there is no token at this place -/
  | outside (i : Nat)

/-- how a walk ended, where the cursor is, and what was done on the way -/
structure Trail (α : Type) where
  result : Except Halt α
  pos : Nat
  log : List Event

def Trail.behind {α : Type} (log : List Event) (r : Trail α) : Trail α :=
  ⟨r.result, r.pos, log ++ r.log⟩

end Walk

/-- a walk over tokens, from a place on -/
def Walk (α : Type) : Type := List Token → Nat → Walk.Trail α

namespace Walk

instance : Monad Walk where
  pure a := fun _ i => ⟨.ok a, i, []⟩
  bind m f := fun ts i =>
    match m ts i with
    | ⟨.ok a, j, log⟩ => (f a ts j).behind log
    | ⟨.error h, j, log⟩ => ⟨.error h, j, log⟩

section

variable {α β : Type} {m : Walk α} {ts : List Token} {i j : Nat} {log : List Event}

theorem bind_of_ok {a : α} (h : m ts i = ⟨.ok a, j, log⟩) (f : α → Walk β) :
    (m >>= f) ts i = (f a ts j).behind log := by
  simp only [bind, h]

theorem bind_of_error {e : Halt} (h : m ts i = ⟨.error e, j, log⟩) (f : α → Walk β) :
    (m >>= f) ts i = ⟨.error e, j, log⟩ := by
  simp only [bind, h]

theorem Trail.behind_append (r : Trail α) (log log' : List Event) :
    r.behind (log ++ log') = (r.behind log').behind log := by
  rw [behind, List.append_assoc]
  rfl

end

instance : LawfulMonad Walk := by
  refine LawfulMonad.mk' Walk (fun m => ?_) (fun _ _ => rfl) (fun m f g => ?_)
  · funext ts i
    show (m >>= pure) ts i = m ts i
    cases hm : m ts i with
    | mk x j log =>
      cases x with
      | error e => exact bind_of_error hm pure
      | ok a =>
        rw [bind_of_ok hm]
        show Trail.mk (.ok a) j (log ++ []) = _
        rw [List.append_nil]
  · funext ts i
    cases hm : m ts i with
    | mk x j log =>
      cases x with
      | error e => rw [bind_of_error hm, bind_of_error (bind_of_error hm f)]
      | ok a =>
        have hf := bind_of_ok hm f
        rw [bind_of_ok hm]
        cases hr : f a ts j with
        | mk y k log' =>
          rw [hr] at hf
          cases y with
          | error e =>
            rw [bind_of_error hf, bind_of_error hr]
            rfl
          | ok b => rw [bind_of_ok hf, bind_of_ok hr, Trail.behind_append]

/-! ## The cursor -/

def here : Walk Nat := fun _ i => ⟨.ok i, i, []⟩

/-- the token at a place; the cursor stays -/
def look (k : Nat) : Walk Token := fun ts i =>
  match ts[k]? with
  | some t => ⟨.ok t, i, [.looked k]⟩
  | none => ⟨.error (.outside k), i, [.looked k]⟩

def cur : Walk Token := fun ts i => look i ts i

/-- the token behind it, or the last one -/
def peek : Walk Token := fun ts i => look (if i + 1 < ts.length then i + 1 else ts.length - 1) ts i

/-- moves on by one token, but not from the last one -/
def advance : Walk Unit := fun ts i =>
  let j := if i < ts.length - 1 then i + 1 else i
  match ts[j]? with
  | some _ => ⟨.ok (), j, [.moved j]⟩
  | none => ⟨.error (.outside j), j, [.moved j]⟩

def fail {α : Type} (c : ParseError.Cause) : Walk α := do
  let t ← cur
  fun _ i => ⟨.error (.wrong ⟨t, c⟩), i, []⟩

/-- a part of the grammar: it is written down if it was read -/
def level {α : Type} (p : Part) (m : Walk α) : Walk α := fun ts i =>
  match m ts i with
  | ⟨.ok a, j, log⟩ => ⟨.ok a, j, log ++ [.read p i j]⟩
  | r => r

/-- the node that was read from the place `i` up to the cursor -/
def build (i : Nat) (e : Expr) (parts : List Spanned) : Walk Spanned := do
  return ⟨e, i, ← here, parts⟩

def expect (k : Token.Kind) (w : Want) : Walk Token := do
  let t ← cur
  if t.kind = k then
    advance
    return t
  else fail (.wanted w)

def expectWord (k : Keyword) : Walk Unit := do
  let t ← cur
  if t.is k then advance else fail (.wanted (.word k))

/-- is the token at the cursor a name, and the next one an equals sign? -/
def assigns : Walk Bool := do
  let t ← cur
  if t.kind = .identifier then
    let u ← peek
    return u.kind = .equal
  else return false

/-! ## The head of a function -/

def names : Nat → Walk (List String)
  | 0 => fail .exhausted
  | n + 1 => do
    let x ← expect .identifier .paramName
    let t ← cur
    if t.kind = .comma then
      advance
      let xs ← names n
      return x.literal :: xs
    else return [x.literal]

def paramList (n : Nat) : Walk (List String) := do
  let t ← cur
  if t.kind = .identifier then names n else return []

def funcName : Walk String := do
  let t ← cur
  if t.kind = .identifier then
    advance
    return t.literal
  else return ""

def funcHead (n : Nat) : Walk (String × List String) := do
  let x ← funcName
  let _ ← expect .lparen .opening
  let ps ← paramList n
  let _ ← expect .rparen .commaOrClosing
  let _ ← expect .arrow .arrow
  return (x, ps)

/-! ## The grammar -/

def branchExprs (bs : List (Spanned × Spanned)) : List (Expr × Expr) :=
  bs.map fun b => (b.1.expr, b.2.expr)

def branchParts (bs : List (Spanned × Spanned)) : List Spanned := bs.flatMap fun b => [b.1, b.2]

def optional (p : Option Spanned) : Expr := (p.map Spanned.expr).getD .absent

mutual

def expr (bound : Names) : Nat → Walk Spanned
  | 0 => fail .exhausted
  | n + 1 => level .expr do
    let i ← here
    let t ← cur
    if t.is .var then
      advance
      let x ← expect .identifier .nameAfterVar
      assignment bound n i t x.literal
    else if ← assigns then
      if bound t.literal then
        advance
        assignment bound n i t t.literal
      else fail .undeclared
    else
      let p ← comparison bound n
      chain bound .logic n i p

/-- the sign and the value of an assignment that began at `i` -/
def assignment (bound : Names) : Nat → Nat → Token → String → Walk Spanned
  | 0, _, _, _ => fail .exhausted
  | n + 1, i, t, x => do
    let _ ← expect .equal .equals
    let p ← sum bound n
    build i (.assign t x p.expr) [p]

/-- further operators of a level, behind an operand that began at `i` -/
def chain (bound : Names) (l : Loop) : Nat → Nat → Spanned → Walk Spanned
  | 0, _, _ => fail .exhausted
  | n + 1, i, p => do
    let t ← cur
    if l.sign t then
      advance
      let q ← match l with
        | .logic => comparison bound n
        | .comparison => sum bound n
        | .sum => product bound n
        | .product => factor bound n
      let b ← build i (.binary p.expr t q.expr) [p, q]
      chain bound l n i b
    else return p

def comparison (bound : Names) : Nat → Walk Spanned
  | 0 => fail .exhausted
  | n + 1 => level .comparison do
    let i ← here
    let t ← cur
    if t.is .not then
      advance
      let p ← comparison bound n
      build i (.unary t p.expr) [p]
    else
      let p ← sum bound n
      chain bound .comparison n i p

def sum (bound : Names) : Nat → Walk Spanned
  | 0 => fail .exhausted
  | n + 1 => level .sum do
    let i ← here
    let p ← product bound n
    chain bound .sum n i p

def product (bound : Names) : Nat → Walk Spanned
  | 0 => fail .exhausted
  | n + 1 => level .product do
    let i ← here
    let p ← application bound n
    chain bound .product n i p

def application (bound : Names) : Nat → Walk Spanned
  | 0 => fail .exhausted
  | n + 1 => level .application do
    let i ← here
    let p ← factor bound n
    let t ← cur
    if t.kind = .lparen then
      advance
      let ps ← arguments bound n
      let _ ← expect .rparen .commaOrClosing
      build i (.call t p.expr (ps.map Spanned.expr)) (p :: ps)
    else return p

def arguments (bound : Names) : Nat → Walk (List Spanned)
  | 0 => fail .exhausted
  | n + 1 => do
    let t ← cur
    if t.kind = .rparen then return [] else exprs bound n

def exprs (bound : Names) : Nat → Walk (List Spanned)
  | 0 => fail .exhausted
  | n + 1 => do
    let p ← expr bound n
    let t ← cur
    if t.kind = .comma then
      advance
      let ps ← exprs bound n
      return p :: ps
    else return [p]

def factor (bound : Names) : Nat → Walk Spanned
  | 0 => fail .exhausted
  | n + 1 => level .factor do
    let i ← here
    let t ← cur
    match t.kind with
    | .plus | .minus =>
      advance
      let p ← factor bound n
      build i (.unary t p.expr) [p]
    | .int | .double =>
      advance
      build i (.number t) []
    | .identifier =>
      advance
      build i (.var t t.literal) []
    | .lparen =>
      advance
      let p ← expr bound n
      let _ ← expect .rparen .closing
      return p
    | .keyword =>
      if t.is .if then conditional bound n
      else if t.is .for then counted bound n
      else if t.is .while then looping bound n
      else if t.is .fn then function bound n
      else fail (.wanted .expression)
    | _ => fail (.wanted .expression)

def conditional (bound : Names) : Nat → Walk Spanned
  | 0 => fail .exhausted
  | n + 1 => level .conditional do
    let i ← here
    let t ← cur
    advance
    let bs ← branches bound n
    let u ← cur
    if u.is .else then
      advance
      let p ← expr bound n
      build i (.cond t (branchExprs bs) p.expr) (branchParts bs ++ [p])
    else build i (.cond t (branchExprs bs) .absent) (branchParts bs)

def branches (bound : Names) : Nat → Walk (List (Spanned × Spanned))
  | 0 => fail .exhausted
  | n + 1 => do
    let c ← expr bound n
    expectWord .then
    let p ← expr bound n
    let t ← cur
    if t.is .elif then
      advance
      let bs ← branches bound n
      return (c, p) :: bs
    else return [(c, p)]

def counted (bound : Names) : Nat → Walk Spanned
  | 0 => fail .exhausted
  | n + 1 => level .counted do
    let i ← here
    let t ← cur
    advance
    let x ← expect .identifier .loopName
    let _ ← expect .equal .equals
    let a ← expr bound n
    expectWord .to
    let b ← expr bound n
    let s ← step bound n
    expectWord .then
    let p ← expr bound n
    build i (.count t x.literal a.expr b.expr (optional s) p.expr) (a :: b :: (s.toList ++ [p]))

def step (bound : Names) : Nat → Walk (Option Spanned)
  | 0 => fail .exhausted
  | n + 1 => do
    let t ← cur
    if t.is .step then
      advance
      let p ← expr bound n
      return some p
    else return none

def looping (bound : Names) : Nat → Walk Spanned
  | 0 => fail .exhausted
  | n + 1 => level .looping do
    let i ← here
    let t ← cur
    advance
    let c ← expr bound n
    expectWord .then
    let p ← expr bound n
    build i (.loop t c.expr p.expr) [c, p]

def function (bound : Names) : Nat → Walk Spanned
  | 0 => fail .exhausted
  | n + 1 => level .function do
    let i ← here
    let t ← cur
    advance
    let (x, ps) ← funcHead n
    let p ← expr bound n
    build i (.func t x ps p.expr) [p]

end

/-- the tokens, with an end mark behind them unless the last one is such a mark -/
def closed (ts : List Token) : List Token :=
  if ts.getLast?.any isEnd then ts else ts ++ [Token.missing]

/-- an expression, and nothing but an end mark behind it -/
def sentence (bound : Names) (n : Nat) : Walk Spanned := do
  let t ← cur
  if isEnd t then fail .empty
  else
    let p ← expr bound n
    let u ← cur
    if isEnd u then return p else fail .leftover

/-- reads one expression from the tokens, with levels nested up to `n` deep -/
def read (bound : Names) (n : Nat) (ts : List Token) : Trail Spanned :=
  sentence bound n (closed ts) 0

end Walk

end ExprShell
