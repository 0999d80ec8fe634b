import ExprShell.Sentence

/-!
# Reading a sentence

Recursive descent with one word of lookahead.  Each level of the grammar is a function from the
words ahead to a tree and the words behind it:

    expr        :=  VAR name = sum  |  name = sum  |  comparison ((AND | OR) comparison)*
    comparison  :=  NOT comparison  |  sum ((== | != | < | > | <= | >=) sum)*
    sum         :=  product ((+ | -) product)*
    product     :=  application ((* | /) factor)*
    application :=  factor ( '(' (expr (, expr)*)? ')' )?
    factor      :=  (+ | -) factor  |  number  |  name  |  '(' expr ')'
                 |  conditional  |  counted  |  looping  |  function

A plain assignment is read only for a name that is bound.  The first word that does not fit ends
the reading.  Every level takes at least one word, so the fuel, ten for every word, is never used
up; `parse` shows none of it.
-/

namespace ExprShell

abbrev Names := String → Bool

abbrev Parsed := Except ParseError (Expr × List Token)

namespace Sentence

def wrong {α : Type} (stop : Token) (ts : List Token) (w : Want) : Except ParseError α :=
  .error ⟨ts.headD stop, .wanted w⟩

def nextIs (k : Token.Kind) : List Token → Bool
  | t :: _ => t.kind = k
  | [] => false

def expect (stop : Token) (k : Token.Kind) (w : Want) :
    List Token → Except ParseError (Token × List Token)
  | t :: ts => if t.kind = k then .ok (t, ts) else .error ⟨t, .wanted w⟩
  | [] => .error ⟨stop, .wanted w⟩

def expectWord (stop : Token) (k : Keyword) : List Token → Except ParseError (List Token)
  | t :: ts => if t.is k then .ok ts else .error ⟨t, .wanted (.word k)⟩
  | [] => .error ⟨stop, .wanted (.word k)⟩

def params (stop : Token) : List Token → Except ParseError (List String × List Token)
  | [] => .error ⟨stop, .wanted .paramName⟩
  | t :: ts =>
    if t.kind = .identifier then
      match ts with
      | [] => .ok ([t.literal], [])
      | c :: rest =>
        if c.kind = .comma then do
          let (ps, r) ← params stop rest
          return (t.literal :: ps, r)
        else .ok ([t.literal], c :: rest)
    else .error ⟨t, .wanted .paramName⟩

def paramList (stop : Token) (ts : List Token) : Except ParseError (List String × List Token) :=
  if nextIs .identifier ts then params stop ts else .ok ([], ts)

def funcName : List Token → String × List Token
  | t :: ts => if t.kind = .identifier then (t.literal, ts) else ("", t :: ts)
  | [] => ("", [])

/-- the head of a function: a name if it has one, the parameters, and the arrow -/
def funcHead (stop : Token) (ts : List Token) :
    Except ParseError (String × List String × List Token) := do
  let (name, r) := funcName ts
  let (_, r) ← expect stop .lparen .opening r
  let (ps, r) ← paramList stop r
  let (_, r) ← expect stop .rparen .commaOrClosing r
  let (_, r) ← expect stop .arrow .arrow r
  return (name, ps, r)

mutual

/-- an assignment, or comparisons under `AND` and `OR` -/
def expr (bound : Names) (stop : Token) : Nat → List Token → Parsed
  | 0, ts => .error ⟨ts.headD stop, .exhausted⟩
  | _ + 1, [] => wrong stop [] .expression
  | n + 1, t :: ts =>
    if t.is .var then do
      let (x, r) ← expect stop .identifier .nameAfterVar ts
      assignment bound stop n t x.literal r
    else if t.kind = .identifier ∧ nextIs .equal ts then
      if bound t.literal then assignment bound stop n t t.literal ts
      else .error ⟨t, .undeclared⟩
    else do
      let (e, r) ← comparison bound stop n (t :: ts)
      logicTail bound stop n e r

def assignment (bound : Names) (stop : Token) : Nat → Token → String → List Token → Parsed
  | 0, _, _, ts => .error ⟨ts.headD stop, .exhausted⟩
  | n + 1, t, x, ts => do
    let (_, r) ← expect stop .equal .equals ts
    let (e, r) ← sum bound stop n r
    return (.assign t x e, r)

/-- further comparisons under `AND` and `OR`, to the left -/
def logicTail (bound : Names) (stop : Token) : Nat → Expr → List Token → Parsed
  | 0, _, ts => .error ⟨ts.headD stop, .exhausted⟩
  | _ + 1, e, [] => .ok (e, [])
  | n + 1, e, t :: ts =>
    if t.is .and || t.is .or then do
      let (e2, r) ← comparison bound stop n ts
      logicTail bound stop n (.binary e t e2) r
    else .ok (e, t :: ts)

/-- `NOT`, or sums under comparison signs -/
def comparison (bound : Names) (stop : Token) : Nat → List Token → Parsed
  | 0, ts => .error ⟨ts.headD stop, .exhausted⟩
  | _ + 1, [] => wrong stop [] .expression
  | n + 1, t :: ts =>
    if t.is .not then do
      let (e, r) ← comparison bound stop n ts
      return (.unary t e, r)
    else do
      let (e, r) ← sum bound stop n (t :: ts)
      comparisonTail bound stop n e r

/-- further sums under comparison signs, to the left -/
def comparisonTail (bound : Names) (stop : Token) : Nat → Expr → List Token → Parsed
  | 0, _, ts => .error ⟨ts.headD stop, .exhausted⟩
  | _ + 1, e, [] => .ok (e, [])
  | n + 1, e, t :: ts =>
    if t.kind.isComparison then do
      let (e2, r) ← sum bound stop n ts
      comparisonTail bound stop n (.binary e t e2) r
    else .ok (e, t :: ts)

/-- products under `+` and `-` -/
def sum (bound : Names) (stop : Token) : Nat → List Token → Parsed
  | 0, ts => .error ⟨ts.headD stop, .exhausted⟩
  | n + 1, ts => do
    let (e, r) ← product bound stop n ts
    sumTail bound stop n e r

/-- further products under `+` and `-`, to the left -/
def sumTail (bound : Names) (stop : Token) : Nat → Expr → List Token → Parsed
  | 0, _, ts => .error ⟨ts.headD stop, .exhausted⟩
  | _ + 1, e, [] => .ok (e, [])
  | n + 1, e, t :: ts =>
    if t.kind = .plus || t.kind = .minus then do
      let (e2, r) ← product bound stop n ts
      sumTail bound stop n (.binary e t e2) r
    else .ok (e, t :: ts)

/-- a call or a factor, then factors under `*` and `/` -/
def product (bound : Names) (stop : Token) : Nat → List Token → Parsed
  | 0, ts => .error ⟨ts.headD stop, .exhausted⟩
  | n + 1, ts => do
    let (e, r) ← application bound stop n ts
    productTail bound stop n e r

/-- further factors under `*` and `/`, to the left; a call needs parentheses here -/
def productTail (bound : Names) (stop : Token) : Nat → Expr → List Token → Parsed
  | 0, _, ts => .error ⟨ts.headD stop, .exhausted⟩
  | _ + 1, e, [] => .ok (e, [])
  | n + 1, e, t :: ts =>
    if t.kind = .mul || t.kind = .div then do
      let (e2, r) ← factor bound stop n ts
      productTail bound stop n (.binary e t e2) r
    else .ok (e, t :: ts)

/-- a factor with at most one list of arguments -/
def application (bound : Names) (stop : Token) : Nat → List Token → Parsed
  | 0, ts => .error ⟨ts.headD stop, .exhausted⟩
  | n + 1, ts => do
    let (f, r) ← factor bound stop n ts
    match r with
    | [] => return (f, [])
    | t :: r =>
      if t.kind = .lparen then do
        let (as, r) ← arguments bound stop n r
        let (_, r) ← expect stop .rparen .commaOrClosing r
        return (.call t f as, r)
      else return (f, t :: r)

def arguments (bound : Names) (stop : Token) :
    Nat → List Token → Except ParseError (List Expr × List Token)
  | 0, ts => .error ⟨ts.headD stop, .exhausted⟩
  | n + 1, ts => if nextIs .rparen ts then .ok ([], ts) else exprs bound stop n ts

def exprs (bound : Names) (stop : Token) :
    Nat → List Token → Except ParseError (List Expr × List Token)
  | 0, ts => .error ⟨ts.headD stop, .exhausted⟩
  | n + 1, ts => do
    let (a, r) ← expr bound stop n ts
    match r with
    | [] => return ([a], [])
    | t :: r =>
      if t.kind = .comma then do
        let (as, r) ← exprs bound stop n r
        return (a :: as, r)
      else return ([a], t :: r)

/-- the tightest level -/
def factor (bound : Names) (stop : Token) : Nat → List Token → Parsed
  | 0, ts => .error ⟨ts.headD stop, .exhausted⟩
  | _ + 1, [] => wrong stop [] .expression
  | n + 1, t :: ts =>
    match t.kind with
    | .plus | .minus => do
      let (e, r) ← factor bound stop n ts
      return (.unary t e, r)
    | .int | .double => .ok (.number t, ts)
    | .identifier => .ok (.var t t.literal, ts)
    | .lparen => do
      let (e, r) ← expr bound stop n ts
      let (_, r) ← expect stop .rparen .closing r
      return (e, r)
    | .keyword =>
      if t.is .if then conditional bound stop n t ts
      else if t.is .for then counted bound stop n t ts
      else if t.is .while then looping bound stop n t ts
      else if t.is .fn then function bound stop n t ts
      else wrong stop (t :: ts) .expression
    | _ => wrong stop (t :: ts) .expression

/-- `IF expr THEN expr (ELIF expr THEN expr)* (ELSE expr)?`, behind its first word -/
def conditional (bound : Names) (stop : Token) : Nat → Token → List Token → Parsed
  | 0, _, ts => .error ⟨ts.headD stop, .exhausted⟩
  | n + 1, t, ts => do
    let (bs, r) ← branches bound stop n ts
    match r with
    | [] => return (.cond t bs .absent, [])
    | u :: r =>
      if u.is .else then do
        let (e, r) ← expr bound stop n r
        return (.cond t bs e, r)
      else return (.cond t bs .absent, u :: r)

/-- conditions and bodies, at least one pair -/
def branches (bound : Names) (stop : Token) :
    Nat → List Token → Except ParseError (List (Expr × Expr) × List Token)
  | 0, ts => .error ⟨ts.headD stop, .exhausted⟩
  | n + 1, ts => do
    let (c, r) ← expr bound stop n ts
    let r ← expectWord stop .then r
    let (e, r) ← expr bound stop n r
    match r with
    | [] => return ([(c, e)], [])
    | t :: r =>
      if t.is .elif then do
        let (bs, r) ← branches bound stop n r
        return ((c, e) :: bs, r)
      else return ([(c, e)], t :: r)

/-- `FOR name = expr TO expr (STEP expr)? THEN expr`, behind its first word -/
def counted (bound : Names) (stop : Token) : Nat → Token → List Token → Parsed
  | 0, _, ts => .error ⟨ts.headD stop, .exhausted⟩
  | n + 1, t, ts => do
    let (x, r) ← expect stop .identifier .loopName ts
    let (_, r) ← expect stop .equal .equals r
    let (a, r) ← expr bound stop n r
    let r ← expectWord stop .to r
    let (b, r) ← expr bound stop n r
    let (s, r) ← step bound stop n r
    let r ← expectWord stop .then r
    let (e, r) ← expr bound stop n r
    return (.count t x.literal a b s e, r)

def step (bound : Names) (stop : Token) : Nat → List Token → Parsed
  | 0, ts => .error ⟨ts.headD stop, .exhausted⟩
  | _ + 1, [] => .ok (.absent, [])
  | n + 1, t :: ts => if t.is .step then expr bound stop n ts else .ok (.absent, t :: ts)

/-- `WHILE expr THEN expr`, behind its first word -/
def looping (bound : Names) (stop : Token) : Nat → Token → List Token → Parsed
  | 0, _, ts => .error ⟨ts.headD stop, .exhausted⟩
  | n + 1, t, ts => do
    let (c, r) ← expr bound stop n ts
    let r ← expectWord stop .then r
    let (e, r) ← expr bound stop n r
    return (.loop t c e, r)

/-- `FN name? ( (name (, name)*)? ) -> expr`, behind its first word -/
def function (bound : Names) (stop : Token) : Nat → Token → List Token → Parsed
  | 0, _, ts => .error ⟨ts.headD stop, .exhausted⟩
  | n + 1, t, ts => do
    let (x, ps, r) ← funcHead stop ts
    let (e, r) ← expr bound stop n r
    return (.func t x ps e, r)

end

/-- fuel that is never used up -/
def fuel (ts : List Token) : Nat := 10 * (ts.length + 1)

/-- reads a whole sentence -/
def parse (bound : Names) (s : Sentence) : Except ParseError Expr :=
  match s.words with
  | [] => .error ⟨s.stop, .empty⟩
  | t :: ts => do
    let (e, r) ← expr bound s.stop (fuel (t :: ts)) (t :: ts)
    match r with
    | [] => return e
    | u :: _ => .error ⟨u, .leftover⟩

end Sentence

/-- reads one expression from the tokens before the first end mark -/
def parse (bound : Names) (ts : List Token) : Except ParseError Expr :=
  (Sentence.ofTokens ts).parse bound

end ExprShell
