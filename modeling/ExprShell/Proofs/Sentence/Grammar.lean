import ExprShell.Sentence.Parse
import Mathlib.Computability.Language

/-!
# The grammar of expressions

The grammar as a system of productions, apart from any way to read it.  `Derives bound p w e` says
that the words `w` can be taken as the part `p`, and that `e` is the tree of that derivation:

    expr        :=  VAR name = sum  |  name = sum  |  comparison ((AND | OR) comparison)*
    comparison  :=  NOT comparison  |  sum ((== | != | < | > | <= | >=) sum)*
    sum         :=  product ((+ | -) product)*
    product     :=  application ((* | /) factor)*
    application :=  factor ( '(' (expr (, expr)*)? ')' )?
    factor      :=  (+ | -) factor  |  number  |  name  |  '(' expr ')'
                 |  conditional  |  counted  |  looping  |  function
    conditional :=  IF expr THEN expr (ELIF expr THEN expr)* (ELSE expr)?
    counted     :=  FOR name = expr TO expr (STEP expr)? THEN expr
    looping     :=  WHILE expr THEN expr
    function    :=  FN name? '(' (name (, name)*)? ')' -> expr

Keywords are told by their literal, all other words by their kind; the production `name = sum` is
there only for names that are bound.  A repeated operator is a `chain`, whose tree is a function of
the operand to its left, so that the first operator stands deepest.

The grammar is ambiguous: the bodies of the last four parts are open to the right.

* `Grammar.Part`       the parts, on four levels the operands of a `Grammar.Loop`;
* `Grammar.Derives`    derivations with their trees;
* `Grammar.language`   the sentences of a part;
* `Grammar.Begins`     how a sentence begins that is not an assignment, nor under `NOT`.
-/

namespace ExprShell.Grammar
open Sentence

/-- the four levels on which operators are repeated -/
inductive Loop
  | logic | comparison | sum | product
  deriving DecidableEq, Repr

def Loop.sign : Loop → Token → Bool
  | .logic, t => t.is .and || t.is .or
  | .comparison, t => t.kind.isComparison
  | .sum, t => t.kind = .plus || t.kind = .minus
  | .product, t => t.kind = .mul || t.kind = .div

inductive Part
  | expr | application
  | conditional | counted | looping | function
  /-- what stands to the right of an operator of a level -/
  | operand (l : Loop)
  /-- operators of one level, each with its operand -/
  | chain (l : Loop)
  /-- expressions with commas between them: any number, at least one -/
  | args | exprs
  /-- a condition, `THEN` and a body, at least once, with `ELIF` between them -/
  | branches
  /-- a keyword and an expression, or nothing -/
  | clause (k : Keyword)
  /-- the name of a function, its parameters, and names with commas between them -/
  | title | params | names
  deriving DecidableEq, Repr

namespace Part

@[match_pattern] abbrev comparison : Part := .operand .logic
@[match_pattern] abbrev sum : Part := .operand .comparison
@[match_pattern] abbrev product : Part := .operand .sum
@[match_pattern] abbrev factor : Part := .operand .product

/-- what a part is read as; a chain waits for the operand to its left -/
abbrev Tree : Part → Type
  | .chain _ => Expr → Expr
  | .args | .exprs => List Expr
  | .branches => List (Expr × Expr)
  | .title => String
  | .params | .names => List String
  | _ => Expr

end Part

/-- the words `w` derive from the part, with this tree -/
inductive Derives (bound : Names) : (p : Part) → (w : List Token) → p.Tree → Prop
  | declare {t x q : Token} {w : List Token} {e : Expr} (ht : t.is .var)
    (hx : x.kind = .identifier) (hq : q.kind = .equal) (hw : Derives bound .sum w e) :
    Derives bound .expr (t :: x :: q :: w) (.assign t x.literal e)
  | assign {x q : Token} {w : List Token} {e : Expr} (hx : x.kind = .identifier)
    (hb : bound x.literal) (hq : q.kind = .equal) (hw : Derives bound .sum w e) :
    Derives bound .expr (x :: q :: w) (.assign x x.literal e)
  | logic {w v : List Token} {e : Expr} {f : Expr → Expr} (hw : Derives bound .comparison w e)
    (hv : Derives bound (.chain .logic) v f) : Derives bound .expr (w ++ v) (f e)
  | negation {t : Token} {w : List Token} {e : Expr} (ht : t.is .not)
    (hw : Derives bound .comparison w e) : Derives bound .comparison (t :: w) (.unary t e)
  | comparison {w v : List Token} {e : Expr} {f : Expr → Expr} (hw : Derives bound .sum w e)
    (hv : Derives bound (.chain .comparison) v f) : Derives bound .comparison (w ++ v) (f e)
  | sum {w v : List Token} {e : Expr} {f : Expr → Expr} (hw : Derives bound .product w e)
    (hv : Derives bound (.chain .sum) v f) : Derives bound .sum (w ++ v) (f e)
  | product {w v : List Token} {e : Expr} {f : Expr → Expr} (hw : Derives bound .application w e)
    (hv : Derives bound (.chain .product) v f) : Derives bound .product (w ++ v) (f e)
  | stop {l : Loop} : Derives bound (.chain l) [] id
  | next {l : Loop} {t : Token} {w v : List Token} {e : Expr} {f : Expr → Expr} (ht : l.sign t)
    (hw : Derives bound (.operand l) w e) (hv : Derives bound (.chain l) v f) :
    Derives bound (.chain l) (t :: (w ++ v)) fun left => f (.binary left t e)
  | plain {w : List Token} {e : Expr} (hw : Derives bound .factor w e) :
    Derives bound .application w e
  | call {t q : Token} {w v : List Token} {e : Expr} {as : List Expr}
    (hw : Derives bound .factor w e) (ht : t.kind = .lparen) (hv : Derives bound .args v as)
    (hq : q.kind = .rparen) : Derives bound .application (w ++ t :: (v ++ [q])) (.call t e as)
  | noArgs : Derives bound .args [] []
  | someArgs {w : List Token} {as : List Expr} (hw : Derives bound .exprs w as) :
    Derives bound .args w as
  | lastExpr {w : List Token} {e : Expr} (hw : Derives bound .expr w e) :
    Derives bound .exprs w [e]
  | nextExpr {t : Token} {w v : List Token} {e : Expr} {as : List Expr}
    (hw : Derives bound .expr w e) (ht : t.kind = .comma) (hv : Derives bound .exprs v as) :
    Derives bound .exprs (w ++ t :: v) (e :: as)
  | signed {t : Token} {w : List Token} {e : Expr} (ht : t.kind = .plus ∨ t.kind = .minus)
    (hw : Derives bound .factor w e) : Derives bound .factor (t :: w) (.unary t e)
  | number {t : Token} (ht : t.kind = .int ∨ t.kind = .double) :
    Derives bound .factor [t] (.number t)
  | name {t : Token} (ht : t.kind = .identifier) : Derives bound .factor [t] (.var t t.literal)
  | group {t q : Token} {w : List Token} {e : Expr} (ht : t.kind = .lparen)
    (hw : Derives bound .expr w e) (hq : q.kind = .rparen) :
    Derives bound .factor (t :: (w ++ [q])) e
  | conditional {w : List Token} {e : Expr} (hw : Derives bound .conditional w e) :
    Derives bound .factor w e
  | counted {w : List Token} {e : Expr} (hw : Derives bound .counted w e) :
    Derives bound .factor w e
  | looping {w : List Token} {e : Expr} (hw : Derives bound .looping w e) :
    Derives bound .factor w e
  | function {w : List Token} {e : Expr} (hw : Derives bound .function w e) :
    Derives bound .factor w e
  | cond {t : Token} {w v : List Token} {bs : List (Expr × Expr)} {e : Expr} (ht : t.is .if)
    (hw : Derives bound .branches w bs) (hv : Derives bound (.clause .else) v e) :
    Derives bound .conditional (t :: (w ++ v)) (.cond t bs e)
  | lastBranch {t : Token} {w v : List Token} {c e : Expr} (hw : Derives bound .expr w c)
    (ht : t.is .then) (hv : Derives bound .expr v e) :
    Derives bound .branches (w ++ t :: v) [(c, e)]
  | nextBranch {t s : Token} {w v u : List Token} {c e : Expr} {bs : List (Expr × Expr)}
    (hw : Derives bound .expr w c) (ht : t.is .then) (hv : Derives bound .expr v e)
    (hs : s.is .elif) (hu : Derives bound .branches u bs) :
    Derives bound .branches (w ++ t :: (v ++ s :: u)) ((c, e) :: bs)
  | noClause {k : Keyword} : Derives bound (.clause k) [] .absent
  | someClause {k : Keyword} {t : Token} {w : List Token} {e : Expr} (ht : t.is k)
    (hw : Derives bound .expr w e) : Derives bound (.clause k) (t :: w) e
  | count {t x q r s : Token} {u v z w : List Token} {a b c e : Expr} (ht : t.is .for)
    (hx : x.kind = .identifier) (hq : q.kind = .equal) (hu : Derives bound .expr u a)
    (hr : r.is .to) (hv : Derives bound .expr v b) (hz : Derives bound (.clause .step) z c)
    (hs : s.is .then) (hw : Derives bound .expr w e) :
    Derives bound .counted (t :: x :: q :: (u ++ r :: (v ++ (z ++ s :: w))))
      (.count t x.literal a b c e)
  | loop {t s : Token} {w v : List Token} {c e : Expr} (ht : t.is .while)
    (hw : Derives bound .expr w c) (hs : s.is .then) (hv : Derives bound .expr v e) :
    Derives bound .looping (t :: (w ++ s :: v)) (.loop t c e)
  | func {t p q r : Token} {u v w : List Token} {x : String} {ps : List String} {e : Expr}
    (ht : t.is .fn) (hu : Derives bound .title u x) (hp : p.kind = .lparen)
    (hv : Derives bound .params v ps) (hq : q.kind = .rparen) (hr : r.kind = .arrow)
    (hw : Derives bound .expr w e) :
    Derives bound .function (t :: (u ++ p :: (v ++ q :: r :: w))) (.func t x ps e)
  | noTitle : Derives bound .title [] ""
  | someTitle {t : Token} (ht : t.kind = .identifier) : Derives bound .title [t] t.literal
  | noParams : Derives bound .params [] []
  | someParams {w : List Token} {ps : List String} (hw : Derives bound .names w ps) :
    Derives bound .params w ps
  | lastName {t : Token} (ht : t.kind = .identifier) : Derives bound .names [t] [t.literal]
  | nextName {t c : Token} {w : List Token} {ps : List String} (ht : t.kind = .identifier)
    (hc : c.kind = .comma) (hw : Derives bound .names w ps) :
    Derives bound .names (t :: c :: w) (t.literal :: ps)

/-- the sentences of a part -/
def language (bound : Names) (p : Part) : Language Token := {w | ∃ e, Derives bound p w e}

variable {bound : Names} {p : Part} {w : List Token}

theorem Derives.mem {e : p.Tree} (h : Derives bound p w e) : w ∈ language bound p := ⟨e, h⟩

/-! ## Words that are no operators -/

theorem kind_of_is {t : Token} {k : Keyword} (h : t.is k) : t.kind = .keyword := by
  simp only [Token.is, Bool.and_eq_true, decide_eq_true_eq] at h
  exact h.1

theorem is_iff {t : Token} {k j : Keyword} (h : t.is k) : t.is j = true ↔ j = k := by
  have hk : t.literal = k.spelling := by
    simp only [Token.is, Bool.and_eq_true, decide_eq_true_eq] at h
    exact h.2
  simp only [Token.is, kind_of_is h, hk, decide_true, Bool.true_and, decide_eq_true_eq]
  constructor
  · intro he
    revert he
    cases k <;> cases j <;> decide
  · rintro rfl
    rfl

theorem Loop.sign_unique {l j : Loop} {t : Token} (hl : l.sign t) (hj : j.sign t) : j = l := by
  cases l <;> cases j <;> first | rfl | skip
  all_goals
    exfalso
    simp only [Loop.sign, Token.is, Token.Kind.isComparison] at hl hj
    grind

theorem Loop.not_sign_of_is (l : Loop) {t : Token} {k : Keyword} (h : t.is k)
    (hk : k ≠ .and ∧ k ≠ .or) : ¬ l.sign t := by
  cases l <;>
    simp [Loop.sign, is_iff h, kind_of_is h, Token.Kind.isComparison, hk.1.symm, hk.2.symm]

theorem Loop.not_sign_of_kind (l : Loop) {t : Token}
    (h : t.kind = .lparen ∨ t.kind = .rparen ∨ t.kind = .comma ∨ t.kind = .equal) :
    ¬ l.sign t := by
  rcases h with h | h | h | h <;>
    cases l <;> simp [Loop.sign, Token.is, Token.Kind.isComparison, h]

/-! ## How sentences begin -/

def opens (t : Token) : Bool :=
  match t.kind with
  | .plus | .minus | .int | .double | .identifier | .lparen => true
  | .keyword => t.is .if || t.is .for || t.is .while || t.is .fn
  | _ => false

/-- the first word is one that a factor begins with, and it is not a name before an equals sign -/
def Begins (w : List Token) : Prop :=
  ∃ t v, w = t :: v ∧ opens t = true ∧ (t.kind = .identifier → nextIs .equal v = false)

theorem not_is_of_opens {t : Token} {k : Keyword} (ht : opens t = true)
    (hk : k ≠ .if ∧ k ≠ .for ∧ k ≠ .while ∧ k ≠ .fn) : ¬ t.is k := by
  intro h
  simp only [opens, kind_of_is h, is_iff h, Bool.or_eq_true] at ht
  grind

namespace Begins

theorem sign {t : Token} (v : List Token)
    (h : t.kind = .plus ∨ t.kind = .minus ∨ t.kind = .int ∨ t.kind = .double ∨ t.kind = .lparen) :
    Begins (t :: v) := by
  refine ⟨t, v, rfl, ?_, fun hi => ?_⟩
  · rcases h with h | h | h | h | h <;> simp [opens, h]
  · rcases h with h | h | h | h | h <;> simp [h] at hi

theorem word {t : Token} {k : Keyword} (v : List Token) (h : t.is k)
    (hk : k = .if ∨ k = .for ∨ k = .while ∨ k = .fn) : Begins (t :: v) := by
  refine ⟨t, v, rfl, ?_, fun hi => ?_⟩
  · simp only [opens, kind_of_is h]
    rcases hk with rfl | rfl | rfl | rfl <;> simp [h]
  · simp [kind_of_is h] at hi

theorem append {v : List Token} (h : Begins w) (hv : nextIs .equal v = false) :
    Begins (w ++ v) := by
  obtain ⟨t, u, rfl, ht, hu⟩ := h
  refine ⟨t, u ++ v, rfl, ht, fun hi => ?_⟩
  cases u with
  | nil => exact hv
  | cons s u => exact hu hi

end Begins

theorem nextIs_equal_of_sign {l : Loop} {t : Token} (ht : l.sign t) (u : List Token) :
    nextIs .equal (t :: u) = false := by
  simp only [nextIs, decide_eq_false_iff_not]
  intro hq
  exact l.not_sign_of_kind (.inr (.inr (.inr hq))) ht

theorem nextIs_equal_of_chain {l : Loop} {f : Expr → Expr} (h : Derives bound (.chain l) w f) :
    nextIs .equal w = false := by
  cases h with
  | stop => rfl
  | next ht hw hv => exact nextIs_equal_of_sign ht _

namespace Derives

variable {e : Expr}

theorem begins_of_factor (h : Derives bound .factor w e) : Begins w := by
  cases h with
  | signed ht hw => exact .sign _ (ht.imp_right .inl)
  | number ht => exact .sign _ (.inr (.inr (ht.imp_right .inl)))
  | name ht => exact ⟨_, [], rfl, by simp [opens, ht], fun _ => rfl⟩
  | group ht hw hq => exact .sign _ (.inr (.inr (.inr (.inr ht))))
  | conditional hw =>
    cases hw with
    | cond ht => exact .word _ ht (by simp)
  | counted hw =>
    cases hw with
    | count ht => exact .word _ ht (by simp)
  | looping hw =>
    cases hw with
    | loop ht => exact .word _ ht (by simp)
  | function hw =>
    cases hw with
    | func ht => exact .word _ ht (by simp)

theorem begins_of_application (h : Derives bound .application w e) : Begins w := by
  cases h with
  | plain hw => exact hw.begins_of_factor
  | call hw ht hv hq => exact hw.begins_of_factor.append (by simp [nextIs, ht])

theorem begins_of_product (h : Derives bound .product w e) : Begins w := by
  cases h with
  | product hw hv => exact hw.begins_of_application.append (nextIs_equal_of_chain hv)

theorem begins_of_sum (h : Derives bound .sum w e) : Begins w := by
  cases h with
  | sum hw hv => exact hw.begins_of_product.append (nextIs_equal_of_chain hv)

/-- a comparison begins like a sum, or with `NOT` -/
theorem begins_of_comparison (h : Derives bound .comparison w e) :
    Begins w ∨ ∃ t v, w = t :: v ∧ t.is .not := by
  cases h with
  | negation ht hw => exact .inr ⟨_, _, rfl, ht⟩
  | comparison hw hv => exact .inl (hw.begins_of_sum.append (nextIs_equal_of_chain hv))

theorem head_of_sum (h : Derives bound .sum w e) (u : List Token) :
    ∃ t v, w ++ u = t :: v ∧ ¬ t.is .not := by
  obtain ⟨t, v, rfl, ht, -⟩ := h.begins_of_sum
  exact ⟨t, v ++ u, rfl, not_is_of_opens ht (by simp)⟩

/-- no comparison begins with `VAR`, nor with a name and an equals sign -/
theorem head_of_comparison (h : Derives bound .comparison w e) {u : List Token}
    (hu : nextIs .equal u = false) :
    ∃ t v, w ++ u = t :: v ∧ ¬ t.is .var ∧ ¬ (t.kind = .identifier ∧ nextIs .equal v) := by
  rcases h.begins_of_comparison with hw | ⟨t, v, rfl, ht⟩
  · obtain ⟨t, v, hv, ht, hi⟩ := hw.append hu
    refine ⟨t, v, hv, not_is_of_opens ht (by simp), fun hq => ?_⟩
    simp [hi hq.1] at hq
  · refine ⟨t, v ++ u, rfl, ?_, fun hq => ?_⟩
    · simp [is_iff ht]
    · simp [kind_of_is ht] at hq

/-- no expression begins with a closing parenthesis, whatever stands behind it -/
theorem nextIs_rparen_of_expr (h : Derives bound .expr w e) (u : List Token) :
    nextIs .rparen (w ++ u) = false := by
  cases h with
  | declare ht hx hq hw => simp [nextIs, kind_of_is ht]
  | assign hx hb hq hw => simp [nextIs, hx]
  | logic hw hv =>
    rcases hw.begins_of_comparison with ⟨t, v, rfl, ht, -⟩ | ⟨t, v, rfl, ht⟩
    · simp only [List.cons_append, nextIs, decide_eq_false_iff_not]
      intro hp
      simp [opens, hp] at ht
    · simp [nextIs, kind_of_is ht]

theorem nextIs_rparen {as : List Expr} (h : Derives bound .exprs w as) (u : List Token) :
    nextIs .rparen (w ++ u) = false := by
  cases h with
  | lastExpr hw => exact hw.nextIs_rparen_of_expr u
  | nextExpr hw ht hv =>
    rw [List.append_assoc]
    exact hw.nextIs_rparen_of_expr _

end Derives

/-! ## The readers of the four levels -/

def Loop.reader (bound : Names) (stop : Token) : Loop → Nat → List Token → Parsed
  | .logic => Sentence.comparison bound stop
  | .comparison => Sentence.sum bound stop
  | .sum => Sentence.product bound stop
  | .product => Sentence.factor bound stop

def Loop.tail (bound : Names) (stop : Token) : Loop → Nat → Expr → List Token → Parsed
  | .logic => logicTail bound stop
  | .comparison => comparisonTail bound stop
  | .sum => sumTail bound stop
  | .product => productTail bound stop

namespace Loop

variable (stop : Token) (l : Loop) (n : Nat) (e : Expr) (ts : List Token)

theorem tail_zero : l.tail bound stop 0 e ts = .error ⟨ts.headD stop, .exhausted⟩ := by
  cases l <;> rfl

theorem tail_nil : l.tail bound stop (n + 1) e [] = .ok (e, []) := by
  cases l <;> rfl

theorem tail_cons (t : Token) :
    l.tail bound stop (n + 1) e (t :: ts) =
      if l.sign t then do
        let (e2, r) ← l.reader bound stop n ts
        l.tail bound stop n (.binary e t e2) r
      else .ok (e, t :: ts) := by
  cases l <;> rfl

end Loop

end ExprShell.Grammar
