import ExprShell.Proofs.Sentence.Grammar

/-!
# One step of the reader

The functions of the reader are one: each reads a goal.  With one unit of fuel more a goal is read
by its script, which says which words are looked at, which are taken, and which further goals are
read in between.  A script knows no fuel, and neither the bound names nor the words themselves.

* `Goal`             what the reader can be asked for, with the type of its result;
* `Script`           what is done for a goal, up to the reading of further goals;
* `Goal.script`      the grammar, as a script for every goal;
* `Goal.read_succ`   a goal that is read with fuel is its script.
-/

namespace ExprShell.Sentence
open Grammar

/-- what the reader can be asked for -/
inductive Goal : Type → Type
  | expr : Goal Expr
  | assignment (t : Token) (x : String) : Goal Expr
  | operand (l : Loop) : Goal Expr
  | chain (l : Loop) (e : Expr) : Goal Expr
  | application : Goal Expr
  | arguments : Goal (List Expr)
  | exprs : Goal (List Expr)
  | conditional (t : Token) : Goal Expr
  | branches : Goal (List (Expr × Expr))
  | counted (t : Token) : Goal Expr
  | step : Goal Expr
  | looping (t : Token) : Goal Expr
  | function (t : Token) : Goal Expr

def Goal.read {α : Type} (bound : Names) (stop : Token) (n : Nat) :
    Goal α → List Token → Except ParseError (α × List Token)
  | .expr => Sentence.expr bound stop n
  | .assignment t x => Sentence.assignment bound stop n t x
  | .operand l => l.reader bound stop n
  | .chain l e => l.tail bound stop n e
  | .application => Sentence.application bound stop n
  | .arguments => Sentence.arguments bound stop n
  | .exprs => Sentence.exprs bound stop n
  | .conditional t => Sentence.conditional bound stop n t
  | .branches => Sentence.branches bound stop n
  | .counted t => Sentence.counted bound stop n t
  | .step => Sentence.step bound stop n
  | .looping t => Sentence.looping bound stop n t
  | .function t => Sentence.function bound stop n t

abbrev Reader : Type 1 := ∀ α : Type, Goal α → List Token → Except ParseError (α × List Token)

/-- what is done for a goal -/
inductive Script (α : Type) : Type 1
  /-- the end, with a result -/
  | done (a : α)
  /-- the end, because the next word is wrong -/
  | wrong (w : Want)
  /-- takes the next word if it is of some sort -/
  | option (p : Token → Prop) [DecidablePred p] (yes : Token → Script α) (no : Script α)
  /-- looks at the next word, and leaves it -/
  | stay (p : Token → Prop) [DecidablePred p] (yes no : Script α)
  /-- takes a name if an equals sign stands behind it, and only a name that is bound -/
  | target (yes : Token → Script α) (no : Script α)
  /-- reads a further goal -/
  | ask {β : Type} (g : Goal β) (rest : β → Script α)
  /-- reads the names between the parentheses of a function -/
  | params (rest : List String → Script α)

namespace Script

variable {α : Type}

abbrev expect (k : Token.Kind) (w : Want) (rest : Token → Script α) : Script α :=
  .option (fun t => t.kind = k) rest (.wrong w)

abbrev expectWord (k : Keyword) (rest : Script α) : Script α :=
  .option (fun t => t.is k) (fun _ => rest) (.wrong (.word k))

abbrev more (w : Want) (rest : Script α) : Script α := .stay (fun _ => True) rest (.wrong w)

abbrev same (g : Goal α) : Script α := .ask g .done

/-- reads by a script; `rd` reads the further goals -/
def read (bound : Names) (stop : Token) (rd : Reader) :
    Script α → List Token → Except ParseError (α × List Token)
  | .done a, ts => .ok (a, ts)
  | .wrong w, ts => Sentence.wrong stop ts w
  | @option _ _ _ _ no, [] => no.read bound stop rd []
  | @option _ p _ yes no, t :: ts =>
    if p t then (yes t).read bound stop rd ts else no.read bound stop rd (t :: ts)
  | @stay _ _ _ _ no, [] => no.read bound stop rd []
  | @stay _ p _ yes no, t :: ts =>
    if p t then yes.read bound stop rd (t :: ts) else no.read bound stop rd (t :: ts)
  | .target _ no, [] => no.read bound stop rd []
  | .target yes no, t :: ts =>
    if t.kind = .identifier ∧ nextIs .equal ts then
      if bound t.literal then (yes t).read bound stop rd ts else .error ⟨t, .undeclared⟩
    else no.read bound stop rd (t :: ts)
  | .ask g rest, ts => rd _ g ts >>= fun p => (rest p.1).read bound stop rd p.2
  | .params rest, ts => paramList stop ts >>= fun p => (rest p.1).read bound stop rd p.2

end Script

/-! ## The scripts of the grammar -/

/-- the first operand of a level, and further ones -/
abbrev Script.level (first : Goal Expr) (l : Loop) : Script Expr :=
  .ask first fun e => .same (.chain l e)

def keywordScript : Script Expr :=
  .option (fun t => t.is .if) (fun t => .same (.conditional t)) <|
  .option (fun t => t.is .for) (fun t => .same (.counted t)) <|
  .option (fun t => t.is .while) (fun t => .same (.looping t)) <|
  .option (fun t => t.is .fn) (fun t => .same (.function t)) <|
  .wrong .expression

def factorScript : Script Expr :=
  .option (fun t => t.kind = .plus ∨ t.kind = .minus)
    (fun t => .ask (.operand .product) fun e => .done (.unary t e)) <|
  .option (fun t => t.kind = .int ∨ t.kind = .double) (fun t => .done (.number t)) <|
  .option (fun t => t.kind = .identifier) (fun t => .done (.var t t.literal)) <|
  .option (fun t => t.kind = .lparen)
    (fun _ => .ask .expr fun e => .expect .rparen .closing fun _ => .done e)
    keywordScript

def functionScript (t : Token) (x : String) : Script Expr :=
  .expect .lparen .opening fun _ => .params fun ps =>
    .expect .rparen .commaOrClosing fun _ => .expect .arrow .arrow fun _ =>
      .ask .expr fun e => .done (.func t x ps e)

def Goal.script {α : Type} : Goal α → Script α
  | .expr =>
    .more .expression <|
    .option (fun t => t.is .var)
      (fun t => .expect .identifier .nameAfterVar fun x => .same (.assignment t x.literal)) <|
    .target (fun t => .same (.assignment t t.literal)) <|
    .level (.operand .logic) .logic
  | .assignment t x =>
    .expect .equal .equals fun _ => .ask (.operand .comparison) fun e => .done (.assign t x e)
  | .operand .logic =>
    .more .expression <|
    .option (fun t => t.is .not)
      (fun t => .ask (.operand .logic) fun e => .done (.unary t e)) <|
    .level (.operand .comparison) .comparison
  | .operand .comparison => .level (.operand .sum) .sum
  | .operand .sum => .level .application .product
  | .operand .product => factorScript
  | .chain l e =>
    .option (fun t => l.sign t)
      (fun t => .ask (.operand l) fun b => .same (.chain l (.binary e t b))) (.done e)
  | .application =>
    .ask (.operand .product) fun f =>
      .option (fun t => t.kind = .lparen)
        (fun t => .ask .arguments fun as =>
          .expect .rparen .commaOrClosing fun _ => .done (.call t f as))
        (.done f)
  | .arguments => .stay (fun t => t.kind = .rparen) (.done []) (.same .exprs)
  | .exprs =>
    .ask .expr fun a =>
      .option (fun t => t.kind = .comma) (fun _ => .ask .exprs fun as => .done (a :: as))
        (.done [a])
  | .conditional t =>
    .ask .branches fun bs =>
      .option (fun t => t.is .else) (fun _ => .ask .expr fun e => .done (.cond t bs e))
        (.done (.cond t bs .absent))
  | .branches =>
    .ask .expr fun c => .expectWord .then <| .ask .expr fun e =>
      .option (fun t => t.is .elif) (fun _ => .ask .branches fun bs => .done ((c, e) :: bs))
        (.done [(c, e)])
  | .counted t =>
    .expect .identifier .loopName fun x => .expect .equal .equals fun _ =>
      .ask .expr fun a => .expectWord .to <| .ask .expr fun b => .ask .step fun s =>
        .expectWord .then <| .ask .expr fun e => .done (.count t x.literal a b s e)
  | .step => .option (fun t => t.is .step) (fun _ => .same .expr) (.done .absent)
  | .looping t =>
    .ask .expr fun c => .expectWord .then <| .ask .expr fun e => .done (.loop t c e)
  | .function t =>
    .option (fun t => t.kind = .identifier) (fun x => functionScript t x.literal)
      (functionScript t "")

/-! ## A goal is read by its script -/

section

variable {α : Type}

theorem Goal.read_zero (bound : Names) (stop : Token) (g : Goal α) (ts : List Token) :
    g.read bound stop 0 ts = .error ⟨ts.headD stop, .exhausted⟩ := by
  cases g with
  | operand l => cases l <;> rfl
  | chain l e => exact l.tail_zero stop e ts
  | _ => rfl

variable {bound : Names} {stop : Token} {rd : Reader} {ts : List Token}

theorem Script.read_same (g : Goal α) : (Script.same g).read bound stop rd ts = rd _ g ts := by
  show (rd _ g ts >>= fun p => .ok (p.1, p.2)) = rd _ g ts
  cases rd _ g ts <;> rfl

theorem Script.read_level (first : Goal Expr) (l : Loop) :
    (Script.level first l).read bound stop rd ts =
      rd _ first ts >>= fun p => rd _ (.chain l p.1) p.2 :=
  bind_congr fun p => read_same (.chain l p.1)

theorem Script.read_more_cons (w : Want) (s : Script α) (t : Token) :
    (Script.more w s).read bound stop rd (t :: ts) = s.read bound stop rd (t :: ts) :=
  if_pos trivial

theorem Script.read_expect (k : Token.Kind) (w : Want) (rest : Token → Script α) :
    (Script.expect k w rest).read bound stop rd ts =
      Sentence.expect stop k w ts >>= fun p => (rest p.1).read bound stop rd p.2 := by
  cases ts with
  | nil => rfl
  | cons t ts =>
    show (if t.kind = k then _ else _) = (if t.kind = k then _ else _) >>= _
    split <;> rfl

theorem Script.read_expectWord (k : Keyword) (rest : Script α) :
    (Script.expectWord k rest).read bound stop rd ts =
      Sentence.expectWord stop k ts >>= rest.read bound stop rd := by
  cases ts with
  | nil => rfl
  | cons t ts =>
    show (if t.is k then _ else _) = (if t.is k then _ else _) >>= _
    split <;> rfl

end

section

variable (bound : Names) (stop : Token) (n : Nat)

theorem functionScript_read (t : Token) (ts : List Token) :
    (functionScript t (funcName ts).1).read bound stop (fun _ g => g.read bound stop n)
      (funcName ts).2 = function bound stop (n + 1) t ts := by
  rw [function, funcHead]
  simp only [functionScript, Script.read_expect, Script.read, bind_assoc, pure_bind]
  rfl

theorem factorScript_read (ts : List Token) :
    factorScript.read bound stop (fun _ g => g.read bound stop n) ts =
      factor bound stop (n + 1) ts := by
  cases ts with
  | nil => rfl
  | cons t ts =>
    show (if t.kind = .plus ∨ t.kind = .minus then _ else
      if t.kind = .int ∨ t.kind = .double then _ else
      if t.kind = .identifier then _ else if t.kind = .lparen then _ else
      if t.is .if then _ else if t.is .for then _ else if t.is .while then _ else
      if t.is .fn then _ else _) = _
    simp only [Script.read_same]
    cases hk : t.kind with
    | keyword =>
      simp only [factor, hk, reduceCtorEq, or_self, if_false]
      rfl
    | lparen =>
      simp only [factor, hk, reduceCtorEq, or_self, if_false, if_true]
      exact bind_congr fun p => Script.read_expect _ _ _
    | _ =>
      simp only [factor, hk, Token.is, reduceCtorEq, or_self, or_true, true_or, if_false, if_true,
        decide_false, Bool.false_and, Bool.false_eq_true]
      rfl

end

/-- **With one unit of fuel more a goal is read by its script.** -/
theorem Goal.read_succ {α : Type} (bound : Names) (stop : Token) (n : Nat) (g : Goal α)
    (ts : List Token) : g.read bound stop (n + 1) ts =
      g.script.read bound stop (fun _ g => g.read bound stop n) ts := by
  cases g with
  | expr =>
    cases ts with
    | nil => rfl
    | cons t ts =>
      rw [script, Script.read_more_cons]
      show (if t.is .var then _ else if t.kind = .identifier ∧ nextIs .equal ts then _ else _) =
        if t.is .var then _ else if t.kind = .identifier ∧ nextIs .equal ts then _ else _
      rw [Script.read_expect, Script.read_same, Script.read_level]
      simp only [Script.read_same]
      rfl
  | assignment t x =>
    rw [script, Script.read_expect]
    rfl
  | operand l =>
    cases l with
    | logic =>
      cases ts with
      | nil => rfl
      | cons t ts =>
        rw [script, Script.read_more_cons]
        show (if t.is .not then _ else _) = if t.is .not then _ else _
        rw [Script.read_level]
        rfl
    | comparison =>
      rw [script, Script.read_level]
      rfl
    | sum =>
      rw [script, Script.read_level]
      rfl
    | product => exact (factorScript_read bound stop n ts).symm
  | chain l e =>
    cases ts with
    | nil => exact l.tail_nil stop n e
    | cons t ts =>
      show l.tail bound stop (n + 1) e (t :: ts) = if l.sign t then _ else _
      rw [l.tail_cons]
      refine if_congr Iff.rfl (bind_congr fun p => ?_) rfl
      show _ = (Script.same _).read bound stop _ p.2
      rw [Script.read_same]
      rfl
  | application =>
    refine bind_congr fun p => ?_
    obtain ⟨f, r⟩ := p
    cases r with
    | nil => rfl
    | cons t r =>
      show (if t.kind = .lparen then _ else _) = if t.kind = .lparen then _ else _
      refine if_congr Iff.rfl (bind_congr fun p => ?_) rfl
      show _ = (Script.expect _ _ _).read bound stop _ p.2
      rw [Script.read_expect]
      rfl
  | arguments =>
    cases ts with
    | nil =>
      show _ = (Script.same .exprs).read bound stop (fun _ g => g.read bound stop n) []
      rw [Script.read_same]
      rfl
    | cons t ts =>
      show (if nextIs .rparen (t :: ts) then _ else _) = if t.kind = .rparen then _ else _
      rw [Script.read_same]
      exact if_congr (by simp [nextIs]) rfl rfl
  | exprs =>
    refine bind_congr fun p => ?_
    obtain ⟨a, r⟩ := p
    cases r <;> rfl
  | conditional t =>
    refine bind_congr fun p => ?_
    obtain ⟨bs, r⟩ := p
    cases r <;> rfl
  | branches =>
    refine bind_congr fun p => ?_
    show _ = (Script.expectWord _ _).read bound stop _ p.2
    rw [Script.read_expectWord]
    refine bind_congr fun r => bind_congr fun p => ?_
    obtain ⟨e, r⟩ := p
    cases r <;> rfl
  | counted t =>
    simp only [script, Script.read_expect, Script.read_expectWord, Script.read]
    rfl
  | step =>
    cases ts with
    | nil => rfl
    | cons t ts =>
      show (if t.is .step then _ else _) = if t.is .step then _ else _
      rw [Script.read_same]
      rfl
  | looping t =>
    simp only [script, Script.read_expectWord, Script.read]
    rfl
  | function t =>
    refine (functionScript_read bound stop n t ts).symm.trans ?_
    cases ts with
    | nil => rfl
    | cons u ts =>
      show _ = if u.kind = .identifier then (functionScript t u.literal).read bound stop _ ts
        else (functionScript t "").read bound stop _ (u :: ts)
      rw [funcName]
      split <;> rfl

/-! ## Fuel -/

/-- the fuel, over ten for every word ahead, that a goal may need -/
def Goal.spare {α : Type} : Goal α → Nat
  | .expr => 6
  | .assignment _ _ | .chain _ _ | .operand .product => 1
  | .application => 2
  | .operand .sum => 3
  | .operand .comparison => 4
  | .operand .logic => 5
  | .exprs | .branches => 7
  | .arguments | .conditional _ | .counted _ | .step | .looping _ | .function _ => 8

/-- with fuel `k` over ten for every word ahead, every further goal has what it may need -/
inductive Script.Fuelled {α : Type} : Nat → Script α → Prop
  | done {k : Nat} (a : α) : Fuelled k (.done a)
  | wrong {k : Nat} (w : Want) : Fuelled k (.wrong w)
  | option {k : Nat} {p : Token → Prop} [DecidablePred p] {yes : Token → Script α}
    {no : Script α} (hyes : ∀ t, p t → Fuelled (k + 10) (yes t)) (hno : Fuelled k no) :
    Fuelled k (.option p yes no)
  | stay {k : Nat} {p : Token → Prop} [DecidablePred p] {yes no : Script α}
    (hyes : Fuelled k yes) (hno : Fuelled k no) : Fuelled k (.stay p yes no)
  | target {k : Nat} {yes : Token → Script α} {no : Script α}
    (hyes : ∀ t, Fuelled (k + 10) (yes t)) (hno : Fuelled k no) : Fuelled k (.target yes no)
  | ask {β : Type} {k : Nat} {g : Goal β} {rest : β → Script α} (hg : g.spare ≤ k)
    (h : ∀ b, Fuelled k (rest b)) : Fuelled k (.ask g rest)
  | params {k : Nat} {rest : List String → Script α} (h : ∀ ps, Fuelled k (rest ps)) :
    Fuelled k (.params rest)

theorem Goal.spare_operand_le (l : Loop) : (Goal.operand l).spare ≤ 5 := by
  cases l <;> decide

/-- one unit is enough for the step from a goal to its script -/
theorem Goal.fuelled {α : Type} (g : Goal α) : ∃ k, g.spare = k + 1 ∧ g.script.Fuelled k := by
  cases g with
  | chain l e =>
    have hl : (Goal.operand l).spare ≤ 10 := Nat.le_trans (spare_operand_le l) (by decide)
    refine ⟨0, rfl, .option (fun t _ => .ask hl fun b => ?_) (.done e)⟩
    exact .ask (Nat.le_of_ble_eq_true rfl) .done
  | operand l =>
    cases l <;> refine ⟨_, rfl, ?_⟩
    all_goals repeat' (first | exact Nat.le_of_ble_eq_true rfl | constructor | intro)
  | _ =>
    refine ⟨_, rfl, ?_⟩
    repeat' (first | exact Nat.le_of_ble_eq_true rfl | constructor | intro)

end ExprShell.Sentence
