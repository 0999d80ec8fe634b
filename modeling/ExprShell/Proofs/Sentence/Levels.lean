import ExprShell.Proofs.Sentence.Follows

/-!
# Every level of the grammar follows the words

No level takes an end mark, so every level that is read moves the cursor forward, and ten levels for
every word ahead are enough.  A walk over a level comes to the tree that the reading comes to, with
the blocks of words its nodes were read from.

* `Grammar.Open`     words behind which further operators of a level may follow;
* `Walk.AllFollow`   what holds of all the levels at one depth of nesting;
* `Walk.allFollow`   the same at every depth.
-/

namespace ExprShell

/-! ## Levels inside one another -/

namespace Grammar

variable {bound : Names} {l : Loop} {u v : List Token} {e : Expr}

/-- words with a tree, behind which any further operators of a level may follow -/
def Open (bound : Names) (l : Loop) (u : List Token) (e : Expr) : Prop :=
  ∀ v f, Derives bound (.chain l) v f → Derives bound .expr (u ++ v) (f e)

theorem Open.derives (h : Open bound l u e) : Derives bound .expr u e := by
  have hstop := h [] id .stop
  rwa [List.append_nil] at hstop

theorem Open.next {t : Token} {a : Expr} (h : Open bound l u e) (ht : l.sign t)
    (hv : Derives bound (.operand l) v a) : Open bound l (u ++ t :: v) (.binary e t a) := by
  intro z f hz
  rw [List.append_assoc, List.cons_append]
  exact h _ _ (.next ht hv hz)

theorem Open.logic (h : Derives bound .comparison u e) : Open bound .logic u e :=
  fun _ _ hv => .logic h hv

theorem Open.comparison (h : Derives bound .sum u e) : Open bound .comparison u e :=
  fun _ _ hv => (Open.logic (.comparison h hv)).derives

theorem Open.sum (h : Derives bound .product u e) : Open bound .sum u e :=
  fun _ _ hv => (Open.comparison (.sum h hv)).derives

theorem Open.product (h : Derives bound .application u e) : Open bound .product u e :=
  fun _ _ hv => (Open.sum (.product h hv)).derives

theorem expr_of_operand {u : List Token} {e : Expr} (h : Derives bound (.operand l) u e) :
    Derives bound .expr u e := by
  cases l with
  | logic => exact (Open.logic h).derives
  | comparison => exact (Open.comparison h).derives
  | sum => exact (Open.sum h).derives
  | product => exact (Open.product (.plain h)).derives

end Grammar

/-! ## The levels -/

namespace Walk
open Grammar
open Sentence (Goal Script)

def operand (bound : Names) : Loop → Nat → Walk Spanned
  | .logic => comparison bound
  | .comparison => sum bound
  | .sum => product bound
  | .product => factor bound

theorem chain_succ_eq (bound : Names) (l : Loop) (n i : Nat) (p : Spanned) :
    chain bound l (n + 1) i p = do
      let t ← cur
      if l.sign t then
        advance
        let q ← operand bound l n
        let b ← build i (.binary p.expr t q.expr) [p, q]
        chain bound l n i b
      else return p := by
  cases l <;> rfl

theorem children_cond (t : Token) (bs : List (Spanned × Spanned)) (e : Expr) :
    (Expr.cond t (branchExprs bs) e).children = (branchParts bs).map Spanned.expr ++ [e] := by
  show (branchExprs bs).flatMap (fun b => [b.1, b.2]) ++ [e] = _
  rw [branchExprs, branchParts, List.flatMap_map, List.map_flatMap]
  rfl

theorem operand_nil {bound : Names} {stop : Token} {l : Loop} {n : Nat}
    (hn : (Goal.operand l).spare ≤ n) :
    (Goal.operand l).read bound stop n [] = .error ⟨stop, .wanted .expression⟩ := by
  obtain ⟨m, rfl⟩ := Nat.exists_eq_add_of_le' hn
  cases l <;> rfl

/-- with levels nested up to `n` deep every walk follows the reading of its goal, if that leaves
ten levels for every word ahead -/
structure AllFollow (bound : Names) (w : List Token) (stop : Token) (n : Nat) : Prop where
  expr {i : Nat} (hi : i ≤ w.length) (hn : 10 * w.length + 6 ≤ n + 10 * i) :
    Follows w stop (expr bound n) i (Got bound (Derives bound .expr) w i)
      (Goal.expr.read bound stop n (w.drop i))
  assignment {i j : Nat} {t : Token} {ts : List Token} (x : String) (hd : w.drop i = t :: ts)
    (ht : t.kind ≠ .lparen) (hij : i < j) (hj : j ≤ w.length)
    (hn : 10 * w.length + 1 ≤ n + 10 * j) :
    Follows w stop (assignment bound n i t x) j (Took bound w i)
      ((Goal.assignment t x).read bound stop n (w.drop j))
  operand {i : Nat} (l : Loop) (hi : i ≤ w.length)
    (hn : 10 * w.length + (Goal.operand l).spare ≤ n + 10 * i) :
    Follows w stop (operand bound l n) i (Got bound (Derives bound (.operand l)) w i)
      ((Goal.operand l).read bound stop n (w.drop i))
  chain {i j : Nat} {p : Spanned} {e : Expr} (l : Loop) (hp : Took bound w i p e j)
    (hopen : Open bound l (w.extract i j) e) (hj : j ≤ w.length)
    (hn : 10 * w.length + 1 ≤ n + 10 * j) :
    Follows w stop (chain bound l n i p) j (Took bound w i)
      ((Goal.chain l e).read bound stop n (w.drop j))
  application {i : Nat} (hi : i ≤ w.length) (hn : 10 * w.length + 2 ≤ n + 10 * i) :
    Follows w stop (application bound n) i (Got bound (Derives bound .application) w i)
      (Goal.application.read bound stop n (w.drop i))
  arguments {i : Nat} (hi : i ≤ w.length) (hn : 10 * w.length + 8 ≤ n + 10 * i) :
    Follows w stop (arguments bound n) i
      (fun ps es j => ps.map Spanned.expr = es ∧ Row bound w i ps j)
      (Goal.arguments.read bound stop n (w.drop i))
  exprs {i : Nat} (hi : i ≤ w.length) (hn : 10 * w.length + 7 ≤ n + 10 * i) :
    Follows w stop (exprs bound n) i (fun ps es j => ps.map Spanned.expr = es ∧ Row bound w i ps j)
      (Goal.exprs.read bound stop n (w.drop i))
  conditional {i : Nat} {t : Token} {ts : List Token} (hd : w.drop i = t :: ts)
    (ht : t.kind ≠ .lparen) (hn : 10 * w.length ≤ n + 10 * i) :
    Follows w stop (conditional bound n) i (Took bound w i)
      ((Goal.conditional t).read bound stop n ts)
  branches {i : Nat} (hi : i ≤ w.length) (hn : 10 * w.length + 7 ≤ n + 10 * i) :
    Follows w stop (branches bound n) i
      (fun bs cs j => branchExprs bs = cs ∧ Row bound w i (branchParts bs) j)
      (Goal.branches.read bound stop n (w.drop i))
  counted {i : Nat} {t : Token} {ts : List Token} (hd : w.drop i = t :: ts)
    (ht : t.kind ≠ .lparen) (hn : 10 * w.length ≤ n + 10 * i) :
    Follows w stop (counted bound n) i (Took bound w i) ((Goal.counted t).read bound stop n ts)
  step {i : Nat} (hi : i ≤ w.length) (hn : 10 * w.length + 1 ≤ n + 10 * i) :
    Follows w stop (step bound n) i (fun s e j => optional s = e ∧ Row bound w i s.toList j)
      (Goal.step.read bound stop n (w.drop i))
  looping {i : Nat} {t : Token} {ts : List Token} (hd : w.drop i = t :: ts)
    (ht : t.kind ≠ .lparen) (hn : 10 * w.length ≤ n + 10 * i) :
    Follows w stop (looping bound n) i (Took bound w i) ((Goal.looping t).read bound stop n ts)
  function {i : Nat} {t : Token} {ts : List Token} (hd : w.drop i = t :: ts)
    (ht : t.kind ≠ .lparen) (hn : 10 * w.length ≤ n + 10 * i) :
    Follows w stop (function bound n) i (Took bound w i) ((Goal.function t).read bound stop n ts)

namespace AllFollow

variable {bound : Names} {w : List Token} {stop : Token} {n i : Nat}

theorem zero (bound : Names) (w : List Token) (stop : Token) : AllFollow bound w stop 0 where
  expr _ _ := by omega
  assignment _ _ _ _ _ _ := by omega
  operand l _ hn := by cases l <;> simp only [Goal.spare] at hn <;> omega
  chain _ _ _ _ := by omega
  application _ _ := by omega
  arguments _ _ := by omega
  exprs _ _ := by omega
  conditional hd _ _ := by have := lt_of_drop hd; omega
  branches _ _ := by omega
  counted hd _ _ := by have := lt_of_drop hd; omega
  step _ _ := by omega
  looping hd _ _ := by have := lt_of_drop hd; omega
  function hd _ _ := by have := lt_of_drop hd; omega

section

variable (h : AllFollow bound w stop n)

include h

/-- further operators behind the first operand of a level -/
theorem tail {m : Walk Spanned} {g : Goal Expr} {D : List Token → Expr → Prop} (l : Loop)
    (hfirst : Follows w stop m i (Got bound D w i) (g.read bound stop n (w.drop i)))
    (hopen : ∀ u e, D u e → Open bound l u e) (hn : 10 * w.length ≤ n + 9 + 10 * i) :
    Follows w stop (m >>= fun p => Walk.chain bound l n i p) i (Took bound w i)
      ((Script.level g l).read bound stop (fun _ g => g.read bound stop n) (w.drop i)) := by
  refine .ask hfirst ?_
  intro p e j hij hj hp
  have hlt := hp.lt
  exact .same (h.chain l hp.toTook (hopen _ e hp.level) hj (by omega))

theorem signed {t : Token} {ts : List Token} (l : Loop) (hd : w.drop i = t :: ts)
    (ht : t.kind ≠ .lparen) (hn : 10 * w.length + (Goal.operand l).spare ≤ n + 10 * (i + 1)) :
    Follows w stop
      (Walk.operand bound l n >>= fun p => Walk.build i (.unary t p.expr) [p]) (i + 1)
      (Took bound w i)
      ((Script.ask (.operand l) fun e => .done (.unary t e)).read bound stop
        (fun _ g => g.read bound stop n) (w.drop (i + 1))) := by
  refine .ask (h.operand l (lt_of_drop hd) hn) ?_
  intro p e j hij hj hp
  obtain rfl := hp.expr
  have hrow : Row bound w i [p] j := hp.row.widen (Nat.le_succ i) (Nat.le_refl j)
  exact .build hj rfl (firstWord_of_drop hd ht (by omega)) (hrow.map_eq_present rfl) hrow

theorem keyword_succ {t : Token} {ts : List Token} (hd : w.drop i = t :: ts)
    (hk : t.kind = .keyword) (hn : 10 * w.length ≤ n + 10 * i) :
    Follows w stop
      (if t.is .if then Walk.conditional bound n
        else if t.is .for then Walk.counted bound n
        else if t.is .while then Walk.looping bound n
        else if t.is .fn then Walk.function bound n
        else Walk.fail (.wanted .expression)) i (Took bound w i)
      (Sentence.factor bound stop (n + 1) (t :: ts)) := by
  have ht : t.kind ≠ .lparen := by simp [hk]
  rw [Sentence.factor, hk]
  show Follows w stop _ i _ (if t.is .if then _ else if t.is .for then _ else
    if t.is .while then _ else if t.is .fn then _ else _)
  by_cases hif : t.is .if
  · rw [if_pos hif, if_pos hif]
    exact h.conditional hd ht hn
  rw [if_neg hif, if_neg hif]
  by_cases hfor : t.is .for
  · rw [if_pos hfor, if_pos hfor]
    exact h.counted hd ht hn
  rw [if_neg hfor, if_neg hfor]
  by_cases hwhile : t.is .while
  · rw [if_pos hwhile, if_pos hwhile]
    exact h.looping hd ht hn
  rw [if_neg hwhile, if_neg hwhile]
  by_cases hfn : t.is .fn
  · rw [if_pos hfn, if_pos hfn]
    exact h.function hd ht hn
  · rw [if_neg hfn, if_neg hfn]
    exact .fail_cons hd (by simp)

variable (hstop : stop.kind = .eof)

include hstop

theorem assignment_succ {j : Nat} {t : Token} {ts : List Token} (x : String)
    (hd : w.drop i = t :: ts) (ht : t.kind ≠ .lparen) (hij : i < j) (hj : j ≤ w.length)
    (hn : 10 * w.length + 1 ≤ n + 1 + 10 * j) :
    Follows w stop (Walk.assignment bound (n + 1) i t x) j (Took bound w i)
      ((Goal.assignment t x).read bound stop (n + 1) (w.drop j)) := by
  rw [Goal.read_succ]
  refine follows_expect hstop (by simp) hj fun _ hj => ?_
  refine .ask (h.operand .comparison hj (by simp only [Goal.spare]; omega)) ?_
  intro p e k hjk hk hp
  obtain rfl := hp.expr
  have hlt := hp.lt
  have hrow : Row bound w i [p] k := hp.row.widen (by omega) (Nat.le_refl k)
  exact .build hk rfl (firstWord_of_drop hd ht (by omega)) (hrow.map_eq_present rfl) hrow

theorem expr_succ (hi : i ≤ w.length) (hn : 10 * w.length + 6 ≤ n + 1 + 10 * i) :
    Follows w stop (Walk.expr bound (n + 1)) i (Got bound (Derives bound .expr) w i)
      (Goal.expr.read bound stop (n + 1) (w.drop i)) := by
  have hlogic := h.operand .logic hi (by simp only [Goal.spare]; omega)
  refine Follows.derive (.level .expr (.here ?_) fun _ _ _ => Took.lt)
    (Goal.expr.reads bound stop (n + 1) _) fun _ _ => id
  rw [Goal.read_succ]
  cases hd : w.drop i with
  | nil =>
    rw [hd, operand_nil (by simp only [Goal.spare]; omega)] at hlogic
    refine .cur_nil hi hd ?_
    rw [if_neg (not_is_stop hstop _)]
    refine follows_assigns hstop hi ?_
    rw [hd]
    exact hlogic.bind_error
  | cons t ts =>
    have hlt := lt_of_drop hd
    have htail := h.tail .logic hlogic (fun _ _ => .logic) (by omega)
    refine .cur_cons hd ?_
    rw [Goal.script, Script.read_more_cons, Script.read]
    by_cases hvar : t.is .var
    · have hopen : t.kind ≠ .lparen := by simp [kind_of_is hvar]
      rw [if_pos hvar, if_pos hvar, ← drop_next hd]
      refine .advance hd (follows_expect hstop (by simp) hlt fun x hj => ?_)
      exact .same (h.assignment x.literal hd hopen (by omega) hj (by omega))
    · rw [if_neg hvar, if_neg hvar, ← hd]
      refine follows_target hstop hd (fun hname => ?_) htail
      have hopen : t.kind ≠ .lparen := by simp [hname]
      exact .same (h.assignment t.literal hd hopen (Nat.lt_succ_self i) hlt (by omega))

theorem comparison_succ (hi : i ≤ w.length) (hn : 10 * w.length + 5 ≤ n + 1 + 10 * i) :
    Follows w stop (Walk.comparison bound (n + 1)) i (Took bound w i)
      ((Goal.operand .logic).read bound stop (n + 1) (w.drop i)) := by
  have hsum := h.operand .comparison hi (by simp only [Goal.spare]; omega)
  refine .level _ (.here ?_) fun _ _ _ => Took.lt
  rw [Goal.read_succ]
  cases hd : w.drop i with
  | nil =>
    rw [hd, operand_nil (by simp only [Goal.spare]; omega)] at hsum
    refine .cur_nil hi hd ?_
    rw [if_neg (not_is_stop hstop _)]
    exact hsum.bind_error
  | cons t ts =>
    rw [Goal.script, Script.read_more_cons, ← hd]
    refine .option hi (not_is_stop hstop _) (fun t ts hd hnot => ?_)
      (h.tail .comparison hsum (fun _ _ => .comparison) (by omega))
    exact h.signed .logic hd (by simp [kind_of_is hnot]) (by simp only [Goal.spare]; omega)

theorem chain_succ {j : Nat} {p : Spanned} {e : Expr} (l : Loop) (hp : Took bound w i p e j)
    (hopen : Open bound l (w.extract i j) e) (hj : j ≤ w.length)
    (hn : 10 * w.length + 1 ≤ n + 1 + 10 * j) :
    Follows w stop (Walk.chain bound l (n + 1) i p) j (Took bound w i)
      ((Goal.chain l e).read bound stop (n + 1) (w.drop j)) := by
  have hsign : ¬ l.sign stop := by
    cases l <;> simp [Loop.sign, Token.is, Token.Kind.isComparison, hstop]
  rw [chain_succ_eq, Goal.read_succ]
  refine .option hj hsign (fun t ts hd ht => ?_) (.pure hj rfl hp)
  have hright := h.operand l (lt_of_drop hd) (by cases l <;> simp only [Goal.spare] <;> omega)
  refine .ask hright ?_
  intro q e' k hjk hk hq
  obtain rfl := hp.expr
  obtain rfl := hq.expr
  -- the operation so far is a node as if the sentence ended here, and open for what follows
  have hij := hp.lt
  have hrow : Row bound w i [p, q] k :=
    (hp.row (hp.sound_of hopen.derives)).append (Nat.le_succ j) hq.row
  have hnode : Took bound w i ⟨.binary p.expr t q.expr, i, k, [p, q]⟩ _ k :=
    .node hk rfl (firstWord_mono hp.first (by omega)) (hrow.map_eq_present rfl) hrow
  have hnext : Open bound l (w.extract i k) (.binary p.expr t q.expr) := by
    rw [← extract_append (Nat.le_of_lt hij) (by omega : j ≤ k), extract_of_drop hd (by omega)]
    exact hopen.next ht hq.level
  exact .build_bind (.same (h.chain l hnode hnext hk (by omega)))

theorem application_succ (hi : i ≤ w.length) (hn : 10 * w.length + 2 ≤ n + 1 + 10 * i) :
    Follows w stop (Walk.application bound (n + 1)) i (Got bound (Derives bound .application) w i)
      (Goal.application.read bound stop (n + 1) (w.drop i)) := by
  refine Follows.derive (.level _ (.here ?_) fun _ _ _ => Took.lt)
    (Goal.application.reads bound stop (n + 1) _) fun _ _ happ => (Open.product happ).derives
  rw [Goal.read_succ]
  refine .ask (h.operand .product hi (by simp only [Goal.spare]; omega)) ?_
  intro p e j hij hj hp
  refine .option hj (by simp [hstop]) (fun t ts hd _ => ?_) (.pure hj rfl hp.toTook)
  refine .ask (h.arguments (lt_of_drop hd) (by have := hp.lt; omega)) ?_
  rintro ps _ k hjk hk ⟨rfl, hps⟩
  refine follows_expect hstop (by simp) hk fun _ hk => ?_
  obtain rfl := hp.expr
  have hrow : Row bound w i (p :: ps) (k + 1) :=
    hp.row.append (Nat.le_succ j) (hps.widen (Nat.le_refl _) (Nat.le_succ k))
  exact .build hk rfl (firstWord_mono hp.first (by omega)) (hrow.map_eq_present rfl) hrow

theorem arguments_succ (hi : i ≤ w.length) (hn : 10 * w.length + 8 ≤ n + 1 + 10 * i) :
    Follows w stop (Walk.arguments bound (n + 1)) i
      (fun ps es j => ps.map Spanned.expr = es ∧ Row bound w i ps j)
      (Goal.arguments.read bound stop (n + 1) (w.drop i)) := by
  rw [Goal.read_succ]
  exact .stay hi (by simp [hstop]) (.pure hi rfl ⟨rfl, .nil (Nat.le_refl i)⟩)
    (.same (h.exprs hi (by omega)))

theorem exprs_succ (hi : i ≤ w.length) (hn : 10 * w.length + 7 ≤ n + 1 + 10 * i) :
    Follows w stop (Walk.exprs bound (n + 1)) i
      (fun ps es j => ps.map Spanned.expr = es ∧ Row bound w i ps j)
      (Goal.exprs.read bound stop (n + 1) (w.drop i)) := by
  rw [Goal.read_succ]
  refine .ask (h.expr hi (by omega)) ?_
  intro p e j hij hj hp
  obtain rfl := hp.expr
  refine .option hj (by simp [hstop]) (fun t ts hd ht => ?_) (.pure hj rfl ⟨rfl, hp.row⟩)
  refine .ask (h.exprs (lt_of_drop hd) (by have := hp.lt; omega)) ?_
  rintro ps _ k - hk ⟨rfl, hps⟩
  exact .pure hk rfl ⟨rfl, hp.row.append (Nat.le_succ j) hps⟩

theorem looping_succ {t : Token} {ts : List Token} (hd : w.drop i = t :: ts)
    (ht : t.kind ≠ .lparen) (hn : 10 * w.length ≤ n + 1 + 10 * i) :
    Follows w stop (Walk.looping bound (n + 1)) i (Took bound w i)
      ((Goal.looping t).read bound stop (n + 1) ts) := by
  refine .level _ (.here (.cur_cons hd (.advance hd ?_))) fun _ _ _ => Took.lt
  rw [Goal.read_succ, ← drop_next hd]
  refine .ask (h.expr (lt_of_drop hd) (by omega)) ?_
  intro c ec j hij hj hc
  refine follows_expectWord hstop hj fun hj => ?_
  refine .ask (h.expr hj (by omega)) ?_
  intro p e k hjk hk hp
  obtain rfl := hc.expr
  obtain rfl := hp.expr
  have hrow : Row bound w i [c, p] k :=
    (hc.row.widen (Nat.le_succ i) (Nat.le_refl j)).append (Nat.le_succ j) hp.row
  exact .build hk rfl (firstWord_of_drop hd ht (by omega)) (hrow.map_eq_present rfl) hrow

/-- what stands behind the name of a function, or where it might stand -/
theorem behindName_follows {j : Nat} {t : Token} {ts : List Token} (x : String)
    (hd : w.drop i = t :: ts) (ht : t.kind ≠ .lparen) (hij : i < j) (hj : j ≤ w.length)
    (hn : 10 * w.length ≤ n + 1 + 10 * i) :
    Follows w stop
      (behindName n (fun h => Walk.expr bound n >>= fun p =>
        Walk.build i (.func t h.1 h.2 p.expr) [p]) x) j (Took bound w i)
      ((Sentence.functionScript t x).read bound stop (fun _ g => g.read bound stop n)
        (w.drop j)) := by
  have hlt := lt_of_drop hd
  refine follows_expect hstop (by simp) hj fun _ hj => ?_
  refine (follows_paramList hstop hj (by omega)).bind ?_
  rintro ps _ k hjk hk rfl
  refine follows_expect hstop (by simp) hk fun _ hk => ?_
  refine follows_expect hstop (by simp) hk fun _ hk => ?_
  refine .ask (h.expr hk (by omega)) ?_
  intro p e m hkm hm hp
  obtain rfl := hp.expr
  have hrow : Row bound w i [p] m := hp.row.widen (by omega) (Nat.le_refl m)
  exact .build hm rfl (firstWord_of_drop hd ht (by omega)) (hrow.map_eq_present rfl) hrow

theorem function_succ {t : Token} {ts : List Token} (hd : w.drop i = t :: ts)
    (ht : t.kind ≠ .lparen) (hn : 10 * w.length ≤ n + 1 + 10 * i) :
    Follows w stop (Walk.function bound (n + 1)) i (Took bound w i)
      ((Goal.function t).read bound stop (n + 1) ts) := by
  refine .level _ (.here (.cur_cons hd (.advance hd ?_))) fun _ _ _ => Took.lt
  have hlt := lt_of_drop hd
  rw [Goal.read_succ, ← drop_next hd, funcHead_bind]
  apply Follows.option hlt (by simp [hstop])
  · intro u us hu _
    exact h.behindName_follows hstop u.literal hd ht (by omega) (lt_of_drop hu) hn
  · exact h.behindName_follows hstop "" hd ht (Nat.lt_succ_self i) hlt hn

theorem branches_succ (hi : i ≤ w.length) (hn : 10 * w.length + 7 ≤ n + 1 + 10 * i) :
    Follows w stop (Walk.branches bound (n + 1)) i
      (fun bs cs j => branchExprs bs = cs ∧ Row bound w i (branchParts bs) j)
      (Goal.branches.read bound stop (n + 1) (w.drop i)) := by
  rw [Goal.read_succ]
  refine .ask (h.expr hi (by omega)) ?_
  intro c ec j hij hj hc
  refine follows_expectWord hstop hj fun hj => ?_
  refine .ask (h.expr hj (by omega)) ?_
  intro p e k hjk hk hp
  obtain rfl := hc.expr
  obtain rfl := hp.expr
  have hpair : Row bound w i [c, p] k := hc.row.append (Nat.le_succ j) hp.row
  refine .option hk (not_is_stop hstop _) (fun t ts hd _ => ?_) (.pure hk rfl ⟨rfl, hpair⟩)
  refine .ask (h.branches (lt_of_drop hd) (by omega)) ?_
  rintro bs _ l - hl ⟨rfl, hbs⟩
  exact .pure hl rfl ⟨rfl, hpair.append (Nat.le_succ k) hbs⟩

theorem conditional_succ {t : Token} {ts : List Token} (hd : w.drop i = t :: ts)
    (ht : t.kind ≠ .lparen) (hn : 10 * w.length ≤ n + 1 + 10 * i) :
    Follows w stop (Walk.conditional bound (n + 1)) i (Took bound w i)
      ((Goal.conditional t).read bound stop (n + 1) ts) := by
  refine .level _ (.here (.cur_cons hd (.advance hd ?_))) fun _ _ _ => Took.lt
  rw [Goal.read_succ, ← drop_next hd]
  refine .ask (h.branches (lt_of_drop hd) (by omega)) ?_
  rintro bs _ j hij hj ⟨rfl, hbs⟩
  have hbs : Row bound w i (branchParts bs) j := hbs.widen (Nat.le_succ i) (Nat.le_refl j)
  have hnone : Follows w stop (Walk.build i (.cond t (branchExprs bs) .absent) (branchParts bs)) j
      (Took bound w i) (.ok (.cond t (branchExprs bs) .absent, w.drop j)) := by
    refine .build hj rfl (firstWord_of_drop hd ht (by omega)) ?_ hbs
    rw [Expr.present, children_cond, List.filter_append, hbs.filter_eq]
    exact (List.append_nil _).symm
  refine .option hj (not_is_stop hstop _) (fun u us hu _ => ?_) hnone
  refine .ask (h.expr (lt_of_drop hu) (by omega)) ?_
  intro p e k hjk hk hp
  obtain rfl := hp.expr
  have hrow : Row bound w i (branchParts bs ++ [p]) k := hbs.append (Nat.le_succ j) hp.row
  refine .build hk rfl (firstWord_of_drop hd ht (by omega)) (hrow.map_eq_present ?_) hrow
  rw [children_cond, List.map_append]
  rfl

theorem step_succ (hi : i ≤ w.length) (hn : 10 * w.length + 1 ≤ n + 1 + 10 * i) :
    Follows w stop (Walk.step bound (n + 1)) i
      (fun s e j => optional s = e ∧ Row bound w i s.toList j)
      (Goal.step.read bound stop (n + 1) (w.drop i)) := by
  rw [Goal.read_succ]
  refine .option hi (not_is_stop hstop _) (fun t ts hd _ => ?_)
    (.pure hi rfl ⟨rfl, .nil (Nat.le_refl i)⟩)
  refine .ask (h.expr (lt_of_drop hd) (by omega)) ?_
  intro p e j hij hj hp
  exact .pure hj rfl ⟨hp.expr, hp.row.widen (Nat.le_succ i) (Nat.le_refl j)⟩

theorem counted_succ {t : Token} {ts : List Token} (hd : w.drop i = t :: ts)
    (ht : t.kind ≠ .lparen) (hn : 10 * w.length ≤ n + 1 + 10 * i) :
    Follows w stop (Walk.counted bound (n + 1)) i (Took bound w i)
      ((Goal.counted t).read bound stop (n + 1) ts) := by
  refine .level _ (.here (.cur_cons hd (.advance hd ?_))) fun _ _ _ => Took.lt
  rw [Goal.read_succ, ← drop_next hd]
  refine follows_expect hstop (by simp) (lt_of_drop hd) fun x hj => ?_
  refine follows_expect hstop (by simp) hj fun _ hj => ?_
  refine .ask (h.expr hj (by omega)) ?_
  intro a ea j hij hj ha
  refine follows_expectWord hstop hj fun hj => ?_
  refine .ask (h.expr hj (by omega)) ?_
  intro b eb k hjk hk hb
  refine .ask (h.step hk (by omega)) ?_
  rintro s _ l hkl hl ⟨rfl, hs⟩
  refine follows_expectWord hstop hl fun hl => ?_
  refine .ask (h.expr hl (by omega)) ?_
  intro p e m hlm hm hp
  obtain rfl := ha.expr
  obtain rfl := hb.expr
  obtain rfl := hp.expr
  have hbounds : Row bound w i [a, b] k :=
    (ha.row.widen (by omega) (Nat.le_refl j)).append (Nat.le_succ j) hb.row
  have hrow : Row bound w i ([a, b] ++ (s.toList ++ [p])) m :=
    hbounds.append (Nat.le_refl k) (hs.append (Nat.le_succ l) hp.row)
  refine .build hm rfl (firstWord_of_drop hd ht (by omega)) ?_ hrow
  cases s with
  | some q => exact hrow.map_eq_present rfl
  | none =>
    show [a.expr, b.expr, p.expr] = [a.expr, b.expr, .absent, p.expr].filter fun c => !c.isAbsent
    have habsent : Expr.absent.isAbsent = true := rfl
    simp [habsent, ha.present, hb.present, hp.present]

theorem factor_succ (hi : i ≤ w.length) (hn : 10 * w.length + 1 ≤ n + 1 + 10 * i) :
    Follows w stop (Walk.factor bound (n + 1)) i (Took bound w i)
      (Sentence.factor bound stop (n + 1) (w.drop i)) := by
  refine .level _ (.here ?_) fun _ _ _ => Took.lt
  cases hd : w.drop i with
  | nil =>
    refine .cur_nil hi hd ?_
    rw [hstop]
    exact .fail hi (by rw [hd]) (by simp)
  | cons t ts =>
    refine .cur_cons hd ?_
    cases hk : t.kind with
    | plus | minus =>
      rw [Sentence.factor, hk, ← drop_next hd]
      have hopen : t.kind ≠ .lparen := by simp [hk]
      exact .advance hd (h.signed .product hd hopen (by simp only [Goal.spare]; omega))
    | int | double | identifier =>
      rw [Sentence.factor, hk]
      exact .leaf hd (by simp [hk]) rfl rfl rfl
    | lparen =>
      rw [Sentence.factor, hk, ← drop_next hd]
      refine .advance hd ((h.expr (lt_of_drop hd) (by omega)).bind ?_)
      intro p e j hij hj hp
      have hclose : Follows w stop (expect .rparen .closing >>= fun _ => pure p) j
          (Took bound w i)
          ((Script.expect .rparen .closing fun _ => .done e).read bound stop
            (fun _ g => g.read bound stop n) (w.drop j)) :=
        follows_expect hstop (by simp) hj fun _ hj =>
          .pure hj rfl (hp.group hk hd (Nat.le_succ j))
      rw [Script.read_expect] at hclose
      exact hclose
    | keyword => exact h.keyword_succ hd hk (by omega)
    | _ =>
      rw [Sentence.factor, hk]
      exact .fail_cons hd (by simp)

theorem operand_succ (l : Loop) (hi : i ≤ w.length)
    (hn : 10 * w.length + (Goal.operand l).spare ≤ n + 1 + 10 * i) :
    Follows w stop (Walk.operand bound l (n + 1)) i (Got bound (Derives bound (.operand l)) w i)
      ((Goal.operand l).read bound stop (n + 1) (w.drop i)) := by
  refine Follows.derive ?_ ((Goal.operand l).reads bound stop (n + 1) _) fun _ _ =>
    expr_of_operand
  cases l with
  | logic => exact h.comparison_succ hstop hi hn
  | product => exact h.factor_succ hstop hi hn
  | comparison =>
    simp only [Goal.spare] at hn
    have hfirst := h.operand .sum hi (by simp only [Goal.spare]; omega)
    rw [Goal.read_succ]
    exact .level _ (.here (h.tail .sum hfirst (fun _ _ => .sum) (by omega))) fun _ _ _ => Took.lt
  | sum =>
    simp only [Goal.spare] at hn
    have hfirst := h.application hi (by omega)
    rw [Goal.read_succ]
    exact .level _ (.here (h.tail .product hfirst (fun _ _ => .product) (by omega)))
      fun _ _ _ => Took.lt

theorem succ : AllFollow bound w stop (n + 1) where
  expr := h.expr_succ hstop
  assignment := h.assignment_succ hstop
  operand := h.operand_succ hstop
  chain := h.chain_succ hstop
  application := h.application_succ hstop
  arguments := h.arguments_succ hstop
  exprs := h.exprs_succ hstop
  conditional := h.conditional_succ hstop
  branches := h.branches_succ hstop
  counted := h.counted_succ hstop
  step := h.step_succ hstop
  looping := h.looping_succ hstop
  function := h.function_succ hstop

end

end AllFollow

theorem allFollow (bound : Names) (w : List Token) {stop : Token} (hstop : stop.kind = .eof)
    (n : Nat) : AllFollow bound w stop n := by
  induction n with
  | zero => exact .zero bound w stop
  | succ n ih => exact ih.succ hstop

end Walk

end ExprShell
