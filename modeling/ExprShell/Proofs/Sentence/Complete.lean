import ExprShell.Proofs.Sentence.Sound
import ExprShell.Proofs.Sentence.Tame

/-!
# Every sentence of the grammar is read

With a tame language of continuations behind a part, the reader of the part takes a part and leaves
a continuation, though not always those of the derivation at hand.

* `Sentence.Leaves`           a reading that succeeds, and what it leaves;
* `Sentence.Script.Accepts`   words that a script takes up to a continuation;
* `Sentence.Goal.accepts`     the scripts of the grammar accept its sentences;
* `Sentence.Goal.leaves`      with enough fuel they are read;
* `parse_accepts_grammar`     the sentences that are read are those that derive from `expr`.
-/

namespace ExprShell

namespace Sentence
open Grammar

/-- words are read, and what is left is a continuation of at most `m` words -/
def Leaves {α : Type} (x : Except ParseError (α × List Token)) (K : Language Token) (m : Nat) :
    Prop :=
  ∃ a r, x = .ok (a, r) ∧ r ∈ K ∧ r.length ≤ m

namespace Leaves

variable {α β : Type} {K J : Language Token} {m k : Nat} {ts : List Token}

theorem ok (a : α) (r : List Token) (hr : r ∈ K) (hm : r.length ≤ m) : Leaves (.ok (a, r)) K m :=
  ⟨a, r, rfl, hr, hm⟩

theorem bind {x : Except ParseError (α × List Token)}
    {f : α × List Token → Except ParseError (β × List Token)} (hx : Leaves x K m)
    (hf : ∀ a r, r ∈ K → r.length ≤ m → Leaves (f (a, r)) J k) : Leaves (x >>= f) J k := by
  obtain ⟨a, r, rfl, hr, hm⟩ := hx
  exact hf a r hr hm

theorem mono {x : Except ParseError (α × List Token)} (hx : Leaves x K m) (hm : m ≤ k) :
    Leaves x K k := by
  obtain ⟨a, r, hxr, hr, hle⟩ := hx
  exact ⟨a, r, hxr, hr, Nat.le_trans hle hm⟩

end Leaves

/-! ## The words of a goal -/

def Goal.language {α : Type} (bound : Names) : Goal α → Language Token
  | .expr => Grammar.language bound .expr
  | .assignment _ _ => ofKind .equal * Grammar.language bound .sum
  | .operand l => Grammar.language bound (.operand l)
  | .chain l _ => Grammar.language bound (.chain l)
  | .application => Grammar.language bound .application
  | .arguments => Grammar.language bound .args
  | .exprs => Grammar.language bound .exprs
  | .conditional _ => Grammar.language bound .branches * Grammar.language bound (.clause .else)
  | .branches => Grammar.language bound .branches
  | .counted _ =>
    ofKind .identifier * (ofKind .equal * (Grammar.language bound .expr * (keyword .to *
      (Grammar.language bound .expr * (Grammar.language bound (.clause .step) * (keyword .then *
        Grammar.language bound .expr))))))
  | .step => Grammar.language bound (.clause .step)
  | .looping _ =>
    Grammar.language bound .expr * (keyword .then * Grammar.language bound .expr)
  | .function _ =>
    Grammar.language bound .title * (ofKind .lparen * (Grammar.language bound .params *
      (ofKind .rparen * (ofKind .arrow * Grammar.language bound .expr))))

def Goal.Suits {α : Type} (bound : Names) (K : Language Token) : Goal α → Prop
  | .arguments | .exprs => ∃ M, K = ofKind .rparen * M
  | .step => ∃ M, K = keyword .then * M
  | .expr | .assignment _ _ | .operand _ | .chain _ _ | .application => Tame bound K
  | .conditional _ | .branches | .counted _ | .looping _ | .function _ => Tame bound K

/-! ## What stands behind the first piece of a part -/

section

variable {bound : Names} {K : Language Token} {ts w u : List Token} {e : Expr}

theorem split_application (hts : ts ∈ language bound .application * K) :
    ts ∈ language bound .factor *
      (K + ofKind .lparen * (language bound .args * (ofKind .rparen * K))) := by
  obtain ⟨w, ⟨e, hw⟩, u, hu, rfl⟩ := Language.mem_mul.mp hts
  cases hw with
  | plain hw => exact Language.append_mem_mul hw.mem (.inl hu)
  | call hw ht hv hq =>
    simp only [List.cons_append, List.append_assoc]
    refine Language.append_mem_mul hw.mem (.inr (cons_mem_word_mul ht ?_))
    exact Language.append_mem_mul hv.mem (cons_mem_word_mul hq hu)

theorem split_exprs (hts : ts ∈ language bound .exprs * K) :
    ts ∈ language bound .expr * (K + ofKind .comma * (language bound .exprs * K)) := by
  obtain ⟨w, ⟨e, hw⟩, u, hu, rfl⟩ := Language.mem_mul.mp hts
  cases hw with
  | lastExpr hw => exact Language.append_mem_mul hw.mem (.inl hu)
  | nextExpr hw ht hv =>
    simp only [List.cons_append, List.append_assoc]
    refine Language.append_mem_mul hw.mem (.inr (cons_mem_word_mul ht ?_))
    exact Language.append_mem_mul hv.mem hu

theorem split_branches (hts : ts ∈ language bound .branches * K) :
    ts ∈ language bound .expr * (keyword .then * (language bound .expr *
      (K + keyword .elif * (language bound .branches * K)))) := by
  obtain ⟨w, ⟨e, hw⟩, u, hu, rfl⟩ := Language.mem_mul.mp hts
  cases hw with
  | lastBranch hw ht hv =>
    simp only [List.cons_append, List.append_assoc]
    refine Language.append_mem_mul hw.mem (cons_mem_word_mul ht ?_)
    exact Language.append_mem_mul hv.mem (.inl hu)
  | nextBranch hw ht hv hs hb =>
    simp only [List.cons_append, List.append_assoc]
    refine Language.append_mem_mul hw.mem (cons_mem_word_mul ht ?_)
    refine Language.append_mem_mul hv.mem (.inr (cons_mem_word_mul hs ?_))
    exact Language.append_mem_mul hb.mem hu

theorem split_conditional (hw : Derives bound .conditional w e) :
    ∃ t v, w = t :: v ∧ t.is .if ∧ v ∈ (Goal.conditional t).language bound := by
  cases hw with
  | cond ht hw hv => exact ⟨_, _, rfl, ht, Language.append_mem_mul hw.mem hv.mem⟩

theorem split_counted (hw : Derives bound .counted w e) :
    ∃ t v, w = t :: v ∧ t.is .for ∧ v ∈ (Goal.counted t).language bound := by
  cases hw with
  | count ht hx hq ha hs hb hc hs' hw =>
    refine ⟨_, _, rfl, ht, cons_mem_word_mul hx (cons_mem_word_mul hq ?_)⟩
    refine Language.append_mem_mul ha.mem (cons_mem_word_mul hs ?_)
    refine Language.append_mem_mul hb.mem (Language.append_mem_mul hc.mem ?_)
    exact cons_mem_word_mul hs' hw.mem

theorem split_looping (hw : Derives bound .looping w e) :
    ∃ t v, w = t :: v ∧ t.is .while ∧ v ∈ (Goal.looping t).language bound := by
  cases hw with
  | loop ht hw hs hv =>
    exact ⟨_, _, rfl, ht, Language.append_mem_mul hw.mem (cons_mem_word_mul hs hv.mem)⟩

theorem split_function (hw : Derives bound .function w e) :
    ∃ t v, w = t :: v ∧ t.is .fn ∧ v ∈ (Goal.function t).language bound := by
  cases hw with
  | func ht hx hp hv hq hr hw =>
    refine ⟨_, _, rfl, ht, Language.append_mem_mul hx.mem (cons_mem_word_mul hp ?_)⟩
    refine Language.append_mem_mul hv.mem (cons_mem_word_mul hq ?_)
    exact cons_mem_word_mul hr hw.mem

theorem split_names (hts : ts ∈ language bound .names * K) :
    ts ∈ ofKind .identifier * (K + ofKind .comma * (language bound .names * K)) := by
  obtain ⟨w, ⟨e, hw⟩, u, hu, rfl⟩ := Language.mem_mul.mp hts
  cases hw with
  | lastName ht => exact cons_mem_word_mul ht (.inl hu)
  | nextName ht hc hw =>
    refine cons_mem_word_mul ht (.inr (cons_mem_word_mul hc ?_))
    exact Language.append_mem_mul hw.mem hu

end

/-! ## The parameters of a function -/

section

variable {bound : Names} {stop : Token} {K : Language Token} {ts : List Token}

theorem leaves_names (hts : ts ∈ language bound .names * (ofKind .rparen * K)) :
    Leaves (params stop ts) (ofKind .rparen * K) ts.length := by
  induction ts using params.induct with
  | case1 =>
    obtain ⟨t, u, htu, -, -⟩ := mem_word_mul (split_names hts)
    cases htu
  | case2 t ht =>
    obtain ⟨-, hr⟩ := of_cons_mem_word_mul (split_names hts)
    rw [params, if_pos ht]
    exact .ok _ [] (mem_of_mem_add hr (by simp)) (by simp)
  | case3 t ht c rest hc ih =>
    obtain ⟨-, hr⟩ := of_cons_mem_word_mul (split_names hts)
    have hrest : rest ∈ language bound .names * (ofKind .rparen * K) := by
      refine mem_of_cons_mem_add hr fun hr => ?_
      have hq : c.kind = .rparen := (of_cons_mem_word_mul hr).1
      simp [hc] at hq
    rw [params, if_pos ht]
    show Leaves (if c.kind = .comma then _ else _) _ _
    rw [if_pos hc]
    refine (ih hrest).bind ?_
    intro ps r hr hlen
    exact .ok _ r hr (by simp only [List.length_cons]; omega)
  | case4 t ht c rest hc =>
    obtain ⟨-, hr⟩ := of_cons_mem_word_mul (split_names hts)
    rw [params, if_pos ht]
    show Leaves (if c.kind = .comma then _ else _) _ _
    rw [if_neg hc]
    exact .ok _ (c :: rest) (mem_of_mem_add hr (by simpa using hc)) (by simp)
  | case5 t ts ht => exact absurd (of_cons_mem_word_mul (split_names hts)).1 ht

theorem leaves_params (hts : ts ∈ language bound .params * (ofKind .rparen * K)) :
    Leaves (paramList stop ts) (ofKind .rparen * K) ts.length := by
  obtain ⟨w, ⟨ps, hw⟩, u, hu, rfl⟩ := Language.mem_mul.mp hts
  cases hw with
  | noParams =>
    obtain ⟨q, v, rfl, hq, -⟩ := mem_word_mul hu
    have hnext : ¬ nextIs .identifier ([] ++ q :: v) := by simp [nextIs, hq]
    rw [paramList, if_neg hnext]
    exact .ok [] (q :: v) hu (by simp)
  | someParams hw =>
    have hr : w ++ u ∈ language bound .names * (ofKind .rparen * K) :=
      Language.append_mem_mul hw.mem hu
    obtain ⟨t, v, htv, ht, -⟩ := mem_word_mul (split_names hr)
    have hnext : nextIs .identifier (w ++ u) := by simpa [htv, nextIs] using ht
    rw [paramList, if_pos hnext]
    exact leaves_names hr

end

/-! ## All goals -/

/-- by a script some of the words are taken, and those that are left are a continuation -/
inductive Script.Accepts (bound : Names) (K : Language Token) {α : Type} :
    Script α → List Token → Prop
  | done {a : α} {ts : List Token} (h : ts ∈ K) : Accepts bound K (.done a) ts
  | take {p : Token → Prop} [DecidablePred p] {yes : Token → Script α} {no : Script α} {t : Token}
    {ts : List Token} (ht : p t) (h : Accepts bound K (yes t) ts) :
    Accepts bound K (.option p yes no) (t :: ts)
  | leave {p : Token → Prop} [DecidablePred p] {yes : Token → Script α} {no : Script α} {t : Token}
    {ts : List Token} (ht : ¬ p t) (h : Accepts bound K no (t :: ts)) :
    Accepts bound K (.option p yes no) (t :: ts)
  | leave_nil {p : Token → Prop} [DecidablePred p] {yes : Token → Script α} {no : Script α}
    (h : Accepts bound K no []) : Accepts bound K (.option p yes no) []
  | stay {p : Token → Prop} [DecidablePred p] {yes no : Script α} {t : Token} {ts : List Token}
    (hyes : p t → Accepts bound K yes (t :: ts)) (hno : ¬ p t → Accepts bound K no (t :: ts)) :
    Accepts bound K (.stay p yes no) (t :: ts)
  | stay_nil {p : Token → Prop} [DecidablePred p] {yes no : Script α}
    (h : Accepts bound K no []) : Accepts bound K (.stay p yes no) []
  | assign {yes : Token → Script α} {no : Script α} {t : Token} {ts : List Token}
    (ht : t.kind = .identifier) (hb : bound t.literal) (hq : nextIs .equal ts)
    (h : Accepts bound K (yes t) ts) : Accepts bound K (.target yes no) (t :: ts)
  | other {yes : Token → Script α} {no : Script α} {t : Token} {ts : List Token}
    (ht : ¬ (t.kind = .identifier ∧ nextIs .equal ts)) (h : Accepts bound K no (t :: ts)) :
    Accepts bound K (.target yes no) (t :: ts)
  | ask {β : Type} {J : Language Token} {g : Goal β} {rest : β → Script α} {ts : List Token}
    (hJ : g.Suits bound J) (hts : ts ∈ g.language bound * J)
    (h : ∀ b r, r ∈ J → Accepts bound K (rest b) r) : Accepts bound K (.ask g rest) ts
  | params {J : Language Token} {rest : List String → Script α} {ts : List Token}
    (hts : ts ∈ Grammar.language bound .params * (ofKind .rparen * J))
    (h : ∀ ps r, r ∈ ofKind .rparen * J → Accepts bound K (rest ps) r) :
    Accepts bound K (.params rest) ts

namespace Script.Accepts

variable {bound : Names} {K J : Language Token} {α : Type} {ts : List Token}

theorem expect {k : Token.Kind} {w : Want} {rest : Token → Script α} (hts : ts ∈ ofKind k * J)
    (h : ∀ t r, r ∈ J → Script.Accepts bound K (rest t) r) :
    Script.Accepts bound K (.expect k w rest) ts := by
  obtain ⟨t, r, rfl, ht, hr⟩ := mem_word_mul hts
  exact .take ht (h t r hr)

theorem expectWord {k : Keyword} {rest : Script α} (hts : ts ∈ keyword k * J)
    (h : ∀ r, r ∈ J → Script.Accepts bound K rest r) :
    Script.Accepts bound K (.expectWord k rest) ts := by
  obtain ⟨t, r, rfl, ht, hr⟩ := mem_word_mul hts
  exact .take ht (h r hr)

theorem more {w : Want} {rest : Script α} {t : Token}
    (h : Script.Accepts bound K rest (t :: ts)) :
    Script.Accepts bound K (.more w rest) (t :: ts) :=
  .stay (fun _ => h) (absurd trivial)

/-- a word that may be there; whoever it was meant for, behind it stands what it asks for -/
theorem option {p : Token → Prop} [DecidablePred p] {yes : Token → Script α} {a : α}
    (hts : ts ∈ K + Grammar.word p * J) (hK : ∀ t r, p t → t :: r ∈ K → r ∈ J)
    (hyes : ∀ t r, r ∈ J → Script.Accepts bound K (yes t) r) :
    Script.Accepts bound K (.option p yes (.done a)) ts := by
  cases ts with
  | nil => exact .leave_nil (.done (mem_of_mem_add hts (by simp)))
  | cons t r =>
    by_cases ht : p t
    · exact .take ht (hyes t r (mem_of_cons_mem_add hts (hK t r ht)))
    · exact .leave ht (.done (mem_of_mem_add hts (by simpa using ht)))

theorem same {g : Goal α} (hK : g.Suits bound K) (hts : ts ∈ g.language bound * K) :
    Script.Accepts bound K (.same g) ts :=
  .ask hK hts fun _ _ hr => .done hr

/-- an operand, and whatever the words make of the operators behind it -/
theorem level {first : Goal Expr} {l : Loop} (hK : Tame bound K)
    (hfirst : first.Suits bound (Grammar.language bound (.chain l) * K))
    (hts : ts ∈ first.language bound * (Grammar.language bound (.chain l) * K)) :
    Script.Accepts bound K (.level first l) ts :=
  .ask hfirst hts fun _ _ hr => .same hK hr

theorem leaves {stop : Token} {rd : Reader} {s : Script α} {k n : Nat}
    (h : s.Accepts bound K ts) (hfuel : s.Fuelled k) (hn : 10 * ts.length + k ≤ n)
    (hrd : ∀ β (g : Goal β) J ts, g.Suits bound J → ts ∈ g.language bound * J →
      10 * ts.length + g.spare ≤ n → Leaves (rd β g ts) J ts.length) :
    Leaves (s.read bound stop rd ts) K ts.length := by
  induction h generalizing k with
  | done h => exact .ok _ _ h (Nat.le_refl _)
  | take ht _ ih =>
    cases hfuel with
    | option hyes hno =>
      rw [List.length_cons] at hn ⊢
      rw [Script.read, if_pos ht]
      exact (ih (hyes _ ht) (by omega)).mono (Nat.le_succ _)
  | leave ht _ ih =>
    cases hfuel with
    | option hyes hno =>
      rw [Script.read, if_neg ht]
      exact ih hno hn
  | leave_nil _ ih =>
    cases hfuel with
    | option hyes hno => exact ih hno hn
  | @stay p _ yes no t ts _ _ ihyes ihno =>
    cases hfuel with
    | stay hyes hno =>
      rw [Script.read]
      by_cases ht : p t
      · rw [if_pos ht]
        exact ihyes ht hyes hn
      · rw [if_neg ht]
        exact ihno ht hno hn
  | stay_nil _ ih =>
    cases hfuel with
    | stay hyes hno => exact ih hno hn
  | assign ht hb hq _ ih =>
    cases hfuel with
    | target hyes hno =>
      rw [List.length_cons] at hn ⊢
      rw [Script.read, if_pos ⟨ht, hq⟩, if_pos hb]
      exact (ih (hyes _) (by omega)).mono (Nat.le_succ _)
  | other ht _ ih =>
    cases hfuel with
    | target hyes hno =>
      rw [Script.read, if_neg ht]
      exact ih hno hn
  | ask hJ hts _ ih =>
    cases hfuel with
    | ask hg hrest =>
      refine (hrd _ _ _ _ hJ hts (by omega)).bind ?_
      intro b r hr hlen
      exact (ih b r hr (hrest b) (by omega)).mono hlen
  | params hts _ ih =>
    cases hfuel with
    | params hrest =>
      refine (leaves_params hts).bind ?_
      intro ps r hr hlen
      exact (ih ps r hr (hrest ps) (by omega)).mono hlen

end Script.Accepts

section

variable {bound : Names} {K : Language Token} {ts : List Token}

theorem keyword_accepts {t : Token} {ts : List Token} (ht : t.kind = .keyword)
    (h : keywordScript.Accepts bound K (t :: ts)) : factorScript.Accepts bound K (t :: ts) := by
  refine .leave (by simp [ht]) ?_
  refine .leave (by simp [ht]) ?_
  refine .leave (by simp [ht]) ?_
  exact .leave (by simp [ht]) h

theorem factor_accepts (hK : Tame bound K) (hts : ts ∈ Grammar.language bound .factor * K) :
    factorScript.Accepts bound K ts := by
  obtain ⟨w, ⟨e, hw⟩, u, hu, rfl⟩ := Language.mem_mul.mp hts
  cases hw with
  | signed ht hw =>
    have hr := Language.append_mem_mul hw.mem hu
    exact .take ht (.ask (g := .operand .product) hK hr fun _ _ hr => .done hr)
  | number ht =>
    refine .leave (by rcases ht with ht | ht <;> simp [ht]) ?_
    exact .take ht (.done hu)
  | name ht =>
    refine .leave (by simp [ht]) ?_
    refine .leave (by simp [ht]) ?_
    exact .take ht (.done hu)
  | @group t q w _ ht hw hq =>
    have hr : w ++ ([q] ++ u) ∈ Grammar.language bound .expr * (ofKind .rparen * K) :=
      Language.append_mem_mul hw.mem (cons_mem_word_mul hq hu)
    rw [List.cons_append, List.append_assoc]
    refine .leave (by simp [ht]) ?_
    refine .leave (by simp [ht]) ?_
    refine .leave (by simp [ht]) ?_
    refine .take ht (.ask (g := .expr) (.of_closing K) hr fun _ r hr => ?_)
    exact .expect hr fun _ r hr => .done hr
  | conditional hw =>
    obtain ⟨t, v, rfl, ht, hv⟩ := split_conditional hw
    refine keyword_accepts (kind_of_is ht) ?_
    exact .take ht (.same hK (Language.append_mem_mul hv hu))
  | counted hw =>
    obtain ⟨t, v, rfl, ht, hv⟩ := split_counted hw
    refine keyword_accepts (kind_of_is ht) (.leave (by simp [is_iff ht]) ?_)
    exact .take ht (.same hK (Language.append_mem_mul hv hu))
  | looping hw =>
    obtain ⟨t, v, rfl, ht, hv⟩ := split_looping hw
    refine keyword_accepts (kind_of_is ht) (.leave (by simp [is_iff ht]) ?_)
    refine .leave (by simp [is_iff ht]) ?_
    exact .take ht (.same hK (Language.append_mem_mul hv hu))
  | function hw =>
    obtain ⟨t, v, rfl, ht, hv⟩ := split_function hw
    refine keyword_accepts (kind_of_is ht) (.leave (by simp [is_iff ht]) ?_)
    refine .leave (by simp [is_iff ht]) ?_
    refine .leave (by simp [is_iff ht]) ?_
    exact .take ht (.same hK (Language.append_mem_mul hv hu))

theorem function_accepts (t : Token) (x : String) (hK : Tame bound K)
    (hts : ts ∈ ofKind .lparen * (Grammar.language bound .params * (ofKind .rparen *
      (ofKind .arrow * (Grammar.language bound .expr * K))))) :
    (functionScript t x).Accepts bound K ts := by
  refine .expect hts fun _ r hr => .params hr fun ps r hr => .expect hr fun _ r hr => ?_
  exact .expect hr fun _ r hr => .ask (g := .expr) hK hr fun _ _ hr => .done hr

theorem expr_accepts (hK : Tame bound K) (hts : ts ∈ Grammar.language bound .expr * K) :
    Goal.expr.script.Accepts bound K ts := by
  obtain ⟨w, ⟨e, hw⟩, u, hu, rfl⟩ := Language.mem_mul.mp hts
  cases hw with
  | @declare t x q w _ ht hx hq hw =>
    have hv : q :: w ∈ (Goal.assignment t x.literal).language bound := cons_mem_word_mul hq hw.mem
    refine .more (.take ht (.take hx ?_))
    exact .same hK (Language.append_mem_mul hv hu)
  | @assign x q w _ hx hb hq hw =>
    have hv : q :: w ∈ (Goal.assignment x x.literal).language bound := cons_mem_word_mul hq hw.mem
    have hvar : ¬ x.is .var := by simp [Token.is, hx]
    refine .more (.leave hvar (.assign hx hb (by simpa [nextIs] using hq) ?_))
    exact .same hK (Language.append_mem_mul hv hu)
  | logic hw hv =>
    have hvu := Language.append_mem_mul hv.mem hu
    obtain ⟨t, r, htr, hvar, hnext⟩ := hw.head_of_comparison ((hK.chain .logic).nextIs_equal hvu)
    have hr := Language.append_mem_mul hw.mem hvu
    rw [List.append_assoc]
    rw [htr] at hr ⊢
    exact .more (.leave hvar (.other hnext (.level hK (hK.chain .logic) hr)))

theorem comparison_accepts (hK : Tame bound K)
    (hts : ts ∈ Grammar.language bound .comparison * K) :
    (Goal.operand .logic).script.Accepts bound K ts := by
  obtain ⟨w, ⟨e, hw⟩, u, hu, rfl⟩ := Language.mem_mul.mp hts
  cases hw with
  | negation ht hw =>
    have hr := Language.append_mem_mul hw.mem hu
    refine .more (.take ht ?_)
    exact .ask (g := .operand .logic) hK hr fun _ _ hr => .done hr
  | comparison hw hv =>
    have hr := Language.append_mem_mul hw.mem (Language.append_mem_mul hv.mem hu)
    obtain ⟨t, r, htr, hnot⟩ := hw.head_of_sum (_ ++ u)
    rw [List.append_assoc]
    rw [htr] at hr ⊢
    exact .more (.leave hnot (.level hK (hK.chain .comparison) hr))

end

theorem Goal.accepts {α : Type} {bound : Names} {K : Language Token} {ts : List Token}
    (g : Goal α) (hK : g.Suits bound K) (hts : ts ∈ g.language bound * K) :
    g.script.Accepts bound K ts := by
  cases g with
  | expr => exact expr_accepts hK hts
  | assignment t x =>
    rw [language, mul_assoc] at hts
    refine .expect hts fun _ r hr => .ask (g := .operand .comparison) hK hr fun _ _ hr => .done hr
  | operand l =>
    cases l with
    | logic => exact comparison_accepts hK hts
    | comparison =>
      obtain ⟨w, ⟨e, hw⟩, u, hu, rfl⟩ := Language.mem_mul.mp hts
      cases hw with
      | sum hw hv =>
        rw [List.append_assoc]
        refine .level hK (hK.chain _) ?_
        exact Language.append_mem_mul hw.mem (Language.append_mem_mul hv.mem hu)
    | sum =>
      obtain ⟨w, ⟨e, hw⟩, u, hu, rfl⟩ := Language.mem_mul.mp hts
      cases hw with
      | product hw hv =>
        rw [List.append_assoc]
        refine .level hK (hK.chain _) ?_
        exact Language.append_mem_mul hw.mem (Language.append_mem_mul hv.mem hu)
    | product => exact factor_accepts hK hts
  | chain l e =>
    rw [language, language_chain_mul] at hts
    refine .option hts (fun t r ht hr => ?_) fun t r hr => ?_
    · have hle : K ≤ Grammar.language bound (.chain l) * K := by
        rw [language_chain_mul]
        exact le_self_add
      exact (hK.chain l t r (hle hr)).sign l ht
    · exact .ask (g := .operand l) (hK.chain l) hr fun b r hr => .same hK hr
  | application =>
    refine .ask (g := .operand .product) hK.call (split_application hts) fun f r hr => ?_
    refine .option hr (fun t r ht hr => (hK t r hr).call ht) fun t r hr => ?_
    refine .ask (g := .arguments) ⟨_, rfl⟩ hr fun as r hr => ?_
    exact .expect hr fun _ r hr => .done hr
  | arguments =>
    obtain ⟨M, rfl⟩ := hK
    obtain ⟨w, ⟨as, hw⟩, u, hu, rfl⟩ := Language.mem_mul.mp hts
    cases hw with
    | noArgs =>
      obtain ⟨q, v, rfl, hq, -⟩ := mem_word_mul hu
      exact .stay (fun _ => .done hu) fun hne => absurd hq hne
    | someArgs hw =>
      have hr := Language.append_mem_mul hw.mem hu
      have hnext := hw.nextIs_rparen u
      cases hwu : w ++ u with
      | nil => exact .stay_nil (.same (g := .exprs) ⟨M, rfl⟩ (hwu ▸ hr))
      | cons t r =>
        have ht : ¬ t.kind = .rparen := by simpa [nextIs, hwu] using hnext
        exact .stay (absurd · ht) fun _ => .same (g := .exprs) ⟨M, rfl⟩ (hwu ▸ hr)
  | exprs =>
    obtain ⟨M, rfl⟩ := hK
    refine .ask (g := .expr) ((Tame.of_closing M).comma _) (split_exprs hts) fun a r hr => ?_
    refine .option hr (fun t r ht hr => ?_) fun t r hr => ?_
    · have hq : t.kind = .rparen := (of_cons_mem_word_mul hr).1
      simp [ht] at hq
    · exact .ask (g := .exprs) ⟨M, rfl⟩ hr fun _ _ hr => .done hr
  | conditional t =>
    rw [language, mul_assoc] at hts
    refine .ask (g := .branches) hK.otherwise hts fun bs r hr => ?_
    rw [language_clause_mul] at hr
    refine .option hr (fun u r hu hr => (hK u r hr).otherwise hu) fun u r hr => ?_
    exact .ask (g := .expr) hK hr fun _ _ hr => .done hr
  | branches =>
    refine .ask (g := .expr) (.of_keyword (by simp) _) (split_branches hts) fun c r hr => ?_
    refine .expectWord hr fun r hr => .ask (g := .expr) hK.elif hr fun e r hr => ?_
    refine .option hr (fun u r hu hr => (hK u r hr).elif hu) fun u r hr => ?_
    exact .ask (g := .branches) hK hr fun _ _ hr => .done hr
  | counted t =>
    simp only [language, mul_assoc] at hts
    have hthen : Tame bound (keyword .then * (Grammar.language bound .expr * K)) :=
      .of_keyword (by simp) _
    refine .expect hts fun x r hr => .expect hr fun _ r hr => ?_
    refine .ask (g := .expr) (.of_keyword (by simp) _) hr fun a r hr => ?_
    refine .expectWord hr fun r hr => ?_
    refine .ask (g := .expr) hthen.step hr fun b r hr => ?_
    refine .ask (g := .step) ⟨_, rfl⟩ hr fun s r hr => .expectWord hr fun r hr => ?_
    exact .ask (g := .expr) hK hr fun _ _ hr => .done hr
  | step =>
    obtain ⟨M, rfl⟩ := hK
    rw [language, language_clause_mul] at hts
    refine .option hts (fun t r ht hr => ?_) fun t r hr => ?_
    · have hthen : t.is .then := (of_cons_mem_word_mul hr).1
      simp [is_iff ht] at hthen
    · exact .same (g := .expr) (.of_keyword (by simp) M) hr
  | looping t =>
    simp only [language, mul_assoc] at hts
    refine .ask (g := .expr) (.of_keyword (by simp) _) hts fun c r hr => ?_
    refine .expectWord hr fun r hr => ?_
    exact .ask (g := .expr) hK hr fun _ _ hr => .done hr
  | function t =>
    simp only [language, mul_assoc] at hts
    obtain ⟨w, ⟨x, hw⟩, u, hu, rfl⟩ := Language.mem_mul.mp hts
    cases hw with
    | noTitle =>
      obtain ⟨p, v, rfl, hp, -⟩ := mem_word_mul hu
      exact .leave (by simp [hp]) (function_accepts t "" hK hu)
    | someTitle hx => exact .take hx (function_accepts t _ hK hu)

/-- with enough fuel the sentences of a goal are read -/
theorem Goal.leaves {α : Type} {bound : Names} {K : Language Token} {ts : List Token} {n : Nat}
    (stop : Token) (g : Goal α) (hK : g.Suits bound K) (hts : ts ∈ g.language bound * K)
    (hn : 10 * ts.length + g.spare ≤ n) : Leaves (g.read bound stop n ts) K ts.length := by
  obtain ⟨k, hk, hfuel⟩ := g.fuelled
  induction n generalizing α K ts k with
  | zero => omega
  | succ n ih =>
    have hn' : 10 * ts.length + k ≤ n := by omega
    rw [read_succ]
    refine (g.accepts hK hts).leaves hfuel hn' fun β g J ts hJ hts hn => ?_
    obtain ⟨k, hk, hfuel⟩ := g.fuelled
    exact ih g hJ hts hn k hk hfuel

/-- a sentence that derives from `expr` is read; nothing stands behind it, which is tame -/
theorem parse_of_mem {bound : Names} {s : Sentence} (h : s.words ∈ language bound .expr) :
    ∃ e, s.parse bound = .ok e := by
  obtain ⟨ts, stop⟩ := s
  have hts : ts ∈ language bound .expr * 1 := by simpa using h
  have hfuel : 10 * ts.length + Goal.expr.spare ≤ fuel ts := by
    simp only [fuel, Goal.spare]
    omega
  have hread : Leaves (expr bound stop (fuel ts) ts) 1 ts.length :=
    Goal.expr.leaves stop .one hts hfuel
  obtain ⟨e, r, hread, hr, -⟩ := hread
  obtain rfl : r = [] := hr
  cases ts with
  | nil => cases hread
  | cons t ts =>
    refine ⟨e, ?_⟩
    simp only [parse, hread]
    rfl

end Sentence

/-- **The sentences that are read are those of the grammar.**  Of any tokens, only the words before
the first end mark count; they are read if and only if they derive from `expr`, and the tree is
then the tree of such a derivation. -/
theorem parse_accepts_grammar (bound : Names) (ts : List Token) :
    ((∃ e, parse bound ts = .ok e) ↔
      ∃ e, Grammar.Derives bound .expr (ts.takeWhile fun t => t.kind ≠ .eof) e) ∧
    ∀ e, parse bound ts = .ok e →
      Grammar.Derives bound .expr (ts.takeWhile fun t => t.kind ≠ .eof) e := by
  have hwords : (Sentence.ofTokens ts).words = ts.takeWhile fun t => t.kind ≠ .eof := by
    simp [Sentence.ofTokens, Sentence.isEnd]
  rw [← hwords]
  have hsound (e : Expr) (h : parse bound ts = .ok e) :
      Grammar.Derives bound .expr (Sentence.ofTokens ts).words e := Sentence.derives_of_parse h
  refine ⟨⟨?_, ?_⟩, hsound⟩
  · rintro ⟨e, he⟩
    exact ⟨e, hsound e he⟩
  · intro h
    exact Sentence.parse_of_mem h

/-- `IF a THEN b (c)`: the call could be one of the condition, and is one of `b`; the word behind
the end mark is not looked at -/
theorem parse_accepts_grammar_open_body :
    let word (k : Token.Kind) (s : String) : Token := ⟨k, s, s, ⟨1, 1⟩⟩
    let i := word .keyword "IF"
    let a := word .identifier "a"
    let b := word .identifier "b"
    let c := word .identifier "c"
    let o := word .lparen "("
    let ts := [i, a, word .keyword "THEN", b, o, c, word .rparen ")", Token.missing, a]
    let e := Expr.cond i [(.var a "a", .call o (.var b "b") [.var c "c"])] .absent
    parse (fun _ => false) ts = .ok e ∧
      Grammar.Derives (fun _ => false) .expr (ts.takeWhile fun t => t.kind ≠ .eof) e :=
  ⟨rfl, (parse_accepts_grammar (fun _ => false) _).2 _ rfl⟩

end ExprShell
