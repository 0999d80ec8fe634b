import ExprShell.Proofs.Eval.Budget
import ExprShell.Proofs.Eval.Operators

/-!
# When a call is too deep

An evaluation goes through moments, at each of which a task is begun.  Without a limit of calls the
moments that one moment leads to can be told from its script: the tasks before must have given their
values, under whatever limit they need.  How many bodies have been entered on the way is counted
along the path, not read off the evaluator.

Under a limit the evaluation ends with a call that is too deep exactly if, without the limit, it
would come to a moment that lies in one body more than the limit allows.

* `Run.Plain`           a run that never blames the limit;
* `Run.Local`           a run that calls nothing, so never blames it;
* `Gives`               a task gives a value, if the limit is high enough;
* `Script.Leads`        from a script to the moments it leads to;
* `Moment.Reaches`      along such steps, with the number of bodies entered.
-/

namespace ExprShell

namespace Run

variable {α β : Type}

theorem tooDeep_bind {x : Run α} {f : α → Run β} {σ : State} (h : (x σ).TooDeep) :
    ((x >>= f) σ).TooDeep := by
  rw [bind_apply]
  generalize x σ = o at h
  cases o with
  | done a τ => exact h.elim
  | failed e τ => exact h
  | unfinished => exact h.elim

/-- a run in two parts comes too deep in one of them -/
theorem tooDeep_of_bind {x : Run α} {f : α → Run β} {σ : State} (h : ((x >>= f) σ).TooDeep) :
    (x σ).TooDeep ∨ ∃ a τ, x σ = .done a τ ∧ (f a τ).TooDeep := by
  rw [bind_apply] at h
  generalize x σ = o at h
  cases o with
  | done a τ => exact .inr ⟨a, τ, rfl, h⟩
  | failed e τ => exact .inl h
  | unfinished => exact h.elim

/-- the run never ends with a call that is too deep -/
def Plain (x : Run α) : Prop := ∀ σ, ¬ (x σ).TooDeep

end Run

/-! ## Only the call itself blames the limit -/

/-- the run reads and writes names, tells of the ends of loops and may fail, but calls nothing: it
blames no limit, and tells of no call -/
inductive Run.Local : {α : Type} → Run α → Prop
  | pure {α : Type} (a : α) : Local (Pure.pure a : Run α)
  | fail {α : Type} {p : Position} {c : EvalError.Cause} (h : c.kind ≠ .callDepth) :
    Local (Run.fail p c : Run α)
  | lookup (s : ScopeId) (x : String) : Local (Run.lookup s x)
  | bindName (s : ScopeId) (x : String) (v : Value) : Local (Run.bindName s x v)
  | emit {e : Event} (h : ∀ f a d, e ≠ .called f a d) : Local (Run.emit e)
  | bind {α β : Type} {x : Run α} {f : α → Run β} (hx : Local x) (hf : ∀ a, Local (f a)) :
    Local (x >>= f)

theorem Run.Local.plain {α : Type} {x : Run α} (h : x.Local) : x.Plain := by
  induction h with
  | pure | lookup | bindName | emit => exact fun _ h => h
  | fail hc => exact fun _ h => hc h
  | bind _ _ ihx ihf =>
    intro σ h
    rcases tooDeep_of_bind h with hdeep | ⟨a, τ, -, hdeep⟩
    · exact ihx σ hdeep
    · exact ihf a τ hdeep

namespace Eval

open Run (Local)

theorem settle_local (place : EvalError.Cause → Position) {x : Except EvalError.Cause Value}
    (h : Operators.Settled x) : Local (settle place x) := by
  cases h with
  | int v => exact .pure _
  | double x => exact .pure _
  | error h => exact .fail h

theorem truth_local (e : Expr) (v : Value) : Local (truth e v) := by
  unfold truth
  split
  · exact .pure _
  · exact .fail nofun

theorem bound_local (e : Expr) (v : Value) : Local (bound e v) := by
  unfold bound
  split
  · exact .pure _
  · exact .fail nofun

theorem read_local (s : ScopeId) (p : Position) (x : String) : Local (read s p x) := by
  refine .bind (.lookup s x) fun o => ?_
  cases o with
  | none => exact .fail nofun
  | some v => exact .pure v

theorem define_local (s : ScopeId) (f : Function) : Local (define s f) := by
  unfold define
  split
  · exact .bind (.bindName s f.name _) fun _ => .pure _
  · exact .bind (.pure _) fun _ => .pure _

/-- what a script does by itself calls nothing -/
def Script.Local {α : Type} : Script α → Prop
  | .last x => x.Local
  | .act x rest => x.Local ∧ ∀ b, (rest b).Local
  | .ask _ rest => ∀ b, (rest b).Local
  | .call _ _ _ => True

theorem Script.local_same {α : Type} (t : Task α) : (Script.same t).Local := fun a => .pure a

theorem treeScript_local (s : ScopeId) (e : Expr) : (treeScript s e).Local := by
  cases e with
  | absent => exact .fail nofun
  | number t => exact settle_local _ (Operators.literal_settled t)
  | var t x => exact read_local s t.pos x
  | assign t x e => exact fun v => ⟨.bindName s x v, fun _ => .pure v⟩
  | binary l op e => exact fun v w => settle_local _ (Operators.binary_settled op v w)
  | unary op e => exact fun v => settle_local _ (Operators.unary_settled op v)
  | cond t bs e => exact Script.local_same _
  | count t x a b st e =>
    exact fun v => ⟨bound_local a v, fun _ w => ⟨bound_local b w, fun _ _ => Script.local_same _⟩⟩
  | loop t c e => exact Script.local_same _
  | func t x ps e => exact define_local s _
  | call t f as =>
    intro v
    cases v with
    | function g => exact fun _ => trivial
    | int _ => exact .fail nofun
    | double _ => exact .fail nofun
    | absent => exact .fail nofun

theorem script_local {α : Type} (s : ScopeId) (t : Task α) : (t.script s).Local := by
  cases t with
  | tree e => exact treeScript_local s e
  | stepOf e =>
    cases e <;> first | exact Local.pure _ | exact fun v => bound_local _ v
  | args es =>
    cases es with
    | nil => exact .pure _
    | cons a as => exact fun _ _ => .pure _
  | branches bs e =>
    cases bs with
    | nil => cases e <;> first | exact Local.pure _ | exact Script.local_same _
    | cons b bs =>
      refine fun v => ⟨truth_local b.1 v, fun yes => ?_⟩
      cases yes <;> exact Script.local_same _
  | count x e stop step cur v k =>
    rw [Task.script]
    split
    · exact ⟨.bindName s x _, fun _ _ => Script.local_same _⟩
    · exact ⟨.emit (by simp), fun _ => .pure v⟩
  | test c e v k =>
    refine fun w => ⟨truth_local c w, fun yes => ?_⟩
    cases yes with
    | true => exact fun _ => Script.local_same _
    | false => exact ⟨.emit (by simp), fun _ => .pure v⟩

/-- what a script does by itself never blames the limit -/
def Script.Plain {α : Type} : Script α → Prop
  | .last x => x.Plain
  | .act x rest => x.Plain ∧ ∀ b, (rest b).Plain
  | .ask _ rest => ∀ b, (rest b).Plain
  | .call _ _ _ => True

theorem Script.Local.plain {α : Type} {c : Script α} (h : c.Local) : c.Plain := by
  induction c with
  | last x => exact Run.Local.plain h
  | act x rest ih => exact ⟨h.1.plain, fun b => ih b (h.2 b)⟩
  | ask t rest ih => exact fun b => ih b (h b)
  | call p f vs => trivial

/-! ## Evaluation without a limit -/

/-- the task gives a value, if the limit is high enough -/
def Gives {α : Type} (sc : Scoping) (d : Nat) (s : ScopeId) (t : Task α) (σ : State) (a : α)
    (τ : State) : Prop := ∃ m n, t.run ⟨sc, m⟩ n d s σ = .done a τ

/-- a task is begun, with `depth` calls active -/
structure Moment where
  depth : Nat
  scope : ScopeId
  {result : Type}
  task : Task result
  state : State

/-- goes by a script without a limit to one of the moments it leads to; `k` is the number of bodies
entered, one for a call and none for another task -/
inductive Script.Leads (sc : Scoping) (d : Nat) (s : ScopeId) :
    {α : Type} → Script α → State → Nat → Moment → Prop
  | ask {α β : Type} (t : Task β) (rest : β → Script α) (σ : State) :
    Leads sc d s (.ask t rest) σ 0 ⟨d, s, t, σ⟩
  | rest {α β : Type} {t : Task β} {rest : β → Script α} {σ τ : State} {b : β} {k : Nat}
    {M : Moment} (before : Gives sc d s t σ b τ) (leads : Leads sc d s (rest b) τ k M) :
    Leads sc d s (.ask t rest) σ k M
  | act {α β : Type} {x : Run β} {rest : β → Script α} {σ τ : State} {b : β} {k : Nat}
    {M : Moment} (before : x σ = .done b τ) (leads : Leads sc d s (rest b) τ k M) :
    Leads sc d s (.act x rest) σ k M
  | call {p : Position} {f : Function} {vs : List Value} {σ τ : State} {l : ScopeId} {m : Nat}
    (opens : open? ⟨sc, m⟩ d s p f vs σ = .done l τ) :
    Leads sc d s (.call p f vs) σ 1 ⟨d + 1, l, .tree f.body, τ⟩

namespace Moment

def run (r : CallRule) (n : Nat) (M : Moment) : Outcome M.result :=
  M.task.run r n M.depth M.scope M.state

/-- without a limit the evaluation comes from one moment to another, and enters `k` bodies -/
inductive Reaches (sc : Scoping) : Moment → Nat → Moment → Prop
  | refl (M : Moment) : Reaches sc M 0 M
  | head {M N P : Moment} {j k : Nat}
    (first : (M.task.script M.scope).Leads sc M.depth M.scope M.state j N)
    (rest : Reaches sc N k P) : Reaches sc M (j + k) P

end Moment

theorem Script.Leads.depth_eq {α : Type} {sc : Scoping} {d k : Nat} {s : ScopeId} {c : Script α}
    {σ : State} {M : Moment} (h : c.Leads sc d s σ k M) : M.depth = d + k := by
  induction h with
  | ask => rfl
  | rest _ _ ih => exact ih
  | act _ _ ih => exact ih
  | call => rfl

theorem Script.Leads.le_one {α : Type} {sc : Scoping} {d k : Nat} {s : ScopeId} {c : Script α}
    {σ : State} {M : Moment} (h : c.Leads sc d s σ k M) : k ≤ 1 := by
  induction h with
  | ask => exact Nat.zero_le 1
  | rest _ _ ih => exact ih
  | act _ _ ih => exact ih
  | call => exact Nat.le_refl 1

/-! ## The scope of a call under different limits -/

section
variable {sc : Scoping} {m d : Nat} {s l : ScopeId} {p : Position} {f : Function} {vs : List Value}
  {σ τ : State}

/-- a call that one limit allows is made in the same way under every limit that allows it -/
theorem open?_of_lt {m' : Nat} (h : open? ⟨sc, m⟩ d s p f vs σ = .done l τ) (hd : d < m') :
    open? ⟨sc, m'⟩ d s p f vs σ = .done l τ := by
  unfold open? at h ⊢
  split at h
  · cases h
  · next harity =>
    split at h
    · cases h
    · rw [if_neg harity, if_neg (Nat.not_le_of_lt hd)]
      exact h

/-- and a limit that does not allow it is blamed -/
theorem open?_tooDeep {m' : Nat} (h : open? ⟨sc, m⟩ d s p f vs σ = .done l τ) (hd : m' ≤ d) :
    (open? ⟨sc, m'⟩ d s p f vs σ).TooDeep := by
  unfold open? at h ⊢
  split at h
  · cases h
  · next harity =>
    rw [if_neg harity, if_pos hd]
    rfl

theorem lt_of_open? (h : open? ⟨sc, m⟩ d s p f vs σ = .done l τ) : d < m := by
  unfold open? at h
  split at h
  · cases h
  · split at h
    · cases h
    · next hd => exact Nat.lt_of_not_le hd

/-- the limit is blamed only for a call that a higher one would allow -/
theorem open?_of_tooDeep (h : (open? ⟨sc, m⟩ d s p f vs σ).TooDeep) :
    m ≤ d ∧ ∃ l τ, open? ⟨sc, d + 1⟩ d s p f vs σ = .done l τ := by
  unfold open? at h ⊢
  split at h
  · cases h
  · next harity =>
    split at h
    · next hd =>
      rw [if_neg harity, if_neg (Nat.not_le_of_lt (Nat.lt_succ_self d))]
      exact ⟨hd, _, _, rfl⟩
    · exact h.elim

end

/-! ## A run that blames the limit comes to a moment beyond it -/

section
variable {sc : Scoping} {m d : Nat} {s : ScopeId} {σ : State}

theorem leads_of_tooDeep {α : Type} {n : Nat} {c : Script α} (hc : c.Plain) (hd : d ≤ m)
    (h : (c.exec ⟨sc, m⟩ (fun d s _ t => t.run ⟨sc, m⟩ n d s) d s σ).TooDeep) :
    ∃ k M, c.Leads sc d s σ k M ∧ (d + k = m + 1 ∨ d + k ≤ m ∧ (M.run ⟨sc, m⟩ n).TooDeep) := by
  induction c generalizing σ with
  | last x => exact absurd h (hc σ)
  | act x rest ih =>
    rcases Run.tooDeep_of_bind h with hdeep | ⟨b, τ, hdone, hdeep⟩
    · exact absurd hdeep (hc.1 σ)
    · obtain ⟨k, M, hleads, hM⟩ := ih b (hc.2 b) hdeep
      exact ⟨k, M, .act hdone hleads, hM⟩
  | ask t rest ih =>
    rcases Run.tooDeep_of_bind h with hdeep | ⟨b, τ, hdone, hdeep⟩
    · exact ⟨0, ⟨d, s, t, σ⟩, .ask t rest σ, .inr ⟨hd, hdeep⟩⟩
    · obtain ⟨k, M, hleads, hM⟩ := ih b (hc b) hdeep
      exact ⟨k, M, .rest ⟨m, n, hdone⟩ hleads, hM⟩
  | call p f vs =>
    rcases Run.tooDeep_of_bind h with hdeep | ⟨l, τ, hdone, hdeep⟩
    · obtain ⟨hmd, l, τ, hopen⟩ := open?_of_tooDeep hdeep
      exact ⟨1, ⟨d + 1, l, .tree f.body, τ⟩, .call hopen, .inl (by omega)⟩
    · exact ⟨1, ⟨d + 1, l, .tree f.body, τ⟩, .call hdone, .inr ⟨lt_of_open? hdone, hdeep⟩⟩

theorem reaches_of_tooDeep {n : Nat} {M : Moment} (hd : M.depth ≤ m)
    (h : (M.run ⟨sc, m⟩ n).TooDeep) : ∃ k N, M.Reaches sc k N ∧ M.depth + k = m + 1 := by
  induction n generalizing M with
  | zero =>
    rw [Moment.run, run_zero] at h
    exact h.elim
  | succ n ih =>
    rw [Moment.run, run_succ] at h
    obtain ⟨j, N, hleads, hj | ⟨hj, hdeep⟩⟩ :=
      leads_of_tooDeep (script_local M.scope M.task).plain hd h
    · exact ⟨j + 0, N, .head hleads (.refl N), hj⟩
    · have hdepth := hleads.depth_eq
      obtain ⟨k, P, hreach, hk⟩ := ih (hdepth ▸ hj) hdeep
      exact ⟨j + k, P, .head hleads hreach, by omega⟩

/-! ## A moment beyond the limit is blamed on it -/

theorem exec_tooDeep_of_le {α : Type} {n n' : Nat} {c : Script α} (hn : n ≤ n')
    (h : (c.exec ⟨sc, m⟩ (fun d s _ t => t.run ⟨sc, m⟩ n d s) d s σ).TooDeep) :
    (c.exec ⟨sc, m⟩ (fun d s _ t => t.run ⟨sc, m⟩ n' d s) d s σ).TooDeep := by
  rw [exec_of_le hn fun hu => by rw [hu] at h; exact h]
  exact h

/-- a task that gives a value without a limit gives the same under the limit, or blames it -/
theorem Gives.under {α : Type} {t : Task α} {a : α} {τ : State} (h : Gives sc d s t σ a τ)
    (m : Nat) : ∃ n, ∀ n', n ≤ n' →
      t.run ⟨sc, m⟩ n' d s σ = .done a τ ∨ (t.run ⟨sc, m⟩ n' d s σ).TooDeep := by
  obtain ⟨m₀, n, hrun⟩ := h
  refine ⟨n, fun n' hn => ?_⟩
  have hne : t.run ⟨sc, m₀⟩ n d s σ ≠ .unfinished := fun hu => by
    rw [hu] at hrun
    cases hrun
  have hmore : t.run ⟨sc, m₀⟩ n' d s σ = .done a τ := (run_of_le hn hne).trans hrun
  rcases Nat.le_total m m₀ with hm | hm
  · rcases run_of_limit_le hm n' d s t σ with heq | hdeep
    · exact .inl (heq.symm.trans hmore)
    · exact .inr hdeep
  · rcases run_of_limit_le hm n' d s t σ with heq | hdeep
    · exact .inl (heq.trans hmore)
    · rw [hmore] at hdeep
      exact hdeep.elim

theorem tooDeep_of_leads {α : Type} {c : Script α} {k : Nat} {M : Moment} (hd : d ≤ m)
    (h : c.Leads sc d s σ k M) (hM : d + k = m + 1 ∨ ∃ n, (M.run ⟨sc, m⟩ n).TooDeep) :
    ∃ n, (c.exec ⟨sc, m⟩ (fun d s _ t => t.run ⟨sc, m⟩ n d s) d s σ).TooDeep := by
  induction h with
  | @ask α β t rest σ =>
    obtain ⟨n, hn⟩ : ∃ n, (t.run ⟨sc, m⟩ n d s σ).TooDeep := hM.resolve_left (by omega)
    exact ⟨n, Run.tooDeep_bind hn⟩
  | @rest α β t rest σ τ b k M before leads ih =>
    obtain ⟨n₁, h₁⟩ := before.under m
    obtain ⟨n₂, h₂⟩ := ih hM
    refine ⟨max n₁ n₂, ?_⟩
    rcases h₁ _ (Nat.le_max_left n₁ n₂) with hdone | hdeep
    · rw [Script.exec, Run.bind_done hdone]
      exact exec_tooDeep_of_le (Nat.le_max_right n₁ n₂) h₂
    · exact Run.tooDeep_bind hdeep
  | @act α β x rest σ τ b k M before leads ih =>
    obtain ⟨n, hn⟩ := ih hM
    refine ⟨n, ?_⟩
    rw [Script.exec, Run.bind_done before]
    exact hn
  | @call p f vs σ τ l m₀ opens =>
    rcases Nat.eq_or_lt_of_le hd with rfl | hlt
    · exact ⟨0, Run.tooDeep_bind (open?_tooDeep opens (Nat.le_refl d))⟩
    · obtain ⟨n, hn⟩ := hM.resolve_left (by omega)
      refine ⟨n, ?_⟩
      rw [Script.exec, Run.bind_done (open?_of_lt opens hlt)]
      exact hn

theorem tooDeep_of_reaches {M N : Moment} {k : Nat} (h : M.Reaches sc k N) (hd : M.depth ≤ m)
    (hk : M.depth + k = m + 1) : ∃ n, (M.run ⟨sc, m⟩ n).TooDeep := by
  -- on the path from its first moment; the limit is blamed in the first body beyond it
  induction h with
  | refl M => omega
  | @head M N P j k first rest ih =>
    have hdepth := first.depth_eq
    have hN : M.depth + j = m + 1 ∨ ∃ n, (N.run ⟨sc, m⟩ n).TooDeep := by
      by_cases hj : M.depth + j ≤ m
      · exact .inr (ih (by omega) (by omega))
      · have hle := first.le_one
        exact .inl (by omega)
    obtain ⟨n, hn⟩ := tooDeep_of_leads hd first hN
    refine ⟨n + 1, ?_⟩
    rw [Moment.run, run_succ]
    exact hn

end

/-- **A higher limit never changes an answer, and the limit is blamed exactly when it must be.**
An evaluation that ends without blaming the limit `m` ends in the same way under every higher one,
with the same scopes and the same events.  It ends by blaming the limit `m` if and only if without
a limit it would come into `m + 1` bodies, one inside the other. -/
theorem limit_exact (sc : Scoping) (m : Nat) (s : ScopeId) (e : Expr) (σ : State) :
    (∀ m' n, m ≤ m' → eval ⟨sc, m⟩ n 0 s e σ ≠ .unfinished → ¬ (eval ⟨sc, m⟩ n 0 s e σ).TooDeep →
        eval ⟨sc, m'⟩ n 0 s e σ = eval ⟨sc, m⟩ n 0 s e σ) ∧
      ((∃ n, (eval ⟨sc, m⟩ n 0 s e σ).TooDeep) ↔
        ∃ M, Moment.Reaches sc ⟨0, s, .tree e, σ⟩ (m + 1) M) := by
  refine ⟨?_, ?_, ?_⟩
  · intro m' n hm _ hdeep
    exact (run_of_limit_le hm n 0 s (.tree e) σ).resolve_right hdeep
  · rintro ⟨n, hn⟩
    obtain ⟨k, M, hreach, hk⟩ :=
      reaches_of_tooDeep (M := ⟨0, s, .tree e, σ⟩) (Nat.zero_le m) hn
    have hk : k = m + 1 := by simpa using hk
    exact ⟨M, hk ▸ hreach⟩
  · rintro ⟨M, hreach⟩
    exact tooDeep_of_reaches hreach (Nat.zero_le m) (Nat.zero_add _)

/-- a function that calls no other is called: one active call is enough, none is not -/
theorem limit_exact_one_call :
    let e : Expr := .call Token.missing (.func Token.missing "f" []
      (.assign Token.missing "y" (.func Token.missing "" [] .absent))) []
    let σ : State := ⟨⟨#[⟨[], none⟩]⟩, #[]⟩
    eval ⟨.lexical, 7⟩ 9 0 0 e σ = eval ⟨.lexical, 1⟩ 9 0 0 e σ ∧
      (eval ⟨.lexical, 0⟩ 9 0 0 e σ).TooDeep ∧
      ∃ M, Moment.Reaches .lexical ⟨0, 0, .tree e, σ⟩ 1 M := by
  intro e σ
  refine ⟨?_, rfl, ?_⟩
  · exact (limit_exact .lexical 1 0 e σ).1 7 9 (by decide) nofun id
  · exact (limit_exact .lexical 0 0 e σ).2.1 ⟨9, rfl⟩

end Eval

end ExprShell
