import ExprShell.Proofs.Eval.Depth
import ExprShell.Proofs.Expr.Built
import ExprShell.Proofs.Store.Names

/-!
# Evaluating what the grammar builds

The evaluator has errors for trees that lack a child, for operators that it does not know, and for
numbers whose token is none.  The grammar builds no such tree.  So the evaluator never comes to one,
if all functions in the store have bodies that the grammar built; and what it leaves is such a store
again.  An error stands at one of the words from which the trees were built.

All this is said of words with a property `Q`, which is free.

* `Expr.Proper Q`, `Value.Proper Q`, `EvalError.Proper Q`   what comes from words with `Q`;
* `Run.Proper`       a run that keeps to what is proper;
* `script_proper`    one step: a proper task goes by a proper script, and asks for smaller tasks
                     unless it is a loop;
* `run_proper`       the whole run;
* `Moment.Reaches.proper`   every task that is begun on the way.
-/

namespace ExprShell

/-- the tree was built from words with `Q` -/
def Expr.Proper (Q : List Token → Prop) (e : Expr) : Prop := ∃ bound w, Q w ∧ e.Built bound w

/-- a function has a body that was built from words with `Q` -/
def Value.Proper (Q : List Token → Prop) : Value → Prop
  | .function f => f.body.Proper Q
  | _ => True

/-- the error is no internal one, and stands at one of the words -/
structure EvalError.Proper (Q : List Token → Prop) (e : EvalError) : Prop where
  known : e.kind ≠ .unknownNode
  place : ∃ w, Q w ∧ ∃ t ∈ w, e.pos = t.pos

/-- an expression that was built from words stands at one of them, and so do its errors -/
theorem Expr.Proper.error {Q : List Token → Prop} {e : Expr} (h : e.Proper Q)
    {c : EvalError.Cause} (hc : c.kind ≠ .unknownNode) : EvalError.Proper Q ⟨e.pos, c⟩ := by
  obtain ⟨bound, w, hw, he⟩ := h
  exact ⟨hc, w, hw, e.token, he.token_mem, rfl⟩

/-! ## Operators -/

namespace Operators

theorem literal_usual {t : Token} (h : t.kind = .int ∨ t.kind = .double) : Usual (literal t) := by
  unfold literal
  rcases h with h | h
  · rw [h]
    dsimp only
    split
    · exact .int _
    · exact .error nofun nofun
  · rw [h]
    dsimp only
    split
    · exact .double _
    · exact .error nofun nofun

/-- every sign of the grammar is an operator on values -/
theorem binary_usual {l : Grammar.Loop} {o : Token} (h : l.sign o) (v w : Value) :
    Usual (binary o v w) := by
  unfold binary
  split
  · exact arithmetic_usual _ _ v w
  · next harith =>
    split
    · exact compare_usual _ _ v w
    · next hcomp =>
      split
      · exact logic_usual _ _ v w
      · next hand =>
        split
        · exact logic_usual _ _ v w
        · next hor =>
          exfalso
          cases l with
          | logic => simp [Grammar.Loop.sign, hand, hor] at h
          | comparison => cases hk : o.kind <;>
              simp [Grammar.Loop.sign, Token.Kind.isComparison, comparison?, hk] at h hcomp
          | sum => cases hk : o.kind <;>
              simp [Grammar.Loop.sign, Arithmetic.ofKind?, hk] at h harith
          | product => cases hk : o.kind <;>
              simp [Grammar.Loop.sign, Arithmetic.ofKind?, hk] at h harith

theorem unary_usual {o : Token} (h : o.kind = .plus ∨ o.kind = .minus ∨ o.is .not) (v : Value) :
    Usual (unary o v) := by
  unfold unary
  split
  · exact negate_usual _ v
  · next hminus =>
    split
    · exact posit_usual _ v
    · next hplus =>
      have hnot : o.is .not = true := (h.resolve_left hplus).resolve_left hminus
      rw [if_pos hnot]
      exact complement_usual _ v

end Operators

/-! ## Runs -/

variable {Q : List Token → Prop} {F : Prop}

/-- the run ended with a result that has `R` or with a proper error, and all functions are still
proper; `F` says whether it may be unfinished -/
def Outcome.Proper {α : Type} (Q : List Token → Prop) (F : Prop) (R : α → Prop) : Outcome α → Prop
  | .done a σ => R a ∧ σ.store.Holds (Value.Proper Q)
  | .failed e σ => e.Proper Q ∧ σ.store.Holds (Value.Proper Q)
  | .unfinished => F

namespace Run

def Proper {α : Type} (Q : List Token → Prop) (F : Prop) (R : α → Prop) (x : Run α) : Prop :=
  ∀ σ : State, σ.store.Holds (Value.Proper Q) → (x σ).Proper Q F R

namespace Proper

variable {α β : Type} {R : α → Prop} {S : β → Prop}

theorem pure {a : α} (h : R a) : Run.Proper Q F R (Pure.pure a : Run α) := fun _ hσ => ⟨h, hσ⟩

theorem fail {p : Position} {c : EvalError.Cause} (h : EvalError.Proper Q ⟨p, c⟩) :
    Run.Proper Q F R (Run.fail p c : Run α) := fun _ hσ => ⟨h, hσ⟩

theorem bindName (s : ScopeId) (x : String) {v : Value} (hv : v.Proper Q) :
    Run.Proper Q F (fun _ => True) (Run.bindName s x v) := fun _ hσ => ⟨trivial, hσ.set s x hv⟩

theorem emit (e : Event) : Run.Proper Q F (fun _ => True) (Run.emit e) :=
  fun _ hσ => ⟨trivial, hσ⟩

theorem bind {x : Run α} {f : α → Run β} (hx : Run.Proper Q F R x)
    (hf : ∀ a, R a → Run.Proper Q F S (f a)) : Run.Proper Q F S (x >>= f) := by
  intro σ hσ
  have h := hx σ hσ
  rw [bind_apply]
  generalize x σ = o at h
  cases o with
  | done a τ => exact hf a h.1 τ h.2
  | failed e τ => exact h
  | unfinished => exact h

/-- a run that ends need not be told from one that may be unfinished -/
theorem weaken {x : Run α} (h : Run.Proper Q False R x) : Run.Proper Q F R x := by
  intro σ hσ
  have hend := h σ hσ
  generalize x σ = o at hend
  cases o with
  | done a τ => exact hend
  | failed e τ => exact hend
  | unfinished => exact hend.elim

end Proper

end Run

namespace Eval

section
variable {e : Expr}

theorem settle_proper {place : EvalError.Cause → Position} {x : Except EvalError.Cause Value}
    (hx : Operators.Usual x)
    (hplace : ∀ c : EvalError.Cause, c.kind ≠ .unknownNode → EvalError.Proper Q ⟨place c, c⟩) :
    Run.Proper Q F (Value.Proper Q) (settle place x) := by
  cases hx with
  | int v => exact .pure trivial
  | double x => exact .pure trivial
  | @error c _ known => exact .fail (hplace c known)

theorem truth_proper (he : e.Proper Q) (v : Value) :
    Run.Proper Q F (fun _ => True) (truth e v) := by
  unfold truth
  split
  · exact .pure trivial
  · exact .fail (he.error nofun)

theorem bound_proper (he : e.Proper Q) (v : Value) :
    Run.Proper Q F (fun _ => True) (bound e v) := by
  unfold bound
  split
  · exact .pure trivial
  · exact .fail (he.error nofun)

theorem read_proper {t : Token} {x : String} (he : (Expr.var t x).Proper Q) (s : ScopeId) :
    Run.Proper Q F (Value.Proper Q) (read s t.pos x) := by
  have hlookup : Run.Proper Q F (fun o => ∀ v ∈ o, Value.Proper Q v) (Run.lookup s x) :=
    fun σ hσ => ⟨fun v hv => hσ.lookup hv, hσ⟩
  refine .bind hlookup fun o ho => ?_
  cases o with
  | none => exact .fail (he.error nofun)
  | some v => exact .pure (ho v rfl)

theorem define_proper {f : Function} (hf : f.body.Proper Q) (s : ScopeId) :
    Run.Proper Q F (Value.Proper Q) (define s f) := by
  have hdone : Run.Proper Q F (Value.Proper Q) (pure (.function f)) := .pure hf
  unfold define
  split
  · exact .bind (.bindName s f.name hf) fun _ _ => hdone
  · exact hdone

theorem open?_proper (hcallee : e.Proper Q) (r : CallRule) (d : Nat) (s : ScopeId) (f : Function)
    {vs : List Value} (hvs : ∀ v ∈ vs, v.Proper Q) :
    Run.Proper Q F (fun _ => True) (open? r d s e.pos f vs) := by
  have henter : Run.Proper Q F (fun _ => True)
      (Run.enter (outer r s f) (Bindings.setAll [] f.params vs)) :=
    fun σ hσ => ⟨trivial, hσ.add_setAll _ f.params hvs⟩
  unfold open?
  split
  · exact .fail (hcallee.error nofun)
  · split
    · exact .fail (hcallee.error nofun)
    · exact .bind henter fun l _ => .bind (.emit _) fun _ _ => .pure trivial

end

/-! ## Tasks -/

/-- the trees of a task were built from words with `Q`; so were the functions that it was given -/
def Task.Proper {α : Type} (Q : List Token → Prop) : Task α → Prop
  | .tree e => e.Proper Q
  | .stepOf e => e ≠ .absent → e.Proper Q
  | .args es => ∀ e ∈ es, Expr.Proper Q e
  | .branches bs e => (∀ b ∈ bs, b.1.Proper Q ∧ b.2.Proper Q) ∧ (e ≠ .absent → e.Proper Q)
  | .count _ e _ _ _ v _ => e.Proper Q ∧ v.Proper Q
  | .test c e v _ => c.Proper Q ∧ e.Proper Q ∧ v.Proper Q

def Task.Gets {α : Type} (Q : List Token → Prop) : Task α → α → Prop
  | .tree _ => Value.Proper Q
  | .stepOf _ => fun _ => True
  | .args _ => fun vs => ∀ v ∈ vs, v.Proper Q
  | .branches _ _ => Value.Proper Q
  | .count _ _ _ _ _ _ _ => Value.Proper Q
  | .test _ _ _ _ => Value.Proper Q

def Task.isRound {α : Type} : Task α → Bool
  | .count _ _ _ _ _ _ _ | .test _ _ _ _ => true
  | _ => false

/-- what may go on without end: a loop, and its rounds -/
def Task.isLoop {α : Type} : Task α → Bool
  | .tree (.count _ _ _ _ _ _) | .tree (.loop _ _ _) => true
  | t => t.isRound

noncomputable def Task.size {α : Type} : Task α → Nat
  | .tree e => sizeOf e
  | .stepOf e => sizeOf e + 1
  | .args es => sizeOf es
  | .branches bs e => sizeOf bs + sizeOf e
  | .count _ e _ _ _ _ _ => sizeOf e
  | .test c e _ _ => sizeOf c + sizeOf e

/-- the first task is smaller than the second, and no round of a loop, unless that is a loop -/
def Task.Under {α β : Type} (u : Task β) (t : Task α) : Prop :=
  t.isLoop = true ∨ u.isRound = false ∧ u.size < t.size

/-- a script that keeps to what is proper, asks only for tasks with `asks`, and ends with a result
that has `R` -/
inductive Script.Proper (Q : List Token → Prop) (asks : (β : Type) → Task β → Prop) :
    {α : Type} → (α → Prop) → Script α → Prop
  | last {α : Type} {R : α → Prop} {x : Run α} (h : x.Proper Q False R) : Proper Q asks R (.last x)
  | act {α β : Type} {R : α → Prop} {S : β → Prop} {x : Run β} {rest : β → Script α}
    (h : x.Proper Q False S) (hrest : ∀ b, S b → Proper Q asks R (rest b)) :
    Proper Q asks R (.act x rest)
  | ask {α β : Type} {R : α → Prop} {t : Task β} {rest : β → Script α} (h : t.Proper Q)
    (hasks : asks β t) (hrest : ∀ b, t.Gets Q b → Proper Q asks R (rest b)) :
    Proper Q asks R (.ask t rest)
  | call {e : Expr} {f : Function} {vs : List Value} (he : e.Proper Q) (hf : f.body.Proper Q)
    (hvs : ∀ v ∈ vs, v.Proper Q) : Proper Q asks (Value.Proper Q) (.call e.pos f vs)

theorem Script.Proper.same {α : Type} {asks : (β : Type) → Task β → Prop} {R : α → Prop}
    {t : Task α} (h : t.Proper Q) (hasks : asks α t) (hR : t.Gets Q = R) :
    (Script.same t).Proper Q asks R := by
  subst hR
  exact .ask h hasks fun _ ha => .last (.pure ha)

/-! ## One step -/

theorem treeScript_proper {e : Expr} (h : e.Proper Q) (s : ScopeId) :
    (treeScript s e).Proper Q (fun _ u => u.Under (.tree e)) (Value.Proper Q) := by
  have hwhole := h
  obtain ⟨bound, w, hw, hbuilt⟩ := h
  have part : ∀ {a : Expr}, a.Built bound w → a.Proper Q := fun ha => ⟨bound, w, hw, ha⟩
  cases hbuilt with
  | number _ hk =>
    exact .last (settle_proper (Operators.literal_usual hk) fun c hc => hwhole.error hc)
  | var _ => exact .last (read_proper hwhole s)
  | declare _ _ _ he | assign _ _ he =>
    refine .ask (part he) (.inr ⟨rfl, by simp +arith [Task.size]⟩) fun v hv => ?_
    exact .act (.bindName s _ hv) fun _ _ => .last (.pure hv)
  | binary _ hs ha hb =>
    refine .ask (part ha) (.inr ⟨rfl, by simp +arith [Task.size]⟩) fun v _ => ?_
    refine .ask (part hb) (.inr ⟨rfl, by simp +arith [Task.size]⟩) fun u _ => ?_
    refine .last (settle_proper (Operators.binary_usual hs v u) fun c hc => ?_)
    cases c with
    | divisionByZero => exact (part hb).error hc
    | _ => exact (part ha).error hc
  | unary _ hs he =>
    refine .ask (part he) (.inr ⟨rfl, by simp +arith [Task.size]⟩) fun v _ => ?_
    exact .last (settle_proper (Operators.unary_usual hs v) fun c hc => hwhole.error hc)
  | cond _ htests hbodies he =>
    refine .same ⟨fun b hb => ⟨part (htests b hb), part (hbodies b hb)⟩, fun hne => part (he hne)⟩
      (.inr ⟨rfl, by simp +arith [Task.size]⟩) rfl
  | count _ _ _ ha hb hs he =>
    refine .ask (part ha) (.inl rfl) fun v _ => .act (bound_proper (part ha) v) fun start _ => ?_
    refine .ask (part hb) (.inl rfl) fun u _ => .act (bound_proper (part hb) u) fun stop _ => ?_
    refine .ask (fun hne => part (hs hne)) (.inl rfl) fun step _ => ?_
    exact .same ⟨part he, trivial⟩ (.inl rfl) rfl
  | loop _ _ hc he => exact .same ⟨part hc, part he, trivial⟩ (.inl rfl) rfl
  | func _ _ _ he => exact .last (define_proper (part he) s)
  | call hf has =>
    refine .ask (part hf) (.inr ⟨rfl, by simp +arith [Task.size]⟩) fun v hv => ?_
    have hfail : ∀ k, EvalError.Proper Q ⟨_, .notCallable k⟩ := fun k => (part hf).error nofun
    cases v with
    | function g =>
      refine .ask (fun a ha => part (has a ha)) (.inr ⟨rfl, by simp +arith [Task.size]⟩) ?_
      exact fun vs hvs => .call (part hf) hv hvs
    | int _ => exact .last (.fail (hfail _))
    | double _ => exact .last (.fail (hfail _))
    | absent => exact .last (.fail (hfail _))

/-- **One step.**  A proper task goes by a proper script. -/
theorem script_proper {α : Type} {t : Task α} (h : t.Proper Q) (s : ScopeId) :
    (t.script s).Proper Q (fun _ u => u.Under t) (t.Gets Q) := by
  cases t with
  | tree e => exact treeScript_proper h s
  | stepOf e =>
    by_cases he : e = .absent
    · rw [he]
      exact .last (.pure trivial)
    · have hp : e.Proper Q := h he
      rw [Task.script]
      · refine .ask hp (.inr ⟨rfl, by simp [Task.size]⟩) fun v _ => ?_
        exact .last (bound_proper hp v)
      · exact he
  | args es =>
    cases es with
    | nil => exact .last (.pure (List.forall_mem_nil _))
    | cons a as =>
      obtain ⟨ha, has⟩ := List.forall_mem_cons.mp h
      refine .ask ha (.inr ⟨rfl, by simp +arith [Task.size]⟩) fun v hv => ?_
      refine .ask has (.inr ⟨rfl, by simp +arith [Task.size]⟩) fun vs hvs => ?_
      exact .last (.pure (List.forall_mem_cons.mpr ⟨hv, hvs⟩))
  | branches bs e =>
    obtain ⟨hbs, he⟩ := h
    cases bs with
    | nil =>
      by_cases hne : e = .absent
      · rw [hne]
        exact .last (.pure trivial)
      · rw [Task.script]
        · exact .same (he hne) (.inr ⟨rfl, by simp [Task.size]⟩) rfl
        · exact hne
    | cons b bs =>
      obtain ⟨c, b⟩ := b
      obtain ⟨⟨hc, hb⟩, hbs⟩ := List.forall_mem_cons.mp hbs
      refine .ask hc (.inr ⟨rfl, by simp +arith [Task.size]⟩) fun v _ => ?_
      refine .act (truth_proper hc v) fun yes _ => ?_
      cases yes with
      | true => exact .same hb (.inr ⟨rfl, by simp +arith [Task.size]⟩) rfl
      | false => exact .same ⟨hbs, he⟩ (.inr ⟨rfl, by simp +arith [Task.size]⟩) rfl
  | count x e stop step cur v k =>
    obtain ⟨he, hv⟩ := h
    rw [Task.script]
    split
    · refine .act (.bindName s x trivial) fun _ _ => .ask he (.inl rfl) fun v hv => ?_
      exact .same ⟨he, hv⟩ (.inl rfl) rfl
    · exact .act (.emit _) fun _ _ => .last (.pure hv)
  | test c e v k =>
    obtain ⟨hc, he, hv⟩ := h
    refine .ask hc (.inl rfl) fun u _ => .act (truth_proper hc u) fun yes _ => ?_
    cases yes with
    | true => exact .ask he (.inl rfl) fun v hv => .same ⟨hc, he, hv⟩ (.inl rfl) rfl
    | false => exact .act (.emit _) fun _ _ => .last (.pure hv)

/-! ## The whole run -/

theorem exec_proper {α : Type} {asks : (β : Type) → Task β → Prop} {R : α → Prop} {c : Script α}
    (hc : c.Proper Q asks R) (r : CallRule)
    {ev : Nat → ScopeId → {β : Type} → Task β → Run β}
    (hev : ∀ d s {β : Type} (u : Task β), u.Proper Q → (ev d s u).Proper Q F (u.Gets Q))
    (d : Nat) (s : ScopeId) : (c.exec r ev d s).Proper Q F R := by
  induction hc with
  | last h => exact h.weaken
  | act h _ ih => exact .bind h.weaken ih
  | ask h _ _ ih => exact .bind (hev d s _ h) ih
  | call he hf hvs => exact .bind (open?_proper he r d s _ hvs) fun l _ => hev (d + 1) l _ hf

/-- whatever fuel it gets, a proper task keeps to what is proper -/
theorem run_proper {α : Type} {t : Task α} (h : t.Proper Q) (r : CallRule) (n d : Nat)
    (s : ScopeId) : (t.run r n d s).Proper Q True (t.Gets Q) := by
  induction n generalizing d s α with
  | zero =>
    rw [run_zero]
    exact fun _ _ => trivial
  | succ n ih =>
    rw [run_succ]
    exact exec_proper (script_proper h s) r (fun d s _ u hu => ih hu d s) d s

theorem eval_proper {e : Expr} (h : e.Proper Q) (r : CallRule) (n d : Nat) (s : ScopeId) :
    (eval r n d s e).Proper Q True (Value.Proper Q) := run_proper (t := .tree e) h r n d s

/-! ## On the way -/

theorem Script.Leads.proper {α : Type} {asks : (β : Type) → Task β → Prop} {R : α → Prop}
    {sc : Scoping} {d k : Nat} {s : ScopeId} {c : Script α} {σ : State} {M : Moment}
    (h : c.Leads sc d s σ k M) (hc : c.Proper Q asks R) (hσ : σ.store.Holds (Value.Proper Q)) :
    M.task.Proper Q ∧ M.state.store.Holds (Value.Proper Q) := by
  induction h with
  | ask t rest σ =>
    cases hc with
    | ask ht _ _ => exact ⟨ht, hσ⟩
  | @rest α β t rest σ τ b k M before _ ih =>
    cases hc with
    | ask ht _ hrest =>
      obtain ⟨m, n, hrun⟩ := before
      have hend := run_proper ht ⟨sc, m⟩ n d s σ hσ
      rw [hrun] at hend
      exact ih (hrest b hend.1) hend.2
  | @act α β x rest σ τ b k M before _ ih =>
    cases hc with
    | act hx hrest =>
      have hend := hx σ hσ
      rw [before] at hend
      exact ih (hrest b hend.1) hend.2
  | @call p f vs σ τ l m opens =>
    cases hc with
    | call he hf hvs =>
      have hend : Outcome.Proper Q False (fun _ => True) _ := open?_proper he ⟨sc, m⟩ d s f hvs σ hσ
      rw [opens] at hend
      exact ⟨hf, hend.2⟩

/-- from a proper task every task that is begun is proper -/
theorem Moment.Reaches.proper {sc : Scoping} {M N : Moment} {k : Nat} (h : M.Reaches sc k N)
    (hM : M.task.Proper Q) (hσ : M.state.store.Holds (Value.Proper Q)) :
    N.task.Proper Q ∧ N.state.store.Holds (Value.Proper Q) := by
  induction h with
  | refl M => exact ⟨hM, hσ⟩
  | head first _ ih =>
    obtain ⟨htask, hstate⟩ := first.proper (script_proper hM _) hσ
    exact ih htask hstate

end Eval

end ExprShell
