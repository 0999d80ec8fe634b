import ExprShell.Proofs.Eval.Counter
import ExprShell.Proofs.Expr.Parts
import ExprShell.Proofs.Store.Names

/-!
# Invariants of an evaluation

An invariant says what holds of the values and the scopes that an evaluation deals with, in a world
that grows as scopes are made.  If the operators and the operations on the store keep to it, then so
does the evaluator; and it holds at every point that the evaluation comes to, whether it ends or
not.  This is proved here once for all invariants.

* `Invariant`          what holds, and the laws of it;
* `Run.Kept`           a run that keeps to it, however it ends;
* `Script.Kept`        so does every step of a script;
* `run_kept`           the evaluator keeps to every invariant;
* `Trail.kept`         and so does every moment it comes to.
-/

namespace ExprShell

/-- what holds in an evaluation under the rule `r` -/
structure Invariant (r : CallRule) where
  /-- what is known of the scopes -/
  World : Type
  /-- more is known -/
  le : World → World → Prop
  store : World → Store → Prop
  /-- scopes in which trees are evaluated -/
  scope : World → ScopeId → Prop
  value : World → Value → Prop
  /-- trees, and the scopes in which they are evaluated -/
  tree : World → ScopeId → Expr → Prop
  refl : ∀ W, le W W
  trans : ∀ {U V W}, le U V → le V W → le U W
  scope_mono : ∀ {W V s}, le W V → scope W s → scope V s
  value_mono : ∀ {W V v}, le W V → value W v → value V v
  tree_mono : ∀ {W V s e}, le W V → tree W s e → tree V s e
  int : ∀ W v, value W (.int v)
  absent : ∀ W, value W .absent
  literal : ∀ {W s t v}, tree W s (.number t) → Operators.literal t = .ok v → value W v
  binary : ∀ {W o v w u}, value W v → value W w → Operators.binary o v w = .ok u → value W u
  unary : ∀ {W o v u}, value W v → Operators.unary o v = .ok u → value W u
  /-- the counter of a loop -/
  counter : ∀ {W s t x a b c e} (y : Float), tree W s (.count t x a b c e) → value W (.double y)
  part : ∀ {W s e a}, tree W s e → a ∈ e.parts → tree W s a
  lookup : ∀ {W st s x v}, store W st → scope W s → st.lookup s x = some v → value W v
  set : ∀ {W st s v} (x : String), store W st → scope W s → value W v → store W (st.set s x v)
  /-- functions that are made -/
  func : ∀ {W s t x ps e}, scope W s → tree W s (.func t x ps e) →
    value W (.function ⟨x, ps, e, some s⟩)
  /-- functions that are called -/
  enter : ∀ {W st s f vs}, store W st → scope W s → value W (.function f) →
    (∀ v ∈ vs, value W v) →
    ∃ V, le W V ∧ store V (st.add (Eval.outer r s f) (Bindings.setAll [] f.params vs)) ∧
      scope V st.next ∧ tree V st.next f.body

variable {r : CallRule} (I : Invariant r)

/-- the run ended in a later world, with a result that has `R` or with an error -/
def Outcome.Kept {α : Type} (W : I.World) (R : I.World → α → Prop) : Outcome α → Prop
  | .done a τ => ∃ V, I.le W V ∧ I.store V τ.store ∧ R V a
  | .failed _ τ => ∃ V, I.le W V ∧ I.store V τ.store
  | .unfinished => True

namespace Run

def Kept {α : Type} (W : I.World) (R : I.World → α → Prop) (x : Run α) : Prop :=
  ∀ σ : State, I.store W σ.store → (x σ).Kept I W R

namespace Kept

variable {I} {α β : Type} {W : I.World} {R : I.World → α → Prop} {S : I.World → β → Prop}

theorem pure {a : α} (h : R W a) : Run.Kept I W R (Pure.pure a : Run α) :=
  fun _ hσ => ⟨W, I.refl W, hσ, h⟩

theorem fail (p : Position) (c : EvalError.Cause) : Run.Kept I W R (Run.fail p c : Run α) :=
  fun _ hσ => ⟨W, I.refl W, hσ⟩

theorem unfinished : Run.Kept I W R (Run.unfinished : Run α) := fun _ _ => trivial

theorem emit (e : Event) : Run.Kept I W (fun _ _ => True) (Run.emit e) :=
  fun _ hσ => ⟨W, I.refl W, hσ, trivial⟩

theorem bindName {s : ScopeId} (hs : I.scope W s) (x : String) {v : Value} (hv : I.value W v) :
    Run.Kept I W (fun _ _ => True) (Run.bindName s x v) :=
  fun _ hσ => ⟨W, I.refl W, I.set x hσ hs hv, trivial⟩

theorem bind {x : Run α} {f : α → Run β} (hx : Run.Kept I W R x)
    (hf : ∀ V, I.le W V → ∀ a, R V a → Run.Kept I V S (f a)) : Run.Kept I W S (x >>= f) := by
  intro σ hσ
  have h := hx σ hσ
  rw [bind_apply]
  generalize x σ = o at h
  cases o with
  | done a τ =>
    obtain ⟨V, hV, hτ, ha⟩ := h
    have hnext := hf V hV a ha τ hτ
    show (f a τ).Kept I W S
    generalize f a τ = o at hnext
    cases o with
    | done b υ =>
      obtain ⟨U, hU, hυ, hb⟩ := hnext
      exact ⟨U, I.trans hV hU, hυ, hb⟩
    | failed e υ =>
      obtain ⟨U, hU, hυ⟩ := hnext
      exact ⟨U, I.trans hV hU, hυ⟩
    | unfinished => trivial
  | failed e τ => exact h
  | unfinished => trivial

end Kept

end Run

namespace Eval

section
variable {I} {W : I.World} {s : ScopeId}

theorem settle_kept (place : EvalError.Cause → Position) {x : Except EvalError.Cause Value}
    (h : ∀ v, x = .ok v → I.value W v) : (settle place x).Kept I W I.value := by
  cases x with
  | ok v => exact .pure (h v rfl)
  | error c => exact .fail _ c

theorem truth_kept (e : Expr) (v : Value) : (truth e v).Kept I W fun _ _ => True := by
  unfold truth
  split
  · exact .pure trivial
  · exact .fail _ _

theorem bound_kept (e : Expr) (v : Value) : (bound e v).Kept I W fun _ _ => True := by
  unfold bound
  split
  · exact .pure trivial
  · exact .fail _ _

theorem read_kept (hs : I.scope W s) (p : Position) (x : String) :
    (read s p x).Kept I W I.value := by
  have hlookup : (Run.lookup s x).Kept I W fun V o => ∀ v ∈ o, I.value V v :=
    fun σ hσ => ⟨W, I.refl W, hσ, fun v hv => I.lookup hσ hs hv⟩
  refine .bind hlookup fun V _ o ho => ?_
  cases o with
  | none => exact .fail _ _
  | some v => exact .pure (ho v rfl)

theorem define_kept (hs : I.scope W s) {f : Function} (hf : I.value W (.function f)) :
    (define s f).Kept I W I.value := by
  unfold define
  split
  · exact .bind (.bindName hs f.name hf) fun V hV _ _ => .pure (I.value_mono hV hf)
  · exact .pure hf

/-- the body of a function that is called can be evaluated in the new scope -/
theorem open?_kept (hs : I.scope W s) {f : Function} (hf : I.value W (.function f))
    {vs : List Value} (hvs : ∀ v ∈ vs, I.value W v) (d : Nat) (p : Position) :
    (open? r d s p f vs).Kept I W fun V l => I.scope V l ∧ I.tree V l f.body := by
  unfold open?
  split
  · exact .fail _ _
  · split
    · exact .fail _ _
    · intro σ hσ
      exact I.enter hσ hs hf hvs

end

/-! ## Tasks -/

/-- the trees and the values of a task keep to the invariant -/
def Task.Held {α : Type} (W : I.World) (s : ScopeId) : Task α → Prop
  | .tree e => I.tree W s e
  | .stepOf e => I.tree W s e
  | .args es => ∀ e ∈ es, I.tree W s e
  | .branches bs e => (∀ b ∈ bs, I.tree W s b.1 ∧ I.tree W s b.2) ∧ I.tree W s e
  | .count _ e _ _ _ v _ => I.tree W s e ∧ I.value W v ∧ ∀ y, I.value W (.double y)
  | .test c e v _ => I.tree W s c ∧ I.tree W s e ∧ I.value W v

def Task.Yields {α : Type} (W : I.World) : Task α → α → Prop
  | .tree _ => I.value W
  | .stepOf _ => fun _ => True
  | .args _ => fun vs => ∀ v ∈ vs, I.value W v
  | .branches _ _ => I.value W
  | .count _ _ _ _ _ _ _ => I.value W
  | .test _ _ _ _ => I.value W

/-- a script in the scope `s` that keeps to the invariant and ends with a result that has `R` -/
inductive Script.Kept (s : ScopeId) :
    {α : Type} → I.World → (I.World → α → Prop) → Script α → Prop
  | last {α : Type} {W : I.World} {R : I.World → α → Prop} {x : Run α} (h : x.Kept I W R) :
    Kept s W R (.last x)
  | act {α β : Type} {W : I.World} {R : I.World → α → Prop} {S : I.World → β → Prop} {x : Run β}
    {rest : β → Script α} (h : x.Kept I W S)
    (hrest : ∀ V, I.le W V → ∀ b, S V b → Kept s V R (rest b)) : Kept s W R (.act x rest)
  | ask {α β : Type} {W : I.World} {R : I.World → α → Prop} {t : Task β} {rest : β → Script α}
    (h : t.Held I W s) (hrest : ∀ V, I.le W V → ∀ b, t.Yields I V b → Kept s V R (rest b)) :
    Kept s W R (.ask t rest)
  | call {W : I.World} {p : Position} {f : Function} {vs : List Value}
    (hf : I.value W (.function f)) (hvs : ∀ v ∈ vs, I.value W v) :
    Kept s W I.value (.call p f vs)

variable {I} {W : I.World} {s : ScopeId}

theorem Script.Kept.same {α : Type} {R : I.World → α → Prop} {t : Task α} (h : t.Held I W s)
    (hR : ∀ V, t.Yields I V = R V) : (Script.same t).Kept I s W R :=
  .ask h fun V _ _ ha => .last (.pure (hR V ▸ ha))

theorem Script.Kept.of_ask {α β : Type} {R : I.World → α → Prop} {t : Task β}
    {rest : β → Script α} (h : (Script.ask t rest).Kept I s W R) : t.Held I W s := by
  cases h with
  | ask ht _ => exact ht

theorem Script.Kept.of_call {R : I.World → Value → Prop} {p : Position} {f : Function}
    {vs : List Value} (h : (Script.call p f vs).Kept I s W R) :
    I.value W (.function f) ∧ ∀ v ∈ vs, I.value W v := by
  cases h with
  | call hf hvs => exact ⟨hf, hvs⟩

/-! ## One step -/

theorem treeScript_kept (hs : I.scope W s) {e : Expr} (h : I.tree W s e) :
    (treeScript s e).Kept I s W I.value := by
  have part : ∀ {a : Expr}, a ∈ e.parts → ∀ {V}, I.le W V → I.tree V s a := fun ha _ hV =>
    I.tree_mono hV (I.part h ha)
  cases e with
  | absent => exact .last (.fail _ _)
  | number t => exact .last (settle_kept _ fun v hv => I.literal h hv)
  | var t x => exact .last (read_kept hs t.pos x)
  | assign t x e =>
    refine .ask (part (List.mem_singleton_self e) (I.refl W)) fun V hV v hv => ?_
    refine .act (.bindName (I.scope_mono hV hs) x hv) fun U hU _ _ => ?_
    exact .last (.pure (I.value_mono hU hv))
  | binary l o e =>
    refine .ask (part (by simp [Expr.parts, Expr.children]) (I.refl W)) fun V hV v hv => ?_
    refine .ask (part (by simp [Expr.parts, Expr.children]) hV) fun U hU w hw => ?_
    exact .last (settle_kept _ fun u hu => I.binary (I.value_mono hU hv) hw hu)
  | unary o e =>
    refine .ask (part (List.mem_singleton_self e) (I.refl W)) fun V hV v hv => ?_
    exact .last (settle_kept _ fun u hu => I.unary hv hu)
  | cond t bs e =>
    refine .same ⟨fun b hb => ?_, part ?_ (I.refl W)⟩ fun _ => rfl
    · obtain ⟨htest, hbody⟩ := Expr.mem_children_cond (t := t) (e := e) hb
      exact ⟨part htest (I.refl W), part hbody (I.refl W)⟩
    · exact List.mem_append_right _ (List.mem_singleton_self e)
  | count t x a b c e =>
    refine .ask (part (by simp [Expr.parts, Expr.children]) (I.refl W)) fun W₁ h₁ v _ => ?_
    refine .act (bound_kept a v) fun W₂ h₂ start _ => ?_
    have hW₂ := I.trans h₁ h₂
    refine .ask (part (by simp [Expr.parts, Expr.children]) hW₂) fun W₃ h₃ w _ => ?_
    refine .act (bound_kept b w) fun W₄ h₄ stop _ => ?_
    have hW₄ := I.trans hW₂ (I.trans h₃ h₄)
    refine .ask (part (by simp [Expr.parts, Expr.children]) hW₄) fun W₅ h₅ step _ => ?_
    have hW₅ := I.trans hW₄ h₅
    refine .same ⟨part (by simp [Expr.parts, Expr.children]) hW₅, I.int W₅ 0, fun y => ?_⟩
      fun _ => rfl
    exact I.value_mono hW₅ (I.counter y h)
  | loop t c e =>
    exact .same ⟨part (by simp [Expr.parts, Expr.children]) (I.refl W),
      part (by simp [Expr.parts, Expr.children]) (I.refl W), I.int W 0⟩ fun _ => rfl
  | func t x ps e => exact .last (define_kept hs (I.func hs h))
  | call t f as =>
    refine .ask (part (by simp [Expr.parts, Expr.children]) (I.refl W)) fun V hV v hv => ?_
    cases v with
    | function g =>
      refine .ask (fun a ha => part (by simp [Expr.parts, Expr.children, ha]) hV) ?_
      exact fun U hU vs hvs => .call (I.value_mono hU hv) hvs
    | int _ => exact .last (.fail _ _)
    | double _ => exact .last (.fail _ _)
    | absent => exact .last (.fail _ _)

/-- **One step.**  What is done for a task keeps to the invariant. -/
theorem script_kept {α : Type} (hs : I.scope W s) {t : Task α} (h : t.Held I W s) :
    (t.script s).Kept I s W (t.Yields I) := by
  cases t with
  | tree e => exact treeScript_kept hs h
  | stepOf e =>
    cases e <;> first
      | exact .last (.pure trivial)
      | exact .ask h fun _ _ v _ => .last (bound_kept _ v)
  | args es =>
    cases es with
    | nil => exact .last (.pure (List.forall_mem_nil _))
    | cons a as =>
      obtain ⟨ha, has⟩ := List.forall_mem_cons.mp h
      refine .ask ha fun V hV v hv => ?_
      refine .ask (fun a ha => I.tree_mono hV (has a ha)) fun U hU vs hvs => ?_
      exact .last (.pure (List.forall_mem_cons.mpr ⟨I.value_mono hU hv, hvs⟩))
  | branches bs e =>
    obtain ⟨hbs, he⟩ := h
    cases bs with
    | nil =>
      cases e <;> first
        | exact .last (.pure (I.absent W))
        | exact .same he fun _ => rfl
    | cons b bs =>
      obtain ⟨c, b⟩ := b
      obtain ⟨⟨hc, hb⟩, hbs⟩ := List.forall_mem_cons.mp hbs
      refine .ask hc fun V hV v _ => .act (truth_kept c v) fun U hU yes _ => ?_
      have hWU := I.trans hV hU
      cases yes with
      | true => exact .same (I.tree_mono hWU hb) fun _ => rfl
      | false =>
        refine .same ⟨fun b hb => ?_, I.tree_mono hWU he⟩ fun _ => rfl
        exact ⟨I.tree_mono hWU (hbs b hb).1, I.tree_mono hWU (hbs b hb).2⟩
  | count x e stop step cur v k =>
    obtain ⟨he, hv, hdouble⟩ := h
    rw [Task.script]
    split
    · refine .act (.bindName hs x (hdouble cur)) fun V hV _ _ => ?_
      refine .ask (I.tree_mono hV he) fun U hU v hv => ?_
      have hWU := I.trans hV hU
      exact .same ⟨I.tree_mono hWU he, hv, fun y => I.value_mono hWU (hdouble y)⟩ fun _ => rfl
    · exact .act (.emit _) fun V hV _ _ => .last (.pure (I.value_mono hV hv))
  | test c e v k =>
    obtain ⟨hc, he, hv⟩ := h
    refine .ask hc fun V hV w _ => .act (truth_kept c w) fun U hU yes _ => ?_
    have hWU := I.trans hV hU
    cases yes with
    | true =>
      refine .ask (I.tree_mono hWU he) fun T hT v hv => ?_
      have hWT := I.trans hWU hT
      exact .same ⟨I.tree_mono hWT hc, I.tree_mono hWT he, hv⟩ fun _ => rfl
    | false =>
      refine .act (.emit _) fun T hT _ _ => .last (.pure (I.value_mono (I.trans hWU hT) hv))

/-! ## The whole run -/

theorem exec_kept {α : Type} {R : I.World → α → Prop} {c : Script α} (hc : c.Kept I s W R)
    (hs : I.scope W s) {ev : Nat → ScopeId → {β : Type} → Task β → Run β}
    (hev : ∀ d s V {β : Type} (t : Task β), I.scope V s → t.Held I V s →
      (ev d s t).Kept I V (t.Yields I)) (d : Nat) : (c.exec r ev d s).Kept I W R := by
  induction hc with
  | last h => exact h
  | act h _ ih => exact .bind h fun V hV b hb => ih V hV b hb (I.scope_mono hV hs)
  | ask h _ ih =>
    exact .bind (hev d s _ _ hs h) fun V hV b hb => ih V hV b hb (I.scope_mono hV hs)
  | call hf hvs =>
    exact .bind (open?_kept hs hf hvs d _) fun V _ l hl => hev (d + 1) l V _ hl.1 hl.2

/-- **The whole run.**  Whatever fuel it gets, a task keeps to the invariant. -/
theorem run_kept {α : Type} (hs : I.scope W s) {t : Task α} (h : t.Held I W s) (n d : Nat) :
    (t.run r n d s).Kept I W (t.Yields I) := by
  induction n generalizing W d s α with
  | zero =>
    rw [run_zero]
    exact .unfinished
  | succ n ih =>
    rw [run_succ]
    exact exec_kept (script_kept hs h) hs (fun d s V _ t hs ht => ih hs ht d) d

theorem eval_kept (hs : I.scope W s) {e : Expr} (h : I.tree W s e) (n d : Nat) :
    (eval r n d s e).Kept I W I.value := run_kept (t := .tree e) hs h n d

/-! ## On the way -/

theorem Script.Passes.kept {α : Type} {R : I.World → α → Prop} {c c' : Script α} {k j : Nat}
    {σ τ : State} (h : c.Passes r s k σ c' j τ) (hc : c.Kept I s W R) (hs : I.scope W s)
    (hσ : I.store W σ.store) :
    ∃ V, I.le W V ∧ I.store V τ.store ∧ c'.Kept I s V R := by
  induction h generalizing W with
  | here => exact ⟨W, I.refl W, hσ, hc⟩
  | act before _ ih =>
    cases hc with
    | act hx hrest =>
      have hend := hx _ hσ
      rw [before] at hend
      obtain ⟨V, hV, hτ, hb⟩ := hend
      obtain ⟨U, hU, hυ, hc'⟩ := ih (hrest V hV _ hb) (I.scope_mono hV hs) hτ
      exact ⟨U, I.trans hV hU, hυ, hc'⟩
  | @ask β t rest n k i j σ τ υ b c' before _ ih =>
    cases hc with
    | ask ht hrest =>
      rw [counted_eq] at before
      have hrun : t.run r n k s σ = .done b τ := congrArg Prod.fst before
      have hend := run_kept hs ht n k σ hσ
      rw [hrun] at hend
      obtain ⟨V, hV, hτ, hb⟩ := hend
      obtain ⟨U, hU, hυ, hc'⟩ := ih (hrest V hV _ hb) (I.scope_mono hV hs) hτ
      exact ⟨U, I.trans hV hU, hυ, hc'⟩

theorem opened_kept (hs : I.scope W s) {p : Position} {f : Function} {vs : List Value}
    {l : ScopeId} {k j : Nat} {σ τ : State} (h : opened r s p f vs k σ = (.done l τ, j))
    (hf : I.value W (.function f)) (hvs : ∀ v ∈ vs, I.value W v) (hσ : I.store W σ.store) :
    ∃ V, I.le W V ∧ I.store V τ.store ∧ I.scope V l ∧ I.tree V l f.body := by
  obtain ⟨-, -, rfl, rfl⟩ := lt_of_opened h
  exact I.enter hσ hs hf hvs

/-- the invariant holds at every moment that the evaluation comes to -/
theorem Moment.Trail.kept {M N : Moment} {ls : List ScopeId} (h : M.Trail r ls N)
    (hs : I.scope W M.scope) (hM : M.task.Held I W M.scope) (hσ : I.store W M.state.store) :
    ∃ V, I.le W V ∧ I.store V N.state.store ∧ I.scope V N.scope ∧ N.task.Held I V N.scope := by
  induction h with
  | start => exact ⟨W, I.refl W, hσ, hs, hM⟩
  | ask _ passes ih =>
    obtain ⟨V, hV, hstore, hscope, htask⟩ := ih
    obtain ⟨U, hU, hτ, hc⟩ := passes.kept (script_kept hscope htask) hscope hstore
    exact ⟨U, I.trans hV hU, hτ, I.scope_mono hU hscope, hc.of_ask⟩
  | call _ passes opens ih =>
    obtain ⟨V, hV, hstore, hscope, htask⟩ := ih
    obtain ⟨U, hU, hτ, hc⟩ := passes.kept (script_kept hscope htask) hscope hstore
    obtain ⟨hf, hvs⟩ := hc.of_call
    obtain ⟨T, hT, hυ, hl, hbody⟩ := opened_kept (I.scope_mono hU hscope) opens hf hvs hτ
    exact ⟨T, I.trans hV (I.trans hU hT), hυ, hl, hbody⟩

theorem Moment.Calls.kept {M : Moment} {ls : List ScopeId} {k : Nat} {s : ScopeId} {p : Position}
    {f : Function} {vs : List Value} {σ : State} (h : M.Calls r ls k s p f vs σ)
    (hs : I.scope W M.scope) (hM : M.task.Held I W M.scope) (hσ : I.store W M.state.store) :
    ∃ V, I.le W V ∧ I.store V σ.store ∧ I.value V (.function f) ∧ ∀ v ∈ vs, I.value V v := by
  obtain ⟨d, t, ρ, trail, passes⟩ := h
  obtain ⟨V, hV, hstore, hscope, htask⟩ := trail.kept hs hM hσ
  obtain ⟨U, hU, hτ, hc⟩ := passes.kept (script_kept hscope htask) hscope hstore
  exact ⟨U, I.trans hV hU, hτ, hc.of_call⟩

/-- the evaluation comes from the moment `M` to the state `σ` -/
def Moment.Meets (r : CallRule) (M : Moment) (σ : State) : Prop :=
  ∃ ls N c k, M.Trail r ls N ∧ (N.task.script N.scope).Passes r N.scope N.depth N.state c k σ

theorem Moment.Meets.kept {M : Moment} {σ : State} (h : M.Meets r σ) (hs : I.scope W M.scope)
    (hM : M.task.Held I W M.scope) (hσ : I.store W M.state.store) :
    ∃ V, I.le W V ∧ I.store V σ.store := by
  obtain ⟨ls, N, c, k, trail, passes⟩ := h
  obtain ⟨V, hV, hstore, hscope, htask⟩ := trail.kept hs hM hσ
  obtain ⟨U, hU, hτ, -⟩ := passes.kept (script_kept hscope htask) hscope hstore
  exact ⟨U, I.trans hV hU, hτ⟩

end Eval

end ExprShell
