import Mathlib.Data.List.Forall2
import ExprShell.Eval
import ExprShell.Proofs.Eval.Operators

/-!
# Two evaluations side by side

Two evaluators that differ in their trees, in their stores or in the way calls are made do the same,
step by step, if what they compare stays related at every single step.  A comparison says what is
related in a world, which grows as scopes are made, and that the operations on the store keep it so;
that the two evaluations then end alike is proved here once for all comparisons.

* `Expr.Layer`         two trees that agree in their outermost layer;
* `Comparison`         what is related, and the laws of it;
* `Run.Agree`          two runs that end alike from related states;
* `Comparison.agree`   the evaluator, in every comparison.
-/

namespace ExprShell

/-- two trees agree in their outermost layer: names that are read and written are allowed, and the
trees below are related, but for the bodies of functions -/
inductive Expr.Layer (reads writes : String → Prop) (R : Expr → Expr → Prop) : Expr → Expr → Prop
  | absent : Layer reads writes R .absent .absent
  | number {t t' : Token} (h : Operators.literal t = Operators.literal t') :
    Layer reads writes R (.number t) (.number t')
  | var {t t' : Token} {x : String} (hx : reads x) : Layer reads writes R (.var t x) (.var t' x)
  | assign {t t' : Token} {x : String} {e e' : Expr} (hx : writes x) (he : R e e') :
    Layer reads writes R (.assign t x e) (.assign t' x e')
  | binary {o o' : Token} {l l' e e' : Expr} (ho : Operators.binary o = Operators.binary o')
    (hl : R l l') (he : R e e') : Layer reads writes R (.binary l o e) (.binary l' o' e')
  | unary {o o' : Token} {e e' : Expr} (ho : Operators.unary o = Operators.unary o')
    (he : R e e') : Layer reads writes R (.unary o e) (.unary o' e')
  | cond {t t' : Token} {bs bs' : List (Expr × Expr)} {e e' : Expr}
    (hbs : List.Forall₂ (fun b b' => R b.1 b'.1 ∧ R b.2 b'.2) bs bs') (he : R e e') :
    Layer reads writes R (.cond t bs e) (.cond t' bs' e')
  | count {t t' : Token} {x : String} {a a' b b' s s' e e' : Expr} (hx : writes x) (ha : R a a')
    (hb : R b b') (hs : R s s') (he : R e e') :
    Layer reads writes R (.count t x a b s e) (.count t' x a' b' s' e')
  | loop {t t' : Token} {c c' e e' : Expr} (hc : R c c') (he : R e e') :
    Layer reads writes R (.loop t c e) (.loop t' c' e')
  | func {t t' : Token} {x : String} {ps : List String} {e e' : Expr} (hx : x ≠ "" → writes x) :
    Layer reads writes R (.func t x ps e) (.func t' x ps e')
  | call {t t' : Token} {f f' : Expr} {as as' : List Expr} (hf : R f f')
    (has : List.Forall₂ R as as') : Layer reads writes R (.call t f as) (.call t' f' as')

theorem Expr.Layer.refl {reads writes : String → Prop} {R : Expr → Expr → Prop}
    (hreads : ∀ x, reads x) (hwrites : ∀ x, writes x) (hR : ∀ e, R e e) (e : Expr) :
    e.Layer reads writes R e := by
  cases e with
  | absent => exact .absent
  | number t => exact .number rfl
  | var t x => exact .var (hreads x)
  | assign t x e => exact .assign (hwrites x) (hR e)
  | binary l o e => exact .binary rfl (hR l) (hR e)
  | unary o e => exact .unary rfl (hR e)
  | cond t bs e => exact .cond (List.forall₂_same.mpr fun b _ => ⟨hR b.1, hR b.2⟩) (hR e)
  | count t x a b s e => exact .count (hwrites x) (hR a) (hR b) (hR s) (hR e)
  | loop t c e => exact .loop (hR c) (hR e)
  | func t x ps e => exact .func fun _ => hwrites x
  | call t f as => exact .call (hR f) (List.forall₂_same.mpr fun a _ => hR a)

/-- what is related in two evaluations, under the rules `r` and `r'` -/
structure Comparison (r r' : CallRule) where
  /-- what is known of the scopes -/
  World : Type
  /-- more is known -/
  le : World → World → Prop
  store : World → Store → Store → Prop
  value : World → Value → Value → Prop
  /-- trees, and the scopes in which they are evaluated -/
  tree : World → ScopeId → ScopeId → Expr → Expr → Prop
  /-- names that may be read and written -/
  reads : World → ScopeId → ScopeId → String → Prop
  writes : World → ScopeId → ScopeId → String → Prop
  /-- the places of errors -/
  place : Position → Position → Prop
  refl : ∀ W, le W W
  trans : ∀ {U V W}, le U V → le V W → le U W
  value_mono : ∀ {W V v v'}, le W V → value W v v' → value V v v'
  tree_mono : ∀ {W V s t e e'}, le W V → tree W s t e e' → tree V s t e e'
  writes_mono : ∀ {W V s t x}, le W V → writes W s t x → writes V s t x
  int : ∀ W v, value W (.int v) (.int v)
  double : ∀ W x, value W (.double x) (.double x)
  absent : ∀ W, value W .absent .absent
  alike : ∀ {W v v'}, value W v v' → v.Alike v'
  pos : ∀ {W s t e e'}, tree W s t e e' → place e.pos e'.pos
  layer : ∀ {W s t e e'}, tree W s t e e' → e.Layer (reads W s t) (writes W s t) (tree W s t) e'
  lookup : ∀ {W a a' s t x}, store W a a' → reads W s t x →
    Option.Rel (value W) (a.lookup s x) (a'.lookup t x)
  set : ∀ {W a a' s t x v v'}, store W a a' → writes W s t x → value W v v' →
    store W (a.set s x v) (a'.set t x v')
  /-- functions that are made -/
  func : ∀ {W s t k k' x ps e e'}, tree W s t (.func k x ps e) (.func k' x ps e') →
    value W (.function ⟨x, ps, e, some s⟩) (.function ⟨x, ps, e', some t⟩)
  /-- functions that are called, from the trees `e` and `e'` -/
  enter : ∀ {W a a' s t e e' f f' vs vs'}, store W a a' → tree W s t e e' →
    value W (.function f) (.function f') → List.Forall₂ (value W) vs vs' →
    vs.length = f.params.length →
    ∃ V, le W V ∧
      store V (a.add (Eval.outer r s f) (Bindings.setAll [] f.params vs))
        (a'.add (Eval.outer r' t f') (Bindings.setAll [] f'.params vs')) ∧
      tree V a.next a'.next f.body f'.body

variable {r r' : CallRule} (C : Comparison r r')

structure Comparison.State (W : C.World) (σ τ : ExprShell.State) : Prop where
  store : C.store W σ.store τ.store
  events : σ.events = τ.events

/-- the same ending: results related by `R`, or the same cause in related places -/
inductive Outcome.Agree {α β : Type} (W : C.World) (R : C.World → α → β → Prop) :
    Outcome α → Outcome β → Prop
  | done {V : C.World} {a : α} {b : β} {σ τ : State} (le : C.le W V) (state : C.State V σ τ)
    (result : R V a b) : Agree W R (.done a σ) (.done b τ)
  | failed {V : C.World} {p q : Position} {c : EvalError.Cause} {σ τ : State} (le : C.le W V)
    (state : C.State V σ τ) (place : C.place p q) :
    Agree W R (.failed ⟨p, c⟩ σ) (.failed ⟨q, c⟩ τ)
  | unfinished : Agree W R .unfinished .unfinished

namespace Run

/-- two runs that end alike from states related in `W` -/
def Agree {α β : Type} (W : C.World) (R : C.World → α → β → Prop) (x : Run α) (y : Run β) : Prop :=
  ∀ σ τ, C.State W σ τ → Outcome.Agree C W R (x σ) (y τ)

namespace Agree

variable {C} {α β γ δ : Type} {W : C.World} {R : C.World → α → β → Prop}
  {Q : C.World → γ → δ → Prop}

theorem pure {a : α} {b : β} (h : R W a b) :
    Run.Agree C W R (Pure.pure a : Run α) (Pure.pure b : Run β) :=
  fun _ _ hσ => .done (C.refl W) hσ h

theorem fail {p q : Position} (h : C.place p q) (c : EvalError.Cause) :
    Run.Agree C W R (Run.fail p c : Run α) (Run.fail q c : Run β) :=
  fun _ _ hσ => .failed (C.refl W) hσ h

theorem unfinished : Run.Agree C W R (Run.unfinished : Run α) (Run.unfinished : Run β) :=
  fun _ _ _ => .unfinished

theorem lookup {s t : ScopeId} {x : String} (hx : C.reads W s t x) :
    Run.Agree C W (fun V => Option.Rel (C.value V)) (Run.lookup s x) (Run.lookup t x) :=
  fun _ _ hσ => .done (C.refl W) hσ (C.lookup hσ.store hx)

theorem emit (e : Event) : Run.Agree C W (fun _ => Eq) (Run.emit e) (Run.emit e) := by
  intro σ τ hσ
  exact .done (C.refl W) ⟨hσ.store, congrArg (·.push e) hσ.events⟩ rfl

theorem bindName {s t : ScopeId} {x : String} (hx : C.writes W s t x) {v w : Value}
    (hv : C.value W v w) :
    Run.Agree C W (fun _ => Eq) (Run.bindName s x v) (Run.bindName t x w) :=
  fun _ _ hσ => .done (C.refl W) ⟨C.set hσ.store hx hv, hσ.events⟩ rfl

theorem bind {x : Run α} {y : Run β} {f : α → Run γ} {g : β → Run δ} (hx : Run.Agree C W R x y)
    (hf : ∀ V, C.le W V → ∀ a b, R V a b → Run.Agree C V Q (f a) (g b)) :
    Run.Agree C W Q (x >>= f) (y >>= g) := by
  intro σ τ hσ
  have h := hx σ τ hσ
  rw [bind_apply, bind_apply]
  generalize x σ = ox, y τ = oy at h
  cases h with
  | done le state result =>
    have h₂ := hf _ le _ _ result _ _ state
    dsimp only
    generalize f _ _ = of, g _ _ = og at h₂
    cases h₂ with
    | done le₂ state₂ result₂ => exact .done (C.trans le le₂) state₂ result₂
    | failed le₂ state₂ place => exact .failed (C.trans le le₂) state₂ place
    | unfinished => exact .unfinished
  | failed le state place => exact .failed le state place
  | unfinished => exact .unfinished

end Agree

end Run

namespace Eval

open Run (Agree)

section
variable {C} {W : C.World} {v w : Value} {s t : ScopeId} {e e' : Expr}

theorem settle_agree {place place' : EvalError.Cause → Position}
    (hplace : ∀ c, C.place (place c) (place' c)) {x : Except EvalError.Cause Value}
    (hx : Operators.Settled x) : Agree C W C.value (settle place x) (settle place' x) := by
  cases hx with
  | int v => exact .pure (C.int W v)
  | double x => exact .pure (C.double W x)
  | @error c h => exact .fail (hplace c) c

theorem binaryPlace_agree {l l' : Expr} (hl : C.place l.pos l'.pos) (he : C.place e.pos e'.pos)
    (c : EvalError.Cause) : C.place (binaryPlace l e c) (binaryPlace l' e' c) := by
  cases c with
  | divisionByZero => exact he
  | _ => exact hl

theorem truth_agree (he : C.place e.pos e'.pos) (h : C.value W v w) :
    Agree C W (fun _ => Eq) (truth e v) (truth e' w) := by
  have hvw := C.alike h
  rw [truth, truth, hvw.truth?_eq, hvw.kind_eq]
  split
  · exact .pure rfl
  · exact .fail he _

theorem bound_agree (he : C.place e.pos e'.pos) (h : C.value W v w) :
    Agree C W (fun _ => Eq) (bound e v) (bound e' w) := by
  have hvw := C.alike h
  rw [bound, bound, hvw.toFloat?_eq, hvw.kind_eq]
  split
  · exact .pure rfl
  · exact .fail he _

theorem read_agree {p q : Position} (hp : C.place p q) {x : String} (hx : C.reads W s t x) :
    Agree C W C.value (read s p x) (read t q x) := by
  refine .bind (.lookup hx) fun V _ o o' ho => ?_
  cases ho with
  | some hv => exact .pure hv
  | none => exact .fail hp _

theorem define_agree {x : String} {ps : List String} {i j : Option ScopeId}
    (hx : x ≠ "" → C.writes W s t x)
    (hf : C.value W (.function ⟨x, ps, e, i⟩) (.function ⟨x, ps, e', j⟩)) :
    Agree C W C.value (define s ⟨x, ps, e, i⟩) (define t ⟨x, ps, e', j⟩) := by
  unfold define
  by_cases hne : x ≠ ""
  · rw [if_pos hne, if_pos hne]
    exact .bind (.bindName (hx hne) hf) fun V hV _ _ _ => .pure (C.value_mono hV hf)
  · rw [if_neg hne, if_neg hne]
    exact .pure hf

/-- calls are made alike, if the bodies are related in the new scopes -/
theorem open?_agree (hlimit : r.limit = r'.limit) (d : Nat) {p q : Position} (hp : C.place p q)
    {f f' : Function} (hf : C.value W (.function f) (.function f')) {vs vs' : List Value}
    (hvs : List.Forall₂ (C.value W) vs vs')
    (henter : ∀ {a a'}, C.store W a a' → vs.length = f.params.length → ∃ V, C.le W V ∧
      C.store V (a.add (outer r s f) (Bindings.setAll [] f.params vs))
        (a'.add (outer r' t f') (Bindings.setAll [] f'.params vs')) ∧
      C.tree V a.next a'.next f.body f'.body) :
    Agree C W (fun V l l' => C.tree V l l' f.body f'.body) (open? r d s p f vs)
      (open? r' d t q f' vs') := by
  have hlen : vs.length = vs'.length := hvs.length_eq
  obtain ⟨hparams, htext⟩ : f.params = f'.params ∧ f.text = f'.text := by
    have halike := C.alike hf
    have htext : f.text = f'.text := halike.text_eq
    cases halike with
    | function _ params => exact ⟨params, htext⟩
  unfold open?
  rw [← hlen, ← hparams, ← htext, ← hlimit]
  split
  · exact .fail hp _
  · next harity =>
    split
    · exact .fail hp _
    · intro σ τ hσ
      obtain ⟨V, hV, hstore, hbody⟩ := henter hσ.store (not_not.mp harity)
      rw [← hparams] at hstore
      refine .done hV ⟨hstore, ?_⟩ hbody
      show σ.events.push _ = τ.events.push _
      rw [hσ.events]

end

/-- with `n` units of fuel all functions of the evaluator end alike on what is related -/
structure AllAgree (n : Nat) : Prop where
  tree : ∀ W d s t e e', C.tree W s t e e' →
    Agree C W C.value (eval r n d s e) (eval r' n d t e')
  step : ∀ W d s t e e', C.tree W s t e e' →
    Agree C W (fun _ => Eq) (stepOf r n d s e) (stepOf r' n d t e')
  list : ∀ W d s t es es', List.Forall₂ (C.tree W s t) es es' →
    Agree C W (fun V => List.Forall₂ (C.value V)) (args r n d s es) (args r' n d t es')
  branch : ∀ W d s t bs bs' e e',
    List.Forall₂ (fun b b' => C.tree W s t b.1 b'.1 ∧ C.tree W s t b.2 b'.2) bs bs' →
    C.tree W s t e e' →
    Agree C W C.value (branches r n d s bs e) (branches r' n d t bs' e')
  count : ∀ W d s t x e e' stop step cur v w k, C.writes W s t x → C.tree W s t e e' →
    C.value W v w →
    Agree C W C.value (countLoop r n d s x e stop step cur v k)
      (countLoop r' n d t x e' stop step cur w k)
  test : ∀ W d s t c c' e e' v w k, C.tree W s t c c' → C.tree W s t e e' → C.value W v w →
    Agree C W C.value (testLoop r n d s c e v k) (testLoop r' n d t c' e' w k)

namespace AllAgree

variable {C} {n : Nat} {W : C.World} {s t : ScopeId}

theorem tree_call (ih : AllAgree C n) (hlimit : r.limit = r'.limit) (d : Nat) {k k' : Token}
    {f f' : Expr} {as as' : List Expr} (he : C.tree W s t (.call k f as) (.call k' f' as'))
    (hf : C.tree W s t f f') (has : List.Forall₂ (C.tree W s t) as as') :
    Agree C W C.value (eval r (n + 1) d s (.call k f as))
      (eval r' (n + 1) d t (.call k' f' as')) := by
  rw [eval, eval]
  refine .bind (ih.tree W d s t f f' hf) fun V hV v w hv => ?_
  have halike := C.alike hv
  cases halike with
  | int _ => exact .fail (C.pos hf) _
  | double _ => exact .fail (C.pos hf) _
  | absent => exact .fail (C.pos hf) _
  | function _ _ =>
    have hasV : List.Forall₂ (C.tree V s t) as as' := has.imp fun _ _ ha => C.tree_mono hV ha
    refine .bind (ih.list V d s t as as' hasV) fun U hU vs ws hvs => ?_
    have heU := C.tree_mono (C.trans hV hU) he
    have hvU := C.value_mono hU hv
    have hopen := open?_agree hlimit d (C.pos hf) hvU hvs fun hst => C.enter hst heU hvU hvs
    refine .bind hopen fun T _ l l' hbody => ?_
    exact ih.tree T (d + 1) l l' _ _ hbody

theorem tree_count (ih : AllAgree C n) (d : Nat) {k k' : Token} {x : String}
    {a a' b b' st st' e e' : Expr} (hx : C.writes W s t x) (ha : C.tree W s t a a')
    (hb : C.tree W s t b b') (hst : C.tree W s t st st') (he : C.tree W s t e e') :
    Agree C W C.value (eval r (n + 1) d s (.count k x a b st e))
      (eval r' (n + 1) d t (.count k' x a' b' st' e')) := by
  rw [eval, eval]
  refine .bind (ih.tree W d s t a a' ha) fun W₁ h₁ v v' hv => ?_
  refine .bind (bound_agree (C.pos ha) hv) fun W₂ h₂ start _ hstart => ?_
  have hW₂ := C.trans h₁ h₂
  refine .bind (ih.tree W₂ d s t b b' (C.tree_mono hW₂ hb)) fun W₃ h₃ w w' hw => ?_
  refine .bind (bound_agree (C.pos hb) hw) fun W₄ h₄ stop _ hstop => ?_
  have hW₄ := C.trans hW₂ (C.trans h₃ h₄)
  refine .bind (ih.step W₄ d s t st st' (C.tree_mono hW₄ hst)) fun W₅ h₅ step _ hstep => ?_
  have hW₅ := C.trans hW₄ h₅
  cases hstart
  cases hstop
  cases hstep
  exact ih.count W₅ d s t x e e' stop step start _ _ 0 (C.writes_mono hW₅ hx)
    (C.tree_mono hW₅ he) (C.int W₅ 0)

theorem eval_succ (ih : AllAgree C n) (hlimit : r.limit = r'.limit) (W : C.World) (d : Nat)
    (s t : ScopeId) (e e' : Expr) (h : C.tree W s t e e') :
    Agree C W C.value (eval r (n + 1) d s e) (eval r' (n + 1) d t e') := by
  have hpos := C.pos h
  have hlayer := C.layer h
  cases hlayer with
  | absent =>
    rw [eval, eval]
    exact .fail hpos _
  | @number k k' hk =>
    rw [eval, eval, hk]
    exact settle_agree (fun _ => hpos) (Operators.literal_settled k')
  | var hx =>
    rw [eval, eval]
    exact read_agree hpos hx
  | @assign _ _ x e e' hx he =>
    rw [eval, eval]
    refine .bind (ih.tree W d s t e e' he) fun V hV v w hv => ?_
    exact .bind (.bindName (C.writes_mono hV hx) hv) fun U hU _ _ _ => .pure (C.value_mono hU hv)
  | @binary o o' l l' e e' ho hl he =>
    rw [eval, eval]
    refine .bind (ih.tree W d s t l l' hl) fun V hV v v' hv => ?_
    refine .bind (ih.tree V d s t e e' (C.tree_mono hV he)) fun U hU w w' hw => ?_
    rw [ho, Operators.binary_alike o' (C.alike hv) (C.alike hw)]
    exact settle_agree (binaryPlace_agree (C.pos hl) (C.pos he)) (Operators.binary_settled _ _ _)
  | @unary o o' e e' ho he =>
    rw [eval, eval]
    refine .bind (ih.tree W d s t e e' he) fun V hV v v' hv => ?_
    rw [ho, Operators.unary_alike o' (C.alike hv)]
    exact settle_agree (fun _ => hpos) (Operators.unary_settled _ _)
  | @cond _ _ bs bs' e e' hbs he =>
    rw [eval, eval]
    exact ih.branch W d s t bs bs' e e' hbs he
  | count hx ha hb hs he => exact ih.tree_count d hx ha hb hs he
  | @loop _ _ c c' e e' hc he =>
    rw [eval, eval]
    exact ih.test W d s t c c' e e' _ _ 0 hc he (C.int W 0)
  | func hx =>
    rw [eval, eval]
    exact define_agree hx (C.func h)
  | call hf has => exact ih.tree_call hlimit d h hf has

theorem stepOf_succ (ih : AllAgree C n) (W : C.World) (d : Nat) (s t : ScopeId) (e e' : Expr)
    (h : C.tree W s t e e') :
    Agree C W (fun _ => Eq) (stepOf r (n + 1) d s e) (stepOf r' (n + 1) d t e') := by
  have hrun := Agree.bind (ih.tree W d s t e e' h) fun V _ v w hv =>
    bound_agree (C.pos h) hv
  have hlayer := C.layer h
  cases hlayer with
  | absent => exact .pure rfl
  | _ => exact hrun

theorem args_succ (ih : AllAgree C n) (W : C.World) (d : Nat) (s t : ScopeId)
    (es es' : List Expr) (h : List.Forall₂ (C.tree W s t) es es') :
    Agree C W (fun V => List.Forall₂ (C.value V)) (args r (n + 1) d s es)
      (args r' (n + 1) d t es') := by
  cases h with
  | nil =>
    rw [args, args]
    exact .pure .nil
  | @cons a a' as as' ha has =>
    rw [args, args]
    refine .bind (ih.tree W d s t a a' ha) fun V hV v w hv => ?_
    have hasV : List.Forall₂ (C.tree V s t) as as' := has.imp fun _ _ ha => C.tree_mono hV ha
    refine .bind (ih.list V d s t as as' hasV) fun U hU vs ws hvs => ?_
    exact .pure (.cons (C.value_mono hU hv) hvs)

theorem branches_succ (ih : AllAgree C n) (W : C.World) (d : Nat) (s t : ScopeId)
    (bs bs' : List (Expr × Expr)) (e e' : Expr)
    (hbs : List.Forall₂ (fun b b' => C.tree W s t b.1 b'.1 ∧ C.tree W s t b.2 b'.2) bs bs')
    (he : C.tree W s t e e') :
    Agree C W C.value (branches r (n + 1) d s bs e) (branches r' (n + 1) d t bs' e') := by
  cases hbs with
  | nil =>
    have hrun := ih.tree W d s t e e' he
    have hlayer := C.layer he
    cases hlayer with
    | absent => exact .pure (C.absent W)
    | _ => exact hrun
  | @cons b b' bs bs' hb hbs =>
    obtain ⟨c, b⟩ := b
    obtain ⟨c', b'⟩ := b'
    obtain ⟨hc, hb⟩ := hb
    rw [branches, branches]
    refine .bind (ih.tree W d s t c c' hc) fun V hV v w hv => ?_
    refine .bind (truth_agree (C.pos hc) hv) fun U hU yes yes' hyes => ?_
    have hWU := C.trans hV hU
    cases hyes
    cases yes with
    | true => exact ih.tree U d s t b b' (C.tree_mono hWU hb)
    | false =>
      refine ih.branch U d s t bs bs' e e' (hbs.imp fun _ _ hb => ?_) (C.tree_mono hWU he)
      exact ⟨C.tree_mono hWU hb.1, C.tree_mono hWU hb.2⟩

theorem countLoop_succ (ih : AllAgree C n) (W : C.World) (d : Nat) (s t : ScopeId) (x : String)
    (e e' : Expr) (stop step cur : Float) (v w : Value) (k : Nat) (hx : C.writes W s t x)
    (he : C.tree W s t e e') (hv : C.value W v w) :
    Agree C W C.value (countLoop r (n + 1) d s x e stop step cur v k)
      (countLoop r' (n + 1) d t x e' stop step cur w k) := by
  rw [countLoop, countLoop]
  split
  · refine .bind (.bindName hx (C.double W cur)) fun V hV _ _ _ => ?_
    refine .bind (ih.tree V d s t e e' (C.tree_mono hV he)) fun U hU v' w' hv' => ?_
    have hWU := C.trans hV hU
    exact ih.count U d s t x e e' stop step (cur + step) v' w' (k + 1) (C.writes_mono hWU hx)
      (C.tree_mono hWU he) hv'
  · exact .bind (.emit _) fun V hV _ _ _ => .pure (C.value_mono hV hv)

theorem testLoop_succ (ih : AllAgree C n) (W : C.World) (d : Nat) (s t : ScopeId)
    (c c' e e' : Expr) (v w : Value) (k : Nat) (hc : C.tree W s t c c') (he : C.tree W s t e e')
    (hv : C.value W v w) :
    Agree C W C.value (testLoop r (n + 1) d s c e v k) (testLoop r' (n + 1) d t c' e' w k) := by
  rw [testLoop, testLoop]
  refine .bind (ih.tree W d s t c c' hc) fun V hV u u' hu => ?_
  refine .bind (truth_agree (C.pos hc) hu) fun U hU yes yes' hyes => ?_
  have hWU := C.trans hV hU
  cases hyes
  cases yes with
  | true =>
    refine .bind (ih.tree U d s t e e' (C.tree_mono hWU he)) fun T hT v' w' hv' => ?_
    have hWT := C.trans hWU hT
    exact ih.test T d s t c c' e e' v' w' (k + 1) (C.tree_mono hWT hc) (C.tree_mono hWT he) hv'
  | false =>
    exact .bind (.emit _) fun T hT _ _ _ => .pure (C.value_mono (C.trans hWU hT) hv)

theorem zero : AllAgree C 0 where
  tree _ _ _ _ _ _ _ := by rw [eval, eval]; exact .unfinished
  step _ _ _ _ _ _ _ := by rw [stepOf, stepOf]; exact .unfinished
  list _ _ _ _ _ _ _ := by rw [args, args]; exact .unfinished
  branch _ _ _ _ _ _ _ _ _ _ := by rw [branches, branches]; exact .unfinished
  count _ _ _ _ _ _ _ _ _ _ _ _ _ _ _ _ := by rw [countLoop, countLoop]; exact .unfinished
  test _ _ _ _ _ _ _ _ _ _ _ _ _ _ := by rw [testLoop, testLoop]; exact .unfinished

theorem succ (ih : AllAgree C n) (hlimit : r.limit = r'.limit) : AllAgree C (n + 1) :=
  ⟨ih.eval_succ hlimit, ih.stepOf_succ, ih.args_succ, ih.branches_succ, ih.countLoop_succ,
    ih.testLoop_succ⟩

end AllAgree

end Eval

/-- whatever fuel they get, two evaluators with the same limit end alike on what is related -/
theorem Comparison.agree (hlimit : r.limit = r'.limit) (n : Nat) : Eval.AllAgree C n := by
  -- all six functions at once; each calls the others with one unit of fuel less
  induction n with
  | zero => exact .zero
  | succ n ih => exact ih.succ hlimit

end ExprShell
