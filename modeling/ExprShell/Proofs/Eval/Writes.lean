import ExprShell.Eval

/-!
# What an evaluation writes

An evaluation stands in one scope.  It may bind names there, and it may make new scopes; to every
other scope that was there before it does nothing.  In its own scope it binds only the names that
the expression assigns outside the bodies of its functions, because a body runs in a scope made for
the call.

* `Expr.targets`        the names that an expression assigns outside the bodies of its functions;
* `Confined s X`        a store that came from another by new scopes and by binding names of `X`
                        in the scope `s`;
* `Run.StaysIn s X`     a run that changes the store no further than that, however it ends;
* `Eval.AllStay`        what holds of all six functions of the evaluator at one amount of fuel.

The step is one amount of fuel (`AllStay.succ`), the run is the induction on it (`allStay`).
-/

namespace ExprShell

namespace Expr

mutual

/-- the names that an expression assigns outside the bodies of its functions -/
def targets : Expr → List String
  | .absent => []
  | .number _ => []
  | .var _ _ => []
  | .assign _ x e => x :: e.targets
  | .binary l _ r => l.targets ++ r.targets
  | .unary _ e => e.targets
  | .cond _ bs e => branchTargets bs ++ e.targets
  | .count _ x a b s e => x :: (a.targets ++ (b.targets ++ (s.targets ++ e.targets)))
  | .loop _ c e => c.targets ++ e.targets
  | .func _ x _ _ => if x = "" then [] else [x]
  | .call _ f as => f.targets ++ argTargets as

def branchTargets : List (Expr × Expr) → List String
  | [] => []
  | (c, e) :: bs => c.targets ++ (e.targets ++ branchTargets bs)

def argTargets : List Expr → List String
  | [] => []
  | a :: as => a.targets ++ argTargets as

end

end Expr

/-! ## Stores -/

namespace Store

theorem bindings_eq {st : Store} {i : ScopeId} {f : Frame} (h : st.frames[i]? = some f) :
    st.bindings i = f.bindings := by rw [bindings, h]

theorem parent_eq {st : Store} {i : ScopeId} {f : Frame} (h : st.frames[i]? = some f) :
    st.parent i = f.parent := by rw [parent, h]; rfl

theorem lt_size {st : Store} {i : ScopeId} {f : Frame} (h : st.frames[i]? = some f) :
    i < st.frames.size := (Array.getElem?_eq_some_iff.mp h).1

end Store

/-- `after` came from `before` by new scopes and by binding names of `X` in the scope `s` -/
structure Confined (s : ScopeId) (X : List String) (before after : Store) : Prop where
  /-- no scope is lost -/
  grows : before.frames.size ≤ after.frames.size
  /-- the other scopes bind what they bound, and lie where they lay -/
  others : ∀ i, i < before.frames.size → i ≠ s → after.frames[i]? = before.frames[i]?
  /-- the scope itself stays where it lay -/
  parent : s < before.frames.size → after.parent s = before.parent s
  /-- and loses no name -/
  names : s < before.frames.size → ∀ x, ((before.bindings s).get? x).isSome →
    ((after.bindings s).get? x).isSome
  /-- the names outside `X` keep their values -/
  values : s < before.frames.size → ∀ x, x ∉ X →
    (after.bindings s).get? x = (before.bindings s).get? x

namespace Confined

variable {s l : ScopeId} {X Y : List String} {a b c : Store}

theorem of_same (hsize : a.frames.size ≤ b.frames.size)
    (hsame : ∀ i, i < a.frames.size → b.frames[i]? = a.frames[i]?) : Confined s X a b where
  grows := hsize
  others i hi _ := hsame i hi
  parent hs := by rw [Store.parent, hsame s hs, Store.parent]
  names hs x hx := by
    rw [Store.bindings, hsame s hs]
    exact hx
  values hs x _ := by rw [Store.bindings, hsame s hs, Store.bindings]

theorem refl : Confined s X a a := of_same (Nat.le_refl _) fun _ _ => rfl

theorem trans (h₁ : Confined s X a b) (h₂ : Confined s X b c) : Confined s X a c where
  grows := Nat.le_trans h₁.grows h₂.grows
  others i hi hne := (h₂.others i (Nat.lt_of_lt_of_le hi h₁.grows) hne).trans (h₁.others i hi hne)
  parent hs := (h₂.parent (Nat.lt_of_lt_of_le hs h₁.grows)).trans (h₁.parent hs)
  names hs x hx := h₂.names (Nat.lt_of_lt_of_le hs h₁.grows) x (h₁.names hs x hx)
  values hs x hx := (h₂.values (Nat.lt_of_lt_of_le hs h₁.grows) x hx).trans (h₁.values hs x hx)

theorem set {x : String} (v : Value) (hx : x ∈ X) : Confined s X a (a.set s x v) where
  grows := by simp [Store.set]
  others i _ hne := by simp [Store.set, Array.getElem?_modify, Ne.symm hne]
  parent _ := a.parent_set s s x v
  names hs y hy := by
    rw [Store.bindings_set_self _ _ _ hs]
    by_cases hxy : x = y
    · rw [← hxy, Bindings.get?_set_self]
      rfl
    · rw [Bindings.get?_set_of_ne _ _ hxy]
      exact hy
  values hs y hy := by
    have hxy : x ≠ y := fun h => hy (h ▸ hx)
    rw [Store.bindings_set_self _ _ _ hs, Bindings.get?_set_of_ne _ _ hxy]

/-- what is done in a scope that was not there before leaves every scope as it was -/
theorem frames_of_fresh {p : Option ScopeId} {bs : Bindings}
    (h : Confined a.next X (a.add p bs) b) (i : ScopeId) (hi : i < a.frames.size) :
    b.frames[i]? = a.frames[i]? := by
  have hadd : (a.add p bs).frames[i]? = a.frames[i]? := by
    rw [Store.add, Array.getElem?_push_lt hi, Array.getElem?_eq_getElem hi]
  have hlt : i < (a.add p bs).frames.size := by
    rw [Store.add, Array.size_push]
    exact Nat.lt_succ_of_lt hi
  rw [h.others i hlt (Nat.ne_of_lt hi), hadd]

theorem grows_of_fresh {p : Option ScopeId} {bs : Bindings}
    (h : Confined a.next X (a.add p bs) b) : a.frames.size ≤ b.frames.size := by
  have hsize := h.grows
  rw [Store.add, Array.size_push] at hsize
  omega

/-- putting back what the scope bound undoes everything -/
theorem frames_restore (h : Confined s X a b) (hs : s < a.frames.size) (i : ScopeId)
    (hi : i < a.frames.size) : (b.restore s (a.bindings s)).frames[i]? = a.frames[i]? := by
  rw [Store.restore, Array.getElem?_modify]
  by_cases hsi : s = i
  · subst hsi
    have hs' : s < b.frames.size := Nat.lt_of_lt_of_le hs h.grows
    have ha : a.frames[s]? = some a.frames[s] := Array.getElem?_eq_getElem hs
    have hb : b.frames[s]? = some b.frames[s] := Array.getElem?_eq_getElem hs'
    have hpar := h.parent hs
    rw [Store.parent_eq ha, Store.parent_eq hb] at hpar
    rw [if_pos rfl, ha, hb, Store.bindings_eq ha]
    simp only [Option.map_some, hpar]
  · rw [if_neg hsi]
    exact h.others i hi (Ne.symm hsi)

end Confined

/-! ## Runs -/

/-- the state in which a run ended, with a value or with an error -/
def Outcome.state? {α : Type} : Outcome α → Option State
  | .done _ σ => some σ
  | .failed _ σ => some σ
  | .unfinished => none

namespace Run

/-- however the run ends, it has bound only names of `X`, in the scope `s` -/
def StaysIn {α : Type} (s : ScopeId) (X : List String) (x : Run α) : Prop :=
  ∀ σ τ : State, (x σ).state? = some τ → Confined s X σ.store τ.store

namespace StaysIn

variable {α β : Type} {s : ScopeId} {X : List String}

theorem of_store {x : Run α} (h : ∀ σ τ, (x σ).state? = some τ → τ.store = σ.store) :
    StaysIn s X x := by
  intro σ τ hτ
  rw [h σ τ hτ]
  exact Confined.refl

theorem pure (a : α) : StaysIn s X (Pure.pure a : Run α) :=
  of_store fun _ _ h => by cases h; rfl

theorem fail (p : Position) (c : EvalError.Cause) : StaysIn s X (Run.fail p c : Run α) :=
  of_store fun _ _ h => by cases h; rfl

theorem unfinished : StaysIn s X (Run.unfinished : Run α) := fun _ _ h => by cases h

theorem lookup (l : ScopeId) (x : String) : StaysIn s X (Run.lookup l x) :=
  of_store fun _ _ h => by cases h; rfl

theorem emit (e : Event) : StaysIn s X (Run.emit e) :=
  of_store fun _ _ h => by cases h; rfl

theorem bindName {x : String} (v : Value) (hx : x ∈ X) : StaysIn s X (Run.bindName s x v) := by
  intro σ τ h
  cases h
  exact Confined.set v hx

theorem bind {x : Run α} {f : α → Run β} (hx : StaysIn s X x) (hf : ∀ a, StaysIn s X (f a)) :
    StaysIn s X (x >>= f) := by
  intro σ τ h
  cases hr : x σ with
  | done a τ₁ =>
    rw [bind_done hr] at h
    exact (hx σ τ₁ (by rw [hr]; rfl)).trans (hf a τ₁ τ h)
  | failed e τ₁ =>
    rw [bind_failed hr] at h
    have hτ : τ₁ = τ := Option.some.inj h
    exact hτ ▸ hx σ τ₁ (by rw [hr]; rfl)
  | unfinished =>
    rw [bind_unfinished hr] at h
    cases h

end StaysIn

end Run

/-! ## The evaluator -/

namespace Eval

open Run (StaysIn)

section
variable {s : ScopeId} {X : List String}

theorem staysIn_settle (place : EvalError.Cause → Position) (x : Except EvalError.Cause Value) :
    StaysIn s X (settle place x) := by
  cases x with
  | ok v => exact .pure v
  | error c => exact .fail _ c

theorem staysIn_truth (e : Expr) (v : Value) : StaysIn s X (truth e v) := by
  unfold truth
  split
  · exact .pure _
  · exact .fail _ _

theorem staysIn_bound (e : Expr) (v : Value) : StaysIn s X (bound e v) := by
  unfold bound
  split
  · exact .pure _
  · exact .fail _ _

theorem staysIn_read (l : ScopeId) (p : Position) (x : String) : StaysIn s X (read l p x) := by
  refine .bind (.lookup l x) fun o => ?_
  cases o with
  | none => exact .fail _ _
  | some v => exact .pure v

theorem staysIn_define (f : Function) (h : f.name ≠ "" → f.name ∈ X) :
    StaysIn s X (define s f) := by
  unfold define
  split
  · next hne => exact .bind (.bindName _ (h hne)) fun _ => .pure _
  · exact .bind (.pure _) fun _ => .pure _

end

/-- the scope of a call is new, and making it changes nothing else in the store -/
theorem open?_eq_done {r : CallRule} {d : Nat} {s l : ScopeId} {p : Position} {f : Function}
    {vs : List Value} {σ τ : State} (h : open? r d s p f vs σ = .done l τ) :
    l = σ.store.next ∧ ∃ q bs, τ.store = σ.store.add q bs := by
  unfold open? at h
  split at h
  · cases h
  · split at h
    · cases h
    · cases h
      exact ⟨rfl, _, _, rfl⟩

theorem open?_eq_failed {r : CallRule} {d : Nat} {s : ScopeId} {p : Position} {f : Function}
    {vs : List Value} {σ τ : State} {e : EvalError} (h : open? r d s p f vs σ = .failed e τ) :
    τ = σ := by
  unfold open? at h
  split at h
  · cases h
    rfl
  · split at h
    · cases h
      rfl
    · cases h

/-- a call, from the moment its scope is made, leaves every scope as it was -/
theorem frames_of_call {r : CallRule} {n d : Nat} {s : ScopeId} {p : Position} {f : Function}
    {vs : List Value} {σ τ : State}
    (hbody : ∀ l, StaysIn l f.body.targets (eval r n (d + 1) l f.body))
    (h : ((open? r d s p f vs >>= fun l => eval r n (d + 1) l f.body) σ).state? = some τ) :
    σ.store.frames.size ≤ τ.store.frames.size ∧
      ∀ i, i < σ.store.frames.size → τ.store.frames[i]? = σ.store.frames[i]? := by
  cases ho : open? r d s p f vs σ with
  | done l σ₁ =>
    rw [Run.bind_done ho] at h
    obtain ⟨hl, q, bs, hadd⟩ := open?_eq_done ho
    have hc := hbody l σ₁ τ h
    rw [hl, hadd] at hc
    exact ⟨hc.grows_of_fresh, hc.frames_of_fresh⟩
  | failed e σ₁ =>
    rw [Run.bind_failed ho] at h
    have hτ : σ₁ = τ := Option.some.inj h
    rw [← hτ, open?_eq_failed ho]
    exact ⟨Nat.le_refl _, fun _ _ => rfl⟩
  | unfinished =>
    rw [Run.bind_unfinished ho] at h
    cases h

/-- with `n` units of fuel all functions of the evaluator stay where they stand -/
structure AllStay (r : CallRule) (n : Nat) : Prop where
  tree : ∀ d s X e, e.targets ⊆ X → StaysIn s X (eval r n d s e)
  step : ∀ d s X e, e.targets ⊆ X → StaysIn s X (stepOf r n d s e)
  list : ∀ d s X es, Expr.argTargets es ⊆ X → StaysIn s X (args r n d s es)
  branch : ∀ d s X bs e, Expr.branchTargets bs ⊆ X → e.targets ⊆ X →
    StaysIn s X (branches r n d s bs e)
  count : ∀ d s X x e stop step cur v k, x ∈ X → e.targets ⊆ X →
    StaysIn s X (countLoop r n d s x e stop step cur v k)
  test : ∀ d s X c e v k, c.targets ⊆ X → e.targets ⊆ X →
    StaysIn s X (testLoop r n d s c e v k)

namespace AllStay

variable {r : CallRule} {n : Nat}

theorem call (ih : AllStay r n) (d : Nat) (s : ScopeId) (X : List String) (p : Position)
    (f : Function) (vs : List Value) :
    StaysIn s X (open? r d s p f vs >>= fun l => eval r n (d + 1) l f.body) := by
  intro σ τ h
  obtain ⟨hsize, hsame⟩ :=
    frames_of_call (fun l => ih.tree (d + 1) l f.body.targets f.body (List.Subset.refl _)) h
  exact Confined.of_same hsize hsame

theorem eval_succ (ih : AllStay r n) (d : Nat) (s : ScopeId) (X : List String) (e : Expr)
    (h : e.targets ⊆ X) : StaysIn s X (eval r (n + 1) d s e) := by
  cases e with
  | absent =>
    rw [eval]
    exact .fail _ _
  | number t =>
    rw [eval]
    exact staysIn_settle _ _
  | var t x =>
    rw [eval]
    exact staysIn_read _ _ _
  | assign t x e =>
    rw [Expr.targets, List.cons_subset] at h
    rw [eval]
    exact .bind (ih.tree d s X e h.2) fun v => .bind (.bindName v h.1) fun _ => .pure v
  | binary l op e =>
    rw [Expr.targets, List.append_subset] at h
    rw [eval]
    exact .bind (ih.tree d s X l h.1) fun _ => .bind (ih.tree d s X e h.2) fun _ =>
      staysIn_settle _ _
  | unary op e =>
    rw [Expr.targets] at h
    rw [eval]
    exact .bind (ih.tree d s X e h) fun _ => staysIn_settle _ _
  | cond t bs e =>
    rw [Expr.targets, List.append_subset] at h
    rw [eval]
    exact ih.branch d s X bs e h.1 h.2
  | count t x a b st e =>
    simp only [Expr.targets, List.cons_subset, List.append_subset] at h
    obtain ⟨hx, ha, hb, hst, he⟩ := h
    rw [eval]
    refine .bind (ih.tree d s X a ha) fun v => .bind (staysIn_bound a v) fun start => ?_
    refine .bind (ih.tree d s X b hb) fun w => .bind (staysIn_bound b w) fun stop => ?_
    exact .bind (ih.step d s X st hst) fun step => ih.count d s X x e stop step start _ _ hx he
  | loop t c e =>
    rw [Expr.targets, List.append_subset] at h
    rw [eval]
    exact ih.test d s X c e _ _ h.1 h.2
  | func t x ps e =>
    rw [eval]
    refine staysIn_define ⟨x, ps, e, some s⟩ fun hx => ?_
    rw [Expr.targets, if_neg hx] at h
    exact h (List.mem_singleton_self x)
  | call t f as =>
    rw [Expr.targets, List.append_subset] at h
    rw [eval]
    refine .bind (ih.tree d s X f h.1) fun v => ?_
    cases v with
    -- the targets of the body of `g` are not among `X`, which is why `ih.call` asks nothing of them
    | function g => exact .bind (ih.list d s X as h.2) fun vs => ih.call d s X f.pos g vs
    | int _ => exact .fail _ _
    | double _ => exact .fail _ _
    | absent => exact .fail _ _

theorem stepOf_succ (ih : AllStay r n) (d : Nat) (s : ScopeId) (X : List String) (e : Expr)
    (h : e.targets ⊆ X) : StaysIn s X (stepOf r (n + 1) d s e) := by
  by_cases he : e = .absent
  · rw [he, stepOf]
    exact .pure _
  · rw [stepOf]
    · exact .bind (ih.tree d s X e h) fun v => staysIn_bound e v
    · exact he

theorem args_succ (ih : AllStay r n) (d : Nat) (s : ScopeId) (X : List String) (es : List Expr)
    (h : Expr.argTargets es ⊆ X) : StaysIn s X (args r (n + 1) d s es) := by
  cases es with
  | nil =>
    rw [args]
    exact .pure _
  | cons a as =>
    rw [Expr.argTargets, List.append_subset] at h
    rw [args]
    exact .bind (ih.tree d s X a h.1) fun _ => .bind (ih.list d s X as h.2) fun _ => .pure _

theorem branches_succ (ih : AllStay r n) (d : Nat) (s : ScopeId) (X : List String)
    (bs : List (Expr × Expr)) (e : Expr) (hbs : Expr.branchTargets bs ⊆ X) (he : e.targets ⊆ X) :
    StaysIn s X (branches r (n + 1) d s bs e) := by
  cases bs with
  | nil =>
    by_cases ha : e = .absent
    · rw [ha, branches]
      exact .pure _
    · rw [branches]
      · exact ih.tree d s X e he
      · exact ha
  | cons b bs =>
    obtain ⟨c, b⟩ := b
    simp only [Expr.branchTargets, List.append_subset] at hbs
    obtain ⟨hc, hb, hrest⟩ := hbs
    rw [branches]
    refine .bind (ih.tree d s X c hc) fun v => .bind (staysIn_truth c v) fun t => ?_
    cases t with
    | true => exact ih.tree d s X b hb
    | false => exact ih.branch d s X bs e hrest he

theorem countLoop_succ (ih : AllStay r n) (d : Nat) (s : ScopeId) (X : List String) (x : String)
    (e : Expr) (stop step cur : Float) (v : Value) (k : Nat) (hx : x ∈ X) (he : e.targets ⊆ X) :
    StaysIn s X (countLoop r (n + 1) d s x e stop step cur v k) := by
  rw [countLoop]
  split
  · exact .bind (.bindName _ hx) fun _ => .bind (ih.tree d s X e he) fun w =>
      ih.count d s X x e stop step (cur + step) w (k + 1) hx he
  · exact .bind (.emit _) fun _ => .pure v

theorem testLoop_succ (ih : AllStay r n) (d : Nat) (s : ScopeId) (X : List String) (c e : Expr)
    (v : Value) (k : Nat) (hc : c.targets ⊆ X) (he : e.targets ⊆ X) :
    StaysIn s X (testLoop r (n + 1) d s c e v k) := by
  rw [testLoop]
  refine .bind (ih.tree d s X c hc) fun t => .bind (staysIn_truth c t) fun b => ?_
  cases b with
  | true =>
    exact .bind (ih.tree d s X e he) fun w => ih.test d s X c e w (k + 1) hc he
  | false => exact .bind (.emit _) fun _ => .pure v

theorem succ (ih : AllStay r n) : AllStay r (n + 1) :=
  ⟨ih.eval_succ, ih.stepOf_succ, ih.args_succ, ih.branches_succ, ih.countLoop_succ,
    ih.testLoop_succ⟩

theorem zero : AllStay r 0 where
  tree _ _ _ _ _ := by rw [eval]; exact .unfinished
  step _ _ _ _ _ := by rw [stepOf]; exact .unfinished
  list _ _ _ _ _ := by rw [args]; exact .unfinished
  branch _ _ _ _ _ _ _ := by rw [branches]; exact .unfinished
  count _ _ _ _ _ _ _ _ _ _ _ _ := by rw [countLoop]; exact .unfinished
  test _ _ _ _ _ _ _ _ _ := by rw [testLoop]; exact .unfinished

end AllStay

/-- whatever fuel it gets, the evaluator stays where it stands -/
theorem allStay (r : CallRule) (n : Nat) : AllStay r n := by
  induction n with
  | zero => exact .zero
  | succ n ih => exact ih.succ

theorem eval_stays (r : CallRule) (n d : Nat) (s : ScopeId) (e : Expr) :
    StaysIn s e.targets (eval r n d s e) :=
  (allStay r n).tree d s e.targets e (List.Subset.refl _)

/-- **An evaluation writes only where it stands.**  However it ends, every other scope binds what it
bound and lies where it lay; its own scope stays in its place, loses no name, and keeps the value of
every name that the expression does not assign.  A call, once its arguments are there, changes no
scope at all that was there before. -/
theorem eval_confined (r : CallRule) (n d : Nat) (s : ScopeId) (e : Expr) (σ : State) :
    (∀ τ, (eval r n d s e σ).state? = some τ → Confined s e.targets σ.store τ.store) ∧
      ∀ p f vs τ, ((open? r d s p f vs >>= fun l => eval r n (d + 1) l f.body) σ).state? = some τ →
        ∀ i, i < σ.store.frames.size → τ.store.frames[i]? = σ.store.frames[i]? := by
  constructor
  · intro τ h
    exact (allStay r n).tree d s e.targets e (List.Subset.refl _) σ τ h
  · intro p f vs τ h
    have hbody : ∀ l, StaysIn l f.body.targets (eval r n (d + 1) l f.body) := fun l =>
      (allStay r n).tree (d + 1) l f.body.targets f.body (List.Subset.refl _)
    exact (frames_of_call hbody h).2

/-- a named function whose body assigns `y`, called in a scope that binds `y`: the scope gets the
name of the function, and its `y` is the one it had -/
theorem eval_confined_named_call :
    ∃ τ, (eval ⟨.dynamic, 3⟩ 9 0 0
        (.call Token.missing (.func Token.missing "f" []
          (.assign Token.missing "y" (.func Token.missing "" [] .absent))) [])
        ⟨⟨#[⟨[("y", .absent)], none⟩]⟩, #[]⟩).state? = some τ ∧
      τ.store.frames.size = 2 ∧ Confined 0 ["f"] ⟨#[⟨[("y", .absent)], none⟩]⟩ τ.store := by
  have h := eval_confined ⟨.dynamic, 3⟩ 9 0 0
    (.call Token.missing (.func Token.missing "f" []
      (.assign Token.missing "y" (.func Token.missing "" [] .absent))) [])
    ⟨⟨#[⟨[("y", .absent)], none⟩]⟩, #[]⟩
  refine ⟨_, rfl, rfl, ?_⟩
  exact h.1 _ rfl

end Eval

end ExprShell
