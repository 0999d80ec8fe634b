import ExprShell.Proofs.Eval.Depth

/-!
# The counter of active calls

The evaluator is told how many calls are active.  Instead it could keep one counter, raised before
a body is entered and lowered when the body is left, in whatever way it is left.  It would then do
the same, and would leave the counter as it found it.

With such a counter an evaluation can be followed from task to task, and from call to call.  The
scopes of the bodies that are entered on the way, and not left, are written down as a list, which
the counter knows nothing of; still it always says how long this list is.

* `Counted`          a run that reads and changes a counter;
* `Task.counted`     the evaluator with a counter;
* `counted_eq`       it is the evaluator, and the counter is what it was;
* `Script.Passes`    from a script to a later point of it;
* `Moment.Trail`     from a moment to a later one, with the scopes of the bodies that lie between;
* `Moment.Calls`     from a moment to a call.
-/

namespace ExprShell

def Counted (α : Type) := Nat → State → Outcome α × Nat

namespace Counted

variable {α β : Type}

/-- one run after another; an error or an unfinished run ends it, with the counter as it is then -/
def andThen (x : Counted α) (f : α → Counted β) : Counted β := fun k σ =>
  match x k σ with
  | (.done a τ, j) => f a j τ
  | (.failed e τ, j) => (.failed e τ, j)
  | (.unfinished, j) => (.unfinished, j)

instance : Monad Counted where
  pure a := fun k σ => (.done a σ, k)
  bind := andThen

def lift (x : Run α) : Counted α := fun k σ => (x σ, k)

def read : Counted Nat := fun k σ => (.done k σ, k)

def raise : Counted Unit := fun k σ => (.done () σ, k + 1)

/-- lowers the counter when the run has ended, in whatever way -/
def lowering (x : Counted α) : Counted α := fun k σ => ((x k σ).1, (x k σ).2 - 1)

/-- the counted run does the same as one that is told the counter, and leaves the counter alone -/
def Mirrors (x : Counted α) (y : Nat → Run α) : Prop := ∀ k σ, x k σ = (y k σ, k)

theorem Mirrors.lift (x : Run α) : (lift x).Mirrors fun _ => x := fun _ _ => rfl

theorem Mirrors.bind {x : Counted α} {y : Nat → Run α} {f : α → Counted β} {g : Nat → α → Run β}
    (hx : x.Mirrors y) (hf : ∀ a, (f a).Mirrors fun k => g k a) :
    (x >>= f).Mirrors fun k => y k >>= g k := by
  intro k σ
  show andThen x f k σ = ((y k >>= g k) σ, k)
  rw [andThen, hx, Run.bind_apply]
  cases y k σ with
  | done a τ => exact hf a k τ
  | failed e τ => rfl
  | unfinished => rfl

end Counted

namespace Eval

open Counted

/-! ## The evaluator with a counter -/

/-- the scope of a call, if the call can be made; the counter is raised before the body is
entered -/
def opened (r : CallRule) (s : ScopeId) (p : Position) (f : Function) (vs : List Value) :
    Counted ScopeId := do
  if vs.length ≠ f.params.length then
    lift (Run.fail p (.arity f.text f.params.length vs.length))
  else if r.limit ≤ (← Counted.read) then
    lift (Run.fail p (.callDepth r.limit))
  else do
    raise
    let l ← lift (Run.enter (outer r s f) (Bindings.setAll [] f.params vs))
    lift (Run.emit (.called f.text vs.length (← Counted.read)))
    return l

def Script.counted {α : Type} (r : CallRule) (ev : ScopeId → {β : Type} → Task β → Counted β)
    (s : ScopeId) : Script α → Counted α
  | .last x => lift x
  | .act x rest => lift x >>= fun b => (rest b).counted r ev s
  | .ask t rest => ev s t >>= fun b => (rest b).counted r ev s
  | .call p f vs => opened r s p f vs >>= fun l => lowering (ev l (.tree f.body))

def Task.counted (r : CallRule) : Nat → ScopeId → {α : Type} → Task α → Counted α
  | 0, _, _, _ => lift Run.unfinished
  | n + 1, s, _, t => (t.script s).counted r (fun s _ t => Task.counted r n s t) s

section
variable {r : CallRule} {s : ScopeId} {p : Position} {f : Function} {vs : List Value}

theorem opened_arity (h : vs.length ≠ f.params.length) (k : Nat) (σ : State) :
    opened r s p f vs k σ =
      (.failed ⟨p, .arity f.text f.params.length vs.length⟩ σ, k) := by
  unfold opened
  rw [if_pos h]
  rfl

/-- a call that is too deep is refused, and nothing is changed -/
theorem opened_refused (h : vs.length = f.params.length) {k : Nat} (hk : r.limit ≤ k) (σ : State) :
    opened r s p f vs k σ = (.failed ⟨p, .callDepth r.limit⟩ σ, k) := by
  unfold opened
  rw [if_neg (not_not_intro h)]
  show (if r.limit ≤ k then _ else _ : Counted ScopeId) k σ = _
  rw [if_pos hk]
  rfl

/-- any other call with the right number of arguments is made; the event has the new counter -/
theorem opened_done (h : vs.length = f.params.length) {k : Nat} (hk : k < r.limit) (σ : State) :
    opened r s p f vs k σ = (.done σ.store.next
      ⟨σ.store.add (outer r s f) (Bindings.setAll [] f.params vs),
        σ.events.push (.called f.text vs.length (k + 1))⟩, k + 1) := by
  unfold opened
  rw [if_neg (not_not_intro h)]
  show (if r.limit ≤ k then _ else _ : Counted ScopeId) k σ = _
  rw [if_neg (Nat.not_le_of_lt hk)]
  rfl

theorem opened_of_open? {k : Nat} {σ τ : State} {l : ScopeId}
    (h : open? r k s p f vs σ = .done l τ) : opened r s p f vs k σ = (.done l τ, k + 1) := by
  unfold open? at h
  split at h
  · cases h
  · next harity =>
    split at h
    · cases h
    · next hk =>
      cases h
      exact opened_done (Decidable.not_not.mp harity) (Nat.lt_of_not_le hk) σ

theorem call_mirrors {α : Type} {x : ScopeId → Counted α} {y : Nat → ScopeId → Run α}
    (hx : ∀ l, (x l).Mirrors fun k => y k l) :
    (opened r s p f vs >>= fun l => lowering (x l)).Mirrors fun k =>
      open? r k s p f vs >>= fun l => y (k + 1) l := by
  intro k σ
  show andThen _ _ k σ = ((open? r k s p f vs >>= fun l => y (k + 1) l) σ, k)
  rw [andThen, Run.bind_apply]
  unfold open?
  by_cases harity : vs.length = f.params.length
  · rw [if_neg (not_not_intro harity)]
    by_cases hk : r.limit ≤ k
    · rw [opened_refused harity hk, if_pos hk]
      rfl
    · rw [opened_done harity (Nat.lt_of_not_le hk), if_neg hk]
      show lowering (x _) (k + 1) _ = (y (k + 1) _ _, k)
      rw [lowering, hx]
      rfl
  · rw [opened_arity harity, if_pos harity]
    rfl

end

theorem script_mirrors {α : Type} {r : CallRule} {s : ScopeId} (c : Script α)
    {ev : ScopeId → {β : Type} → Task β → Counted β}
    {run : Nat → ScopeId → {β : Type} → Task β → Run β}
    (hev : ∀ s {β : Type} (t : Task β), (ev s t).Mirrors fun k => run k s t) :
    (c.counted r ev s).Mirrors fun k => c.exec r run k s := by
  induction c with
  | last x => exact .lift x
  | act x rest ih => exact .bind (.lift x) ih
  | ask t rest ih => exact .bind (hev s t) ih
  | call p f vs => exact call_mirrors fun l => hev l (.tree f.body)

/-- **The evaluator with a counter is the evaluator**, and leaves the counter as it found it. -/
theorem counted_eq {α : Type} (r : CallRule) (n : Nat) (s : ScopeId) (t : Task α) (k : Nat)
    (σ : State) : t.counted r n s k σ = (t.run r n k s σ, k) := by
  have h : (t.counted r n s).Mirrors fun k => t.run r n k s := by
    induction n generalizing s α with
    | zero =>
      simp only [run_zero]
      exact .lift _
    | succ n ih =>
      simp only [run_succ]
      exact script_mirrors (t.script s) fun s _ t => ih s t
  exact h k σ

/-! ## Following an evaluation -/

/-- goes by a script in the scope `s` to a later point of it; counter and state go along -/
inductive Script.Passes (r : CallRule) (s : ScopeId) {α : Type} :
    Script α → Nat → State → Script α → Nat → State → Prop
  | here (c : Script α) (k : Nat) (σ : State) : Passes r s c k σ c k σ
  | act {β : Type} {x : Run β} {rest : β → Script α} {k j : Nat} {σ τ υ : State} {b : β}
    {c : Script α} (before : x σ = .done b τ) (after : Passes r s (rest b) k τ c j υ) :
    Passes r s (.act x rest) k σ c j υ
  | ask {β : Type} {t : Task β} {rest : β → Script α} {n k i j : Nat} {σ τ υ : State} {b : β}
    {c : Script α} (before : t.counted r n s k σ = (.done b τ, i))
    (after : Passes r s (rest b) i τ c j υ) : Passes r s (.ask t rest) k σ c j υ

namespace Moment

/-- the evaluation comes from the moment `M` to another; `ls` are the scopes of the bodies that were
entered on the way and not left, the innermost first -/
inductive Trail (r : CallRule) (M : Moment) : List ScopeId → Moment → Prop
  | start : Trail r M [] M
  | ask {ls : List ScopeId} {N : Moment} {β : Type} {t : Task β} {rest : β → Script N.result}
    {k : Nat} {σ : State} (trail : Trail r M ls N)
    (passes : (N.task.script N.scope).Passes r N.scope N.depth N.state (.ask t rest) k σ) :
    Trail r M ls ⟨k, N.scope, t, σ⟩
  | call {ls : List ScopeId} {d k j : Nat} {s l : ScopeId} {t : Task Value} {ρ σ τ : State}
    {p : Position} {f : Function} {vs : List Value} (trail : Trail r M ls ⟨d, s, t, ρ⟩)
    (passes : (t.script s).Passes r s d ρ (.call p f vs) k σ)
    (opens : opened r s p f vs k σ = (.done l τ, j)) :
    Trail r M (l :: ls) ⟨j, l, .tree f.body, τ⟩

/-- the evaluation comes from the moment `M`, into the bodies with the scopes `ls`, to a call: the
counter is `k`, and in the scope `s` the function `f` is called with the arguments `vs` -/
def Calls (r : CallRule) (M : Moment) (ls : List ScopeId) (k : Nat) (s : ScopeId) (p : Position)
    (f : Function) (vs : List Value) (σ : State) : Prop :=
  ∃ (d : Nat) (t : Task Value) (ρ : State), M.Trail r ls ⟨d, s, t, ρ⟩ ∧
    (t.script s).Passes r s d ρ (.call p f vs) k σ

end Moment

/-- what is done in one scope leaves the counter alone -/
theorem Script.Passes.counter_eq {α : Type} {r : CallRule} {s : ScopeId} {c c' : Script α}
    {k j : Nat} {σ τ : State} (h : c.Passes r s k σ c' j τ) : j = k := by
  induction h with
  | here => rfl
  | act _ _ ih => exact ih
  | ask before _ ih =>
    rw [counted_eq] at before
    rw [ih]
    exact (congrArg Prod.snd before).symm

/-- a call that is made had a counter below the limit, and raises it -/
theorem lt_of_opened {r : CallRule} {s l : ScopeId} {p : Position} {f : Function} {vs : List Value}
    {k j : Nat} {σ τ : State} (h : opened r s p f vs k σ = (.done l τ, j)) :
    k < r.limit ∧ j = k + 1 ∧ l = σ.store.next ∧
      τ = ⟨σ.store.add (outer r s f) (Bindings.setAll [] f.params vs),
        σ.events.push (.called f.text vs.length j)⟩ := by
  by_cases harity : vs.length = f.params.length
  · by_cases hk : r.limit ≤ k
    · rw [opened_refused harity hk] at h
      cases h
    · rw [opened_done harity (Nat.lt_of_not_le hk)] at h
      cases h
      exact ⟨Nat.lt_of_not_le hk, rfl, rfl, rfl⟩
  · rw [opened_arity harity] at h
    cases h

/-- the counter says how many bodies were entered, and never exceeds the limit -/
theorem Moment.Trail.depth_eq {r : CallRule} {M N : Moment} {ls : List ScopeId}
    (h : M.Trail r ls N) (hM : M.depth ≤ r.limit) :
    N.depth = M.depth + ls.length ∧ N.depth ≤ r.limit := by
  induction h with
  | start => exact ⟨rfl, hM⟩
  | ask _ passes ih =>
    obtain rfl := passes.counter_eq
    exact ih
  | call _ passes opens ih =>
    obtain rfl := passes.counter_eq
    obtain ⟨hk, rfl, -, -⟩ := lt_of_opened opens
    exact ⟨congrArg (· + 1) ih.1, hk⟩

theorem Moment.Calls.counter_eq {r : CallRule} {M : Moment} {ls : List ScopeId} {k : Nat}
    {s : ScopeId} {p : Position} {f : Function} {vs : List Value} {σ : State}
    (h : M.Calls r ls k s p f vs σ) (hM : M.depth ≤ r.limit) :
    k = M.depth + ls.length ∧ k ≤ r.limit := by
  obtain ⟨d, t, ρ, trail, passes⟩ := h
  obtain rfl := passes.counter_eq
  exact trail.depth_eq hM

/-! ## The events -/

end Eval

/-- the event is no call, or has `P` -/
def Event.Told (P : String → Nat → Nat → Prop) : Event → Prop
  | .called x a c => P x a c
  | _ => True

/-- `τ` came from `σ` by adding events; those of calls have `P` -/
def State.Tells (P : String → Nat → Nat → Prop) (σ τ : State) : Prop :=
  ∃ new : List Event, τ.events.toList = σ.events.toList ++ new ∧ ∀ e ∈ new, e.Told P

namespace State.Tells

variable {P : String → Nat → Nat → Prop} {ρ σ τ : State}

theorem of_eq (h : τ.events = σ.events) : σ.Tells P τ :=
  ⟨[], by rw [h, List.append_nil], List.forall_mem_nil _⟩

theorem push {e : Event} (he : e.Told P) (h : τ.events = σ.events.push e) : σ.Tells P τ :=
  ⟨[e], by rw [h, Array.toList_push], List.forall_mem_singleton.mpr he⟩

theorem trans (h₁ : ρ.Tells P σ) (h₂ : σ.Tells P τ) : ρ.Tells P τ := by
  obtain ⟨new₁, heq₁, hnew₁⟩ := h₁
  obtain ⟨new₂, heq₂, hnew₂⟩ := h₂
  refine ⟨new₁ ++ new₂, by rw [heq₂, heq₁, List.append_assoc], ?_⟩
  exact List.forall_mem_append.mpr ⟨hnew₁, hnew₂⟩

end State.Tells

/-- however the run ended, the calls that it told of have `P` -/
def Outcome.Tells {α : Type} (P : String → Nat → Nat → Prop) (σ : State) : Outcome α → Prop
  | .done _ τ | .failed _ τ => σ.Tells P τ
  | .unfinished => True

namespace Run

variable {α β : Type} {P : String → Nat → Nat → Prop}

theorem tells_bind {x : Run α} {f : α → Run β} {σ : State} (hx : (x σ).Tells P σ)
    (hf : ∀ a τ, x σ = .done a τ → (f a τ).Tells P τ) : ((x >>= f) σ).Tells P σ := by
  rw [bind_apply]
  cases ho : x σ with
  | done a τ =>
    rw [ho] at hx
    have hnext := hf a τ ho
    show (f a τ).Tells P σ
    generalize f a τ = o at hnext
    cases o with
    | done b υ => exact hx.trans hnext
    | failed e υ => exact hx.trans hnext
    | unfinished => trivial
  | failed e τ =>
    rw [ho] at hx
    exact hx
  | unfinished => trivial

theorem Local.tells {x : Run α} (h : x.Local) (P : String → Nat → Nat → Prop) (σ : State) :
    (x σ).Tells P σ := by
  induction h generalizing σ with
  | pure | fail | lookup | bindName => exact .of_eq rfl
  | @emit e he =>
    have htold : e.Told P := by
      cases e with
      | called f a d => exact absurd rfl (he f a d)
      | _ => trivial
    exact .push htold rfl
  | bind _ _ ihx ihf => exact tells_bind (ihx σ) fun a τ _ => ihf a τ

end Run

namespace Eval

namespace Script.Passes

variable {α β : Type} {r : CallRule} {s : ScopeId} {c : Script α} {rest : β → Script α} {k j : Nat}
  {σ τ υ : State} {b : β}

theorem act_right {x : Run β} (h : c.Passes r s k σ (.act x rest) j τ) (hx : x τ = .done b υ) :
    c.Passes r s k σ (rest b) j υ := by
  generalize hc : Script.act x rest = c' at h
  induction h with
  | here => exact hc ▸ .act hx (.here _ _ _)
  | act before _ ih => exact .act before (ih hx hc)
  | ask before _ ih => exact .ask before (ih hx hc)

theorem ask_right {t : Task β} {n : Nat} (h : c.Passes r s k σ (.ask t rest) j τ)
    (ht : t.run r n j s τ = .done b υ) : c.Passes r s k σ (rest b) j υ := by
  generalize hc : Script.ask t rest = c' at h
  induction h with
  | @here c k σ =>
    have hcounted : t.counted r n s k σ = (.done b υ, k) := by rw [counted_eq, ht]
    exact hc ▸ .ask hcounted (.here _ _ _)
  | act before _ ih => exact .act before (ih ht hc)
  | ask before _ ih => exact .ask before (ih ht hc)

end Script.Passes

/-- from the moment `M` a function that is shown as `x` is called with `a` arguments, and its body
is entered with the counter at `c` -/
def Moment.Enters (r : CallRule) (M : Moment) (x : String) (a c : Nat) : Prop :=
  ∃ ls k s p f vs σ l τ, M.Calls r ls k s p f vs σ ∧ opened r s p f vs k σ = (.done l τ, c) ∧
    x = f.text ∧ a = vs.length

theorem open?_tells {r : CallRule} {k : Nat} {s : ScopeId} {p : Position} {f : Function}
    {vs : List Value} {σ : State} {P : String → Nat → Nat → Prop}
    (h : ∀ l τ, opened r s p f vs k σ = (.done l τ, k + 1) → P f.text vs.length (k + 1)) :
    (open? r k s p f vs σ).Tells P σ := by
  unfold open?
  by_cases harity : vs.length = f.params.length
  · rw [if_neg (not_not_intro harity)]
    by_cases hk : r.limit ≤ k
    · rw [if_pos hk]
      exact .of_eq rfl
    · rw [if_neg hk]
      have hP : (Event.called f.text vs.length (k + 1)).Told P :=
        h _ _ (opened_done harity (Nat.lt_of_not_le hk) σ)
      exact .push hP rfl
  · rw [if_pos harity]
    exact .of_eq rfl

/-- the calls that an evaluation tells of are those on its trail -/
theorem Moment.Trail.tells {r : CallRule} {M N : Moment} {ls : List ScopeId} (h : M.Trail r ls N)
    (n : Nat) : (N.run r n).Tells (M.Enters r) N.state := by
  induction n generalizing N ls with
  | zero =>
    rw [Moment.run, run_zero]
    trivial
  | succ n ih =>
    obtain ⟨d, s, t, ρ⟩ := N
    rename_i α
    -- at every point of the script, what is left to do tells of calls on the trail
    have hpoint : ∀ (c : Script α) (k : Nat) (σ : State), c.Local →
        (t.script s).Passes r s d ρ c k σ →
        (c.exec r (fun d s _ t => t.run r n d s) k s σ).Tells (M.Enters r) σ := by
      intro c
      induction c with
      | last x => exact fun k σ hc _ => Run.Local.tells hc _ σ
      | act x rest ihc =>
        intro k σ hc hpass
        exact Run.tells_bind (hc.1.tells _ σ) fun b τ hx =>
          ihc b t h k τ (hc.2 b) (hpass.act_right hx)
      | ask u rest ihc =>
        intro k σ hc hpass
        exact Run.tells_bind (ih (h.ask hpass)) fun b τ hu =>
          ihc b t h k τ (hc b) (hpass.ask_right hu)
      | call p f vs =>
        intro k σ _ hpass
        refine Run.tells_bind (open?_tells fun l τ hopen => ?_) fun l τ hopen => ?_
        · exact ⟨ls, k, s, p, f, vs, σ, l, τ, ⟨d, t, ρ, h, hpass⟩, hopen, rfl, rfl⟩
        · exact ih (h.call hpass (opened_of_open? hopen))
    rw [Moment.run, run_succ]
    exact hpoint _ d ρ (script_local s t) (.here _ _ _)

/-- **The counter is the number of active calls.**  An evaluation that begins with `d` calls
active, not more than the limit, ends with the counter at `d` again, and does what it does without
a counter.  On the way the counter is always `d` and the number of bodies entered since and not yet
left.  A body is entered with one more than that, between one and the limit, and this is the number
in the event; the events tell of no other calls.  A call with the right number of arguments is
refused for its depth exactly if as many bodies are active as the limit allows. -/
theorem counter_counts_active_calls (r : CallRule) (d : Nat) (hd : d ≤ r.limit) (s : ScopeId)
    (e : Expr) (σ : State) :
    let M : Moment := ⟨d, s, .tree e, σ⟩
    (∀ n, (Task.tree e).counted r n s d σ = (eval r n d s e σ, d)) ∧
      (∀ ls N, M.Trail r ls N → N.depth = d + ls.length ∧ N.depth ≤ r.limit) ∧
      (∀ ls k i p f vs τ, M.Calls r ls k i p f vs τ →
        k = d + ls.length ∧
        (∀ l υ j, opened r i p f vs k τ = (.done l υ, j) →
          M.Trail r (l :: ls) ⟨j, l, .tree f.body, υ⟩ ∧ j = 1 + (d + ls.length) ∧ 1 ≤ j ∧
            j ≤ r.limit ∧ υ.events = τ.events.push (.called f.text vs.length j)) ∧
        (vs.length = f.params.length →
          (opened r i p f vs k τ = (.failed ⟨p, .callDepth r.limit⟩ τ, k) ↔
            d + ls.length = r.limit) ∧
          ((∃ l υ j, opened r i p f vs k τ = (.done l υ, j)) ↔ d + ls.length ≠ r.limit))) ∧
      ∀ n, (eval r n d s e σ).Tells (M.Enters r) σ := by
  intro M
  refine ⟨fun n => counted_eq r n s (.tree e) d σ, fun ls N h => h.depth_eq hd, ?_,
    fun n => Moment.Trail.tells .start n⟩
  intro ls k i p f vs τ hcall
  obtain ⟨hk, hle⟩ : k = d + ls.length ∧ k ≤ r.limit := hcall.counter_eq hd
  refine ⟨hk, ?_, fun harity => ?_⟩
  · intro l υ j hopen
    obtain ⟨d', t, ρ, trail, passes⟩ := hcall
    obtain ⟨hlt, hj, -, hυ⟩ := lt_of_opened hopen
    refine ⟨trail.call passes hopen, by omega, by omega, by omega, ?_⟩
    rw [hυ]
  · rw [← hk]
    rcases Nat.lt_or_ge k r.limit with hlt | hge
    · rw [opened_done harity hlt]
      exact ⟨⟨nofun, fun h => absurd h (Nat.ne_of_lt hlt)⟩,
        fun _ => Nat.ne_of_lt hlt, fun _ => ⟨_, _, _, rfl⟩⟩
    · rw [opened_refused harity hge]
      exact ⟨⟨fun _ => Nat.le_antisymm hle hge, fun _ => rfl⟩, nofun,
        fun h => absurd (Nat.le_antisymm hle hge) h⟩

/-- one call is active and two are allowed: a function is called, whose body calls another -/
theorem counter_counts_active_calls_inner :
    let inner : Expr := .call Token.missing (.func Token.missing "g" [] .absent) []
    let e : Expr := .call Token.missing (.func Token.missing "f" [] inner) []
    let σ : State := ⟨⟨#[⟨[], none⟩]⟩, #[]⟩
    let M : Moment := ⟨1, 0, .tree e, σ⟩
    ((Task.tree e).counted ⟨.lexical, 2⟩ 9 0 1 σ).2 = 1 ∧
      ∃ l υ, M.Trail ⟨.lexical, 2⟩ [l] ⟨2, l, .tree inner, υ⟩ ∧
        ∃ k f τ, M.Calls ⟨.lexical, 2⟩ [l] k l ⟨0, 0⟩ f [] τ ∧
          opened ⟨.lexical, 2⟩ l ⟨0, 0⟩ f [] k τ = (.failed ⟨⟨0, 0⟩, .callDepth 2⟩ τ, k) := by
  intro inner e σ M
  obtain ⟨hcounted, -, hcalls, -⟩ :=
    counter_counts_active_calls ⟨.lexical, 2⟩ 1 (by decide) 0 e σ
  have houter : ∃ τ, M.Calls ⟨.lexical, 2⟩ [] 1 0 ⟨0, 0⟩ ⟨"f", [], inner, some 0⟩ [] τ :=
    ⟨_, 1, .tree e, σ, .start, .ask (n := 2) rfl (.ask (n := 1) rfl (.here _ _ _))⟩
  obtain ⟨τ, houter⟩ := houter
  obtain ⟨-, henter, harity⟩ := hcalls _ _ _ _ _ _ _ houter
  obtain ⟨l, υ, j, hopen⟩ := (harity rfl).2.mpr (by decide)
  obtain ⟨htrail, rfl, -, -, -⟩ := henter l υ j hopen
  have hinner : ∃ τ, M.Calls ⟨.lexical, 2⟩ [l] 2 l ⟨0, 0⟩ ⟨"g", [], .absent, some l⟩ [] τ :=
    ⟨_, 2, .tree inner, υ, htrail, .ask (n := 2) rfl (.ask (n := 1) rfl (.here _ _ _))⟩
  obtain ⟨τ', hinner⟩ := hinner
  have hrefused := ((hcalls _ _ _ _ _ _ _ hinner).2.2 rfl).1.mpr rfl
  exact ⟨congrArg Prod.snd (hcounted 9), l, υ, htrail, 2, _, τ', hinner, hrefused⟩

end Eval

end ExprShell
