import ExprShell.Proofs.Eval.Arithmetic
import ExprShell.Proofs.Eval.Writes

/-!
# The rounds of a counted loop

Start, stop and step of a counted loop are found once, before its first round.  From then on the
counter is not kept in the scope: the name of the loop is bound to it before each round, and what
the body does to that name, or to the names in the bounds, has no say in how the loop goes on.

Here the rounds are told without the evaluator's loop: a round begins if the counter is inside the
bounds and the round before it gave a value.  The loop ends in every case as these rounds say.

* `Counting`          a counted loop whose bounds have been found;
* `Counting.Begun`    the states in which its rounds begin;
* `Counting.After`    the value and the state after so many rounds;
* `Counting.Ending`   how the loop can end;
* `loop_succ_of_inside`, `loop_succ_of_outside`   one round of the evaluator, and its last test;
* `loops_iff`         all rounds.
-/

namespace ExprShell.Eval

theorem ComesTo.lt_size {r : CallRule} {d : Nat} {s : ScopeId} {e : Expr} {σ τ : State} {v : Value}
    (h : ComesTo r d s e σ (.done v τ)) {i : ScopeId} (hi : i < σ.store.frames.size) :
    i < τ.store.frames.size := by
  obtain ⟨n, hn⟩ := h
  have hstay := eval_stays r n d s e σ τ (by rw [hn n (Nat.le_refl n)]; rfl)
  exact Nat.lt_of_lt_of_le hi hstay.grows

/-- a counted loop whose bounds have been found -/
structure Counting where
  rule : CallRule
  depth : Nat
  scope : ScopeId
  name : String
  body : Expr
  start : Float
  stop : Float
  step : Float

namespace Counting

variable (c : Counting)

/-- the counter in a round, the first round being round zero -/
def counter : Nat → Float
  | 0 => c.start
  | k + 1 => counter k + c.step

/-- the counter has not come to its bound -/
def Inside (k : Nat) : Prop :=
  (c.step ≥ 0.0 ∧ c.counter k < c.stop) ∨ (c.step < 0.0 ∧ c.counter k > c.stop)

def bound (σ : State) (k : Nat) : State :=
  ⟨σ.store.set c.scope c.name (.double (c.counter k)), σ.events⟩

/-- the body is run from a state and comes to an outcome -/
def Round (τ : State) (o : Outcome Value) : Prop := ComesTo c.rule c.depth c.scope c.body τ o

/-- round `k` begins in the state `τ`, if the bounds were found in the state `σ` -/
inductive Begun (σ : State) : Nat → State → Prop
  | first (inside : c.Inside 0) : Begun σ 0 (c.bound σ 0)
  | next {k : Nat} {τ υ : State} {v : Value} (before : Begun σ k τ) (gives : c.Round τ (.done v υ))
    (inside : c.Inside (k + 1)) : Begun σ (k + 1) (c.bound υ (k + 1))

/-- after `k` rounds, all of which gave values: the last value, or zero, and the state -/
def After (σ : State) : Nat → Value → State → Prop
  | 0, v, τ => v = .int 0 ∧ τ = σ
  | k + 1, v, τ => ∃ υ, c.Begun σ k υ ∧ c.Round υ (.done v τ)

/-- the loop is over, and says after how many rounds -/
def finish (k : Nat) (v : Value) (τ : State) : Outcome Value :=
  .done v ⟨τ.store, τ.events.push (.counted c.name k)⟩

/-- how the loop can end: outside its bounds, or by the error of a round -/
inductive Ending (σ : State) : Outcome Value → Prop
  | stops {k : Nat} {v : Value} {τ : State} (after : c.After σ k v τ) (outside : ¬ c.Inside k) :
    Ending σ (c.finish k v τ)
  | failed {k : Nat} {τ υ : State} {e : EvalError} (begun : c.Begun σ k τ)
    (fails : c.Round τ (.failed e υ)) : Ending σ (.failed e υ)

variable {c} {σ τ υ : State} {k j n : Nat} {v w : Value} {o : Outcome Value}

/-! ## Rounds -/

theorem begun_of_after (h : c.After σ k v τ) (hk : c.Inside k) : c.Begun σ k (c.bound τ k) := by
  cases k with
  | zero =>
    obtain ⟨-, rfl⟩ := h
    exact .first hk
  | succ k =>
    obtain ⟨υ, hbegun, hgives⟩ := h
    exact .next hbegun hgives hk

theorem after_of_begun (h : c.Begun σ k τ) :
    c.Inside k ∧ ∃ v υ, c.After σ k v υ ∧ τ = c.bound υ k := by
  cases h with
  | first hk => exact ⟨hk, _, σ, ⟨rfl, rfl⟩, rfl⟩
  | @next k τ υ v hbefore hgives hk => exact ⟨hk, v, υ, ⟨τ, hbefore, hgives⟩, rfl⟩

theorem Begun.unique (h : c.Begun σ k τ) (h' : c.Begun σ k υ) : τ = υ := by
  induction h generalizing υ with
  | first => cases h'; rfl
  | @next k τ υ v _ hgives _ ih =>
    cases h' with
    | @next _ τ' υ' v' hbefore' hgives' _ =>
      rw [← ih hbefore'] at hgives'
      cases hgives.unique hgives'
      rfl

/-- the rounds before have begun too, and given values -/
theorem Begun.earlier (h : c.Begun σ k τ) (hj : j < k) :
    ∃ τ v υ, c.Begun σ j τ ∧ c.Round τ (.done v υ) := by
  induction h with
  | first => exact absurd hj (Nat.not_lt_zero j)
  | @next k τ υ v hbefore hgives _ ih =>
    rcases Nat.lt_succ_iff_lt_or_eq.mp hj with hlt | rfl
    · exact ih hlt
    · exact ⟨τ, v, υ, hbefore, hgives⟩

theorem Begun.inside (h : c.Begun σ k τ) (hj : j ≤ k) : c.Inside j := by
  rcases Nat.lt_or_eq_of_le hj with hlt | rfl
  · obtain ⟨υ, -, -, hbegun, -⟩ := h.earlier hlt
    exact (after_of_begun hbegun).1
  · exact (after_of_begun h).1

theorem exists_begun_iff (k : Nat) :
    (∃ τ, c.Begun σ k τ) ↔ (∀ j, j ≤ k → c.Inside j) ∧
      ∀ j, j < k → ∃ τ v υ, c.Begun σ j τ ∧ c.Round τ (.done v υ) := by
  constructor
  · intro h
    obtain ⟨τ, hbegun⟩ := h
    exact ⟨fun j => hbegun.inside, fun j => hbegun.earlier⟩
  · intro h
    obtain ⟨hinside, hearlier⟩ := h
    cases k with
    | zero => exact ⟨_, .first (hinside 0 (Nat.le_refl 0))⟩
    | succ k =>
      obtain ⟨τ, v, υ, hbegun, hgives⟩ := hearlier k (Nat.lt_succ_self k)
      exact ⟨_, .next hbegun hgives (hinside (k + 1) (Nat.le_refl _))⟩

/-! ## The name of the loop -/

theorem lt_size_of_begun (h : c.Begun σ k τ) (hs : c.scope < σ.store.frames.size) :
    c.scope < τ.store.frames.size := by
  have hbound : ∀ (υ : State) (k : Nat), c.scope < υ.store.frames.size →
      c.scope < (c.bound υ k).store.frames.size := by
    intro υ k hυ
    show c.scope < (υ.store.frames.modify _ _).size
    rw [Array.size_modify]
    exact hυ
  induction h with
  | first => exact hbound σ 0 hs
  | @next k τ υ v _ hgives _ ih => exact hbound υ (k + 1) (hgives.lt_size ih)

theorem Begun.get?_name (h : c.Begun σ k τ) (hs : c.scope < σ.store.frames.size) :
    (τ.store.bindings c.scope).get? c.name = some (.double (c.counter k)) := by
  obtain ⟨-, v, υ, hafter, rfl⟩ := after_of_begun h
  have hυ : c.scope < υ.store.frames.size := by
    cases k with
    | zero =>
      rw [hafter.2]
      exact hs
    | succ k =>
      obtain ⟨τ, hbegun, hgives⟩ := hafter
      exact hgives.lt_size (lt_size_of_begun hbegun hs)
  show ((υ.store.set c.scope c.name _).bindings c.scope).get? c.name = _
  rw [Store.bindings_set_self _ _ _ hυ, Bindings.get?_set_self]

/-! ## One round -/

def loop (c : Counting) (n k : Nat) (v : Value) (τ : State) : Outcome Value :=
  countLoop c.rule n c.depth c.scope c.name c.body c.stop c.step (c.counter k) v k τ

theorem goesOn_iff (k : Nat) : goesOn c.step (c.counter k) c.stop = true ↔ c.Inside k := by
  simp [goesOn, Inside]

theorem loop_succ_of_outside (h : ¬ c.Inside k) : c.loop (n + 1) k v τ = c.finish k v τ := by
  rw [← goesOn_iff] at h
  rw [loop, countLoop, if_neg h]
  rfl

theorem loop_succ_of_inside (h : c.Inside k) :
    c.loop (n + 1) k v τ =
      match eval c.rule n c.depth c.scope c.body (c.bound τ k) with
      | .done w υ => c.loop n (k + 1) w υ
      | .failed e υ => .failed e υ
      | .unfinished => .unfinished := by
  rw [← goesOn_iff] at h
  rw [loop, countLoop, if_pos h]
  show (eval c.rule n c.depth c.scope c.body >>= _) (c.bound τ k) = _
  rw [Run.bind_apply]
  cases eval c.rule n c.depth c.scope c.body (c.bound τ k) <;> rfl

/-! ## All rounds -/

/-- what the evaluator's loop comes to is how the loop can end -/
theorem ending_of_loop (hafter : c.After σ k v τ) (h : c.loop n k v τ = o)
    (ho : o ≠ .unfinished) : c.Ending σ o := by
  induction n generalizing k v τ with
  | zero => exact absurd h.symm ho
  | succ n ih =>
    by_cases hk : c.Inside k
    · have hbegun := begun_of_after hafter hk
      rw [loop_succ_of_inside hk] at h
      cases hbody : eval c.rule n c.depth c.scope c.body (c.bound τ k) with
      | done w υ =>
        rw [hbody] at h
        have hgives : c.Round (c.bound τ k) (.done w υ) := comesTo_of_ended hbody nofun
        have hnext : c.After σ (k + 1) w υ := ⟨_, hbegun, hgives⟩
        exact ih hnext h
      | failed e υ =>
        rw [hbody] at h
        have hfails : c.Round (c.bound τ k) (.failed e υ) := comesTo_of_ended hbody nofun
        rw [← h]
        exact .failed hbegun hfails
      | unfinished =>
        rw [hbody] at h
        exact absurd h.symm ho
    · rw [loop_succ_of_outside hk] at h
      rw [← h]
      exact .stops hafter hk

/-- with enough fuel the evaluator's loop comes to an outcome -/
def Loops (c : Counting) (k : Nat) (v : Value) (τ : State) (o : Outcome Value) : Prop :=
  ∃ n, ∀ m, n ≤ m → c.loop m k v τ = o

theorem Loops.of_outside (h : ¬ c.Inside k) : c.Loops k v τ (c.finish k v τ) := by
  refine ⟨1, fun m hm => ?_⟩
  obtain ⟨m, rfl⟩ := Nat.exists_eq_add_of_le' hm
  exact loop_succ_of_outside h

theorem Loops.of_failed {e : EvalError} (h : c.Inside k)
    (hfails : c.Round (c.bound τ k) (.failed e υ)) : c.Loops k v τ (.failed e υ) := by
  obtain ⟨n, hn⟩ := hfails
  refine ⟨n + 1, fun m hm => ?_⟩
  obtain ⟨m, rfl⟩ := Nat.exists_eq_add_of_le' (Nat.le_trans (Nat.le_add_left 1 n) hm)
  rw [loop_succ_of_inside h, hn m (by omega)]

theorem Loops.of_done (h : c.Inside k) (hgives : c.Round (c.bound τ k) (.done w υ))
    (hrest : c.Loops (k + 1) w υ o) : c.Loops k v τ o := by
  obtain ⟨n₁, h₁⟩ := hgives
  obtain ⟨n₂, h₂⟩ := hrest
  refine ⟨max n₁ n₂ + 1, fun m hm => ?_⟩
  obtain ⟨m, rfl⟩ := Nat.exists_eq_add_of_le' (Nat.le_trans (Nat.le_add_left 1 _) hm)
  rw [loop_succ_of_inside h, h₁ m (by omega)]
  exact h₂ m (by omega)

theorem Loops.from_start (h : c.Loops k v τ o) (hafter : c.After σ k v τ) :
    c.Loops 0 (.int 0) σ o := by
  induction k generalizing v τ with
  | zero =>
    obtain ⟨rfl, rfl⟩ := hafter
    exact h
  | succ k ih =>
    obtain ⟨υ, hbegun, hgives⟩ := hafter
    obtain ⟨hk, w, ρ, hbefore, rfl⟩ := after_of_begun hbegun
    exact ih (.of_done hk hgives h) hbefore

theorem loops_iff (ho : o ≠ .unfinished) : c.Loops 0 (.int 0) σ o ↔ c.Ending σ o := by
  constructor
  · intro h
    obtain ⟨n, hn⟩ := h
    have hstart : c.After σ 0 (.int 0) σ := ⟨rfl, rfl⟩
    exact ending_of_loop hstart (hn n (Nat.le_refl n)) ho
  · intro h
    cases h with
    | stops hafter houtside => exact (Loops.of_outside houtside).from_start hafter
    | failed hbegun hfails =>
      obtain ⟨hk, v, υ, hafter, rfl⟩ := after_of_begun hbegun
      exact (Loops.of_failed hk hfails).from_start hafter

theorem ending_done_iff {ω : State} : c.Ending σ (.done v ω) ↔
    ∃ k τ, c.After σ k v τ ∧ ¬ c.Inside k ∧
      ω = ⟨τ.store, τ.events.push (.counted c.name k)⟩ := by
  constructor
  · intro h
    cases h with
    | stops hafter houtside => exact ⟨_, _, hafter, houtside, rfl⟩
  · intro h
    obtain ⟨k, τ, hafter, houtside, rfl⟩ := h
    exact .stops hafter houtside

theorem ending_failed_iff {e : EvalError} {ω : State} : c.Ending σ (.failed e ω) ↔
    ∃ k τ, c.Begun σ k τ ∧ c.Round τ (.failed e ω) := by
  constructor
  · intro h
    cases h with
    | failed hbegun hfails => exact ⟨_, _, hbegun, hfails⟩
  · intro h
    obtain ⟨k, τ, hbegun, hfails⟩ := h
    exact .failed hbegun hfails

/-! ## Loops that never end -/

/-- the loop does not end if every round that ends is followed by another one -/
theorem not_ending (hstart : c.Inside 0)
    (hnext : ∀ {j υ o}, c.Begun σ j υ → c.Round υ o → o ≠ .unfinished → ∃ τ, c.Begun σ (j + 1) τ)
    (o : Outcome Value) : ¬ c.Ending σ o := by
  intro h
  cases h with
  | @stops k v τ hafter houtside =>
    cases k with
    | zero => exact houtside hstart
    | succ k =>
      obtain ⟨υ, hbegun, hgives⟩ := hafter
      obtain ⟨τ', hmore⟩ := hnext hbegun hgives nofun
      exact houtside (hmore.inside (Nat.le_refl _))
  | @failed k τ υ e hbegun hfails =>
    obtain ⟨τ', hmore⟩ := hnext hbegun hfails nofun
    obtain ⟨τ'', v, υ', hbegun', hgives⟩ := hmore.earlier (Nat.lt_succ_self k)
    rw [hbegun'.unique hbegun] at hgives
    cases hgives.unique hfails

theorem not_ending_of_stuck (hbegun : c.Begun σ k τ)
    (hstuck : ∀ n, eval c.rule n c.depth c.scope c.body τ = .unfinished) (o : Outcome Value) :
    ¬ c.Ending σ o := by
  have hnone : ∀ {υ o}, c.Begun σ k υ → c.Round υ o → o = .unfinished := by
    intro υ o hυ hround
    obtain ⟨n, hn⟩ := hround
    rw [← hn n (Nat.le_refl n), hυ.unique hbegun, hstuck n]
  refine not_ending (hbegun.inside (Nat.zero_le k)) ?_ o
  intro j υ o hυ hround ho
  rcases Nat.lt_trichotomy j k with hlt | rfl | hgt
  · rcases Nat.lt_or_eq_of_le (Nat.succ_le_of_lt hlt) with hlt' | rfl
    · obtain ⟨τ', -, -, hmore, -⟩ := hbegun.earlier hlt'
      exact ⟨τ', hmore⟩
    · exact ⟨τ, hbegun⟩
  · exact absurd (hnone hυ hround) ho
  · obtain ⟨τ', v, υ', hbegun', hgives⟩ := hυ.earlier hgt
    cases hnone hbegun' hgives

/-- if the loop does not end and none of its rounds is stuck, there is always a next round -/
theorem begun_of_not_ending (h : ∀ o, ¬ c.Ending σ o)
    (hfree : ∀ k τ, c.Begun σ k τ → ∃ n, eval c.rule n c.depth c.scope c.body τ ≠ .unfinished)
    (k : Nat) : ∃ τ, c.Begun σ k τ := by
  induction k with
  | zero =>
    have hstart : c.After σ 0 (.int 0) σ := ⟨rfl, rfl⟩
    have hinside : c.Inside 0 := by
      by_contra houtside
      exact h _ (.stops hstart houtside)
    exact ⟨_, .first hinside⟩
  | succ k ih =>
    obtain ⟨τ, hbegun⟩ := ih
    obtain ⟨n, hn⟩ := hfree k τ hbegun
    have hround := comesTo_of_ended rfl hn
    generalize eval c.rule n c.depth c.scope c.body τ = o at hround hn
    cases o with
    | done v υ =>
      have hafter : c.After σ (k + 1) v υ := ⟨τ, hbegun, hround⟩
      have hinside : c.Inside (k + 1) := by
        by_contra houtside
        exact h _ (.stops hafter houtside)
      exact ⟨_, .next hbegun hround hinside⟩
    | failed e υ => exact absurd (.failed hbegun hround) (h _)
    | unfinished => exact absurd rfl hn

/-- the loop never ends exactly if there is always a next round, or one round never ends -/
theorem no_ending_iff :
    (∀ o, ¬ c.Ending σ o) ↔ (∀ k, ∃ τ, c.Begun σ k τ) ∨
      ∃ k τ, c.Begun σ k τ ∧ ∀ n, eval c.rule n c.depth c.scope c.body τ = .unfinished := by
  constructor
  · intro h
    by_cases hstuck : ∃ k τ, c.Begun σ k τ ∧
        ∀ n, eval c.rule n c.depth c.scope c.body τ = .unfinished
    · exact .inr hstuck
    · refine .inl (begun_of_not_ending h fun k τ hbegun => ?_)
      by_contra hnone
      exact hstuck ⟨k, τ, hbegun, fun n => by_contra fun hn => hnone ⟨n, hn⟩⟩
  · intro h o
    rcases h with hall | ⟨k, τ, hbegun, hstuck⟩
    · obtain ⟨τ, hfirst⟩ := hall 0
      exact not_ending (hfirst.inside (Nat.le_refl 0)) (fun {j _ _} _ _ _ => hall (j + 1)) o
    · exact not_ending_of_stuck hbegun hstuck o

end Counting

/-! ## The bounds -/

/-- an expression comes to a number -/
def Yields (r : CallRule) (d : Nat) (s : ScopeId) (e : Expr) (σ : State) (x : Float) (τ : State) :
    Prop := ∃ v, ComesTo r d s e σ (.done v τ) ∧ v.toFloat? = some x

/-- the step comes to a number, which is one if there is none -/
def YieldsStep (r : CallRule) (d : Nat) (s : ScopeId) (e : Expr) (σ : State) (x : Float)
    (τ : State) : Prop :=
  match e with
  | .absent => x = 1.0 ∧ τ = σ
  | e => Yields r d s e σ x τ

section
variable {r : CallRule} {d : Nat} {s : ScopeId} {a b st e : Expr} {σ₀ σ₁ σ₂ σ : State}
  {A B S : Float}

theorem bound_of_toFloat? {v : Value} {x : Float} (h : v.toFloat? = some x) (e : Expr)
    (σ : State) : Eval.bound e v σ = .done x σ := by
  rw [Eval.bound, h]
  rfl

theorem stepOf_of_yields (h : YieldsStep r d s st σ S σ₁) :
    ∃ n, ∀ m, n ≤ m → stepOf r m d s st σ = .done S σ₁ := by
  cases st
  case absent =>
    obtain ⟨rfl, rfl⟩ := h
    refine ⟨1, fun m hm => ?_⟩
    obtain ⟨m, rfl⟩ := Nat.exists_eq_add_of_le' hm
    rfl
  all_goals
    obtain ⟨v, ⟨n, hn⟩, hv⟩ := h
    refine ⟨n + 1, fun m hm => ?_⟩
    obtain ⟨m, rfl⟩ := Nat.exists_eq_add_of_le' (Nat.le_trans (Nat.le_add_left 1 n) hm)
    show (eval r m d s _ >>= _) σ = _
    rw [Run.bind_done (hn m (by omega))]
    exact bound_of_toFloat? hv _ _

theorem Yields.lt_size (h : Yields r d s a σ A σ₁) (hs : s < σ.store.frames.size) :
    s < σ₁.store.frames.size := by
  obtain ⟨v, hcomes, -⟩ := h
  exact hcomes.lt_size hs

theorem YieldsStep.lt_size (h : YieldsStep r d s st σ S σ₁) (hs : s < σ.store.frames.size) :
    s < σ₁.store.frames.size := by
  cases st
  case absent =>
    rw [h.2]
    exact hs
  all_goals exact Yields.lt_size h hs

/-- when the bounds have been found, what is left is the loop -/
theorem eval_count (t : Token) (x : String) (e : Expr) (ha : Yields r d s a σ₀ A σ₁)
    (hb : Yields r d s b σ₁ B σ₂) (hst : YieldsStep r d s st σ₂ S σ) :
    ∃ n, ∀ m, n ≤ m → eval r (m + 1) d s (.count t x a b st e) σ₀ =
      Counting.loop ⟨r, d, s, x, e, A, B, S⟩ m 0 (.int 0) σ := by
  obtain ⟨v, ⟨n₁, h₁⟩, hv⟩ := ha
  obtain ⟨w, ⟨n₂, h₂⟩, hw⟩ := hb
  obtain ⟨n₃, h₃⟩ := stepOf_of_yields hst
  refine ⟨max n₁ (max n₂ n₃), fun m hm => ?_⟩
  have hstart : eval r m d s a σ₀ = .done v σ₁ := h₁ m (by omega)
  have hstop : eval r m d s b σ₁ = .done w σ₂ := h₂ m (by omega)
  have hstep : stepOf r m d s st σ₂ = .done S σ := h₃ m (by omega)
  show (eval r m d s a >>= _) σ₀ = _
  rw [Run.bind_done hstart, Run.bind_done (bound_of_toFloat? hv a σ₁), Run.bind_done hstop,
    Run.bind_done (bound_of_toFloat? hw b σ₂), Run.bind_done hstep]
  rfl

theorem comesTo_count_iff (t : Token) (x : String) (e : Expr) (ha : Yields r d s a σ₀ A σ₁)
    (hb : Yields r d s b σ₁ B σ₂) (hst : YieldsStep r d s st σ₂ S σ) {o : Outcome Value}
    (ho : o ≠ .unfinished) : ComesTo r d s (.count t x a b st e) σ₀ o ↔
      Counting.Ending ⟨r, d, s, x, e, A, B, S⟩ σ o := by
  obtain ⟨n, hn⟩ := eval_count t x e ha hb hst
  rw [← Counting.loops_iff ho]
  constructor
  · intro h
    obtain ⟨n', hn'⟩ := h
    refine ⟨max n n', fun m hm => ?_⟩
    rw [← hn m (by omega)]
    exact hn' (m + 1) (by omega)
  · intro h
    obtain ⟨n', hn'⟩ := h
    refine ⟨max n n' + 1, fun m hm => ?_⟩
    obtain ⟨m, rfl⟩ := Nat.exists_eq_add_of_le' (Nat.le_trans (Nat.le_add_left 1 _) hm)
    rw [hn m (by omega)]
    exact hn' m (by omega)

theorem unfinished_count_iff (t : Token) (x : String) (e : Expr) (ha : Yields r d s a σ₀ A σ₁)
    (hb : Yields r d s b σ₁ B σ₂) (hst : YieldsStep r d s st σ₂ S σ) :
    (∀ n, eval r n d s (.count t x a b st e) σ₀ = .unfinished) ↔
      ∀ o, ¬ Counting.Ending ⟨r, d, s, x, e, A, B, S⟩ σ o := by
  constructor
  · intro h o hending
    have ho : o ≠ .unfinished := by
      cases hending <;> nofun
    obtain ⟨n, hn⟩ := (comesTo_count_iff t x e ha hb hst ho).mpr hending
    exact ho ((hn n (Nat.le_refl n)).symm.trans (h n))
  · intro h n
    by_contra hn
    exact h _ ((comesTo_count_iff t x e ha hb hst hn).mp (comesTo_of_ended rfl hn))

end

/-- **The course of a counted loop is fixed by its bounds.**  Let start, stop and step, evaluated
once and in this order, come to `A`, `B` and `S`.  Round `k` begins with the name of the loop bound
in the scope to the counter, `A` plus `k` times the step by repeated addition.  It begins exactly if
the counter has been inside the bounds up to now and the rounds before gave values; nothing else
that they did matters.  The loop ends with the value of its last round, or with zero and nothing
bound if there was none, and reports the number of rounds; or it ends with the error of a round, and
reports nothing; or it never ends, because there is always another round or one that never ends. -/
theorem count_course (r : CallRule) (d : Nat) (s : ScopeId) (t : Token) (x : String)
    (a b st e : Expr) (σ₀ σ₁ σ₂ σ : State) (A B S : Float) (hs : s < σ₀.store.frames.size)
    (ha : Yields r d s a σ₀ A σ₁) (hb : Yields r d s b σ₁ B σ₂)
    (hst : YieldsStep r d s st σ₂ S σ) :
    let c : Counting := ⟨r, d, s, x, e, A, B, S⟩
    (∀ k τ, c.Begun σ k τ → (τ.store.bindings s).get? x = some (.double (c.counter k))) ∧
    (∀ k, (∃ τ, c.Begun σ k τ) ↔ (∀ j, j ≤ k → c.Inside j) ∧
      ∀ j, j < k → ∃ τ v υ, c.Begun σ j τ ∧ ComesTo r d s e τ (.done v υ)) ∧
    (∀ v ω, ComesTo r d s (.count t x a b st e) σ₀ (.done v ω) ↔
      ∃ k τ, c.After σ k v τ ∧ ¬ c.Inside k ∧ ω = ⟨τ.store, τ.events.push (.counted x k)⟩) ∧
    (∀ err ω, ComesTo r d s (.count t x a b st e) σ₀ (.failed err ω) ↔
      ∃ k τ, c.Begun σ k τ ∧ ComesTo r d s e τ (.failed err ω)) ∧
    ((∀ n, eval r n d s (.count t x a b st e) σ₀ = .unfinished) ↔
      (∀ k, ∃ τ, c.Begun σ k τ) ∨
        ∃ k τ, c.Begun σ k τ ∧ ∀ n, eval r n d s e τ = .unfinished) := by
  intro c
  have hscope : c.scope < σ.store.frames.size := hst.lt_size (hb.lt_size (ha.lt_size hs))
  refine ⟨fun k τ h => h.get?_name hscope, Counting.exists_begun_iff, ?_, ?_, ?_⟩
  · intro v ω
    have hne : Outcome.done v ω ≠ .unfinished := nofun
    exact (comesTo_count_iff t x e ha hb hst hne).trans Counting.ending_done_iff
  · intro err ω
    have hne : (Outcome.failed err ω : Outcome Value) ≠ .unfinished := nofun
    exact (comesTo_count_iff t x e ha hb hst hne).trans Counting.ending_failed_iff
  · exact (unfinished_count_iff t x e ha hb hst).trans Counting.no_ending_iff

/-- a loop from one to three whose body binds the name of the loop to nine: the second round begins
with one and the step, and if there is no round nothing is bound -/
theorem count_course_reassigned :
    let number (x : String) : Expr := .number ⟨.int, x, x, ⟨1, 1⟩⟩
    let body : Expr := .assign Token.missing "i" (number "9")
    let σ : State := ⟨⟨#[⟨[], none⟩]⟩, #[]⟩
    let rule : CallRule := ⟨.dynamic, 1⟩
    let c : Counting := ⟨rule, 0, 0, "i", body, Int64.toFloat 1, Int64.toFloat 3, 1.0⟩
    (c.Inside 0 → c.Inside 1 → ∃ τ, c.Begun σ 1 τ ∧
        (τ.store.bindings 0).get? "i" = some (.double (Int64.toFloat 1 + 1.0))) ∧
      (¬ c.Inside 0 →
        ComesTo rule 0 0 (.count Token.missing "i" (number "1") (number "3") .absent body) σ
          (.done (.int 0) ⟨σ.store, #[.counted "i" 0]⟩)) := by
  intro number body σ rule c
  have hnumber (x : String) (v : Integer) (h : Integer.read? x = some v) (τ : State) :
      ComesTo rule 0 0 (number x) τ (.done (.int v) τ) := by
    apply comesTo_of_done (n := 1)
    show settle _ (Operators.literal ⟨.int, x, x, ⟨1, 1⟩⟩) τ = _
    simp only [Operators.literal, h]
    rfl
  have hbody (τ : State) :
      ∃ υ, ComesTo rule 0 0 body τ (.done (.int 9) υ) := by
    refine ⟨⟨τ.store.set 0 "i" (.int 9), τ.events⟩, ?_⟩
    apply comesTo_of_done (n := 2)
    rfl
  obtain ⟨hname, hbegun, hdone, -, -⟩ := count_course rule 0 0 Token.missing "i" (number "1")
    (number "3") .absent body σ σ σ σ (Int64.toFloat 1) (Int64.toFloat 3) 1.0 (by decide)
    ⟨_, hnumber "1" 1 (by decide) σ, rfl⟩ ⟨_, hnumber "3" 3 (by decide) σ, rfl⟩ ⟨rfl, rfl⟩
  constructor
  · intro h0 h1
    have hsecond : ∃ τ, c.Begun σ 1 τ := by
      obtain ⟨υ, hυ⟩ := hbody (c.bound σ 0)
      refine (hbegun 1).mpr ⟨?_, ?_⟩
      · intro j hj
        rcases Nat.le_one_iff_eq_zero_or_eq_one.mp hj with rfl | rfl
        · exact h0
        · exact h1
      · intro j hj
        obtain rfl : j = 0 := Nat.lt_one_iff.mp hj
        exact ⟨c.bound σ 0, _, υ, .first h0, hυ⟩
    obtain ⟨τ, hτ⟩ := hsecond
    exact ⟨τ, hτ, hname 1 τ hτ⟩
  · intro h0
    exact (hdone _ _).mpr ⟨0, σ, ⟨rfl, rfl⟩, h0, rfl⟩

end ExprShell.Eval
