import ExprShell.Proofs.Eval.Script

/-!
# More fuel and a higher limit

A run that has come to an end is not changed by more fuel.  Neither is it by a higher limit of
calls, unless it was the limit that ended it: no step of the evaluator goes on after an error, so an
error of the limit is what the whole run ends with.

* `Outcome.CutShort`   the fuel was used up, or a call would have been too deep;
* `Run.UpTo`           a run that ends as another does, unless it is cut short;
* `run_upTo`           all tasks, with less fuel and a lower limit.
-/

namespace ExprShell

/-- did a call that would have been too deep end the run? -/
def Outcome.TooDeep {α : Type} : Outcome α → Prop
  | .failed e _ => e.kind = .callDepth
  | _ => False

/-- the run was cut short, by the fuel if `fuel` allows it, by the limit if `limit` does -/
def Outcome.CutShort {α : Type} (fuel limit : Prop) : Outcome α → Prop
  | .done _ _ => False
  | .failed e _ => limit ∧ e.kind = .callDepth
  | .unfinished => fuel

namespace Run

/-- the first run ends as the second, or it is cut short -/
def UpTo {α : Type} (fuel limit : Prop) (x y : Run α) : Prop :=
  ∀ σ, x σ = y σ ∨ (x σ).CutShort fuel limit

namespace UpTo

variable {α β : Type} {fuel limit : Prop}

theorem refl (x : Run α) : UpTo fuel limit x x := fun _ => .inl rfl

theorem bind {x y : Run α} {f g : α → Run β} (hx : UpTo fuel limit x y)
    (hf : ∀ a, UpTo fuel limit (f a) (g a)) : UpTo fuel limit (x >>= f) (y >>= g) := by
  intro σ
  rw [bind_apply, bind_apply]
  rcases hx σ with h | h
  · rw [h]
    cases y σ with
    | done a τ => exact hf a τ
    | failed e τ => exact .inl rfl
    | unfinished => exact .inl rfl
  · right
    cases hσ : x σ with
    | done a τ => rw [hσ] at h; exact h.elim
    | failed e τ => rw [hσ] at h; exact h
    | unfinished => rw [hσ] at h; exact h

/-- if only the fuel can cut it short, a run that ended was not cut short -/
theorem eq_of_ended {x y : Run α} (h : UpTo True False x y) {σ : State} (hσ : x σ ≠ .unfinished) :
    y σ = x σ := by
  rcases h σ with heq | hcut
  · exact heq.symm
  · generalize x σ = o at hσ hcut
    cases o with
    | done a τ => exact hcut.elim
    | failed e τ => exact hcut.1.elim
    | unfinished => exact absurd rfl hσ

end UpTo

end Run

namespace Eval

open Run (UpTo)

variable {fuel limit : Prop} {sc : Scoping} {m m' n n' : Nat}

theorem open?_upTo (hm : m ≤ m') (hlimit : m < m' → limit) (d : Nat) (s : ScopeId) (p : Position)
    (f : Function) (vs : List Value) :
    UpTo fuel limit (open? ⟨sc, m⟩ d s p f vs) (open? ⟨sc, m'⟩ d s p f vs) := by
  rcases Nat.eq_or_lt_of_le hm with rfl | hlt
  · exact .refl _
  · unfold open?
    by_cases harity : vs.length ≠ f.params.length
    · rw [if_pos harity, if_pos harity]
      exact .refl _
    · rw [if_neg harity, if_neg harity]
      by_cases hd : m ≤ d
      · rw [if_pos hd]
        exact fun σ => .inr ⟨hlimit hlt, rfl⟩
      · have hd' : ¬ m' ≤ d := fun h => hd (Nat.le_trans hm h)
        rw [if_neg hd, if_neg hd']
        exact .refl _

theorem exec_upTo {α : Type} (hm : m ≤ m') (hlimit : m < m' → limit)
    {ev ev' : Nat → ScopeId → {β : Type} → Task β → Run β}
    (h : ∀ d s {β : Type} (t : Task β), UpTo fuel limit (ev d s t) (ev' d s t)) (d : Nat)
    (s : ScopeId) (c : Script α) :
    UpTo fuel limit (c.exec ⟨sc, m⟩ ev d s) (c.exec ⟨sc, m'⟩ ev' d s) := by
  induction c with
  | last x => exact .refl x
  | act x rest ih => exact .bind (.refl x) ih
  | ask t rest ih => exact .bind (h d s t) ih
  | call p f vs => exact .bind (open?_upTo hm hlimit d s p f vs) fun l => h (d + 1) l (.tree f.body)

/-- with less fuel and a lower limit a task ends in the same way, or it is cut short -/
theorem run_upTo {α : Type} (hn : n ≤ n') (hfuel : n < n' → fuel) (hm : m ≤ m')
    (hlimit : m < m' → limit) (d : Nat) (s : ScopeId) (t : Task α) :
    UpTo fuel limit (t.run ⟨sc, m⟩ n d s) (t.run ⟨sc, m'⟩ n' d s) := by
  induction n generalizing n' d s α with
  | zero =>
    rcases Nat.eq_zero_or_pos n' with rfl | hpos
    · rw [run_zero, run_zero]
      exact .refl _
    · rw [run_zero]
      exact fun σ => .inr (hfuel hpos)
  | succ n ih =>
    obtain ⟨k, rfl⟩ : ∃ k, n' = k + 1 := ⟨n' - 1, by omega⟩
    have hev : ∀ d s {β : Type} (t : Task β),
        UpTo fuel limit (t.run ⟨sc, m⟩ n d s) (t.run ⟨sc, m'⟩ k d s) := fun d s _ t =>
      ih (Nat.le_of_succ_le_succ hn) (fun h => hfuel (Nat.succ_lt_succ h)) d s t
    rw [run_succ, run_succ]
    exact exec_upTo hm hlimit hev d s (t.script s)

section
variable {α : Type} {r : CallRule} {d : Nat} {s : ScopeId} {t : Task α} {σ : State}

/-- more fuel changes nothing -/
theorem run_of_le (hn : n ≤ n') (h : t.run r n d s σ ≠ .unfinished) :
    t.run r n' d s σ = t.run r n d s σ := by
  obtain ⟨sc, m⟩ := r
  have hupTo : UpTo True False (t.run ⟨sc, m⟩ n d s) (t.run ⟨sc, m⟩ n' d s) :=
    run_upTo hn (fun _ => trivial) (Nat.le_refl m) (fun hlt => Nat.lt_irrefl m hlt) d s t
  exact hupTo.eq_of_ended h

theorem exec_of_le {c : Script α} (hn : n ≤ n')
    (h : c.exec r (fun d s _ t => t.run r n d s) d s σ ≠ .unfinished) :
    c.exec r (fun d s _ t => t.run r n' d s) d s σ =
      c.exec r (fun d s _ t => t.run r n d s) d s σ := by
  obtain ⟨sc, m⟩ := r
  have hupTo : UpTo True False (c.exec ⟨sc, m⟩ (fun d s _ t => t.run ⟨sc, m⟩ n d s) d s)
      (c.exec ⟨sc, m⟩ (fun d s _ t => t.run ⟨sc, m⟩ n' d s) d s) :=
    exec_upTo (Nat.le_refl m) (fun hlt => Nat.lt_irrefl m hlt)
      (fun d s _ t => run_upTo hn (fun _ => trivial) (Nat.le_refl m)
        (fun hlt => Nat.lt_irrefl m hlt) d s t) d s c
  exact hupTo.eq_of_ended h

/-- a higher limit changes nothing, unless the limit ended the run -/
theorem run_of_limit_le (hm : m ≤ m') (n d : Nat) (s : ScopeId) (t : Task α) (σ : State) :
    t.run ⟨sc, m'⟩ n d s σ = t.run ⟨sc, m⟩ n d s σ ∨ (t.run ⟨sc, m⟩ n d s σ).TooDeep := by
  have hupTo : UpTo False True (t.run ⟨sc, m⟩ n d s) (t.run ⟨sc, m'⟩ n d s) :=
    run_upTo (Nat.le_refl n) (fun hlt => Nat.lt_irrefl n hlt) hm (fun _ => trivial) d s t
  rcases hupTo σ with heq | hcut
  · exact .inl heq.symm
  · right
    cases hσ : t.run ⟨sc, m⟩ n d s σ with
    | done a τ => rw [hσ] at hcut; exact hcut.elim
    | failed e τ => rw [hσ] at hcut; exact hcut.2
    | unfinished => rw [hσ] at hcut; exact hcut.elim

end

end Eval

end ExprShell
