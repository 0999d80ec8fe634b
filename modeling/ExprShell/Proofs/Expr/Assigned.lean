import ExprShell.Proofs.Expr.Built
import ExprShell.Proofs.Expr.Parts

/-!
# Names that a tree assigns

Outside the bodies of its functions a tree assigns a name in four ways: behind `VAR`, behind `FOR`,
behind `FN`, and bare.  Bare it can be assigned only if it was bound when the tree was read.

* `Expr.assignments`      the names, each with the token where the assignment begins;
* `Declares`              the token is one of the three words, and the name stands behind it;
* `Expr.Built.assignment` how the names of a tree that was read are assigned.
-/

namespace ExprShell

namespace Expr

mutual

/-- the names that an expression assigns outside the bodies of its functions, each with the token
where the assignment begins -/
def assignments : Expr → List (Token × String)
  | .absent => []
  | .number _ => []
  | .var _ _ => []
  | .assign t x e => (t, x) :: e.assignments
  | .binary l _ r => l.assignments ++ r.assignments
  | .unary _ e => e.assignments
  | .cond _ bs e => branchAssignments bs ++ e.assignments
  | .count t x a b s e =>
    (t, x) :: (a.assignments ++ (b.assignments ++ (s.assignments ++ e.assignments)))
  | .loop _ c e => c.assignments ++ e.assignments
  | .func t x _ _ => if x = "" then [] else [(t, x)]
  | .call _ f as => f.assignments ++ argAssignments as

def branchAssignments : List (Expr × Expr) → List (Token × String)
  | [] => []
  | (c, e) :: bs => c.assignments ++ (e.assignments ++ branchAssignments bs)

def argAssignments : List Expr → List (Token × String)
  | [] => []
  | a :: as => a.assignments ++ argAssignments as

end

theorem branchAssignments_eq (bs : List (Expr × Expr)) :
    branchAssignments bs = bs.flatMap fun b => b.1.assignments ++ b.2.assignments :=
  eq_flatMap rfl (fun b bs => by rw [branchAssignments, List.append_assoc]) bs

theorem argAssignments_eq (as : List Expr) : argAssignments as = as.flatMap assignments :=
  eq_flatMap rfl (fun a as => by rw [argAssignments]) as

theorem branchTargets_eq (bs : List (Expr × Expr)) :
    branchTargets bs = bs.flatMap fun b => b.1.targets ++ b.2.targets :=
  eq_flatMap rfl (fun b bs => by rw [branchTargets, List.append_assoc]) bs

theorem argTargets_eq (as : List Expr) : argTargets as = as.flatMap targets :=
  eq_flatMap rfl (fun a as => by rw [argTargets]) as

theorem map_assignments (e : Expr) : e.assignments.map Prod.snd = e.targets := by
  induction e using induct with
  | absent | number | var => rfl
  | assign t x e ih => rw [assignments, targets, List.map_cons, ih]
  | binary l o r ihl ihr | loop t l r ihl ihr =>
    rw [assignments, targets, List.map_append, ihl, ihr]
  | unary o e ih => rw [assignments, targets, ih]
  | cond t bs e ihbs ih =>
    rw [assignments, targets, List.map_append, ih, branchAssignments_eq, branchTargets_eq,
      List.map_flatMap]
    refine congrArg (· ++ e.targets) (List.flatMap_congr fun b hb => ?_)
    rw [List.map_append, (ihbs b hb).1, (ihbs b hb).2]
  | count t x a b s e iha ihb ihs ih =>
    rw [assignments, targets, List.map_cons, List.map_append, List.map_append, List.map_append,
      iha, ihb, ihs, ih]
  | func t x ps e _ =>
    rw [assignments, targets]
    split <;> rfl
  | call t f as ihf ihas =>
    rw [assignments, targets, List.map_append, ihf, argAssignments_eq, argTargets_eq,
      List.map_flatMap]
    exact congrArg (f.targets ++ ·) (List.flatMap_congr fun a ha => ihas a ha)

theorem ne_absent_of_mem_assignments {e : Expr} {a : Token × String} (h : a ∈ e.assignments) :
    e ≠ .absent := by
  rintro rfl
  cases h

end Expr

/-- the token is a word that declares, and the name stands behind it -/
structure Declares (w : List Token) (t : Token) (x : String) : Prop where
  word : t.is .var ∨ t.is .for ∨ t.is .fn
  name : ∃ n : Token, [t, n] <:+: w ∧ n.kind = .identifier ∧ n.literal = x

/-- a tree that was read declares a name, or assigns to it because it was bound -/
theorem Expr.Built.assignment {bound : Names} {w : List Token} {e : Expr} (h : e.Built bound w)
    {a : Token × String} (ha : a ∈ e.assignments) : Declares w a.1 a.2 ∨ bound a.2 = true := by
  induction h with
  | number | var => cases ha
  | @declare t x e htx ht hx _ ih =>
    rcases List.mem_cons.mp ha with rfl | ha
    · exact .inl ⟨.inl ht, x, htx, hx, rfl⟩
    · exact ih ha
  | @assign x e _ hb _ ih =>
    rcases List.mem_cons.mp ha with rfl | ha
    · exact .inr hb
    · exact ih ha
  | binary _ _ _ _ ihl ihr | loop _ _ _ _ ihl ihr =>
    rcases List.mem_append.mp ha with ha | ha
    · exact ihl ha
    · exact ihr ha
  | unary _ _ _ ih => exact ih ha
  | cond _ _ _ _ ihtests ihbodies ih =>
    rcases List.mem_append.mp ha with ha | ha
    · rw [branchAssignments_eq] at ha
      obtain ⟨b, hb, ha⟩ := List.mem_flatMap.mp ha
      rcases List.mem_append.mp ha with ha | ha
      · exact ihtests b hb ha
      · exact ihbodies b hb ha
    · exact ih (ne_absent_of_mem_assignments ha) ha
  | @count t x _ _ _ _ htx ht hx _ _ _ _ iha ihb ihs ih =>
    rw [assignments] at ha
    simp only [List.mem_cons, List.mem_append] at ha
    rcases ha with rfl | ha | ha | ha | ha
    · exact .inl ⟨.inr (.inl ht), x, htx, hx, rfl⟩
    · exact iha ha
    · exact ihb ha
    · exact ihs (ne_absent_of_mem_assignments ha) ha
    · exact ih ha
  | @func t x ps e _ hk hx _ _ =>
    rw [assignments] at ha
    split at ha
    · cases ha
    · next hne =>
      rw [List.mem_singleton] at ha
      rw [ha]
      exact .inl ⟨.inr (.inr hk), hx hne⟩
  | call _ _ ihf ihas =>
    rcases List.mem_append.mp ha with ha | ha
    · exact ihf ha
    · rw [argAssignments_eq] at ha
      obtain ⟨b, hb, ha⟩ := List.mem_flatMap.mp ha
      exact ihas b hb ha

end ExprShell
