import ExprShell.Proofs.Expr.Nodes

/-!
# Equality of trees up to places

`same` compares node by node; it is equality of what `erase` leaves of the trees, whatever children
they lack.  A tree has a text if it lacks no child but the last branch of a condition and the step
of a counted loop; trees that are the same lack the same children, and have the same text.

* `Expr.Filled`                   a tree that lacks no child it needs;
* `Expr.filled_erase`             the children a tree lacks are lacking without places too;
* `Expr.same_is_erased_equality`  what `same` compares.
-/

namespace ExprShell.Expr

/-- the children that a tree needs to have a text -/
def required : Expr → List Expr
  | .cond _ bs _ => bs.flatMap fun b => [b.1, b.2]
  | .count _ _ a b _ e => [a, b, e]
  | e => e.children

/-- a tree that is there, with all the children its nodes need -/
def Filled (e : Expr) : Prop :=
  e.isAbsent = false ∧ ∀ a ∈ e.nodes, ∀ b ∈ a.required, b.isAbsent = false

instance (e : Expr) : Decidable e.Filled := inferInstanceAs (Decidable (_ ∧ _))

/-! ## Nodes without places -/

theorem eraseBranches_eq (bs : List (Expr × Expr)) :
    eraseBranches bs = bs.map fun b => (b.1.erase, b.2.erase) := by
  induction bs with
  | nil => rfl
  | cons b bs ih => rw [eraseBranches, ih, List.map_cons]

theorem eraseArgs_eq (as : List Expr) : eraseArgs as = as.map erase := by
  induction as with
  | nil => rfl
  | cons a as ih => rw [eraseArgs, ih, List.map_cons]

theorem flatMap_eraseBranches (bs : List (Expr × Expr)) :
    (eraseBranches bs).flatMap (fun b => [b.1, b.2]) =
      (bs.flatMap fun b => [b.1, b.2]).map erase := by
  rw [eraseBranches_eq, List.flatMap_map, List.map_flatMap]
  rfl

theorem children_erase (e : Expr) : e.erase.children = e.children.map erase := by
  cases e with
  | cond t bs e =>
    rw [erase, children, flatMap_eraseBranches, children, List.map_append]
    rfl
  | call t f as => rw [erase, children, eraseArgs_eq, children, List.map_cons]
  | _ => rfl

theorem required_erase (e : Expr) : e.erase.required = e.required.map erase := by
  cases e with
  | cond t bs e => exact flatMap_eraseBranches bs
  | call t f as => exact children_erase (.call t f as)
  | _ => rfl

theorem erase_eq_absent_iff {e : Expr} : e.erase = .absent ↔ e = .absent := by
  cases e <;> simp [erase]

/-- the nodes of a tree without places are its nodes without places -/
theorem mem_nodes_erase {c e : Expr} : c ∈ e.erase.nodes ↔ ∃ a ∈ e.nodes, a.erase = c := by
  induction e using induct_children with
  | step e ih =>
    rw [mem_nodes_iff_child, children_erase]
    constructor
    · rintro (⟨rfl, hne⟩ | ⟨d, hd, hc⟩)
      · exact ⟨e, mem_nodes_iff_child.mpr (.inl ⟨rfl, mt erase_eq_absent_iff.mpr hne⟩), rfl⟩
      · obtain ⟨b, hb, rfl⟩ := List.mem_map.mp hd
        obtain ⟨a, ha, hac⟩ := (ih b hb).mp hc
        exact ⟨a, mem_nodes_iff_child.mpr (.inr ⟨b, hb, ha⟩), hac⟩
    · rintro ⟨a, ha, rfl⟩
      rcases mem_nodes_iff_child.mp ha with ⟨rfl, hne⟩ | ⟨b, hb, ha⟩
      · exact .inl ⟨rfl, mt erase_eq_absent_iff.mp hne⟩
      · exact .inr ⟨b.erase, List.mem_map_of_mem hb, (ih b hb).mpr ⟨a, ha, rfl⟩⟩

theorem filled_erase (e : Expr) : e.erase.Filled ↔ e.Filled := by
  have hnode (a : Expr) : (∀ b ∈ a.erase.required, b.isAbsent = false) ↔
      ∀ b ∈ a.required, b.isAbsent = false := by
    rw [required_erase, List.forall_mem_map]
    simp only [isAbsent_erase]
  rw [Filled, Filled, isAbsent_erase]
  apply and_congr_right'
  constructor
  · intro h a ha
    exact (hnode a).mp (h a.erase (mem_nodes_erase.mpr ⟨a, ha, rfl⟩))
  · intro h c hc
    obtain ⟨a, ha, rfl⟩ := mem_nodes_erase.mp hc
    exact (hnode a).mpr (h a ha)

/-! ## What is the same -/

theorem same_equivalence : Equivalence fun a b : Expr => a.same b = true where
  refl a := (same_iff_erase a a).mpr rfl
  symm {a b} h := (same_iff_erase b a).mpr ((same_iff_erase a b).mp h).symm
  trans {a b c} hab hbc :=
    (same_iff_erase a c).mpr (((same_iff_erase a b).mp hab).trans ((same_iff_erase b c).mp hbc))

theorem filled_of_same {a b : Expr} (h : a.same b = true) (ha : a.Filled) : b.Filled := by
  rw [← filled_erase, ← (same_iff_erase a b).mp h, filled_erase]
  exact ha

/-- **`same` is equality of trees without places**, so it is an equivalence, and trees that are the
same and have a text have the same text. -/
theorem same_is_erased_equality :
    (∀ a b : Expr, a.same b = true ↔ a.erase = b.erase) ∧
    Equivalence (fun a b : Expr => a.same b = true) ∧
    ∀ a b : Expr, a.same b = true → a.Filled → b.Filled ∧ a.render = b.render :=
  ⟨same_iff_erase, same_equivalence, fun _ _ h ha => ⟨filled_of_same h ha, render_eq_of_same h⟩⟩

/-- `1 + x` at two places, and a sign without its operand at two places -/
theorem same_is_erased_equality_moved :
    let sum (c : Nat) : Expr := .binary (.number ⟨.int, "1", "1", ⟨1, c⟩⟩)
      ⟨.plus, "+", "", ⟨1, c + 1⟩⟩ (.var ⟨.identifier, "x", "x", ⟨1, c + 2⟩⟩ "x")
    let sign (c : Nat) : Expr := .unary ⟨.minus, "-", "", ⟨1, c⟩⟩ .absent
    ((sum 1).Filled ∧ (sum 1).same (sum 30) = true ∧ (sum 30).Filled ∧
      (sum 1).render = (sum 30).render) ∧
    ((sign 1).same (sign 30) = true ∧ ¬ (sign 1).Filled) := by
  intro sum sign
  obtain ⟨hsame, -, htext⟩ := same_is_erased_equality
  have hsum : (sum 1).same (sum 30) = true := (hsame _ _).mpr rfl
  have hfilled : (sum 1).Filled := by decide
  exact ⟨⟨hfilled, hsum, htext _ _ hsum hfilled⟩, (hsame _ _).mpr rfl, by decide⟩

end ExprShell.Expr
