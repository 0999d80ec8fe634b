import Mathlib.Data.Set.Basic
import ExprShell.Proofs.Eval.Writes

/-!
# Parts of a tree

* `Expr.Inside`     what stands inside a tree, at any depth;
* `Expr.reads`      the names that a tree reads outside the bodies of its functions;
* `Expr.functions`  the functions of a tree, at any depth;
* `Expr.Closed`     a function that reads nothing but its parameters and names of a set `G`, and
                    binds no name of `G`;
* `Expr.Sealed`     a tree all of whose functions are closed.
-/

namespace ExprShell.Expr

def children : Expr → List Expr
  | .absent | .number _ | .var _ _ => []
  | .assign _ _ e | .unary _ e | .func _ _ _ e => [e]
  | .binary l _ r => [l, r]
  | .cond _ bs e => bs.flatMap (fun b => [b.1, b.2]) ++ [e]
  | .count _ _ a b s e => [a, b, s, e]
  | .loop _ c e => [c, e]
  | .call _ f as => f :: as

/-- the same, outside the body of a function -/
def parts : Expr → List Expr
  | .func _ _ _ _ => []
  | e => e.children

/-- the first tree stands inside the second, or is all of it -/
inductive Inside : Expr → Expr → Prop
  | self {e : Expr} : Inside e e
  | child {a b e : Expr} (h : Inside a e) (hb : b ∈ a.children) : Inside b e

theorem mem_children_cond {t : Token} {bs : List (Expr × Expr)} {e : Expr} {b : Expr × Expr}
    (hb : b ∈ bs) : b.1 ∈ (cond t bs e).children ∧ b.2 ∈ (cond t bs e).children := by
  have hmem : ∀ a ∈ [b.1, b.2], a ∈ (cond t bs e).children := fun a ha =>
    List.mem_append_left _ (List.mem_flatMap.mpr ⟨b, hb, ha⟩)
  exact ⟨hmem _ (by simp), hmem _ (by simp)⟩

mutual

/-- the names that an expression reads outside the bodies of its functions -/
def reads : Expr → List String
  | .absent => []
  | .number _ => []
  | .var _ x => [x]
  | .assign _ _ e => e.reads
  | .binary l _ r => l.reads ++ r.reads
  | .unary _ e => e.reads
  | .cond _ bs e => branchReads bs ++ e.reads
  | .count _ _ a b s e => a.reads ++ (b.reads ++ (s.reads ++ e.reads))
  | .loop _ c e => c.reads ++ e.reads
  | .func _ _ _ _ => []
  | .call _ f as => f.reads ++ argReads as

def branchReads : List (Expr × Expr) → List String
  | [] => []
  | (c, e) :: bs => c.reads ++ (e.reads ++ branchReads bs)

def argReads : List Expr → List String
  | [] => []
  | a :: as => a.reads ++ argReads as

end

mutual

/-- the functions of an expression at any depth: their parameters and their bodies -/
def functions : Expr → List (List String × Expr)
  | .absent => []
  | .number _ => []
  | .var _ _ => []
  | .assign _ _ e => e.functions
  | .binary l _ r => l.functions ++ r.functions
  | .unary _ e => e.functions
  | .cond _ bs e => branchFunctions bs ++ e.functions
  | .count _ _ a b s e => a.functions ++ (b.functions ++ (s.functions ++ e.functions))
  | .loop _ c e => c.functions ++ e.functions
  | .func _ _ ps e => (ps, e) :: e.functions
  | .call _ f as => f.functions ++ argFunctions as

def branchFunctions : List (Expr × Expr) → List (List String × Expr)
  | [] => []
  | (c, e) :: bs => c.functions ++ (e.functions ++ branchFunctions bs)

def argFunctions : List Expr → List (List String × Expr)
  | [] => []
  | a :: as => a.functions ++ argFunctions as

end

/-- what is gathered from a list holds what is gathered from each of its members -/
theorem subset_of_mem {α β : Type} {f : α → List β} {F : List α → List β}
    (hF : ∀ a as, F (a :: as) = f a ++ F as) {a : α} {as : List α} (h : a ∈ as) : f a ⊆ F as := by
  induction as with
  | nil => cases h
  | cons b as ih =>
    rw [hF]
    rcases List.mem_cons.mp h with rfl | h
    · exact List.subset_append_left _ _
    · exact List.subset_append_of_subset_right _ (ih h)

theorem eq_flatMap {α β : Type} {f : α → List β} {F : List α → List β} (hnil : F [] = [])
    (hF : ∀ a as, F (a :: as) = f a ++ F as) (as : List α) : F as = as.flatMap f := by
  induction as with
  | nil => exact hnil
  | cons a as ih => rw [hF, ih, List.flatMap_cons]

/-- a function with these parameters and this body reads only its parameters and names of `G`; it
binds no name of `G` -/
structure Closed (G : Set String) (params : List String) (body : Expr) : Prop where
  reads : ∀ x ∈ body.reads, x ∈ params ∨ x ∈ G
  params : ∀ x ∈ params, x ∉ G
  targets : ∀ x ∈ body.targets, x ∉ G

/-- every function inside the tree is closed -/
def Sealed (G : Set String) (e : Expr) : Prop := ∀ f ∈ e.functions, Closed G f.1 f.2

instance (G : Set String) [DecidablePred (· ∈ G)] (params : List String) (body : Expr) :
    Decidable (Closed G params body) :=
  decidable_of_iff ((∀ x ∈ body.reads, x ∈ params ∨ x ∈ G) ∧ (∀ x ∈ params, ¬ x ∈ G) ∧
      ∀ x ∈ body.targets, ¬ x ∈ G)
    ⟨fun h => ⟨h.1, h.2.1, h.2.2⟩, fun h => ⟨h.reads, h.params, h.targets⟩⟩

instance (G : Set String) [DecidablePred (· ∈ G)] (e : Expr) : Decidable (e.Sealed G) :=
  inferInstanceAs (Decidable (∀ f ∈ e.functions, Closed G f.1 f.2))

end ExprShell.Expr
