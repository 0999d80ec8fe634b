import Mathlib.Data.List.Pairwise
import ExprShell.Proofs.Expr.Nodes
import ExprShell.Proofs.Token.Blanked
import ExprShell.Proofs.Token.Places

/-!
# Functions around a tree

A tree stands in a sentence inside the bodies of some functions.  Their number is known from the
tree alone, because no two words of a text stand in the same place, and every node has a word of
its own.

* `Expr.Within root k a`   `a` stands inside `root`, and inside the bodies of `k` functions of it;
* `nodup_scanned`          the words of a text are different;
* `Within.unique`          so there is one such number.
-/

namespace ExprShell

namespace Expr

/-- the number of bodies between a tree and what stands directly inside it -/
def opens : Expr → Nat
  | .func _ _ _ _ => 1
  | _ => 0

/-- `a` stands inside `root`, and inside the bodies of `k` functions of it -/
inductive Within (root : Expr) : Nat → Expr → Prop
  | whole : Within root 0 root
  | child {k : Nat} {a b : Expr} (h : Within root k a) (hb : b ∈ a.children) :
    Within root (k + a.opens) b

namespace Within

variable {root a b : Expr} {j k : Nat}

theorem part (h : Within root k a) (hb : b ∈ a.parts) : Within root k b := by
  cases a with
  | func t x ps e => cases hb
  | _ => exact h.child hb

theorem body {t : Token} {x : String} {ps : List String} {e : Expr}
    (h : Within root k (.func t x ps e)) : Within root (k + 1) e :=
  h.child (List.mem_singleton_self e)

/-- from the outermost tree: it is the tree, or stands inside one of its children -/
theorem iff_child : Within root k a ↔
    (k = 0 ∧ a = root) ∨ ∃ c ∈ root.children, ∃ j, k = root.opens + j ∧ Within c j a := by
  constructor
  · intro h
    induction h with
    | whole => exact .inl ⟨rfl, rfl⟩
    | @child k a b _ hb ih =>
      rcases ih with ⟨rfl, rfl⟩ | ⟨c, hc, j, rfl, hj⟩
      · exact .inr ⟨b, hb, 0, by omega, .whole⟩
      · exact .inr ⟨c, hc, j + a.opens, by omega, hj.child hb⟩
  · rintro (⟨rfl, rfl⟩ | ⟨c, hc, j, rfl, hj⟩)
    · exact .whole
    · induction hj with
      | whole =>
        have hchild := Within.child (Within.whole : Within root 0 root) hc
        rwa [Nat.zero_add] at hchild
      | child _ hb ih =>
        rw [← Nat.add_assoc]
        exact ih.child hb

theorem inside (h : Within root k a) : a.Inside root := by
  induction h with
  | whole => exact .self
  | child _ hb ih => exact .child ih hb

end Within

/-- the nodes of a tree are itself and the nodes of its children -/
theorem nodes_perm {e : Expr} (he : e ≠ .absent) :
    e.nodes.Perm (e :: e.children.flatMap nodes) := by
  cases e with
  | absent => exact absurd rfl he
  | number | var | assign | unary | loop | func | count => simp [nodes, children]
  | binary l o r =>
    simp only [nodes, children, List.flatMap_cons, List.flatMap_nil, List.append_nil]
    exact List.perm_middle
  | cond t bs e => simp [nodes, children, nodesOfBranches_eq, List.flatMap_assoc]
  | call t f as =>
    simp only [nodes, children, nodesOfArgs_eq, List.flatMap_cons]
    exact List.perm_middle

/-- if no word belongs to two nodes: the word of a tree is not one of its children's, and two
children have no word in common -/
theorem nodup_children {e : Expr} (he : e ≠ .absent) (h : e.marks.Nodup) :
    (∀ c ∈ e.children, e.mark ∉ c.marks ∧ c.marks.Nodup) ∧
      ∀ c ∈ e.children, ∀ d ∈ e.children, ∀ t, t ∈ c.marks → t ∈ d.marks → c = d := by
  have hperm : e.marks.Perm (e.mark :: e.children.flatMap marks) := by
    have hmap := (nodes_perm he).map mark
    rwa [List.map_cons, List.map_flatMap] at hmap
  obtain ⟨hnot, hrest⟩ := List.nodup_cons.mp (hperm.nodup_iff.mp h)
  obtain ⟨heach, hpair⟩ := List.nodup_flatMap.mp hrest
  refine ⟨fun c hc => ⟨fun hmem => hnot (List.mem_flatMap.mpr ⟨c, hc, hmem⟩), heach c hc⟩, ?_⟩
  have hsymm : Std.Symm (Function.onFun List.Disjoint marks) := ⟨fun _ _ hdisj => hdisj.symm⟩
  intro c hc d hd t htc htd
  by_contra hne
  exact hpair.forall hc hd hne htc htd

theorem Within.mark_mem {root a : Expr} {k : Nat} (h : Within root k a) (ha : a ≠ .absent) :
    a.mark ∈ root.marks := List.mem_map.mpr ⟨a, mem_nodes_iff.mpr ⟨h.inside, ha⟩, rfl⟩

/-- how many bodies lie around a tree is known from the tree -/
theorem Within.unique {root a : Expr} {j k : Nat} (hroot : root.marks.Nodup) (ha : a ≠ .absent)
    (h : Within root j a) (h' : Within root k a) : j = k := by
  induction root using induct_children generalizing j k with
  | step root ih =>
    have hne : root ≠ .absent := by
      rintro rfl
      rcases iff_child.mp h with ⟨-, rfl⟩ | ⟨c, hc, -⟩
      · exact ha rfl
      · cases hc
    obtain ⟨hown, hshared⟩ := nodup_children hne hroot
    have hself : ∀ c ∈ root.children, ∀ i, ¬ Within c i root := fun c hc i hi =>
      (hown c hc).1 (hi.mark_mem hne)
    rcases iff_child.mp h with ⟨rfl, rfl⟩ | ⟨c, hc, i, rfl, hi⟩
    · rcases iff_child.mp h' with ⟨rfl, -⟩ | ⟨c, hc, i, -, hi⟩
      · rfl
      · exact absurd hi (hself c hc i)
    · rcases iff_child.mp h' with ⟨-, rfl⟩ | ⟨d, hd, i', rfl, hi'⟩
      · exact absurd hi (hself c hc i)
      · obtain rfl := hshared c hc d hd a.mark (hi.mark_mem ha) (hi'.mark_mem ha)
        rw [ih c hc (hown c hc).2 hi hi']

end Expr

/-! ## Words are different -/

/-- every token stands behind the text before it, and before the tokens that follow -/
theorem Cut.pairwise_before {before cs : List Char} {ts : List Token} {ds : List Diagnostic}
    (h : Cut before cs ts ds) :
    (∀ t ∈ ts, ∃ mid, t.pos = .behind (before ++ mid)) ∧
      ts.Pairwise fun t u => t.pos.Before u.pos := by
  induction h with
  | nil => exact ⟨List.forall_mem_nil _, .nil⟩
  | @token before cs ts ds t _ lexeme pos _ ih =>
    obtain ⟨hplace, hpair⟩ := ih
    refine ⟨fun u hu => ?_, hpair.cons fun u hu => ?_⟩
    · rcases List.mem_cons.mp hu with rfl | hu
      · exact ⟨[], by rw [pos, List.append_nil]⟩
      · obtain ⟨mid, hmid⟩ := hplace u hu
        exact ⟨t.lexeme.toList ++ mid, by rw [hmid, List.append_assoc]⟩
    · obtain ⟨mid, hmid⟩ := hplace u hu
      rw [pos, hmid, List.append_assoc, ← Position.after_behind]
      refine Position.before_after (fun hnil => lexeme ?_) _
      exact String.toList_eq_nil_iff.mp (List.append_eq_nil_iff.mp hnil).1
  | layout c _ _ ih | skipped d _ _ ih =>
    refine ⟨fun t ht => ?_, ih.2⟩
    obtain ⟨mid, hmid⟩ := ih.1 t ht
    exact ⟨_ :: mid, by rw [hmid, List.append_assoc, List.singleton_append]⟩

theorem nodup_scanned (cs : List Char) : (scanned cs).Nodup := by
  refine (cut_scan cs).pairwise_before.2.imp ?_
  rintro t _ hbefore rfl
  exact Position.before_irrefl _ hbefore

theorem nodup_marks {bound : Names} {cs : List Char} {e : Expr}
    (h : parse bound (scan cs).tokens = .ok e) : e.marks.Nodup := by
  have hsub := marks_sublist h
  rw [words_ofTokens_scan] at hsub
  exact hsub.nodup (nodup_scanned cs)

end ExprShell
