import ExprShell.Proofs.Eval.Compare
import ExprShell.Proofs.Store.Sealed

/-!
# Calls in different scopes

Two evaluators that put the scopes of calls inside different scopes do the same, if all functions
are closed: the stores differ in what lies around a scope, but not in what a scope binds.

* `Fits`             an expression that can be evaluated in a scope: it reads what can be read
                     there;
* `Store.Rescoped`   sealed stores that bind the same;
* `rescoped`         the comparison of evaluators under any two rules.
-/

namespace ExprShell

variable {G : Set String} {g : ScopeId} {W : List (List String)} {s : ScopeId}

/-- the expression can be evaluated in the scope `s` -/
structure Fits (G : Set String) (g : ScopeId) (W : List (List String)) (s : ScopeId) (e : Expr) :
    Prop where
  inside : g ≤ s
  there : s < W.length
  functions : e.Sealed G
  reads : ∀ x ∈ e.reads, Readable G g W s x
  targets : ∀ x ∈ e.targets, s = g ∨ x ∉ G

/-- stores that may differ in what lies around the scopes of calls -/
structure Store.Rescoped (G : Set String) (g : ScopeId) (W : List (List String)) (a b : Store) :
    Prop where
  left : a.Sealed G g W
  right : b.Sealed G g W
  bindings : ∀ i, a.bindings i = b.bindings i

theorem Readable.mono {V : List (List String)} (h : W <+: V) {x : String}
    (hx : Readable G g W s x) : Readable G g V s x := by
  rcases hx with hs | ⟨xs, hxs, hx⟩ | hx
  · exact .inl hs
  · obtain ⟨U, rfl⟩ := h
    have hs := (List.getElem?_eq_some_iff.mp hxs).1
    rw [← List.getElem?_append_left hs] at hxs
    exact .inr (.inl ⟨xs, hxs, hx⟩)
  · exact .inr (.inr hx)

namespace Fits

variable {e : Expr}

/-- in the global scope everything can be evaluated whose functions are closed -/
theorem global (hg : g < W.length) (h : e.Sealed G) : Fits G g W g e :=
  ⟨Nat.le_refl g, hg, h, fun _ _ => .inl rfl, fun _ _ => .inl rfl⟩

theorem mono {V : List (List String)} (hWV : W <+: V) (h : Fits G g W s e) : Fits G g V s e where
  inside := h.inside
  there := Nat.lt_of_lt_of_le h.there hWV.length_le
  functions := h.functions
  reads x hx := (h.reads x hx).mono hWV
  targets := h.targets

/-- what reads and writes no more, and has no more functions -/
theorem part (h : Fits G g W s e) {a : Expr} (hr : a.reads ⊆ e.reads) (ht : a.targets ⊆ e.targets)
    (hf : a.functions ⊆ e.functions) : Fits G g W s a where
  inside := h.inside
  there := h.there
  functions f hfa := h.functions f (hf hfa)
  reads x hx := h.reads x (hr hx)
  targets x hx := h.targets x (ht hx)

theorem branch {t : Token} {bs : List (Expr × Expr)} (h : Fits G g W s (.cond t bs e))
    {b : Expr × Expr} (hb : b ∈ bs) : Fits G g W s b.1 ∧ Fits G g W s b.2 := by
  have hr : b.1.reads ++ b.2.reads ⊆ Expr.branchReads bs :=
    Expr.subset_of_mem (f := fun b => b.1.reads ++ b.2.reads)
      (fun b bs => by rw [Expr.branchReads, List.append_assoc]) hb
  have ht : b.1.targets ++ b.2.targets ⊆ Expr.branchTargets bs :=
    Expr.subset_of_mem (f := fun b => b.1.targets ++ b.2.targets)
      (fun b bs => by rw [Expr.branchTargets, List.append_assoc]) hb
  have hf : b.1.functions ++ b.2.functions ⊆ Expr.branchFunctions bs :=
    Expr.subset_of_mem (f := fun b => b.1.functions ++ b.2.functions)
      (fun b bs => by rw [Expr.branchFunctions, List.append_assoc]) hb
  rw [List.append_subset] at hr ht hf
  constructor
  · exact h.part (List.subset_append_of_subset_left _ hr.1)
      (List.subset_append_of_subset_left _ ht.1) (List.subset_append_of_subset_left _ hf.1)
  · exact h.part (List.subset_append_of_subset_left _ hr.2)
      (List.subset_append_of_subset_left _ ht.2) (List.subset_append_of_subset_left _ hf.2)

theorem arg {t : Token} {f : Expr} {as : List Expr} (h : Fits G g W s (.call t f as)) {a : Expr}
    (ha : a ∈ as) : Fits G g W s a := by
  have hr : a.reads ⊆ Expr.argReads as :=
    Expr.subset_of_mem (f := Expr.reads) (fun a as => by rw [Expr.argReads]) ha
  have ht : a.targets ⊆ Expr.argTargets as :=
    Expr.subset_of_mem (f := Expr.targets) (fun a as => by rw [Expr.argTargets]) ha
  have hf : a.functions ⊆ Expr.argFunctions as :=
    Expr.subset_of_mem (f := Expr.functions) (fun a as => by rw [Expr.argFunctions]) ha
  exact h.part (List.subset_append_of_subset_right _ hr)
    (List.subset_append_of_subset_right _ ht) (List.subset_append_of_subset_right _ hf)

theorem layer (h : Fits G g W s e) :
    e.Layer (fun x => s = s ∧ g ≤ s ∧ s < W.length ∧ Readable G g W s x)
      (fun x => s = s ∧ s < W.length ∧ (s = g ∨ x ∉ G))
      (fun a b => s = s ∧ a = b ∧ Fits G g W s a) e := by
  have hpart : ∀ a : Expr, a.reads ⊆ e.reads → a.targets ⊆ e.targets →
      a.functions ⊆ e.functions → s = s ∧ a = a ∧ Fits G g W s a := fun a hr ht hf =>
    ⟨rfl, rfl, h.part hr ht hf⟩
  have hwrite : ∀ x ∈ e.targets, s = s ∧ s < W.length ∧ (s = g ∨ x ∉ G) := fun x hx =>
    ⟨rfl, h.there, h.targets x hx⟩
  cases e with
  | absent => exact .absent
  | number t => exact .number rfl
  | var t x => exact .var ⟨rfl, h.inside, h.there, h.reads x (List.mem_singleton_self x)⟩
  | assign t x e =>
    exact .assign (hwrite x List.mem_cons_self)
      (hpart e (List.Subset.refl _) (List.subset_cons_self _ _) (List.Subset.refl _))
  | binary l o e =>
    exact .binary rfl
      (hpart l (List.subset_append_left _ _) (List.subset_append_left _ _)
        (List.subset_append_left _ _))
      (hpart e (List.subset_append_right _ _) (List.subset_append_right _ _)
        (List.subset_append_right _ _))
  | unary o e =>
    exact .unary rfl (hpart e (List.Subset.refl _) (List.Subset.refl _) (List.Subset.refl _))
  | cond t bs e =>
    refine .cond (List.forall₂_same.mpr fun b hb => ?_)
      (hpart e (List.subset_append_right _ _) (List.subset_append_right _ _)
        (List.subset_append_right _ _))
    obtain ⟨htest, hbody⟩ := h.branch hb
    exact ⟨⟨rfl, rfl, htest⟩, ⟨rfl, rfl, hbody⟩⟩
  | count t x a b st e =>
    have hx := hwrite x List.mem_cons_self
    refine .count hx (hpart a ?_ ?_ ?_) (hpart b ?_ ?_ ?_) (hpart st ?_ ?_ ?_) (hpart e ?_ ?_ ?_)
    all_goals
      intro y hy
      simp [Expr.reads, Expr.targets, Expr.functions, hy]
  | loop t c e =>
    exact .loop
      (hpart c (List.subset_append_left _ _) (List.subset_append_left _ _)
        (List.subset_append_left _ _))
      (hpart e (List.subset_append_right _ _) (List.subset_append_right _ _)
        (List.subset_append_right _ _))
  | func t x ps e =>
    refine .func fun hx => hwrite x ?_
    rw [Expr.targets, if_neg hx]
    exact List.mem_singleton_self x
  | call t f as =>
    refine .call (hpart f (List.subset_append_left _ _) (List.subset_append_left _ _)
      (List.subset_append_left _ _)) (List.forall₂_same.mpr fun a ha => ?_)
    exact ⟨rfl, rfl, h.arg ha⟩

theorem func {t : Token} {x : String} {ps : List String} (h : Fits G g W s (.func t x ps e)) :
    Value.Sealed G g W.length (.function ⟨x, ps, e, some s⟩) := by
  refine ⟨h.functions (ps, e) List.mem_cons_self, ?_, s, rfl, h.inside, h.there⟩
  exact fun f hf => h.functions f (List.mem_cons_of_mem _ hf)

/-- the body of a function can be evaluated in the scope of a call -/
theorem body {f : Function} (hg : g < W.length) (hf : f.Sealed G g W.length) :
    Fits G g (W ++ [f.params]) W.length f.body where
  inside := Nat.le_of_lt hg
  there := by simp
  functions := hf.body
  reads x hx := by
    rcases hf.closed.reads x hx with hp | hG
    · exact .inr (.inl ⟨f.params, List.getElem?_concat_length, hp⟩)
    · exact .inr (.inr hG)
  targets x hx := .inr (hf.closed.targets x hx)

end Fits

namespace Store.Rescoped

variable {a b : Store}

theorem lookup_eq (h : Store.Rescoped G g W a b) (hgs : g ≤ s) (hs : s < W.length) {x : String}
    (hx : Readable G g W s x) : a.lookup s x = b.lookup s x := by
  rw [h.left.lookup_eq hgs hs hx, h.right.lookup_eq hgs hs hx, h.bindings s, h.bindings g]

theorem set (h : Store.Rescoped G g W a b) (hs : s < W.length) {x : String} (hx : s = g ∨ x ∉ G)
    {v : Value} (hv : v.Sealed G g W.length) :
    Store.Rescoped G g W (a.set s x v) (b.set s x v) := by
  refine ⟨h.left.set hs hx hv, h.right.set hs hx hv, fun i => ?_⟩
  by_cases hsi : s = i
  · rw [← hsi, a.bindings_set_self x v (h.left.size.symm ▸ hs),
      b.bindings_set_self x v (h.right.size.symm ▸ hs), h.bindings s]
  · rw [a.bindings_set_of_ne x v hsi, b.bindings_set_of_ne x v hsi, h.bindings i]

theorem next_eq (h : Store.Rescoped G g W a b) : a.next = b.next :=
  h.left.size.trans h.right.size.symm

/-- the scopes of a call may lie inside different scopes -/
theorem add (h : Store.Rescoped G g W a b) {p q : ScopeId} (hp : g ≤ p ∧ p < W.length)
    (hq : g ≤ q ∧ q < W.length) {f : Function} (hf : f.Sealed G g W.length) {vs : List Value}
    (hlen : vs.length = f.params.length) (hvs : ∀ v ∈ vs, v.Sealed G g W.length) :
    Store.Rescoped G g (W ++ [f.params]) (a.add (some p) (Bindings.setAll [] f.params vs))
      (b.add (some q) (Bindings.setAll [] f.params vs)) := by
  refine ⟨h.left.add hp.1 hp.2 hf.closed.params hlen hvs,
    h.right.add hq.1 hq.2 hf.closed.params hlen hvs, fun i => ?_⟩
  rw [a.bindings_add, b.bindings_add, h.next_eq, h.bindings i]

/-- what the global scope bound in two earlier stores can be put back -/
theorem restore {V : List (List String)} {a₀ b₀ : Store} (h : Store.Rescoped G g W a b)
    (hbefore : Store.Rescoped G g V a₀ b₀) (hVW : V <+: W) :
    Store.Rescoped G g W (a.restore g (a₀.bindings g)) (b.restore g (b₀.bindings g)) := by
  refine ⟨h.left.restore hbefore.left hVW, h.right.restore hbefore.right hVW, fun i => ?_⟩
  rw [a.bindings_restore (h.left.size.symm ▸ h.left.global),
    b.bindings_restore (h.right.size.symm ▸ h.right.global), hbefore.bindings g, h.bindings i]

end Store.Rescoped

/-- under every rule the scope of a call lies inside a scope from `g` on -/
theorem outer_of_sealed (r : CallRule) (hgs : g ≤ s) (hs : s < W.length) {f : Function}
    (hf : f.Sealed G g W.length) :
    ∃ p, Eval.outer r s f = some p ∧ g ≤ p ∧ p < W.length := by
  unfold Eval.outer
  cases r.scoping with
  | dynamic => exact ⟨s, rfl, hgs, hs⟩
  | lexical => exact hf.home

theorem values_eq {vs ws : List Value}
    (h : List.Forall₂ (fun v w => v = w ∧ v.Sealed G g W.length) vs ws) :
    vs = ws ∧ ∀ v ∈ vs, v.Sealed G g W.length := by
  induction h with
  | nil => exact ⟨rfl, nofun⟩
  | cons hv _ ih =>
    obtain ⟨rfl, hsealed⟩ := hv
    obtain ⟨rfl, hrest⟩ := ih
    exact ⟨rfl, List.forall_mem_cons.mpr ⟨hsealed, hrest⟩⟩

theorem Value.alike_self (v : Value) : v.Alike v := by
  cases v with
  | int v => exact .int v
  | double x => exact .double x
  | function f => exact .function rfl rfl
  | absent => exact .absent

/-- the same trees and values, in stores that bind the same -/
def rescoped (G : Set String) (g : ScopeId) {r r' : CallRule} : Comparison r r' where
  World := List (List String)
  le V W := V <+: W
  store W a b := a.Rescoped G g W b
  value W v w := v = w ∧ v.Sealed G g W.length
  tree W s t e e' := s = t ∧ e = e' ∧ Fits G g W s e
  reads W s t x := s = t ∧ g ≤ s ∧ s < W.length ∧ Readable G g W s x
  writes W s t x := s = t ∧ s < W.length ∧ (s = g ∨ x ∉ G)
  place p q := p = q
  refl W := List.prefix_refl W
  trans h₁ h₂ := h₁.trans h₂
  value_mono hle h := ⟨h.1, h.2.mono hle.length_le⟩
  tree_mono hle h := ⟨h.1, h.2.1, h.2.2.mono hle⟩
  writes_mono hle h := ⟨h.1, Nat.lt_of_lt_of_le h.2.1 hle.length_le, h.2.2⟩
  int _ _ := ⟨rfl, trivial⟩
  double _ _ := ⟨rfl, trivial⟩
  absent _ := ⟨rfl, trivial⟩
  alike h := h.1 ▸ Value.alike_self _
  pos h := congrArg Expr.pos h.2.1
  layer h := by
    obtain ⟨rfl, rfl, h⟩ := h
    exact h.layer
  lookup := by
    intro W a b s t x hstore hx
    obtain ⟨rfl, hgs, hs, hx⟩ := hx
    rw [hstore.lookup_eq hgs hs hx]
    cases hv : b.lookup s x with
    | none => exact .none
    | some v => exact .some ⟨rfl, hstore.right.sealed_of_lookup hgs hs hx hv⟩
  set := by
    intro W a b s t x v w hstore hx hv
    obtain ⟨rfl, hs, hx⟩ := hx
    obtain ⟨rfl, hv⟩ := hv
    exact hstore.set hs hx hv
  func := by
    intro W s t k k' x ps e e' h
    obtain ⟨rfl, heq, h⟩ := h
    cases heq
    exact ⟨rfl, h.func⟩
  enter := by
    intro W a b s t e e' f f' vs ws hstore htree hf hvs hlen
    obtain ⟨rfl, -, hfits⟩ := htree
    obtain ⟨heq, hf⟩ := hf
    cases heq
    obtain ⟨rfl, hsealed⟩ := values_eq hvs
    obtain ⟨p, hp, hgp⟩ := outer_of_sealed r hfits.inside hfits.there hf
    obtain ⟨q, hq, hgq⟩ := outer_of_sealed r' hfits.inside hfits.there hf
    rw [hp, hq]
    have hbody := Fits.body hstore.left.global hf
    rw [← hstore.left.size] at hbody
    refine ⟨W ++ [f.params], List.prefix_append W _, hstore.add hgp hgq hf hlen hsealed, ?_⟩
    exact ⟨hstore.next_eq, rfl, hbody⟩

end ExprShell
