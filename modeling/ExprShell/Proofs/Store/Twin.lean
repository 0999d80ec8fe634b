import Mathlib.Data.List.Perm.Basic
import ExprShell.Proofs.Eval.Operators
import ExprShell.Proofs.Eval.Writes
import ExprShell.Proofs.Expr.Read

/-!
# Stores whose functions come from other texts

Two stores are twins if they have the same scopes, one inside the other in the same way, which bind
the same names; the values are the same but for the bodies of functions, which were read from texts
and are only the same up to places.  The order in which a scope lists its names does not count.

* `Value.Twin`, `Bindings.Twin`, `Store.Twin`   the same but for the bodies of functions;
* `Bindings.listing`                the names of a scope in order, with how their values are shown;
* `Bindings.Twin.listing_eq`        twins are listed alike.
-/

namespace ExprShell

/-- the same value, up to places in the body of a function -/
inductive Value.Twin : Value → Value → Prop
  | int (v : Integer) : Twin (.int v) (.int v)
  | double (x : Float) : Twin (.double x) (.double x)
  | absent : Twin .absent .absent
  | function {name : String} {params : List String} {body body' : Expr} {home : Option ScopeId}
    (h : body.Twin body') :
    Twin (.function ⟨name, params, body, home⟩) (.function ⟨name, params, body', home⟩)

theorem Value.Twin.alike {v w : Value} (h : v.Twin w) : v.Alike w := by
  cases h with
  | int v => exact .int v
  | double x => exact .double x
  | absent => exact .absent
  | function h => exact .function rfl rfl

/-! ## Bindings -/

namespace Bindings

def names (bs : Bindings) : List String := bs.map Prod.fst

/-- the names in order, each with the kind and the text of its value -/
def listing (bs : Bindings) : List (String × Value.Kind × String) :=
  bs.sorted.map fun b => (b.1, b.2.kind, b.2.text)

theorem mem_names_iff (bs : Bindings) (x : String) : x ∈ bs.names ↔ (bs.get? x).isSome := by
  induction bs with
  | nil => simp [names]
  | cons b bs ih =>
    obtain ⟨y, v⟩ := b
    have hcons : names ((y, v) :: bs) = y :: names bs := rfl
    rw [hcons, List.mem_cons, ih, get?_cons]
    by_cases h : y = x
    · simp [h]
    · simp [h, Ne.symm h]

theorem get?_of_mem {bs : Bindings} (h : bs.names.Nodup) {x : String} {v : Value}
    (hx : (x, v) ∈ bs) : bs.get? x = some v := by
  induction bs with
  | nil => cases hx
  | cons b bs ih =>
    obtain ⟨y, w⟩ := b
    have hnodup : y ∉ names bs ∧ (names bs).Nodup := List.nodup_cons.mp h
    rw [get?_cons]
    rcases List.mem_cons.mp hx with heq | hx
    · cases heq
      rw [if_pos rfl]
    · have hyx : y ≠ x := fun hyx => hnodup.1 (hyx ▸ List.mem_map_of_mem hx)
      rw [if_neg hyx]
      exact ih hnodup.2 hx

theorem mem_names_set (bs : Bindings) (x : String) (v : Value) (z : String) :
    z ∈ (set bs x v).names ↔ z = x ∨ z ∈ bs.names := by
  rw [mem_names_iff, mem_names_iff]
  by_cases h : x = z
  · simp [← h, get?_set_self]
  · simp [get?_set_of_ne _ _ h, Ne.symm h]

theorem nodup_set {bs : Bindings} (h : bs.names.Nodup) (x : String) (v : Value) :
    (set bs x v).names.Nodup := by
  induction bs with
  | nil => exact List.nodup_singleton x
  | cons b bs ih =>
    obtain ⟨y, w⟩ := b
    have hnodup : y ∉ names bs ∧ (names bs).Nodup := List.nodup_cons.mp h
    rw [set]
    by_cases hyx : y = x
    · rw [if_pos hyx]
      rw [hyx] at h
      exact h
    · rw [if_neg hyx]
      have hy : y ∉ (set bs x v).names := by
        rw [mem_names_set]
        exact not_or.mpr ⟨hyx, hnodup.1⟩
      exact List.nodup_cons.mpr ⟨hy, ih hnodup.2⟩

theorem perm_sorted (bs : Bindings) : bs.sorted.Perm bs := List.mergeSort_perm _ _

theorem pairwise_sorted (bs : Bindings) : bs.sorted.names.Pairwise (· ≤ ·) := by
  have htrans (a b c : String × Value) (hab : decide (a.1 ≤ b.1) = true)
      (hbc : decide (b.1 ≤ c.1) = true) : decide (a.1 ≤ c.1) = true :=
    decide_eq_true (String.le_trans (of_decide_eq_true hab) (of_decide_eq_true hbc))
  have htotal (a b : String × Value) : (decide (a.1 ≤ b.1) || decide (b.1 ≤ a.1)) = true := by
    simpa using String.le_total a.1 b.1
  have h := List.pairwise_mergeSort htrans htotal bs
  rw [names, List.pairwise_map]
  exact h.imp fun hab => of_decide_eq_true hab

/-- twins bind the same names, each once, to twins -/
structure Twin (bs cs : Bindings) : Prop where
  left : bs.names.Nodup
  right : cs.names.Nodup
  get? : ∀ x, Option.Rel Value.Twin (bs.get? x) (cs.get? x)

namespace Twin

variable {bs cs : Bindings}

theorem nil : Twin [] [] := ⟨List.nodup_nil, List.nodup_nil, fun _ => .none⟩

theorem set (h : Twin bs cs) (x : String) {v w : Value} (hv : v.Twin w) :
    Twin (bs.set x v) (cs.set x w) where
  left := nodup_set h.left x v
  right := nodup_set h.right x w
  get? z := by
    by_cases hxz : x = z
    · rw [← hxz, get?_set_self, get?_set_self]
      exact .some hv
    · rw [get?_set_of_ne _ _ hxz, get?_set_of_ne _ _ hxz]
      exact h.get? z

theorem setAll (h : Twin bs cs) (xs : List String) {vs ws : List Value}
    (hv : List.Forall₂ Value.Twin vs ws) : Twin (bs.setAll xs vs) (cs.setAll xs ws) := by
  induction xs generalizing bs cs vs ws with
  | nil => simpa only [Bindings.setAll] using h
  | cons x xs ih =>
    cases hv with
    | nil => simpa only [Bindings.setAll] using h
    | cons hvw hrest =>
      rw [Bindings.setAll, Bindings.setAll]
      exact ih (h.set x hvw) hrest

theorem mem_names_iff (h : Twin bs cs) (x : String) : x ∈ bs.names ↔ x ∈ cs.names := by
  rw [Bindings.mem_names_iff, Bindings.mem_names_iff]
  have hx := h.get? x
  generalize bs.get? x = v, cs.get? x = w at hx
  cases hx with
  | some _ => exact Iff.rfl
  | none => exact Iff.rfl

theorem names_sorted (h : Twin bs cs) : bs.sorted.names = cs.sorted.names := by
  have hperm : bs.sorted.names.Perm cs.sorted.names := by
    have hnames : bs.names.Perm cs.names :=
      (List.perm_ext_iff_of_nodup h.left h.right).mpr h.mem_names_iff
    exact ((perm_sorted bs).map _).trans (hnames.trans ((perm_sorted cs).map _).symm)
  exact hperm.eq_of_pairwise (fun _ _ _ _ hab hba => String.le_antisymm hab hba)
    (pairwise_sorted bs) (pairwise_sorted cs)

end Twin

def entry (bs : Bindings) (x : String) : String × Value.Kind × String :=
  (x, ((bs.get? x).getD .absent).kind, ((bs.get? x).getD .absent).text)

theorem listing_eq_map {bs : Bindings} (h : bs.names.Nodup) :
    bs.listing = bs.sorted.names.map bs.entry := by
  rw [listing, names, List.map_map]
  refine List.map_congr_left fun b hb => ?_
  obtain ⟨x, v⟩ := b
  have hget := get?_of_mem h ((perm_sorted bs).mem_iff.mp hb)
  simp [entry, hget]

theorem Twin.listing_eq {bs cs : Bindings} (h : Twin bs cs) : bs.listing = cs.listing := by
  have hentry : bs.entry = cs.entry := by
    funext x
    have hx := h.get? x
    rw [entry, entry]
    generalize bs.get? x = v, cs.get? x = w at hx
    cases hx with
    | some hv => rw [Option.getD_some, Option.getD_some, hv.alike.kind_eq, hv.alike.text_eq]
    | none => rfl
  rw [listing_eq_map h.left, listing_eq_map h.right, h.names_sorted, hentry]

end Bindings

/-! ## Stores -/

structure Frame.Twin (f g : Frame) : Prop where
  bindings : f.bindings.Twin g.bindings
  parent : f.parent = g.parent

/-- scope by scope the same but for the bodies of functions -/
def Store.Twin (a b : Store) : Prop :=
  ∀ i : ScopeId, Option.Rel Frame.Twin a.frames[i]? b.frames[i]?

namespace Store.Twin

variable {a b : Store}

theorem bindings (h : a.Twin b) (s : ScopeId) : (a.bindings s).Twin (b.bindings s) := by
  have hs := h s
  rw [Store.bindings, Store.bindings]
  generalize a.frames[s]? = f, b.frames[s]? = g at hs
  cases hs with
  | some hfg => exact hfg.bindings
  | none => exact .nil

theorem parent_eq (h : a.Twin b) (s : ScopeId) : a.parent s = b.parent s := by
  have hs := h s
  rw [Store.parent, Store.parent]
  generalize a.frames[s]? = f, b.frames[s]? = g at hs
  cases hs with
  | some hfg => exact hfg.parent
  | none => rfl

theorem lt_size_iff (h : a.Twin b) (i : ScopeId) : i < a.frames.size ↔ i < b.frames.size := by
  have hi := h i
  rw [← Nat.not_le, ← Nat.not_le, ← Array.getElem?_eq_none_iff, ← Array.getElem?_eq_none_iff]
  generalize a.frames[i]? = f, b.frames[i]? = g at hi
  cases hi with
  | some _ => simp
  | none => simp

theorem next_eq (h : a.Twin b) : a.next = b.next := by
  refine Nat.le_antisymm (Nat.le_of_not_lt fun hlt => ?_) (Nat.le_of_not_lt fun hlt => ?_)
  · exact Nat.lt_irrefl _ ((h.lt_size_iff _).mp hlt)
  · exact Nat.lt_irrefl _ ((h.lt_size_iff _).mpr hlt)

theorem lookup (h : a.Twin b) (s : ScopeId) (x : String) :
    Option.Rel Value.Twin (a.lookup s x) (b.lookup s x) := by
  induction s using Nat.strongRecOn with
  | ind s ih =>
    rw [Store.lookup, Store.lookup, h.parent_eq s]
    have hget := (h.bindings s).get? x
    generalize (a.bindings s).get? x = v, (b.bindings s).get? x = w at hget
    cases hget with
    | some hv => exact .some hv
    | none =>
      cases b.parent s with
      | none => exact .none
      | some p =>
        by_cases hp : p < s
        · simp only [hp, if_true]
          exact ih p hp
        · simp only [hp, if_false]
          exact .none

theorem set (h : a.Twin b) (s : ScopeId) (x : String) {v w : Value} (hv : v.Twin w) :
    (a.set s x v).Twin (b.set s x w) := by
  intro i
  have hi := h i
  rw [Store.set, Store.set, Array.getElem?_modify, Array.getElem?_modify]
  generalize a.frames[i]? = f, b.frames[i]? = g at hi
  by_cases hsi : s = i
  · rw [if_pos hsi, if_pos hsi]
    cases hi with
    | some hfg => exact .some ⟨hfg.bindings.set x hv, hfg.parent⟩
    | none => exact .none
  · rw [if_neg hsi, if_neg hsi]
    exact hi

theorem add (h : a.Twin b) (p : Option ScopeId) {bs cs : Bindings} (hbs : bs.Twin cs) :
    (a.add p bs).Twin (b.add p cs) := by
  intro i
  have hsize : a.frames.size = b.frames.size := h.next_eq
  rw [Store.add, Store.add, Array.getElem?_push, Array.getElem?_push, hsize]
  by_cases hi : i = b.frames.size
  · rw [if_pos hi, if_pos hi]
    exact .some ⟨hbs, rfl⟩
  · rw [if_neg hi, if_neg hi]
    exact h i

end Store.Twin

end ExprShell
