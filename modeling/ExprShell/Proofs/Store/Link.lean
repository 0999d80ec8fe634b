import Mathlib.Data.List.Forall2
import ExprShell.Proofs.Eval.Writes
import ExprShell.Proofs.Store.Names

/-!
# Stores that differ in the numbers of their scopes

Two runs of one program may number their scopes differently, because one of them made scopes that
the other did not.  A link says which scope of the first store stands for which scope of the
second.  Linked scopes bind linked values under the same names, and lie inside linked scopes; what
is not linked may differ in any way.  A link keeps the order in which the scopes were made.

* `Value.Linked`, `Bindings.Linked`, `Frame.Linked`   the same up to the link;
* `Store.Matched`     the linked scopes of two stores, name by name;
* `Store.Linked`      the same with the names of a scope in the same order;
* `Store.Linked.lookup`, `.set`, `.restore`, `.add`   one lemma for each operation on stores;
* `Store.Reaches`     what can be got at from a scope; all of it is linked if the scope is.
-/

namespace ExprShell

/-- which scopes of two stores stand for each other -/
abbrev Link := ScopeId → ScopeId → Prop

namespace Link

/-- every pair of the first is a pair of the second -/
def Sub (L M : Link) : Prop := ∀ i j, L i j → M i j

def add (L : Link) (i j : ScopeId) : Link := fun a b => L a b ∨ (a = i ∧ b = j)

/-- both stores made their scopes in the same order -/
def Ordered (L : Link) : Prop := ∀ i j i' j', L i j → L i' j' → (i < i' ↔ j < j')

theorem Sub.refl (L : Link) : L.Sub L := fun _ _ h => h

theorem Sub.trans {L M N : Link} (h₁ : L.Sub M) (h₂ : M.Sub N) : L.Sub N :=
  fun i j h => h₂ i j (h₁ i j h)

theorem Sub.rel {L M : Link} (h : L.Sub M) {i j : Option ScopeId} (hij : Option.Rel L i j) :
    Option.Rel M i j := by
  cases hij with
  | some hL => exact .some (h _ _ hL)
  | none => exact .none

theorem sub_add (L : Link) (i j : ScopeId) : L.Sub (L.add i j) := fun _ _ h => .inl h

theorem add_self (L : Link) (i j : ScopeId) : L.add i j i j := .inr ⟨rfl, rfl⟩

theorem Ordered.eq_iff {L : Link} (h : L.Ordered) {i j i' j' : ScopeId} (h₁ : L i j)
    (h₂ : L i' j') : i = i' ↔ j = j' := by
  have h₃ := h i j i' j' h₁ h₂
  have h₄ := h i' j' i j h₂ h₁
  constructor
  · intro he
    rw [he] at h₃ h₄
    exact Nat.le_antisymm (Nat.le_of_not_lt fun hlt => Nat.lt_irrefl _ (h₄.mpr hlt))
      (Nat.le_of_not_lt fun hlt => Nat.lt_irrefl _ (h₃.mpr hlt))
  · intro he
    rw [he] at h₃ h₄
    exact Nat.le_antisymm (Nat.le_of_not_lt fun hlt => Nat.lt_irrefl _ (h₄.mp hlt))
      (Nat.le_of_not_lt fun hlt => Nat.lt_irrefl _ (h₃.mp hlt))

/-- a pair of scopes that are newer than all others -/
theorem Ordered.add {L : Link} (h : L.Ordered) {m n : ScopeId}
    (hlt : ∀ i j, L i j → i < m ∧ j < n) : (L.add m n).Ordered := by
  rintro i j i' j' (h₁ | ⟨rfl, rfl⟩) (h₂ | ⟨rfl, rfl⟩)
  · exact h i j i' j' h₁ h₂
  · exact iff_of_true (hlt i j h₁).1 (hlt i j h₁).2
  · exact iff_of_false (Nat.lt_asymm (hlt i' j' h₂).1) (Nat.lt_asymm (hlt i' j' h₂).2)
  · exact iff_of_false (Nat.lt_irrefl _) (Nat.lt_irrefl _)

end Link

/-! ## Values -/

/-- the same value, with functions made in linked scopes -/
inductive Value.Linked (L : Link) : Value → Value → Prop
  | int (v : Integer) : Linked L (.int v) (.int v)
  | double (x : Float) : Linked L (.double x) (.double x)
  | absent : Linked L .absent .absent
  | function {name : String} {params : List String} {body : Expr} {i j : Option ScopeId}
    (home : Option.Rel L i j) :
    Linked L (.function ⟨name, params, body, i⟩) (.function ⟨name, params, body, j⟩)

namespace Value.Linked

variable {L M : Link} {v w : Value}

theorem mono (h : L.Sub M) (hv : Value.Linked L v w) : Value.Linked M v w := by
  cases hv with
  | int v => exact .int v
  | double x => exact .double x
  | absent => exact .absent
  | function home => exact .function (h.rel home)

theorem mono_rel (h : L.Sub M) {o o' : Option Value} (ho : Option.Rel (Value.Linked L) o o') :
    Option.Rel (Value.Linked M) o o' := by
  cases ho with
  | some hv => exact .some (hv.mono h)
  | none => exact .none

end Value.Linked

/-! ## Bindings -/

/-- the same names in the same order, with linked values -/
def Bindings.Linked (L : Link) : Bindings → Bindings → Prop :=
  List.Forall₂ fun a b => a.1 = b.1 ∧ Value.Linked L a.2 b.2

namespace Bindings.Linked

variable {L M : Link} {bs cs : Bindings}

theorem mono (h : L.Sub M) (hb : Bindings.Linked L bs cs) : Bindings.Linked M bs cs :=
  List.Forall₂.imp (fun _ _ hab => ⟨hab.1, hab.2.mono h⟩) hb

theorem get? (h : Bindings.Linked L bs cs) (x : String) :
    Option.Rel (Value.Linked L) (Bindings.get? bs x) (Bindings.get? cs x) := by
  induction h with
  | nil => exact .none
  | @cons a b bs cs hab _ ih =>
    obtain ⟨y, v⟩ := a
    obtain ⟨z, w⟩ := b
    obtain ⟨hyz, hvw⟩ := hab
    change y = z at hyz
    subst hyz
    rw [get?_cons, get?_cons]
    split
    · exact .some hvw
    · exact ih

theorem linked_of_mem (h : Bindings.Linked L bs cs) {x : String} {v : Value} (hv : (x, v) ∈ bs) :
    ∃ w, Value.Linked L v w := by
  induction h with
  | nil => cases hv
  | cons hab _ ih =>
    rcases List.mem_cons.mp hv with rfl | hv
    · exact ⟨_, hab.2⟩
    · exact ih hv

theorem set (h : Bindings.Linked L bs cs) (x : String) {v w : Value} (hv : Value.Linked L v w) :
    Bindings.Linked L (Bindings.set bs x v) (Bindings.set cs x w) := by
  induction h with
  | nil => exact .cons ⟨rfl, hv⟩ .nil
  | @cons a b bs cs hab hrest ih =>
    obtain ⟨y, v₁⟩ := a
    obtain ⟨z, w₁⟩ := b
    obtain ⟨hyz, hvw⟩ := hab
    change y = z at hyz
    subst hyz
    rw [Bindings.set, Bindings.set]
    split
    · exact .cons ⟨rfl, hv⟩ hrest
    · exact .cons ⟨rfl, hvw⟩ ih

theorem setAll (h : Bindings.Linked L bs cs) (xs : List String) {vs ws : List Value}
    (hv : List.Forall₂ (Value.Linked L) vs ws) :
    Bindings.Linked L (Bindings.setAll bs xs vs) (Bindings.setAll cs xs ws) := by
  induction xs generalizing bs cs vs ws with
  | nil => simpa only [Bindings.setAll] using h
  | cons x xs ih =>
    cases hv with
    | nil => simpa only [Bindings.setAll] using h
    | cons hvw hrest =>
      rw [Bindings.setAll, Bindings.setAll]
      exact ih (h.set x hvw) hrest

end Bindings.Linked

/-! ## Stores, name by name -/

/-- linked scopes are there, bind linked values to the same names, and lie inside linked scopes -/
structure Store.Matched (L : Link) (a b : Store) : Prop where
  ordered : L.Ordered
  there : ∀ i j, L i j → i < a.frames.size ∧ j < b.frames.size
  names : ∀ i j, L i j → ∀ x,
    Option.Rel (Value.Linked L) ((a.bindings i).get? x) ((b.bindings j).get? x)
  parents : ∀ i j, L i j → Option.Rel L (a.parent i) (b.parent j)

namespace Store.Matched

variable {L : Link} {a b : Store}

/-- a name has linked values, seen from linked scopes -/
theorem lookup (h : Store.Matched L a b) (x : String) {i j : ScopeId} (hL : L i j) :
    Option.Rel (Value.Linked L) (a.lookup i x) (b.lookup j x) := by
  induction i using Nat.strongRecOn generalizing j with
  | ind i ih =>
    rw [Store.lookup, Store.lookup]
    have hget := h.names i j hL x
    have hpar := h.parents i j hL
    generalize (a.bindings i).get? x = v, (b.bindings j).get? x = w at hget
    cases hget with
    | some hvw => exact .some hvw
    | none =>
      generalize a.parent i = p, b.parent j = q at hpar
      cases hpar with
      | none => exact .none
      | @some p q hpq =>
        have hlt : p < i ↔ q < j := h.ordered p q i j hpq hL
        by_cases hpi : p < i
        · simp only [hpi, hlt.mp hpi, if_true]
          exact ih p hpi hpq
        · have hqj : ¬ q < j := fun hq => hpi (hlt.mpr hq)
          simp only [hpi, hqj, if_false]
          exact .none

theorem set (h : Store.Matched L a b) {s t : ScopeId} (hst : L s t) (x : String) {v w : Value}
    (hv : Value.Linked L v w) : Store.Matched L (a.set s x v) (b.set t x w) where
  ordered := h.ordered
  there i j hL := by
    simp only [Store.set, Array.size_modify]
    exact h.there i j hL
  names i j hL y := by
    have hij : s = i ↔ t = j := h.ordered.eq_iff hst hL
    have hget := h.names i j hL y
    by_cases hsi : s = i
    · obtain ⟨hi, hj⟩ := h.there i j hL
      rw [hsi, hij.mp hsi, a.bindings_set_self x v hi, b.bindings_set_self x w hj]
      by_cases hxy : x = y
      · rw [hxy, Bindings.get?_set_self, Bindings.get?_set_self]
        exact .some hv
      · rw [Bindings.get?_set_of_ne _ _ hxy, Bindings.get?_set_of_ne _ _ hxy]
        exact hget
    · have htj : t ≠ j := fun htj => hsi (hij.mpr htj)
      rw [a.bindings_set_of_ne x v hsi, b.bindings_set_of_ne x w htj]
      exact hget
  parents i j hL := by
    rw [a.parent_set, b.parent_set]
    exact h.parents i j hL

theorem ne_next (h : Store.Matched L a b) {i j : ScopeId} (hL : L i j) :
    i ≠ a.next ∧ j ≠ b.next :=
  ⟨Nat.ne_of_lt (h.there i j hL).1, Nat.ne_of_lt (h.there i j hL).2⟩

theorem add (h : Store.Matched L a b) {p q : Option ScopeId} (hpq : Option.Rel L p q)
    {bs cs : Bindings} (hbs : Bindings.Linked L bs cs) :
    Store.Matched (L.add a.next b.next) (a.add p bs) (b.add q cs) where
  ordered := h.ordered.add h.there
  there i j hL := by
    rw [Store.add, Store.add, Array.size_push, Array.size_push]
    rcases hL with hL | ⟨rfl, rfl⟩
    · obtain ⟨hi, hj⟩ := h.there i j hL
      exact ⟨Nat.lt_succ_of_lt hi, Nat.lt_succ_of_lt hj⟩
    · exact ⟨Nat.lt_succ_self _, Nat.lt_succ_self _⟩
  names i j hL x := by
    have hsub := L.sub_add a.next b.next
    rw [a.bindings_add, b.bindings_add]
    rcases hL with hL | ⟨rfl, rfl⟩
    · obtain ⟨hi, hj⟩ := h.ne_next hL
      rw [if_neg hi, if_neg hj]
      exact Value.Linked.mono_rel hsub (h.names i j hL x)
    · rw [if_pos rfl, if_pos rfl]
      exact (hbs.mono hsub).get? x
  parents i j hL := by
    have hsub := L.sub_add a.next b.next
    rw [a.parent_add, b.parent_add]
    rcases hL with hL | ⟨rfl, rfl⟩
    · obtain ⟨hi, hj⟩ := h.ne_next hL
      rw [if_neg hi, if_neg hj]
      exact hsub.rel (h.parents i j hL)
    · rw [if_pos rfl, if_pos rfl]
      exact hsub.rel hpq

end Store.Matched

/-! ## Stores -/

/-- the same bindings inside the same scope, up to the link -/
structure Frame.Linked (L : Link) (f g : Frame) : Prop where
  bindings : Bindings.Linked L f.bindings g.bindings
  parent : Option.Rel L f.parent g.parent

theorem Frame.Linked.mono {L M : Link} (h : L.Sub M) {f g : Frame} (hf : Frame.Linked L f g) :
    Frame.Linked M f g := ⟨hf.bindings.mono h, h.rel hf.parent⟩

/-- linked scopes are there and are the same up to the link -/
structure Store.Linked (L : Link) (st st' : Store) : Prop where
  ordered : L.Ordered
  frames : ∀ i j, L i j →
    ∃ f g, st.frames[i]? = some f ∧ st'.frames[j]? = some g ∧ Frame.Linked L f g

namespace Store

namespace Linked

variable {L M : Link} {a b a' b' : Store}

theorem lt_sizes (h : Store.Linked L a b) {i j : ScopeId} (hL : L i j) :
    i < a.frames.size ∧ j < b.frames.size := by
  obtain ⟨f, g, hf, hg, _⟩ := h.frames i j hL
  exact ⟨lt_size hf, lt_size hg⟩

theorem bindings (h : Store.Linked L a b) {i j : ScopeId} (hL : L i j) :
    Bindings.Linked L (a.bindings i) (b.bindings j) := by
  obtain ⟨f, g, hf, hg, hfg⟩ := h.frames i j hL
  rw [bindings_eq hf, bindings_eq hg]
  exact hfg.bindings

theorem parent (h : Store.Linked L a b) {i j : ScopeId} (hL : L i j) :
    Option.Rel L (a.parent i) (b.parent j) := by
  obtain ⟨f, g, hf, hg, hfg⟩ := h.frames i j hL
  rw [parent_eq hf, parent_eq hg]
  exact hfg.parent

theorem matched (h : Store.Linked L a b) : Store.Matched L a b where
  ordered := h.ordered
  there _ _ hL := h.lt_sizes hL
  names _ _ hL x := (h.bindings hL).get? x
  parents _ _ hL := h.parent hL

theorem lookup (h : Store.Linked L a b) (x : String) {i j : ScopeId} (hL : L i j) :
    Option.Rel (Value.Linked L) (a.lookup i x) (b.lookup j x) := h.matched.lookup x hL

theorem has (h : Store.Linked L a b) (x : String) {i j : ScopeId} (hL : L i j) :
    a.has i x = b.has j x := by
  have hrel := h.lookup x hL
  unfold Store.has
  generalize a.lookup i x = v, b.lookup j x = w at hrel
  cases hrel <;> rfl

/-- the first store may change where it is not linked -/
theorem of_frames (h : Store.Linked L a b)
    (hsame : ∀ i, i < a.frames.size → a'.frames[i]? = a.frames[i]?) : Store.Linked L a' b where
  ordered := h.ordered
  frames i j hL := by
    obtain ⟨f, g, hf, hg, hfg⟩ := h.frames i j hL
    exact ⟨f, g, (hsame i (lt_size hf)).trans hf, hg, hfg⟩

/-- the bindings of two linked scopes are changed in the same way -/
theorem modify (h : Store.Linked L a b) {s t : ScopeId} (hst : L s t) {F G : Bindings → Bindings}
    (hFG : ∀ bs cs, Bindings.Linked L bs cs → Bindings.Linked L (F bs) (G cs)) :
    Store.Linked L ⟨a.frames.modify s fun f => ⟨F f.bindings, f.parent⟩⟩
      ⟨b.frames.modify t fun f => ⟨G f.bindings, f.parent⟩⟩ where
  ordered := h.ordered
  frames i j hL := by
    obtain ⟨f, g, hf, hg, hfg⟩ := h.frames i j hL
    have hij : s = i ↔ t = j := h.ordered.eq_iff hst hL
    rw [Array.getElem?_modify, Array.getElem?_modify, hf, hg]
    by_cases hsi : s = i
    · rw [if_pos hsi, if_pos (hij.mp hsi)]
      exact ⟨_, _, rfl, rfl, hFG _ _ hfg.bindings, hfg.parent⟩
    · rw [if_neg hsi, if_neg fun htj => hsi (hij.mpr htj)]
      exact ⟨f, g, rfl, rfl, hfg⟩

theorem set (h : Store.Linked L a b) {s t : ScopeId} (hst : L s t) (x : String) {v w : Value}
    (hv : Value.Linked L v w) : Store.Linked L (a.set s x v) (b.set t x w) :=
  h.modify hst fun _ _ hbs => hbs.set x hv

theorem restore (h : Store.Linked L a b) {s t : ScopeId} (hst : L s t) {bs cs : Bindings}
    (hbs : Bindings.Linked L bs cs) : Store.Linked L (a.restore s bs) (b.restore t cs) :=
  h.modify hst fun _ _ _ => hbs

theorem add (h : Store.Linked L a b) {p q : Option ScopeId} (hpq : Option.Rel L p q)
    {bs cs : Bindings} (hbs : Bindings.Linked L bs cs) :
    Store.Linked (L.add a.next b.next) (a.add p bs) (b.add q cs) where
  ordered := h.ordered.add fun _ _ hL => h.lt_sizes hL
  frames i j hL := by
    have hsub := L.sub_add a.next b.next
    rcases hL with hL | ⟨rfl, rfl⟩
    · obtain ⟨f, g, hf, hg, hfg⟩ := h.frames i j hL
      obtain ⟨hi, hj⟩ := h.lt_sizes hL
      refine ⟨f, g, ?_, ?_, hfg.mono hsub⟩
      · rw [Store.add, Array.getElem?_push_lt hi, ← Array.getElem?_eq_getElem hi, hf]
      · rw [Store.add, Array.getElem?_push_lt hj, ← Array.getElem?_eq_getElem hj, hg]
    · exact ⟨⟨bs, p⟩, ⟨cs, q⟩, Array.getElem?_push_size, Array.getElem?_push_size,
        hbs.mono hsub, hsub.rel hpq⟩

end Linked

/-! ## What can be got at -/

/-- the scopes that can be got at from a scope: around it, and where the functions that they bind
were made -/
inductive Reaches (st : Store) (s : ScopeId) : ScopeId → Prop
  | self : Reaches st s s
  | parent {i p : ScopeId} (h : Reaches st s i) (hp : st.parent i = some p) : Reaches st s p
  | home {i j : ScopeId} {x : String} {f : Function} (h : Reaches st s i)
    (hf : (x, .function f) ∈ st.bindings i) (hj : f.home = some j) : Reaches st s j

/-- a function bound in a linked scope was made in a linked scope -/
theorem Linked.home {L : Link} {a b : Store} (h : Store.Linked L a b) {i k j : ScopeId}
    {x : String} {f : Function} (hL : L i k) (hf : (x, .function f) ∈ a.bindings i)
    (hj : f.home = some j) : ∃ l, L j l := by
  obtain ⟨w, hw⟩ := (h.bindings hL).linked_of_mem hf
  cases hw with
  | function home =>
    cases hj
    cases home with
    | some hjl => exact ⟨_, hjl⟩

/-- what can be got at from a linked scope is linked -/
theorem Linked.reaches {L : Link} {a b : Store} (h : Store.Linked L a b) {s t i : ScopeId}
    (hst : L s t) (hi : a.Reaches s i) : ∃ j, L i j := by
  induction hi with
  | self => exact ⟨t, hst⟩
  | @parent i p _ hp ih =>
    obtain ⟨j, hij⟩ := ih
    have hpar := h.parent hij
    rw [hp] at hpar
    generalize b.parent j = q at hpar
    cases hpar with
    | some hpq => exact ⟨_, hpq⟩
  | home _ hf hj ih =>
    obtain ⟨k, hik⟩ := ih
    exact h.home hik hf hj

end Store

end ExprShell
