import ExprShell.Store

/-!
# Bindings and stores, name by name

What binding names, making a scope and putting bindings back do to the value of a single name, and
what can be said of all values at once.

* `Bindings.get?_setAll_cases`   where the value of a name comes from when names are bound;
* `Store.Holds P`                every value that a scope binds has `P`.
-/

namespace ExprShell

namespace Bindings

theorem mem_of_get? {bs : Bindings} {x : String} {v : Value} (h : bs.get? x = some v) :
    (x, v) ∈ bs := by
  induction bs with
  | nil => cases h
  | cons b bs ih =>
    obtain ⟨y, w⟩ := b
    rw [get?_cons] at h
    split at h
    · next hyx =>
      cases h
      exact hyx ▸ List.mem_cons_self
    · exact List.mem_cons_of_mem _ (ih h)

theorem isSome_get?_set {bs : Bindings} {x : String} (v : Value) {y : String}
    (h : (bs.get? y).isSome) : ((bs.set x v).get? y).isSome := by
  by_cases hxy : x = y
  · rw [hxy, get?_set_self]
    rfl
  · rw [get?_set_of_ne _ _ hxy]
    exact h

theorem isSome_get?_setAll {bs : Bindings} (xs : List String) (vs : List Value) {y : String}
    (h : (bs.get? y).isSome) : ((bs.setAll xs vs).get? y).isSome := by
  induction xs generalizing bs vs with
  | nil => simpa only [setAll] using h
  | cons x xs ih =>
    cases vs with
    | nil => simpa only [setAll] using h
    | cons v vs =>
      rw [setAll]
      exact ih vs (isSome_get?_set v h)

/-- all names are bound if there are values for all -/
theorem isSome_get?_setAll_of_mem {bs : Bindings} {xs : List String} {vs : List Value}
    (hlen : vs.length = xs.length) {y : String} (hy : y ∈ xs) :
    ((bs.setAll xs vs).get? y).isSome := by
  induction xs generalizing bs vs with
  | nil => cases hy
  | cons x xs ih =>
    cases vs with
    | nil => cases hlen
    | cons v vs =>
      rw [setAll]
      rcases List.mem_cons.mp hy with rfl | hy
      · apply isSome_get?_setAll
        rw [get?_set_self]
        rfl
      · exact ih (Nat.succ.inj hlen) hy

/-- what is bound afterwards was bound before, or is one of the names with one of the values -/
theorem get?_setAll_cases {bs : Bindings} {xs : List String} {vs : List Value} {y : String}
    {v : Value} (h : (bs.setAll xs vs).get? y = some v) :
    bs.get? y = some v ∨ (y ∈ xs ∧ v ∈ vs) := by
  induction xs generalizing bs vs with
  | nil => exact .inl (by simpa only [setAll] using h)
  | cons x xs ih =>
    cases vs with
    | nil => exact .inl (by simpa only [setAll] using h)
    | cons w vs =>
      rw [setAll] at h
      rcases ih h with hset | ⟨hy, hv⟩
      · by_cases hxy : x = y
        · rw [hxy, get?_set_self] at hset
          cases hset
          exact .inr ⟨hxy ▸ List.mem_cons_self, List.mem_cons_self⟩
        · rw [get?_set_of_ne _ _ hxy] at hset
          exact .inl hset
      · exact .inr ⟨List.mem_cons_of_mem _ hy, List.mem_cons_of_mem _ hv⟩

end Bindings

namespace Store

theorem bindings_add (st : Store) (p : Option ScopeId) (bs : Bindings) (i : ScopeId) :
    (st.add p bs).bindings i = if i = st.next then bs else st.bindings i := by
  unfold bindings
  rw [add, next, Array.getElem?_push]
  by_cases h : i = st.frames.size
  · rw [if_pos h, if_pos h]
  · rw [if_neg h, if_neg h]

theorem parent_add (st : Store) (p : Option ScopeId) (bs : Bindings) (i : ScopeId) :
    (st.add p bs).parent i = if i = st.next then p else st.parent i := by
  unfold parent
  rw [add, next, Array.getElem?_push]
  by_cases h : i = st.frames.size
  · rw [if_pos h, if_pos h]
    rfl
  · rw [if_neg h, if_neg h]

theorem bindings_of_le (st : Store) {i : ScopeId} (h : st.next ≤ i) : st.bindings i = [] := by
  rw [bindings, Array.getElem?_eq_none h]

theorem bindings_restore (st : Store) {s : ScopeId} (hs : s < st.frames.size) (bs : Bindings)
    (i : ScopeId) : (st.restore s bs).bindings i = if i = s then bs else st.bindings i := by
  unfold bindings
  rw [restore, Array.getElem?_modify]
  by_cases h : s = i
  · rw [if_pos h, if_pos h.symm, ← h, Array.getElem?_eq_getElem hs]
    rfl
  · rw [if_neg h, if_neg (Ne.symm h)]

theorem parent_restore (st : Store) (s : ScopeId) (bs : Bindings) (i : ScopeId) :
    (st.restore s bs).parent i = st.parent i := by
  unfold parent
  rw [restore, Array.getElem?_modify]
  by_cases h : s = i
  · rw [if_pos h]
    cases st.frames[i]? <;> rfl
  · rw [if_neg h]

/-- what a scope binds after a change to one scope is its own, or what that scope binds now -/
theorem bindings_modify_cases (st : Store) (s : ScopeId) (F : Bindings → Bindings) (i : ScopeId) :
    (Store.mk (st.frames.modify s fun f => ⟨F f.bindings, f.parent⟩)).bindings i = st.bindings i ∨
      (Store.mk (st.frames.modify s fun f => ⟨F f.bindings, f.parent⟩)).bindings i =
        F (st.bindings i) := by
  unfold bindings
  rw [Array.getElem?_modify]
  by_cases h : s = i
  · rw [if_pos h]
    cases st.frames[i]? with
    | none => exact .inl rfl
    | some f => exact .inr rfl
  · rw [if_neg h]
    exact .inl rfl

/-! ## All values -/

/-- every value that a scope binds has `P` -/
def Holds (P : Value → Prop) (st : Store) : Prop :=
  ∀ i x v, (st.bindings i).get? x = some v → P v

namespace Holds

variable {P : Value → Prop} {st : Store}

theorem empty : Store.empty.Holds P := by
  intro i x v hv
  have hnil : Store.empty.bindings i = [] := bindings_of_le _ (Nat.zero_le i)
  rw [hnil] at hv
  cases hv

theorem lookup (h : st.Holds P) {s : ScopeId} {x : String} {v : Value}
    (hv : st.lookup s x = some v) : P v := by
  induction s using Nat.strongRecOn with
  | ind s ih =>
    rw [Store.lookup] at hv
    cases hget : (st.bindings s).get? x with
    | some w =>
      rw [hget] at hv
      cases hv
      exact h s x v hget
    | none =>
      rw [hget] at hv
      cases hp : st.parent s with
      | none =>
        rw [hp] at hv
        cases hv
      | some p =>
        rw [hp] at hv
        simp only at hv
        split at hv
        · next hlt => exact ih p hlt hv
        · cases hv

theorem set (h : st.Holds P) (s : ScopeId) (x : String) {v : Value} (hv : P v) :
    (st.set s x v).Holds P := by
  intro i y w hw
  rcases st.bindings_modify_cases s (fun bs => bs.set x v) i with heq | heq
  · rw [Store.set, heq] at hw
    exact h i y w hw
  · rw [Store.set, heq] at hw
    by_cases hxy : x = y
    · rw [hxy, Bindings.get?_set_self] at hw
      cases hw
      exact hv
    · rw [Bindings.get?_set_of_ne _ _ hxy] at hw
      exact h i y w hw

theorem add (h : st.Holds P) (p : Option ScopeId) {bs : Bindings}
    (hbs : ∀ x v, bs.get? x = some v → P v) : (st.add p bs).Holds P := by
  intro i x v hv
  rw [st.bindings_add] at hv
  split at hv
  · exact hbs x v hv
  · exact h i x v hv

theorem add_setAll (h : st.Holds P) (p : Option ScopeId) (xs : List String) {vs : List Value}
    (hvs : ∀ v ∈ vs, P v) : (st.add p (Bindings.setAll [] xs vs)).Holds P := by
  refine h.add p fun x v hv => ?_
  rcases Bindings.get?_setAll_cases hv with hnil | ⟨-, hmem⟩
  · cases hnil
  · exact hvs v hmem

theorem restore (h : st.Holds P) (s : ScopeId) {bs : Bindings}
    (hbs : ∀ x v, bs.get? x = some v → P v) : (st.restore s bs).Holds P := by
  intro i x v hv
  rcases st.bindings_modify_cases s (fun _ => bs) i with heq | heq
  · rw [Store.restore, heq] at hv
    exact h i x v hv
  · rw [Store.restore, heq] at hv
    exact hbs x v hv

theorem mono {Q : Value → Prop} (h : st.Holds P) (hPQ : ∀ v, P v → Q v) : st.Holds Q :=
  fun i x v hv => hPQ v (h i x v hv)

end Holds

end Store

end ExprShell
