import ExprShell.Proofs.Store.Names

/-!
# The scopes around a scope

The scope around a scope is older than it, so whoever goes outward comes to an end, at a scope
around which nothing lies.  Which scopes these are does not depend on what they bind, and making a
scope changes it for none of the others.

* `Store.parents`      the scope around each scope;
* `Store.Chain`        the scopes from one outward, the innermost first;
* `Store.Layered`      only older scopes lie around a scope;
* `Chain.lookup_eq`    a name is looked up along the chain, and nowhere else.
-/

namespace ExprShell.Store

def parents (st : Store) : List (Option ScopeId) := st.frames.toList.map Frame.parent

theorem getElem?_parents (st : Store) (i : ScopeId) :
    st.parents[i]? = st.frames[i]?.map Frame.parent := by
  rw [parents, List.getElem?_map, Array.getElem?_toList]

theorem length_parents (st : Store) : st.parents.length = st.next := by
  rw [parents, List.length_map, Array.length_toList, next]

theorem parents_add (st : Store) (p : Option ScopeId) (bs : Bindings) :
    (st.add p bs).parents = st.parents ++ [p] := by
  rw [parents, add, Array.toList_push, List.map_append]
  rfl

/-- a change of what a scope binds does not move it -/
theorem parents_modify (st : Store) (s : ScopeId) (F : Bindings → Bindings) :
    (Store.mk (st.frames.modify s fun f => ⟨F f.bindings, f.parent⟩)).parents = st.parents := by
  apply List.ext_getElem?
  intro i
  rw [getElem?_parents, getElem?_parents, Array.getElem?_modify]
  by_cases h : s = i
  · rw [if_pos h]
    cases st.frames[i]? <;> rfl
  · rw [if_neg h]

theorem parents_set (st : Store) (s : ScopeId) (x : String) (v : Value) :
    (st.set s x v).parents = st.parents := st.parents_modify s fun bs => bs.set x v

theorem parents_restore (st : Store) (s : ScopeId) (bs : Bindings) :
    (st.restore s bs).parents = st.parents := st.parents_modify s fun _ => bs

theorem parent_of_parents {st : Store} {s : ScopeId} {p : Option ScopeId}
    (h : st.parents[s]? = some p) : st.parent s = p := by
  rw [getElem?_parents, Option.map_eq_some_iff] at h
  obtain ⟨f, hf, rfl⟩ := h
  rw [parent, hf]
  rfl

/-- `is` are the scopes from `s` outward, up to one around which nothing lies -/
inductive Chain (ps : List (Option ScopeId)) : ScopeId → List ScopeId → Prop
  | root {s : ScopeId} (h : ps[s]? = some none) : Chain ps s [s]
  | inner {s p : ScopeId} {is : List ScopeId} (h : ps[s]? = some (some p)) (rest : Chain ps p is) :
    Chain ps s (s :: is)

/-- only older scopes lie around a scope -/
def Layered (ps : List (Option ScopeId)) : Prop :=
  ∀ i p : ScopeId, ps[i]? = some (some p) → p < i

theorem Layered.append {ps : List (Option ScopeId)} (h : Layered ps) {q : Option ScopeId}
    (hq : ∀ p ∈ q, p < ps.length) : Layered (ps ++ [q]) := by
  intro i p hi
  rcases Nat.lt_or_ge i ps.length with hlt | hge
  · rw [List.getElem?_append_left hlt] at hi
    exact h i p hi
  · rw [List.getElem?_append_right hge, List.getElem?_singleton] at hi
    split at hi
    · exact Nat.lt_of_lt_of_le (hq p (Option.some.inj hi)) hge
    · cases hi

namespace Chain

variable {ps qs : List (Option ScopeId)} {s : ScopeId} {is js : List ScopeId}

/-- there is only one -/
theorem unique (h : Chain ps s is) (h' : Chain ps s js) : is = js := by
  induction h generalizing js with
  | root hs =>
    cases h' with
    | root => rfl
    | inner hs' => cases hs.symm.trans hs'
  | inner hs _ ih =>
    cases h' with
    | root hs' => cases hs.symm.trans hs'
    | inner hs' rest' =>
      cases hs.symm.trans hs'
      rw [ih rest']

theorem mono (h : Chain ps s is) (hpq : ps <+: qs) : Chain qs s is := by
  obtain ⟨new, rfl⟩ := hpq
  have hget : ∀ {i : ScopeId} {p}, ps[i]? = some p → (ps ++ new)[i]? = some p := fun {i p} hi => by
    rw [List.getElem?_append_left (List.getElem?_eq_some_iff.mp hi).1, hi]
  induction h with
  | root hs => exact .root (hget hs)
  | inner hs _ ih => exact .inner (hget hs) ih

theorem lt_length (h : Chain ps s is) : s < ps.length := by
  cases h with
  | root hs => exact (List.getElem?_eq_some_iff.mp hs).1
  | inner hs => exact (List.getElem?_eq_some_iff.mp hs).1

theorem lt_size {st : Store} (h : Chain st.parents s is) : s < st.frames.size := by
  have hlength := h.lt_length
  rwa [length_parents] at hlength

theorem child (h : Chain ps s is) : Chain (ps ++ [some s]) ps.length (ps.length :: is) :=
  .inner List.getElem?_concat_length (h.mono (List.prefix_append ps _))

theorem ne_nil (h : Chain ps s is) : is ≠ [] := by
  cases h <;> exact List.cons_ne_nil _ _

theorem root_of_singleton (h : Chain ps s [s]) : ps[s]? = some none := by
  cases h with
  | root hs => exact hs
  | inner _ rest => exact absurd rfl rest.ne_nil

theorem getLast?_cons (h : Chain ps s is) (i : ScopeId) : (i :: is).getLast? = is.getLast? :=
  List.getLast?_cons_of_ne_nil h.ne_nil

/-- whoever goes outward from a scope of the chain comes to the same end -/
theorem of_mem (h : Chain ps s is) {i : ScopeId} (hi : i ∈ is) :
    ∃ js, Chain ps i js ∧ js.getLast? = is.getLast? := by
  induction h with
  | root hs =>
    obtain rfl := List.mem_singleton.mp hi
    exact ⟨_, .root hs, rfl⟩
  | @inner s p is hs rest ih =>
    rcases List.mem_cons.mp hi with rfl | hi
    · exact ⟨_, .inner hs rest, rfl⟩
    · obtain ⟨js, hjs, hlast⟩ := ih hi
      exact ⟨js, hjs, hlast.trans (rest.getLast?_cons s).symm⟩

theorem pairwise (h : Chain ps s is) (hps : Layered ps) :
    (∀ i ∈ is, i ≤ s) ∧ is.Pairwise (· > ·) := by
  induction h with
  | root => exact ⟨fun i hi => Nat.le_of_eq (List.mem_singleton.mp hi), List.pairwise_singleton _ _⟩
  | @inner s p is hs _ ih =>
    have hlt := hps s p hs
    obtain ⟨hle, hfall⟩ := ih
    refine ⟨fun i hi => ?_, hfall.cons fun i hi => Nat.lt_of_le_of_lt (hle i hi) hlt⟩
    rcases List.mem_cons.mp hi with rfl | hi
    · exact Nat.le_refl i
    · exact Nat.le_of_lt (Nat.lt_of_le_of_lt (hle i hi) hlt)

theorem nodup (h : Chain ps s is) (hps : Layered ps) : is.Nodup :=
  (h.pairwise hps).2.imp fun hlt => Nat.ne_of_gt hlt

theorem lookup_eq {st : Store} (h : Chain st.parents s is) (hps : Layered st.parents) (x : String) :
    st.lookup s x = is.findSome? fun i => (st.bindings i).get? x := by
  induction h with
  | @root s hs =>
    rw [lookup, parent_of_parents hs, List.findSome?_cons]
    cases (st.bindings s).get? x <;> rfl
  | @inner s p is hs _ ih =>
    rw [lookup, parent_of_parents hs, List.findSome?_cons]
    cases (st.bindings s).get? x with
    | some v => rfl
    | none =>
      show (if p < s then st.lookup p x else none) = _
      rw [if_pos (hps s p hs), ih]

end Chain

end ExprShell.Store
