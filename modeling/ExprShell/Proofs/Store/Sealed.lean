import ExprShell.Proofs.Expr.Parts
import ExprShell.Proofs.Store.Names

/-!
# Stores in which the way of scopes does not matter

If every function is closed, a name that is read inside a body is either bound in the very scope of
the call or in no scope between that and the global one.  Looking it up then gives the same whatever
scopes lie in between.

Here `g` is the global scope, and `W` lists for every scope the names that it binds at least; of the
scope of a call these are the parameters.

* `Function.Sealed`, `Value.Sealed`   a closed function, made inside the global scope;
* `Bindings.Sealed`                   such values only, and no name of `G` in the scope of a call;
* `Store.Sealed`                      all scopes from the global one on;
* `Store.Sealed.lookup_eq`            a name is bound in the scope itself, or globally.
-/

namespace ExprShell

variable {G : Set String} {g : ScopeId}

/-- a closed function, made in one of the scopes from `g` on, `n` scopes being there -/
structure Function.Sealed (G : Set String) (g n : ScopeId) (f : Function) : Prop where
  closed : Expr.Closed G f.params f.body
  body : f.body.Sealed G
  home : ∃ h, f.home = some h ∧ g ≤ h ∧ h < n

/-- a number, or a function that is sealed -/
def Value.Sealed (G : Set String) (g n : ScopeId) : Value → Prop
  | .function f => f.Sealed G g n
  | _ => True

theorem Value.Sealed.mono {n m : ScopeId} (hnm : n ≤ m) {v : Value} (h : v.Sealed G g n) :
    v.Sealed G g m := by
  cases v with
  | function f =>
    obtain ⟨closed, body, i, hi, hgi, hin⟩ := h
    exact ⟨closed, body, i, hi, hgi, Nat.lt_of_lt_of_le hin hnm⟩
  | _ => trivial

/-- what the scope `i` may bind: the names that `W` says and no name of `G`, unless it lies outside
of the calls; and sealed values -/
structure Bindings.Sealed (G : Set String) (g : ScopeId) (W : List (List String)) (i : ScopeId)
    (bs : Bindings) : Prop where
  names : ∀ xs, W[i]? = some xs → ∀ x ∈ xs, (bs.get? x).isSome
  hidden : g < i → ∀ x ∈ G, bs.get? x = none
  values : g ≤ i → ∀ x v, bs.get? x = some v → v.Sealed G g W.length

namespace Bindings.Sealed

variable {W : List (List String)} {i : ScopeId} {bs : Bindings}

theorem nil (h : ∀ xs, W[i]? = some xs → xs = []) : Bindings.Sealed G g W i [] where
  names xs hxs x hx := by
    rw [h xs hxs] at hx
    cases hx
  hidden _ _ _ := rfl
  values _ _ _ hv := by cases hv

theorem mono {V : List (List String)} (hle : V.length ≤ W.length) (hget : W[i]? = V[i]?)
    (h : Bindings.Sealed G g V i bs) : Bindings.Sealed G g W i bs where
  names xs hxs := h.names xs (hget ▸ hxs)
  hidden := h.hidden
  values hgi x v hv := (h.values hgi x v hv).mono hle

theorem set (h : Bindings.Sealed G g W i bs) {x : String} (hx : i = g ∨ x ∉ G) {v : Value}
    (hv : v.Sealed G g W.length) : Bindings.Sealed G g W i (bs.set x v) where
  names xs hxs y hy := isSome_get?_set v (h.names xs hxs y hy)
  hidden hgi y hy := by
    have hxy : x ≠ y := by
      rintro rfl
      rcases hx with rfl | hx
      · exact Nat.lt_irrefl _ hgi
      · exact hx hy
    rw [get?_set_of_ne _ _ hxy]
    exact h.hidden hgi y hy
  values hgi y w hw := by
    by_cases hxy : x = y
    · rw [hxy, get?_set_self] at hw
      cases hw
      exact hv
    · rw [get?_set_of_ne _ _ hxy] at hw
      exact h.values hgi y w hw

/-- the scope of a call binds the parameters and nothing else -/
theorem call {params : List String} (hparams : ∀ x ∈ params, x ∉ G) {vs : List Value}
    (hlen : vs.length = params.length) (hvs : ∀ v ∈ vs, v.Sealed G g W.length) :
    Bindings.Sealed G g (W ++ [params]) W.length (Bindings.setAll [] params vs) where
  names xs hxs x hx := by
    rw [List.getElem?_concat_length] at hxs
    cases hxs
    exact isSome_get?_setAll_of_mem hlen hx
  hidden _ x hx := by
    refine Option.eq_none_iff_forall_ne_some.mpr fun v hv => ?_
    rcases get?_setAll_cases hv with hnil | ⟨hmem, -⟩
    · cases hnil
    · exact hparams x hmem hx
  values _ x v hv := by
    have hle : W.length ≤ (W ++ [params]).length := by simp
    rcases get?_setAll_cases hv with hnil | ⟨-, hmem⟩
    · cases hnil
    · exact (hvs v hmem).mono hle

end Bindings.Sealed

/-- the scopes from `g` on are made for calls, one inside another up to `g`, and bind what they
may -/
structure Store.Sealed (G : Set String) (g : ScopeId) (W : List (List String)) (st : Store) :
    Prop where
  size : st.frames.size = W.length
  global : g < W.length
  top : st.parent g = none
  parent : ∀ i, g < i → i < W.length → ∃ p, st.parent i = some p ∧ g ≤ p ∧ p < i
  scopes : ∀ i, (st.bindings i).Sealed G g W i

/-- a name that can be read in the scope `s`: every name in the global scope, else a name that is
bound in `s` itself, or a name of `G` -/
def Readable (G : Set String) (g : ScopeId) (W : List (List String)) (s : ScopeId) (x : String) :
    Prop := s = g ∨ (∃ xs, W[s]? = some xs ∧ x ∈ xs) ∨ x ∈ G

namespace Store.Sealed

variable {W : List (List String)} {st : Store}

theorem lookup_of_mem (h : st.Sealed G g W) {s : ScopeId} (hgs : g ≤ s) (hs : s < W.length)
    {x : String} (hx : x ∈ G) : st.lookup s x = (st.bindings g).get? x := by
  induction s using Nat.strongRecOn with
  | ind s ih =>
    rw [Store.lookup]
    rcases Nat.eq_or_lt_of_le hgs with rfl | hlt
    · rw [h.top]
      cases (st.bindings g).get? x <;> rfl
    · obtain ⟨p, hp, hgp, hps⟩ := h.parent s hlt hs
      rw [(h.scopes s).hidden hlt x hx, hp]
      show (if p < s then st.lookup p x else none) = _
      rw [if_pos hps]
      exact ih p hps hgp (Nat.lt_trans hps hs)

/-- a name is looked up in the scope itself and then at once in the global scope -/
theorem lookup_eq (h : st.Sealed G g W) {s : ScopeId} (hgs : g ≤ s) (hs : s < W.length)
    {x : String} (hx : Readable G g W s x) :
    st.lookup s x = ((st.bindings s).get? x).or ((st.bindings g).get? x) := by
  rcases hx with rfl | ⟨xs, hxs, hx⟩ | hx
  · rw [Store.lookup, h.top]
    cases (st.bindings s).get? x <;> rfl
  · obtain ⟨v, hv⟩ := Option.isSome_iff_exists.mp ((h.scopes s).names xs hxs x hx)
    rw [Store.lookup, hv]
    rfl
  · rw [h.lookup_of_mem hgs hs hx]
    rcases Nat.eq_or_lt_of_le hgs with rfl | hlt
    · rw [Option.or_self]
    · rw [(h.scopes s).hidden hlt x hx, Option.none_or]

theorem sealed_of_lookup (h : st.Sealed G g W) {s : ScopeId} (hgs : g ≤ s) (hs : s < W.length)
    {x : String} (hx : Readable G g W s x) {v : Value} (hv : st.lookup s x = some v) :
    v.Sealed G g W.length := by
  rw [h.lookup_eq hgs hs hx, Option.or_eq_some_iff] at hv
  rcases hv with hv | ⟨-, hv⟩
  · exact (h.scopes s).values hgs x v hv
  · exact (h.scopes g).values (Nat.le_refl g) x v hv

/-- binding a name: any name globally, else no name of `G` -/
theorem set (h : st.Sealed G g W) {s : ScopeId} (hs : s < W.length) {x : String}
    (hx : s = g ∨ x ∉ G) {v : Value} (hv : v.Sealed G g W.length) :
    (st.set s x v).Sealed G g W where
  size := by rw [Store.set, Array.size_modify, h.size]
  global := h.global
  top := by rw [st.parent_set, h.top]
  parent i hgi hi := by
    rw [st.parent_set]
    exact h.parent i hgi hi
  scopes i := by
    by_cases hsi : s = i
    · rw [← hsi, st.bindings_set_self x v (h.size.symm ▸ hs)]
      exact (h.scopes s).set hx hv
    · rw [st.bindings_set_of_ne x v hsi]
      exact h.scopes i

/-- the scope of a call, inside any scope from `g` on -/
theorem add (h : st.Sealed G g W) {p : ScopeId} (hgp : g ≤ p) (hp : p < W.length)
    {params : List String} (hparams : ∀ x ∈ params, x ∉ G) {vs : List Value}
    (hlen : vs.length = params.length) (hvs : ∀ v ∈ vs, v.Sealed G g W.length) :
    (st.add (some p) (Bindings.setAll [] params vs)).Sealed G g (W ++ [params]) := by
  have hnext : st.next = W.length := h.size
  have hsize : (W ++ [params]).length = W.length + 1 := by
    rw [List.length_append, List.length_singleton]
  refine ⟨?_, ?_, ?_, ?_, ?_⟩
  · rw [Store.add, Array.size_push, h.size, hsize]
  · rw [hsize]
    exact Nat.lt_succ_of_lt h.global
  · rw [st.parent_add, hnext, if_neg (Nat.ne_of_lt h.global)]
    exact h.top
  · intro i hgi hi
    rw [hsize] at hi
    rw [st.parent_add, hnext]
    by_cases hiw : i = W.length
    · rw [if_pos hiw]
      exact ⟨p, rfl, hgp, hiw ▸ hp⟩
    · rw [if_neg hiw]
      exact h.parent i hgi (Nat.lt_of_le_of_ne (Nat.le_of_lt_succ hi) hiw)
  · intro i
    rw [st.bindings_add, hnext]
    by_cases hiw : i = W.length
    · rw [if_pos hiw, hiw]
      exact .call hparams hlen hvs
    · rw [if_neg hiw]
      have hget : (W ++ [params])[i]? = W[i]? := by
        rw [List.getElem?_append]
        split
        · rfl
        · next hi =>
          rw [List.getElem?_eq_none (Nat.le_of_not_lt hi), List.getElem?_singleton, if_neg]
          intro hzero
          exact hiw (Nat.le_antisymm (Nat.le_of_sub_eq_zero hzero) (Nat.le_of_not_lt hi))
      exact (h.scopes i).mono (hsize ▸ Nat.le_succ _) hget

/-- a new global scope, whatever scopes there were before -/
theorem begin (G : Set String) (st : Store) :
    (st.add none []).Sealed G st.next (.replicate (st.next + 1) []) := by
  refine ⟨?_, ?_, ?_, ?_, ?_⟩
  · rw [Store.add, Array.size_push, List.length_replicate]
    rfl
  · rw [List.length_replicate]
    exact Nat.lt_succ_self _
  · rw [st.parent_add, if_pos rfl]
  · intro i hlt hi
    rw [List.length_replicate] at hi
    exact absurd (Nat.le_of_lt_succ hi) (Nat.not_le_of_lt hlt)
  · intro i
    have hempty : ∀ xs, (List.replicate (st.next + 1) ([] : List String))[i]? = some xs → xs = [] :=
      fun xs hxs => List.eq_of_mem_replicate (List.mem_of_getElem? hxs)
    rcases Nat.lt_or_ge i st.next with hlt | hle
    · refine ⟨fun xs hxs x hx => ?_, fun h => absurd h (Nat.lt_asymm hlt),
        fun h => absurd hlt (Nat.not_lt_of_le h)⟩
      rw [hempty xs hxs] at hx
      cases hx
    · have hnil : (st.add none []).bindings i = [] := by
        rw [st.bindings_add]
        split
        · rfl
        · exact st.bindings_of_le hle
      rw [hnil]
      exact .nil hempty

/-- what the global scope bound in an earlier store can be put back -/
theorem restore {V : List (List String)} {before : Store} (h : st.Sealed G g W)
    (hbefore : before.Sealed G g V) (hVW : V <+: W) :
    (st.restore g (before.bindings g)).Sealed G g W where
  size := by rw [Store.restore, Array.size_modify, h.size]
  global := h.global
  top := by rw [st.parent_restore, h.top]
  parent i hgi hi := by
    rw [st.parent_restore]
    exact h.parent i hgi hi
  scopes i := by
    rw [st.bindings_restore (h.size.symm ▸ h.global)]
    by_cases hig : i = g
    · have hget : W[g]? = V[g]? := by
        obtain ⟨U, rfl⟩ := hVW
        exact List.getElem?_append_left hbefore.global
      rw [if_pos hig, hig]
      exact (hbefore.scopes g).mono hVW.length_le hget
    · rw [if_neg hig]
      exact h.scopes i

end Store.Sealed

end ExprShell
