import ExprShell.Proofs.Eval.Invariant
import ExprShell.Proofs.Store.Chain

/-!
# The scopes around an evaluation

If calls are dynamic, the scopes around an evaluation are those of the active calls.  If they are
lexical, there is one for every function in whose body the tree stands, whatever calls are active;
for this the functions must have been made in scopes of that kind, those too that are bound
somewhere and called later, from elsewhere.  In both cases the outermost scope is the one in which
the evaluation began.

All trees that are evaluated in one scope have the same origin, which is kept with the scope: the
body of a called function has the origin of the function, and a function that of the tree that made
it.  A function from a scope around which nothing lies may have an older origin than that scope has
now.

* `Ground`             the scope around each scope, and the origin of its trees;
* `Function.Made`      the function was made in a scope of that kind;
* `Store.Shaped`       so were all functions that a scope binds;
* `Eval.chains`        this is an invariant;
* `Trail.chain`        under dynamic calls the scopes are those of the active calls.

Where a tree stands is left open: `stands o k e` says that `e`, from the origin `o`, stands in the
bodies of `k` functions.
-/

namespace ExprShell

open Store (Chain Layered)

variable {P : Type}

/-- for each scope the one around it, and the origin of the trees that are evaluated in it -/
abbrev Ground (P : Type) := List (Option ScopeId × P)

namespace Ground

def parents (W : Ground P) : List (Option ScopeId) := W.map Prod.fst

def origins (W : Ground P) : List P := W.map Prod.snd

variable {W V : Ground P} {i : ScopeId} {o : P}

theorem parents_mono (h : W <+: V) : W.parents <+: V.parents := h.map Prod.fst

theorem origins_mono (h : W <+: V) : W.origins <+: V.origins := h.map Prod.snd

theorem origin_mono (h : W <+: V) (ho : W.origins[i]? = some o) : V.origins[i]? = some o := by
  obtain ⟨new, hnew⟩ := origins_mono h
  rw [← hnew, List.getElem?_append_left (List.getElem?_eq_some_iff.mp ho).1, ho]

theorem parents_concat (W : Ground P) (p : Option ScopeId) (o : P) :
    Ground.parents (W ++ [(p, o)]) = W.parents ++ [p] := List.map_append

theorem origins_concat (W : Ground P) (p : Option ScopeId) (o : P) :
    Ground.origins (W ++ [(p, o)]) = W.origins ++ [o] := List.map_append

theorem length_origins (W : Ground P) : W.origins.length = W.parents.length := by
  rw [origins, parents, List.length_map, List.length_map]

/-- a scope has the origin of the one around it, unless nothing lies around that one -/
def Traced (W : Ground P) : Prop :=
  ∀ i p : ScopeId, W.parents[i]? = some (some p) →
    W.parents[p]? = some none ∨ W.origins[i]? = W.origins[p]?

theorem Traced.concat (h : W.Traced) {q : Option ScopeId}
    (hq : ∀ p ∈ q, W.parents[p]? = some none ∨ W.origins[p]? = some o) :
    Ground.Traced (W ++ [(q, o)]) := by
  have hlength := W.length_origins
  have hroot : ∀ p : ScopeId, W.parents[p]? = some none →
      (W.parents ++ [q])[p]? = some none := fun p hp => by
    rw [List.getElem?_append_left (List.getElem?_eq_some_iff.mp hp).1, hp]
  intro i p hi
  rw [parents_concat] at hi ⊢
  rw [origins_concat]
  rcases Nat.lt_or_ge i W.parents.length with hlt | hge
  · rw [List.getElem?_append_left hlt] at hi
    refine (h i p hi).imp (hroot p) fun heq => ?_
    rw [List.getElem?_append_left (hlength ▸ hlt), heq, List.getElem?_append_left]
    rw [List.getElem?_eq_getElem (hlength ▸ hlt)] at heq
    exact (List.getElem?_eq_some_iff.mp heq.symm).1
  · rw [List.getElem?_append_right hge, List.getElem?_singleton] at hi
    split at hi
    · next hzero =>
      have hlast : i = W.origins.length := by
        rw [hlength]
        exact Nat.le_antisymm (Nat.le_of_sub_eq_zero hzero) hge
      refine (hq p (Option.some.inj hi)).imp (hroot p) fun ho => ?_
      rw [hlast, List.getElem?_concat_length,
        List.getElem?_append_left (List.getElem?_eq_some_iff.mp ho).1, ho]
    · cases hi

/-- going outward the origin stays, up to the last scope -/
theorem Traced.origin_of_mem (h : W.Traced) {s : ScopeId} {is : List ScopeId}
    (hs : Chain W.parents s is) (ho : W.origins[s]? = some o) :
    ∀ j ∈ is, is.getLast? = some j ∨ W.origins[j]? = some o := by
  induction hs with
  | root => exact fun j hj => .inl (congrArg some (List.mem_singleton.mp hj).symm)
  | @inner s p is hs rest ih =>
    intro j hj
    rcases List.mem_cons.mp hj with rfl | hj
    · exact .inr ho
    rcases h s p hs with hroot | heq
    · obtain rfl := rest.unique (.root hroot)
      exact .inl (congrArg some (List.mem_singleton.mp hj).symm)
    · rw [rest.getLast?_cons s]
      exact ih (heq ▸ ho) j hj

/-- another origin for the trees in a scope around which nothing lies -/
def begin (W : Ground P) (s : ScopeId) (o : P) : Ground P := W.set s (none, o)

theorem parents_begin (h : W.parents[i]? = some none) (o : P) :
    (W.begin i o).parents = W.parents := by
  have hset : (W.begin i o).parents = W.parents.set i none := List.map_set
  rw [hset]
  apply List.ext_getElem?
  intro j
  rw [List.getElem?_set]
  split
  · next hij =>
    subst hij
    rw [if_pos (List.getElem?_eq_some_iff.mp h).1]
    exact h.symm
  · rfl

theorem origins_begin (W : Ground P) (s : ScopeId) (o : P) :
    (W.begin s o).origins = W.origins.set s o := List.map_set

theorem Traced.begin (hW : W.Traced) {s : ScopeId} (hs : W.parents[s]? = some none) (o : P) :
    (W.begin s o).Traced := by
  intro i p hi
  rw [parents_begin hs] at hi ⊢
  rw [origins_begin]
  have hne : s ≠ i := by
    rintro rfl
    cases hi.symm.trans hs
  by_cases hp : s = p
  · exact .inl (hp ▸ hs)
  · rw [List.getElem?_set_ne hne, List.getElem?_set_ne hp]
    exact hW i p hi

end Ground

variable {sc : Scoping} {stands : P → Nat → Expr → Prop} {W V : Ground P} {g : ScopeId}

/-- the function was made in a scope from which the way outward ends at `g`, by a tree with the
origin of that scope, unless nothing lies around it; if calls are lexical, as many scopes lie around
it as bodies of functions around the function -/
def Function.Made (sc : Scoping) (stands : P → Nat → Expr → Prop) (W : Ground P) (g : ScopeId)
    (f : Function) : Prop :=
  ∃ i is o k t, f.home = some i ∧ Chain W.parents i is ∧ is.getLast? = some g ∧
    (W.origins[i]? = some o ∨ is = [i]) ∧ stands o k (.func t f.name f.params f.body) ∧
    (sc = .lexical → is.length = k + 1)

theorem Function.Made.mono {f : Function} (h : f.Made sc stands W g) (hle : W <+: V) :
    f.Made sc stands V g := by
  obtain ⟨i, is, o, k, t, hi, his, hlast, ho, hrest⟩ := h
  exact ⟨i, is, o, k, t, hi, his.mono (Ground.parents_mono hle), hlast,
    ho.imp_left (Ground.origin_mono hle), hrest⟩

/-- if the value is a function, it was made in such a scope -/
def Value.Made (sc : Scoping) (stands : P → Nat → Expr → Prop) (W : Ground P) (g : ScopeId)
    (v : Value) : Prop := ∀ f, v = .function f → f.Made sc stands W g

theorem Value.Made.mono {v : Value} (h : v.Made sc stands W g) (hle : W <+: V) :
    v.Made sc stands V g := fun f hf => (h f hf).mono hle

theorem Value.Made.of_settled {x : Except EvalError.Cause Value} (h : Operators.Settled x)
    {v : Value} (hx : x = .ok v) : v.Made sc stands W g := by
  subst hx
  cases h <;> exact nofun

/-- every value that a scope binds was made in such a scope, from which one comes to the same end as
from the scope that binds it -/
structure Store.Shaped (sc : Scoping) (stands : P → Nat → Expr → Prop) (W : Ground P)
    (st : Store) : Prop where
  parents : st.parents = W.parents
  layered : Layered W.parents
  traced : sc = .lexical → W.Traced
  values : ∀ i x v, (st.bindings i).get? x = some v →
    ∃ is g, Chain W.parents i is ∧ is.getLast? = some g ∧ v.Made sc stands W g

namespace Store.Shaped

variable {st : Store}

theorem empty : Store.empty.Shaped sc stands [] where
  parents := rfl
  layered i p h := by cases h
  traced _ i p h := by cases h
  values i x v h := by
    rw [bindings_of_le _ (Nat.zero_le i)] at h
    cases h

theorem lookup (h : st.Shaped sc stands W) {s : ScopeId} {is : List ScopeId}
    (hs : Chain W.parents s is) (hlast : is.getLast? = some g) {x : String} {v : Value}
    (hv : st.lookup s x = some v) : v.Made sc stands W g := by
  rw [(h.parents ▸ hs : Chain st.parents s is).lookup_eq (h.parents ▸ h.layered)] at hv
  obtain ⟨i, hi, hget⟩ := List.exists_of_findSome?_eq_some hv
  obtain ⟨js, g', hjs, hlast', hmade⟩ := h.values i x v hget
  obtain ⟨js', hjs', hsame⟩ := hs.of_mem hi
  rw [hjs.unique hjs', hsame, hlast] at hlast'
  cases hlast'
  exact hmade

theorem set (h : st.Shaped sc stands W) {s : ScopeId} {is : List ScopeId}
    (hs : Chain W.parents s is) (hlast : is.getLast? = some g) (x : String) {v : Value}
    (hv : v.Made sc stands W g) : (st.set s x v).Shaped sc stands W where
  parents := (st.parents_set s x v).trans h.parents
  layered := h.layered
  traced := h.traced
  values i y w hw := by
    by_cases hi : s = i
    · subst hi
      rw [bindings_set_self _ _ _ (h.parents ▸ hs : Chain st.parents s is).lt_size] at hw
      by_cases hxy : x = y
      · rw [hxy, Bindings.get?_set_self] at hw
        cases hw
        exact ⟨is, g, hs, hlast, hv⟩
      · rw [Bindings.get?_set_of_ne _ _ hxy] at hw
        exact h.values s y w hw
    · rw [bindings_set_of_ne _ _ _ hi] at hw
      exact h.values i y w hw

/-- a new scope; `is` lie around it, and its trees have the origin `o` -/
theorem add (h : st.Shaped sc stands W) {p : Option ScopeId} {is : List ScopeId} {o : P}
    (hp : ∀ q ∈ p, q < W.parents.length)
    (ho : sc = .lexical → ∀ q ∈ p, W.parents[q]? = some none ∨ W.origins[q]? = some o)
    (hs : Chain (W.parents ++ [p]) W.parents.length is) (hlast : is.getLast? = some g)
    {bs : Bindings} (hbs : ∀ x v, bs.get? x = some v → v.Made sc stands W g) :
    (st.add p bs).Shaped sc stands (W ++ [(p, o)]) where
  parents := by rw [st.parents_add, h.parents, Ground.parents_concat]
  layered := by
    rw [Ground.parents_concat]
    exact h.layered.append hp
  traced hlex := (h.traced hlex).concat (ho hlex)
  values i x v hv := by
    rw [st.bindings_add, ← st.length_parents, h.parents] at hv
    rw [Ground.parents_concat]
    have hle : W <+: W ++ [(p, o)] := List.prefix_append _ _
    split at hv
    · next hi => exact ⟨is, g, hi ▸ hs, hlast, (hbs x v hv).mono hle⟩
    · obtain ⟨js, g', hjs, hlast', hmade⟩ := h.values i x v hv
      exact ⟨js, g', hjs.mono (List.prefix_append _ _), hlast', hmade.mono hle⟩

theorem add_root (h : st.Shaped sc stands W) (o : P) :
    (st.add none []).Shaped sc stands (W ++ [(none, o)]) :=
  h.add (fun _ hq => by cases hq) (fun _ _ hq => by cases hq)
    (.root List.getElem?_concat_length) rfl nofun

/-- the trees in a scope around which nothing lies come from elsewhere -/
theorem begin (h : st.Shaped sc stands W) {s : ScopeId} (hs : W.parents[s]? = some none) (o : P) :
    st.Shaped sc stands (W.begin s o) where
  parents := h.parents.trans (Ground.parents_begin hs o).symm
  layered := by
    rw [Ground.parents_begin hs]
    exact h.layered
  traced hlex := (h.traced hlex).begin hs o
  values i x v hv := by
    obtain ⟨is, g, his, hlast, hmade⟩ := h.values i x v hv
    rw [Ground.parents_begin hs]
    refine ⟨is, g, his, hlast, fun f hf => ?_⟩
    obtain ⟨j, js, p, k, t, hj, hjs, hlast', hp, hrest⟩ := hmade f hf
    refine ⟨j, js, p, k, t, hj, ?_, hlast', ?_, hrest⟩
    · rwa [Ground.parents_begin hs]
    by_cases hsj : s = j
    · subst hsj
      exact .inr (hjs.unique (.root hs))
    · rw [Ground.origins_begin, List.getElem?_set_ne hsj]
      exact hp

theorem imp {stands' : P → Nat → Expr → Prop} (h : st.Shaped sc stands W)
    (himp : ∀ o k e, stands o k e → stands' o k e) : st.Shaped sc stands' W where
  parents := h.parents
  layered := h.layered
  traced := h.traced
  values i x v hv := by
    obtain ⟨is, g, his, hlast, hmade⟩ := h.values i x v hv
    refine ⟨is, g, his, hlast, fun f hf => ?_⟩
    obtain ⟨j, js, o, k, t, hj, hjs, hlast', ho, hstands, hlex⟩ := hmade f hf
    exact ⟨j, js, o, k, t, hj, hjs, hlast', ho, himp _ _ _ hstands, hlex⟩

/-- what a scope bound in an earlier store is put back -/
theorem restore (h : st.Shaped sc stands V) {old : Store} (hold : old.Shaped sc stands W)
    (hle : W <+: V) (s : ScopeId) (hs : s < st.frames.size) :
    (st.restore s (old.bindings s)).Shaped sc stands V where
  parents := (st.parents_restore s _).trans h.parents
  layered := h.layered
  traced := h.traced
  values i x v hv := by
    rw [st.bindings_restore hs] at hv
    split at hv
    · next hi =>
      subst hi
      obtain ⟨is, g, his, hlast, hmade⟩ := hold.values i x v hv
      exact ⟨is, g, his.mono (Ground.parents_mono hle), hlast, hmade.mono hle⟩
    · exact h.values i x v hv

end Store.Shaped

namespace Eval

variable {r : CallRule}

/-- what is said of trees goes down to their parts, and into the bodies of functions -/
structure Nested (stands : P → Nat → Expr → Prop) : Prop where
  part : ∀ {o k e a}, stands o k e → a ∈ e.parts → stands o k a
  body : ∀ {o k t x ps e}, stands o k (.func t x ps e) → stands o (k + 1) e

/-- the way outward from `s` ends at `g`, and the tree has the origin of `s`; if calls are lexical,
as many scopes lie around `s` as bodies of functions around the tree -/
def Lies (sc : Scoping) (stands : P → Nat → Expr → Prop) (W : Ground P) (g s : ScopeId)
    (e : Expr) : Prop :=
  ∃ is o k, Chain W.parents s is ∧ is.getLast? = some g ∧ W.origins[s]? = some o ∧
    stands o k e ∧ (sc = .lexical → is.length = k + 1)

/-- the new scope of a call has the origin of the function, and so has the body that is evaluated
in it -/
theorem lies_body (hn : Nested stands) {s : ScopeId} {is : List ScopeId}
    (hs : Chain W.parents s is) (hlast : is.getLast? = some g) {f : Function}
    (hf : f.Made r.scoping stands W g) :
    ∃ o, (∀ q ∈ outer r s f, q < W.parents.length) ∧
      (r.scoping = .lexical → ∀ q ∈ outer r s f,
        W.parents[q]? = some none ∨ W.origins[q]? = some o) ∧
      Lies r.scoping stands (W ++ [(outer r s f, o)]) g W.parents.length f.body := by
  obtain ⟨i, js, o, k, t, hhome, hjs, hlast', ho, hstands, hlex⟩ := hf
  have horigin : ∀ p, (Ground.origins (W ++ [(p, o)]))[W.parents.length]? = some o := fun p => by
    rw [Ground.origins_concat, ← W.length_origins, List.getElem?_concat_length]
  refine ⟨o, ?_⟩
  unfold Lies
  rw [Ground.parents_concat]
  unfold outer
  cases hr : r.scoping with
  | dynamic =>
    refine ⟨?_, nofun, W.parents.length :: is, o, k + 1, hs.child,
      (hs.getLast?_cons _).trans hlast, horigin _, hn.body hstands, nofun⟩
    rintro _ ⟨⟩
    exact hs.lt_length
  | lexical =>
    show (∀ q ∈ f.home, _) ∧ (_ → ∀ q ∈ f.home, _) ∧ _
    rw [hhome]
    refine ⟨?_, fun _ => ?_, W.parents.length :: js, o, k + 1, hjs.child,
      (hjs.getLast?_cons _).trans hlast', horigin _, hn.body hstands, fun _ => ?_⟩
    · rintro _ ⟨⟩
      exact hjs.lt_length
    · rintro _ ⟨⟩
      rcases ho with ho | rfl
      · exact .inr ho
      · exact .inl hjs.root_of_singleton
    · exact congrArg (· + 1) (hlex hr)

/-- the scopes around the trees that are evaluated, and around the functions that are made -/
def chains (r : CallRule) (g : ScopeId) (hn : Nested stands) : Invariant r where
  World := Ground P
  le W V := W <+: V
  store W st := st.Shaped r.scoping stands W
  scope W s := ∃ is, Chain W.parents s is ∧ is.getLast? = some g
  value W v := v.Made r.scoping stands W g
  tree W s e := Lies r.scoping stands W g s e
  refl W := List.prefix_rfl
  trans h₁ h₂ := h₁.trans h₂
  scope_mono hle h := by
    obtain ⟨is, his, hlast⟩ := h
    exact ⟨is, his.mono (Ground.parents_mono hle), hlast⟩
  value_mono hle h := h.mono hle
  tree_mono hle h := by
    obtain ⟨is, o, k, his, hlast, ho, hrest⟩ := h
    exact ⟨is, o, k, his.mono (Ground.parents_mono hle), hlast, Ground.origin_mono hle ho, hrest⟩
  int _ _ := nofun
  absent _ := nofun
  literal _ h := .of_settled (Operators.literal_settled _) h
  binary _ _ h := .of_settled (Operators.binary_settled _ _ _) h
  unary _ h := .of_settled (Operators.unary_settled _ _) h
  counter _ _ := nofun
  part h ha := by
    obtain ⟨is, o, k, his, hlast, ho, hk, hlex⟩ := h
    exact ⟨is, o, k, his, hlast, ho, hn.part hk ha, hlex⟩
  lookup hst hs hv := by
    obtain ⟨is, his, hlast⟩ := hs
    exact hst.lookup his hlast hv
  set x hst hs hv := by
    obtain ⟨is, his, hlast⟩ := hs
    exact hst.set his hlast x hv
  func _ h := by
    obtain ⟨is, o, k, his, hlast, ho, hk, hlex⟩ := h
    rintro _ ⟨⟩
    exact ⟨_, is, o, k, _, rfl, his, hlast, .inl ho, hk, hlex⟩
  enter {W st s f vs} hst hs hf hvs := by
    obtain ⟨is, his, hlast⟩ := hs
    obtain ⟨o, houter, horigin, js, p, k, hjs, hlast', hrest⟩ := lies_body hn his hlast (hf f rfl)
    have hnext : st.next = W.parents.length := by rw [← hst.parents, st.length_parents]
    rw [hnext]
    refine ⟨W ++ [(outer r s f, o)], List.prefix_append _ _, ?_, ⟨js, hjs, hlast'⟩, js, p, k, hjs,
      hlast', hrest⟩
    refine hst.add houter horigin (by rwa [Ground.parents_concat] at hjs) hlast' fun x v hv => ?_
    rcases Bindings.get?_setAll_cases hv with hnil | ⟨-, hmem⟩
    · cases hnil
    · exact hvs v hmem

/-! ## Dynamic calls -/

/-- under dynamic calls the scopes of the bodies that were entered lie around the evaluation, the
innermost first, and behind them what lay around its beginning -/
theorem Moment.Trail.chain (hn : Nested stands) {M N : Moment} {ls is : List ScopeId}
    (h : M.Trail r ls N) (hr : r.scoping = .dynamic) (his : Chain M.state.store.parents M.scope is)
    (hlast : is.getLast? = some g) (hM : M.task.Held (chains r g hn) W M.scope)
    (hst : M.state.store.Shaped r.scoping stands W) :
    Chain N.state.store.parents N.scope (ls ++ is) := by
  have hgrows : ∀ {ls N} {c : Script N.result} {k τ}, M.Trail r ls N →
      (N.task.script N.scope).Passes r N.scope N.depth N.state c k τ →
      N.state.store.parents <+: τ.store.parents := by
    intro ls N c k τ trail passes
    obtain ⟨U, -, hstore, hscope, htask⟩ :=
      trail.kept (I := chains r g hn) ⟨is, hst.parents ▸ his, hlast⟩ hM hst
    obtain ⟨V, hle, hstore', -⟩ := passes.kept (script_kept hscope htask) hscope hstore
    rw [hstore.parents, hstore'.parents]
    exact Ground.parents_mono hle
  induction h with
  | start => exact his
  | ask trail passes ih => exact ih.mono (hgrows trail passes)
  | @call ls d k j s l t ρ σ τ p f vs trail passes opens ih =>
    obtain ⟨-, -, rfl, rfl⟩ := lt_of_opened opens
    have houter : outer r s f = some s := by rw [outer, hr]
    have hs : Chain σ.store.parents s (ls ++ is) := ih.mono (hgrows trail passes)
    show Chain (σ.store.add _ _).parents σ.store.next _
    rw [σ.store.parents_add, houter, ← σ.store.length_parents]
    exact hs.child

end Eval

end ExprShell
