import ExprShell.Proofs.Eval.Lockstep

/-!
# Lexical calls do not see their callers

Under lexical calls the scope of a call lies inside the scope in which the function was made.  So
the body can get at the scopes that lie around that one, at those where the functions bound there
were made, and at those where its arguments were made, but not at the scope of the caller.  Two
stores that agree on these scopes may differ in all others: the call ends in the same way in both.
The scopes that it makes have different numbers, so what it gives is compared through a link.

* `Store.Seen`         the scopes that can be got at from values;
* `Store.AgreeAt`      two stores agree on a scope;
* `matched`            the comparison of stores that are matched by a link, name by name;
* `Eval.call_hides_caller`   calls from two scopes, in stores that agree on what is seen.
-/

namespace ExprShell

/-- the scope in which a function was made -/
def Value.home? : Value → Option ScopeId
  | .function f => f.home
  | _ => none

theorem Value.Linked.self {L : Link} {v : Value} (h : ∀ i, v.home? = some i → L i i) :
    Value.Linked L v v := by
  cases v with
  | int v => exact .int v
  | double x => exact .double x
  | absent => exact .absent
  | function f =>
    obtain ⟨name, params, body, home⟩ := f
    cases home with
    | none => exact .function .none
    | some i => exact .function (.some (h i rfl))

/-- every scope of a set stands for itself -/
def Link.on (R : ScopeId → Prop) : Link := fun i j => R i ∧ i = j

namespace Store

/-- the scopes that can be got at from values -/
def Seen (st : Store) (vs : List Value) (i : ScopeId) : Prop :=
  ∃ v ∈ vs, ∃ j, v.home? = some j ∧ st.Reaches j i

/-- two stores agree on a scope: it is there in both, binds the same values to the same names, and
lies inside the same scope -/
structure AgreeAt (a b : Store) (i : ScopeId) : Prop where
  left : i < a.frames.size
  right : i < b.frames.size
  names : ∀ x, (a.bindings i).get? x = (b.bindings i).get? x
  parent : a.parent i = b.parent i

section
variable {a b : Store} {vs : List Value}

theorem Seen.home {v : Value} (hv : v ∈ vs) {i : ScopeId} (hi : v.home? = some i) :
    a.Seen vs i := ⟨v, hv, i, hi, .self⟩

theorem Seen.parent {i p : ScopeId} (h : a.Seen vs i) (hp : a.parent i = some p) :
    a.Seen vs p := by
  obtain ⟨v, hv, j, hj, hreach⟩ := h
  exact ⟨v, hv, j, hj, hreach.parent hp⟩

theorem Seen.bound {i j : ScopeId} {x : String} {v : Value} (h : a.Seen vs i)
    (hx : (a.bindings i).get? x = some v) (hj : v.home? = some j) : a.Seen vs j := by
  obtain ⟨u, hu, k, hk, hreach⟩ := h
  cases v with
  | function f => exact ⟨u, hu, k, hk, hreach.home (Bindings.mem_of_get? hx) hj⟩
  | _ => cases hj

/-- stores that agree on what is seen are matched there -/
theorem matched_of_agreeAt (h : ∀ i, a.Seen vs i → a.AgreeAt b i) :
    Store.Matched (.on (a.Seen vs)) a b where
  ordered := by
    rintro i _ i' _ ⟨-, rfl⟩ ⟨-, rfl⟩
    exact Iff.rfl
  there := by
    rintro i _ ⟨hi, rfl⟩
    exact ⟨(h i hi).left, (h i hi).right⟩
  names := by
    rintro i _ ⟨hi, rfl⟩ x
    rw [← (h i hi).names x]
    cases hx : (a.bindings i).get? x with
    | none => exact .none
    | some v => exact .some (.self fun j hj => ⟨hi.bound hx hj, rfl⟩)
  parents := by
    rintro i _ ⟨hi, rfl⟩
    rw [← (h i hi).parent]
    cases hp : a.parent i with
    | none => exact .none
    | some p => exact .some ⟨hi.parent hp, rfl⟩

end

end Store

/-- the same tree in linked scopes, in stores that are matched name by name -/
def matched (r : CallRule) : Comparison r r :=
  { linked r with
    store := Store.Matched
    lookup := fun h hst => h.lookup _ hst
    set := fun h hst hv => h.set hst _ hv
    enter := by
      intro L a b s t e e' f f' vs ws hstore htree hf hvs _
      have hout := Eval.outer_linked r htree.1 hf
      obtain ⟨-, hparams, hbody⟩ := Value.Linked.function_eq hf
      refine ⟨L.add a.next b.next, L.sub_add _ _, ?_, L.add_self _ _, hbody⟩
      rw [← hparams]
      exact hstore.add hout (.setAll .nil f.params hvs) }

namespace Eval

/-- a lexical call is made alike wherever the callers stand -/
theorem invoke_agree {r : CallRule} (hr : r.scoping = .lexical) {L : Link} {f g : Function}
    (hf : Value.Linked L (.function f) (.function g)) {vs ws : List Value}
    (hvs : List.Forall₂ (Value.Linked L) vs ws) (n d : Nat) (s t : ScopeId) (p : Position) :
    Run.Agree (matched r) L Value.Linked
      (open? r d s p f vs >>= fun l => eval r n (d + 1) l f.body)
      (open? r d t p g ws >>= fun l => eval r n (d + 1) l g.body) := by
  obtain ⟨hhome, hparams, hbody⟩ := hf.function_eq
  have hopen : Run.Agree (matched r) L (fun M l l' => M l l' ∧ f.body = g.body)
      (open? r d s p f vs) (open? r d t p g ws) := by
    refine open?_agree (C := matched r) rfl d rfl hf hvs fun {a b} hstore _ => ?_
    refine ⟨L.add a.next b.next, L.sub_add _ _, ?_, L.add_self _ _, hbody⟩
    rw [outer, outer, hr, ← hparams]
    exact Store.Matched.add hstore hhome (.setAll .nil f.params hvs)
  refine .bind hopen fun M _ l l' hl => ?_
  exact ((matched r).agree rfl n).tree M (d + 1) l l' f.body g.body hl

/-- **A lexical call cannot observe its caller.**  Take two stores that agree on every scope that
can be got at from a function and its arguments.  If the call, made from any scope in the first,
comes to an end, then made from any scope in the second it ends in the same way: with the same
error, or with a value that is the same up to a renaming of scopes, under which all that can be got
at from it is the same; and it reports the same events. -/
theorem call_hides_caller (limit n d : Nat) (s t : ScopeId) (p : Position) (f : Function)
    (vs : List Value) (a b : Store) (log : Array Event)
    (h : ∀ i, a.Seen (.function f :: vs) i → a.AgreeAt b i) :
    let call (s : ScopeId) : Run Value :=
      open? ⟨.lexical, limit⟩ d s p f vs >>= fun l => eval ⟨.lexical, limit⟩ n (d + 1) l f.body
    (∀ v σ, call s ⟨a, log⟩ = .done v σ → ∃ w τ, call t ⟨b, log⟩ = .done w τ ∧
        σ.events = τ.events ∧ ∃ M : Link, Value.Linked M v w ∧ Store.Matched M σ.store τ.store ∧
          ∀ i, a.Seen (.function f :: vs) i → M i i) ∧
      ∀ e σ, call s ⟨a, log⟩ = .failed e σ → ∃ τ, call t ⟨b, log⟩ = .failed e τ ∧
        σ.events = τ.events := by
  intro call
  let L := Link.on (a.Seen (.function f :: vs))
  have hself : ∀ v ∈ Value.function f :: vs, Value.Linked L v v := fun v hv =>
    .self fun i hi => ⟨.home hv hi, rfl⟩
  have hcall : Run.Agree (matched ⟨.lexical, limit⟩) L Value.Linked (call s) (call t) :=
    invoke_agree rfl (hself _ List.mem_cons_self)
      (List.forall₂_same.mpr fun v hv => hself v (List.mem_cons_of_mem _ hv)) n d s t p
  have hend := hcall ⟨a, log⟩ ⟨b, log⟩ ⟨Store.matched_of_agreeAt h, rfl⟩
  generalize call s ⟨a, log⟩ = x, call t ⟨b, log⟩ = y at hend
  constructor
  · rintro v σ rfl
    cases hend with
    | @done M v w σ τ le state result =>
      exact ⟨w, τ, rfl, state.events, M, result, state.store, fun i hi => le i i ⟨hi, rfl⟩⟩
  · rintro e σ rfl
    cases hend with
    | @failed M p q c σ τ le state place =>
      cases place
      exact ⟨τ, rfl, state.events⟩

/-- a function that calls its argument on `k`, from two scopes in which `k` is something else: what
it gives was made in the fourth scope of the first store and in the fifth of the second -/
theorem call_hides_caller_closure :
    let g : Function := ⟨"", ["x"], .func Token.missing "" [] .absent, some 0⟩
    let f : Function :=
      ⟨"f", ["g"], .call Token.missing (.var Token.missing "g") [.var Token.missing "k"], some 0⟩
    let a : Store := ⟨#[⟨[("k", .int 1)], none⟩, ⟨[("k", .absent)], some 0⟩]⟩
    let b : Store := ⟨#[⟨[("k", .int 1)], none⟩, ⟨[("k", .int 2)], none⟩, ⟨[], some 1⟩]⟩
    let call (s : ScopeId) : Run Value := open? ⟨.lexical, 3⟩ 0 s ⟨1, 1⟩ f [.function g] >>=
      fun l => eval ⟨.lexical, 3⟩ 9 1 l f.body
    (∀ i, a.Seen [.function f, .function g] i → a.AgreeAt b i) ∧
      ∃ v σ w τ, call 1 ⟨a, #[]⟩ = .done v σ ∧ call 2 ⟨b, #[]⟩ = .done w τ ∧
        v.home? = some 3 ∧ w.home? = some 4 ∧ σ.events = τ.events ∧
        ∃ M : Link, Value.Linked M v w := by
  intro g f a b call
  have hreach : ∀ i, a.Reaches 0 i → i = 0 := by
    intro i hi
    induction hi with
    | self => rfl
    | parent _ hp ih =>
      rw [ih] at hp
      cases hp
    | home _ hf _ ih =>
      rw [ih] at hf
      cases List.mem_singleton.mp hf
  have hagree : ∀ i, a.Seen [.function f, .function g] i → a.AgreeAt b i := by
    rintro i ⟨v, hv, j, hj, hi⟩
    have hj : j = 0 := by
      simp only [List.mem_cons, List.not_mem_nil, or_false] at hv
      rcases hv with rfl | rfl <;> exact (Option.some.inj hj).symm
    rw [hj] at hi
    rw [hreach i hi]
    exact ⟨by decide, by decide, fun _ => rfl, rfl⟩
  have hdone : ∀ s st i, (match call s ⟨st, #[]⟩ with | .done v _ => v.home? | _ => none) = some i →
      ∃ v σ, call s ⟨st, #[]⟩ = .done v σ ∧ v.home? = some i := by
    intro s st i hcheck
    cases ho : call s ⟨st, #[]⟩ with
    | done v σ =>
      rw [ho] at hcheck
      exact ⟨v, σ, rfl, hcheck⟩
    | failed e σ =>
      rw [ho] at hcheck
      cases hcheck
    | unfinished =>
      rw [ho] at hcheck
      cases hcheck
  obtain ⟨v, σ, hv, hvhome⟩ := hdone 1 a 3 (by decide +kernel)
  obtain ⟨w, τ, hw, hwhome⟩ := hdone 2 b 4 (by decide +kernel)
  obtain ⟨w', τ', hw', hevents, M, hvw, -, -⟩ :=
    (call_hides_caller 3 9 0 1 2 ⟨1, 1⟩ f [.function g] a b #[] hagree).1 v σ hv
  cases hw.symm.trans hw'
  exact ⟨hagree, v, σ, w, τ, hv, hw, hvhome, hwhome, hevents, M, hvw⟩

end Eval

end ExprShell
