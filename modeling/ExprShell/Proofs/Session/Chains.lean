import ExprShell.Proofs.Eval.Chains
import ExprShell.Proofs.Expr.Nesting
import ExprShell.Proofs.Session.Globals

/-!
# The scopes around a line

Whatever a session has run, whether lines failed or it began anew, a tree is evaluated in a scope
from which the way outward ends at the global scope.  Under dynamic calls the scopes on the way are
those of the active calls.  Under lexical calls there is one for every function in whose body the
tree stands in its line, and the functions that are bound anywhere were made in such scopes.

Which line is the tree's own is kept with the scope in which it is evaluated: in the global scope it
is the line that is run, and in the scope of a call the line of the function.

* `Session.Stands`         where a tree stands in a line;
* `Session.Homed`          where the functions that are bound were made;
* `Session.scope_chains`   the scopes around every tree that is evaluated.
-/

namespace ExprShell

open Store (Chain)

namespace Session

/-- the tree stands in `line`, which is one of the lines `L`, inside the bodies of `k` functions; in
this line it stands inside no other number of bodies -/
def Stands (L : List Char → Prop) (line : List Char) (k : Nat) (a : Expr) : Prop :=
  L line ∧ ∃ bound tree, ExprShell.parse bound (scan line).tokens = .ok tree ∧
    tree.Within k a ∧ (a ≠ .absent → ∀ j, tree.Within j a → j = k)

section
variable {L : List Char → Prop} {sc : Scoping} {W : Ground (List Char)}

theorem stands_of_within {line : List Char} (hline : L line) {bound : Names} {tree a : Expr}
    (hparse : ExprShell.parse bound (scan line).tokens = .ok tree) {k : Nat}
    (h : tree.Within k a) : Stands L line k a :=
  ⟨hline, bound, tree, hparse, h, fun ha _ hj => hj.unique (nodup_marks hparse) ha h⟩

theorem nested_stands (L : List Char → Prop) : Eval.Nested (Stands L) where
  part h ha := by
    obtain ⟨hline, bound, tree, hparse, hwithin, -⟩ := h
    exact stands_of_within hline hparse (hwithin.part ha)
  body h := by
    obtain ⟨hline, bound, tree, hparse, hwithin, -⟩ := h
    exact stands_of_within hline hparse hwithin.body

/-- every function that a scope binds was made in a scope with an end, and stands in the line of
that scope, unless that is a global scope; if calls are lexical, as many scopes lie around it as
bodies of functions around the function in this line -/
def Homed (sc : Scoping) (L : List Char → Prop) (lines : List (List Char)) (st : Store) : Prop :=
  ∀ i x f, (st.bindings i).get? x = some (.function f) →
    ∃ j js line k t, f.home = some j ∧ Chain st.parents j js ∧ js.Nodup ∧
      (lines[j]? = some line ∨ js = [j]) ∧ Stands L line k (.func t f.name f.params f.body) ∧
      (sc = .lexical → js.length = k + 1)

theorem homed_of_shaped {st : Store} (h : st.Shaped sc (Stands L) W) :
    Homed sc L W.origins st := by
  intro i x f hf
  obtain ⟨-, g, -, -, hmade⟩ := h.values i x _ hf
  obtain ⟨j, js, line, k, t, hhome, hjs, -, hrest⟩ := hmade f rfl
  refine ⟨j, js, line, k, t, hhome, h.parents ▸ hjs, hjs.nodup h.layered, hrest⟩

/-! ## One step -/

theorem Rooted.getElem?_parents {s : Session} (h : Rooted s) :
    s.store.parents[s.global]? = some none := by
  have hget := Array.getElem?_eq_getElem h.there
  rw [Store.getElem?_parents, hget, Option.map_some, ← Store.parent_eq hget, h.root]

/-- when a line is run, the trees in the global scope come from it -/
theorem begin_line {s : Session} (hroot : Rooted s) (hs : s.store.Shaped sc (Stands L) W)
    (line : List Char) :
    s.store.Shaped sc (Stands L) (W.begin s.global line) ∧
      Chain (W.begin s.global line).parents s.global [s.global] ∧
      (W.begin s.global line).origins[s.global]? = some line := by
  have hget : W.parents[s.global]? = some none := hs.parents ▸ hroot.getElem?_parents
  have hlt : s.global < W.origins.length := by
    rw [W.length_origins]
    exact (List.getElem?_eq_some_iff.mp hget).1
  refine ⟨hs.begin hget line, ?_, ?_⟩
  · rw [Ground.parents_begin hget]
    exact .root hget
  · rw [Ground.origins_begin, List.getElem?_set_self hlt]

/-- a line is evaluated in the global scope, and stands in no body -/
theorem lies_of_parse {s : Session} {line : List Char} (hline : L line) {ds : List Diagnostic}
    {tree : Expr} (hp : s.parse line = (ds, .ok tree))
    (hchain : Chain W.parents s.global [s.global]) (ho : W.origins[s.global]? = some line) :
    Eval.Lies sc (Stands L) W s.global s.global tree := by
  have hparse : ExprShell.parse (s.store.has s.global) (scan line).tokens = .ok tree :=
    congrArg Prod.snd hp
  exact ⟨[s.global], line, 0, hchain, rfl, ho, stands_of_within hline hparse .whole, fun _ => rfl⟩

theorem eval_shaped {s : Session} (hroot : Rooted s)
    (hs : s.store.Shaped s.rule.scoping (Stands L) W) (fuel : Nat) {line : List Char}
    (hline : L line) : ∃ V, (s.eval fuel line).2.store.Shaped s.rule.scoping (Stands L) V := by
  obtain ⟨hbegin, hchain, ho⟩ := begin_line hroot hs line
  obtain ⟨V, st, hle, hst, hstore, -⟩ := eval_kept
    (I := Eval.chains s.rule s.global (nested_stands L)) (W := W.begin s.global line)
    ⟨[s.global], hchain, rfl⟩ hbegin (fun _ _ hparse => lies_of_parse hline hparse hchain ho) fuel
  refine ⟨V, ?_⟩
  rcases hstore with hstore | hstore
  · rw [hstore]
    exact hst
  · rw [hstore]
    have hglobal : Chain st.parents s.global [s.global] :=
      hst.parents ▸ hchain.mono (Ground.parents_mono hle)
    exact hst.restore hbegin hle s.global hglobal.lt_size

end

/-- what a course keeps: the functions that are bound were made in scopes of the right kind -/
theorem Course.shaped {L : List Char → Prop} {s t : Session} {xs : List (Step × Report)}
    (h : s.Course xs t) (hroot : Rooted s) {W : Ground (List Char)}
    (hs : s.store.Shaped s.rule.scoping (Stands L) W)
    (hxs : ∀ line o, (.eval line, o) ∈ xs → L line) :
    ∃ V, t.store.Shaped s.rule.scoping (Stands L) V := by
  have hall : Rooted t ∧ t.rule = s.rule ∧ ∃ V, t.store.Shaped s.rule.scoping (Stands L) V := by
    refine h.keeps (P := fun t => Rooted t ∧ t.rule = s.rule ∧
      ∃ V, t.store.Shaped s.rule.scoping (Stands L) V) ⟨hroot, rfl, W, hs⟩ ?_ ?_
    · rintro u ⟨-, hrule, V, hshaped⟩
      exact ⟨.of_begin u.rule u.logs u.store, hrule, _, hshaped.add_root []⟩
    · rintro u ⟨hroot, hrule, V, hshaped⟩ fuel line o hmem
      obtain ⟨U, hnext⟩ := eval_shaped hroot (hrule.symm ▸ hshaped) fuel (hxs line o hmem)
      exact ⟨hroot.eval fuel line, (u.rule_eval fuel line).1.trans hrule, U, hrule ▸ hnext⟩
  exact hall.2.2

/-- **The scopes around every tree that is evaluated.**  After any course, every function that is
bound was made in a scope of the right kind.  If a line is then read, and its evaluation comes to a
tree, in the scope `i` and with `d` calls active in the scopes `ls`: one way leads outward from `i`,
it comes to no scope twice and ends at the global scope, and looking up a name goes this way.  Under
dynamic calls it leads through the scopes of the active calls.  Under lexical calls it has one scope
for the line and one for each function in whose body the tree stands.  The line in which it stands
is known for each scope, from the course on: for the global scope it is the line that is evaluated,
and under lexical calls it is the same for all scopes on the way but this one. -/
theorem scope_chains (rule : CallRule) (logs : Bool) (xs : List (Step × Report)) (s : Session)
    (h : (Session.new rule logs).Course xs s) :
    ∃ lines : List (List Char), lines.length = s.store.next ∧
    Homed rule.scoping (fun l => ∃ o, (.eval l, o) ∈ xs) lines s.store ∧
    ∀ line ds tree, s.parse line = (ds, .ok tree) →
      let M : Eval.Moment := ⟨0, s.global, .tree tree, ⟨s.store, #[]⟩⟩
      let L := fun l => l = line ∨ ∃ o, (.eval l, o) ∈ xs
      (∀ ls d i e σ, M.Trail s.rule ls ⟨d, i, .tree e, σ⟩ →
        ∃ is, Chain σ.store.parents i is ∧ (∀ js, Chain σ.store.parents i js → js = is) ∧
          is.Nodup ∧ is.getLast? = some s.global ∧
          (∀ x, σ.store.lookup i x = is.findSome? fun j => (σ.store.bindings j).get? x) ∧
          (rule.scoping = .dynamic → is = ls ++ [s.global] ∧ is.length = d + 1) ∧
          ∃ later l k, lines.set s.global line <+: later ∧ Homed rule.scoping L later σ.store ∧
            later[i]? = some l ∧ Stands L l k e ∧
            (rule.scoping = .lexical →
              is.length = k + 1 ∧ ∀ j ∈ is, j ≠ s.global → later[j]? = some l)) ∧
      ∀ σ, M.Meets s.rule σ →
        ∃ later, lines.set s.global line <+: later ∧ Homed rule.scoping L later σ.store := by
  have hnew : Rooted (Session.new rule logs) := .of_begin rule logs .empty
  have hroot : Rooted s := h.rooted hnew
  have hrule : s.rule = rule := h.rule_eq.1
  let ran : List Char → Prop := fun l => ∃ o, (.eval l, o) ∈ xs
  obtain ⟨W, hW⟩ : ∃ W, s.store.Shaped rule.scoping (Stands ran) W :=
    h.shaped hnew (Store.Shaped.empty.add_root []) fun l o hmem => ⟨o, hmem⟩
  have hlength : W.origins.length = s.store.next := by
    rw [W.length_origins, ← hW.parents, s.store.length_parents]
  refine ⟨W.origins, hlength, homed_of_shaped hW, ?_⟩
  intro line ds tree hparse M L
  have hmore : s.store.Shaped s.rule.scoping (Stands L) W :=
    hrule ▸ hW.imp fun l k e hstands => ⟨.inr hstands.1, hstands.2⟩
  obtain ⟨hst, hchain, ho⟩ := begin_line hroot hmore line
  have hscope : ∃ is, Chain (W.begin s.global line).parents s.global is ∧
      is.getLast? = some s.global := ⟨[s.global], hchain, rfl⟩
  have hlies : M.task.Held (Eval.chains s.rule s.global (nested_stands L))
      (W.begin s.global line) M.scope := lies_of_parse (.inl rfl) hparse hchain ho
  rw [← Ground.origins_begin]
  refine ⟨fun ls d i e σ htrail => ?_, fun σ hmeets => ?_⟩
  · obtain ⟨V, hle, hσ, -, is, l, k, his, hlast, hl, hstands, hlex⟩ :=
      htrail.kept hscope hlies hst
    have his' : Chain σ.store.parents i is := hσ.parents ▸ his
    refine ⟨is, his', fun js hjs => hjs.unique his', his.nodup hσ.layered, hlast,
      fun x => his'.lookup_eq (hσ.parents ▸ hσ.layered) x, fun hdyn => ?_, V.origins, l, k,
      Ground.origins_mono hle, homed_of_shaped (hrule ▸ hσ), hl, hstands, fun hlexical => ?_⟩
    · have hactive := htrail.chain (nested_stands L) (hrule.symm ▸ hdyn) (hst.parents ▸ hchain)
        rfl hlies hst
      have hdepth : d = 0 + ls.length := (htrail.depth_eq (Nat.zero_le _)).1
      rw [his'.unique hactive, hdepth, Nat.zero_add, List.length_append]
      exact ⟨rfl, rfl⟩
    · have hsc : s.rule.scoping = .lexical := hrule.symm ▸ hlexical
      refine ⟨hlex hsc, fun j hj hne => ?_⟩
      rcases (hσ.traced hsc).origin_of_mem his hl j hj with hend | hsame
      · exact absurd (Option.some.inj (hend.symm.trans hlast)) hne
      · exact hsame
  · obtain ⟨V, hle, hσ⟩ := hmeets.kept hscope hlies hst
    exact ⟨V.origins, Ground.origins_mono hle, homed_of_shaped (hrule ▸ hσ)⟩

/-- a function is called where it is made: its body is evaluated in a scope inside the global one,
and stands in one body -/
theorem scope_chains_inner :
    let line := "(FN () -> 7)()".toList
    let s := Session.new ⟨.lexical, 5⟩ true
    let xs : List (Step × Report) := []
    ∃ ds tree e σ, s.Course xs s ∧ s.parse line = (ds, .ok tree) ∧
      Eval.Moment.Trail s.rule ⟨0, s.global, .tree tree, ⟨s.store, #[]⟩⟩ [1] ⟨1, 1, .tree e, σ⟩ ∧
      Chain σ.store.parents 1 [1, 0] ∧
      Stands (fun l => l = line ∨ ∃ o, (.eval l, o) ∈ xs) line 1 e := by
  have hscan : scan "(FN () -> 7)()".toList = ⟨[⟨.lparen, "(", "", ⟨1, 1⟩⟩,
      ⟨.keyword, "FN", "FN", ⟨1, 2⟩⟩, ⟨.lparen, "(", "", ⟨1, 5⟩⟩, ⟨.rparen, ")", "", ⟨1, 6⟩⟩,
      ⟨.arrow, "->", "", ⟨1, 8⟩⟩, ⟨.int, "7", "7", ⟨1, 11⟩⟩, ⟨.rparen, ")", "", ⟨1, 12⟩⟩,
      ⟨.lparen, "(", "", ⟨1, 13⟩⟩, ⟨.rparen, ")", "", ⟨1, 14⟩⟩, ⟨.eof, "", "", ⟨1, 15⟩⟩], []⟩ := by
    decide +kernel
  have hread : ∃ t t' n, (Session.new ⟨.lexical, 5⟩ true).parse "(FN () -> 7)()".toList =
      ([], .ok (.call t (.func t' "" [] (.number n)) [])) := by
    rw [Session.parse, hscan]
    exact ⟨_, _, _, rfl⟩
  obtain ⟨t, t', n, hparse⟩ := hread
  intro line s xs
  obtain ⟨lines, -, -, hline⟩ := scope_chains ⟨.lexical, 5⟩ true xs s .nil
  obtain ⟨hmoments, -⟩ := hline line [] _ hparse
  let f : Function := ⟨"", [], .number n, some 0⟩
  let σ : State := ⟨s.store.add (some 0) [], #[.called f.text 0 1]⟩
  have htrail : Eval.Moment.Trail s.rule ⟨0, s.global, .tree _, ⟨s.store, #[]⟩⟩ [1]
      ⟨1, 1, .tree (.number n), σ⟩ :=
    .call (t := .tree (.call t (.func t' "" [] (.number n)) [])) (f := f) .start
      (.ask (n := 1) rfl (.ask (n := 1) rfl (.here _ _ _))) rfl
  obtain ⟨is, his, -, -, -, -, -, later, l, k, -, -, -, hstands, hlex⟩ :=
    hmoments [1] 1 1 (.number n) σ htrail
  have hchain : Chain σ.store.parents 1 [1, 0] := .inner rfl (.root rfl)
  have hlen := (hlex rfl).1
  rw [his.unique hchain] at hlen
  obtain rfl : k = 1 := (Nat.succ.inj hlen).symm
  obtain rfl | hearlier := hstands.1
  · exact ⟨[], _, .number n, σ, .nil, hparse, htrail, hchain, hstands⟩
  · obtain ⟨_, hmem⟩ := hearlier
    exact absurd hmem List.not_mem_nil

end Session

end ExprShell
