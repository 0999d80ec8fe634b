import ExprShell.Proofs.Expr.Nodes
import ExprShell.Proofs.Sentence.Script

/-!
# Bound names only let assignments through

Whether a name is bound is asked at one place only, before a plain assignment.  So what is read
under some bound names is read, as long as no assignment is refused, as if every name were bound;
and the assignment that is refused is the first in the sentence to a name that is not bound.

* `undeclared?`    the first of some assignments whose name is not bound;
* `Gated`          a reading with every name bound, and the reading under the names of `bound`;
* `Script.Plain`   the assignments in what a script gives, in the order in which they are read;
* `Goal.gated`     the two readings of any goal;
* `parse_gated`    whole sentences.
-/

namespace ExprShell

namespace Sentence

open Grammar ExprShell.Expr

def allNames : Names := fun _ => true

/-- the first of some assignments whose name is not bound -/
def undeclared? (bound : Names) (as : List (Token × String)) : Option (Token × String) :=
  as.find? fun a => !bound a.2

theorem undeclared?_append (bound : Names) (as bs : List (Token × String)) :
    undeclared? bound (as ++ bs) = (undeclared? bound as).or (undeclared? bound bs) :=
  List.find?_append

/-- what is read with every name bound, and what under the names of `bound`; `plain` says which
assignments a result has.  `before` were read earlier, and whether their names are bound does not
count: it is the first of the others that matters -/
inductive Gated {α : Type} (bound : Names) (before : List (Token × String))
    (plain : α → List (Token × String)) :
    Except ParseError (α × List Token) → Except ParseError (α × List Token) → Prop
  | same {a : α} {r : List Token} {new : List (Token × String)} (hplain : plain a = before ++ new)
    (h : undeclared? bound new = none) : Gated bound before plain (.ok (a, r)) (.ok (a, r))
  | refused {a : α} {r : List Token} {new : List (Token × String)} {t : Token} {x : String}
    (hplain : plain a = before ++ new) (h : undeclared? bound new = some (t, x)) :
    Gated bound before plain (.ok (a, r)) (.error ⟨t, .undeclared⟩)
  | error {e e' : ParseError} : Gated bound before plain (.error e) (.error e')

variable {bound : Names} {stop : Token}

namespace Gated

variable {α β : Type} {before : List (Token × String)} {plain : α → List (Token × String)}
  {plain' : β → List (Token × String)}

theorem ok {a : α} {r : List Token} (h : plain a = before) :
    Gated bound before plain (.ok (a, r)) (.ok (a, r)) :=
  .same (h.trans (List.append_nil _).symm) rfl

theorem bind {earlier : List (Token × String)} {x x' : Except ParseError (α × List Token)}
    {f f' : α × List Token → Except ParseError (β × List Token)}
    (hx : Gated bound before plain x x')
    (hf : ∀ a r, Gated bound (earlier ++ plain a) plain' (f (a, r)) (f' (a, r))) :
    Gated bound (earlier ++ before) plain' (x >>= f) (x' >>= f') := by
  have hplace {a : α} {b : β} {new new' : List (Token × String)} (hplain : plain a = before ++ new)
      (hplain' : plain' b = earlier ++ plain a ++ new') :
      plain' b = earlier ++ before ++ (new ++ new') := by
    rw [hplain', hplain]
    simp only [List.append_assoc]
  cases hx with
  | @same a r new hplain h =>
    have hnext := hf a r
    show Gated bound _ plain' (f (a, r)) (f' (a, r))
    generalize f (a, r) = y, f' (a, r) = y' at hnext
    cases hnext with
    | same hplain' h' =>
      refine .same (hplace hplain hplain') ?_
      rw [undeclared?_append, h, h']
      rfl
    | @refused _ _ _ t x hplain' h' =>
      refine .refused (x := x) (hplace hplain hplain') ?_
      rw [undeclared?_append, h, h']
      rfl
    | error => exact .error
  | @refused a r new t x hplain h =>
    have hnext := hf a r
    show Gated bound _ plain' (f (a, r)) (.error ⟨t, .undeclared⟩)
    generalize f (a, r) = y, f' (a, r) = y' at hnext
    have hfirst : ∀ new', undeclared? bound (new ++ new') = some (t, x) := fun new' => by
      rw [undeclared?_append, h]
      rfl
    cases hnext with
    | same hplain' _ => exact .refused (hplace hplain hplain') (hfirst _)
    | refused hplain' _ => exact .refused (hplace hplain hplain') (hfirst _)
    | error => exact .error
  | error => exact .error

theorem pass {γ : Type} (x : Except ParseError γ)
    {f f' : γ → Except ParseError (β × List Token)}
    (hf : ∀ c, Gated bound before plain' (f c) (f' c)) :
    Gated bound before plain' (x >>= f) (x >>= f') := by
  cases x with
  | ok c => exact hf c
  | error e => exact .error

/-- an assignment to a name that is bound is let through -/
theorem of_bound {t : Token} {x : String} {y y' : Except ParseError (α × List Token)}
    (hx : bound x = true) (h : Gated bound (before ++ [(t, x)]) plain y y') :
    Gated bound before plain y y' := by
  have hskip : ∀ new, undeclared? bound ([(t, x)] ++ new) = undeclared? bound new := fun new => by
    simp [undeclared?, hx]
  cases h with
  | same hplain h => exact .same (hplain.trans (List.append_assoc ..)) ((hskip _).trans h)
  | refused hplain h => exact .refused (hplain.trans (List.append_assoc ..)) ((hskip _).trans h)
  | error => exact .error

theorem of_not_bound {t : Token} {x : String} {y y' : Except ParseError (α × List Token)}
    (hx : bound x = false) (h : Gated bound (before ++ [(t, x)]) plain y y') :
    Gated bound before plain y (.error ⟨t, .undeclared⟩) := by
  have hfirst : ∀ new, undeclared? bound ([(t, x)] ++ new) = some (t, x) := fun new => by
    simp [undeclared?, hx]
  cases h with
  | same hplain _ => exact .refused (hplain.trans (List.append_assoc ..)) (hfirst _)
  | refused hplain _ => exact .refused (hplain.trans (List.append_assoc ..)) (hfirst _)
  | error => exact .error

end Gated

/-! ## All goals -/

/-- the plain assignments in branches, and in arguments -/
def branchPlains (bs : List (Expr × Expr)) : List (Token × String) :=
  (nodesOfBranches bs).filterMap plain?

def argPlains (as : List Expr) : List (Token × String) := (nodesOfArgs as).filterMap plain?

theorem plains_assign (t : Token) (x : String) (e : Expr) :
    (assign t x e).plains = (if t.kind = .identifier then [(t, x)] else []) ++ e.plains := by
  rw [plains, nodes, List.filterMap_cons, plain?]
  by_cases hk : t.kind = .identifier
  · rw [if_pos hk, if_pos hk]
    rfl
  · rw [if_neg hk, if_neg hk]
    rfl

theorem plains_binary (l : Expr) (o : Token) (r : Expr) :
    (binary l o r).plains = l.plains ++ r.plains := List.filterMap_append

theorem plains_call (t : Token) (f : Expr) (as : List Expr) :
    (call t f as).plains = f.plains ++ argPlains as := List.filterMap_append

theorem plains_cond (t : Token) (bs : List (Expr × Expr)) (e : Expr) :
    (cond t bs e).plains = branchPlains bs ++ e.plains := List.filterMap_append

theorem plains_loop (t : Token) (c e : Expr) : (loop t c e).plains = c.plains ++ e.plains :=
  List.filterMap_append

theorem plains_count (t : Token) (x : String) (a b s e : Expr) :
    (count t x a b s e).plains = a.plains ++ (b.plains ++ (s.plains ++ e.plains)) := by
  rw [plains, nodes, List.filterMap_cons_none rfl]
  simp [plains]

theorem argPlains_cons (a : Expr) (as : List Expr) :
    argPlains (a :: as) = a.plains ++ argPlains as := List.filterMap_append

theorem argPlains_singleton (a : Expr) : argPlains [a] = a.plains :=
  (argPlains_cons a []).trans (List.append_nil _)

theorem branchPlains_cons (c e : Expr) (bs : List (Expr × Expr)) :
    branchPlains ((c, e) :: bs) = c.plains ++ (e.plains ++ branchPlains bs) := by
  simp [branchPlains, nodesOfBranches, plains]

/-- the assignments of what a goal goes on from -/
def Goal.before {α : Type} : Goal α → List (Token × String)
  | .assignment t x => if t.kind = .identifier then [(t, x)] else []
  | .chain _ e => e.plains
  | _ => []

def Goal.plain {α : Type} : Goal α → α → List (Token × String)
  | .arguments | .exprs => argPlains
  | .branches => branchPlains
  | .expr | .assignment _ _ | .operand _ | .chain _ _ | .application => plains
  | .conditional _ | .counted _ | .step | .looping _ | .function _ => plains

/-- behind the assignments in `before`, those of the result are read in their order -/
inductive Script.Plain {α : Type} (plain : α → List (Token × String)) :
    List (Token × String) → Script α → Prop
  | done {before : List (Token × String)} {a : α} (h : plain a = before) :
    Plain plain before (.done a)
  | wrong {before : List (Token × String)} (w : Want) : Plain plain before (.wrong w)
  | option {before : List (Token × String)} {p : Token → Prop} [DecidablePred p]
    {yes : Token → Script α} {no : Script α} (hyes : ∀ t, p t → Plain plain before (yes t))
    (hno : Plain plain before no) : Plain plain before (.option p yes no)
  | stay {before : List (Token × String)} {p : Token → Prop} [DecidablePred p] {yes no : Script α}
    (hyes : Plain plain before yes) (hno : Plain plain before no) :
    Plain plain before (.stay p yes no)
  | target {before : List (Token × String)} {yes : Token → Script α} {no : Script α}
    (hyes : ∀ t, t.kind = .identifier → Plain plain (before ++ [(t, t.literal)]) (yes t))
    (hno : Plain plain before no) : Plain plain before (.target yes no)
  | ask {β : Type} {before earlier : List (Token × String)} {g : Goal β} {rest : β → Script α}
    (hbefore : before = earlier ++ g.before)
    (h : ∀ b, Plain plain (earlier ++ g.plain b) (rest b)) : Plain plain before (.ask g rest)
  | params {before : List (Token × String)} {rest : List String → Script α}
    (h : ∀ ps, Plain plain before (rest ps)) : Plain plain before (.params rest)

namespace Script.Plain

variable {α : Type} {before : List (Token × String)} {plain : α → List (Token × String)}

theorem expect {k : Token.Kind} {w : Want} {rest : Token → Script α}
    (h : ∀ t, t.kind = k → Script.Plain plain before (rest t)) :
    Script.Plain plain before (.expect k w rest) :=
  .option h (.wrong w)

theorem expectWord {k : Keyword} {rest : Script α} (h : Script.Plain plain before rest) :
    Script.Plain plain before (.expectWord k rest) :=
  .option (fun _ _ => h) (.wrong _)

theorem fresh {β : Type} {g : Goal β} {rest : β → Script α} (hg : g.before = [])
    (h : ∀ b, Script.Plain plain (before ++ g.plain b) (rest b)) :
    Script.Plain plain before (.ask g rest) :=
  .ask (by rw [hg, List.append_nil]) h

theorem same {g : Goal α} (hbefore : before = g.before) (hplain : plain = g.plain) :
    Script.Plain plain before (.same g) :=
  have hbefore : before = [] ++ g.before := hbefore
  .ask hbefore fun _ => .done (by rw [hplain]; rfl)

theorem gated {s : Script α} {rd rd' : Reader} (h : s.Plain plain before)
    (hrd : ∀ β (g : Goal β) ts, Gated bound g.before g.plain (rd β g ts) (rd' β g ts))
    (ts : List Token) :
    Gated bound before plain (s.read allNames stop rd ts) (s.read bound stop rd' ts) := by
  induction h generalizing ts with
  | done h => exact .ok h
  | wrong w => exact .error
  | option _ _ ihyes ihno =>
    cases ts with
    | nil => exact ihno []
    | cons t ts =>
      rw [Script.read, Script.read]
      split
      · next ht => exact ihyes t ht ts
      · exact ihno (t :: ts)
  | stay _ _ ihyes ihno =>
    cases ts with
    | nil => exact ihno []
    | cons t ts =>
      rw [Script.read, Script.read]
      split
      · exact ihyes (t :: ts)
      · exact ihno (t :: ts)
  | target _ _ ihyes ihno =>
    cases ts with
    | nil => exact ihno []
    | cons t ts =>
      rw [Script.read, Script.read]
      split
      · next ht =>
        -- here, and nowhere else, a name is looked up
        cases hb : bound t.literal with
        | true => exact .of_bound hb (ihyes t ht.1 ts)
        | false => exact .of_not_bound hb (ihyes t ht.1 ts)
      · exact ihno (t :: ts)
  | ask hbefore _ ih =>
    rw [hbefore]
    exact (hrd _ _ ts).bind fun b r => ih b r
  | params _ ih => exact .pass _ fun p => ih p.1 p.2

end Script.Plain

theorem factor_plain : factorScript.Plain plains [] := by
  refine .option (fun t _ => .fresh rfl fun e => .done rfl) ?_
  refine .option (fun t _ => .done rfl) ?_
  refine .option (fun t _ => .done rfl) ?_
  refine .option (fun t _ => .fresh rfl fun e => .expect fun _ _ => .done rfl) ?_
  refine .option (fun t _ => .same rfl rfl) ?_
  refine .option (fun t _ => .same rfl rfl) ?_
  refine .option (fun t _ => .same rfl rfl) ?_
  refine .option (fun t _ => .same rfl rfl) ?_
  exact .wrong _

theorem function_plain (t : Token) (x : String) : (functionScript t x).Plain plains [] :=
  .expect fun _ _ => .params fun _ => .expect fun _ _ => .expect fun _ _ =>
    .fresh rfl fun _ => .done rfl

theorem Goal.script_plain {α : Type} (g : Goal α) : g.script.Plain g.plain g.before := by
  cases g with
  | expr =>
    refine .stay (.option (fun t ht => .expect fun x _ => .same ?_ rfl) ?_) (.wrong _)
    · have hk : t.kind ≠ .identifier := by simp [kind_of_is ht]
      exact (if_neg hk).symm
    · refine .target (fun t ht => .same ?_ rfl) (.fresh rfl fun e => .same rfl rfl)
      exact (if_pos ht).symm
  | assignment t x =>
    exact .expect fun _ _ => .fresh rfl fun e => .done (plains_assign t x e)
  | operand l =>
    cases l with
    | logic =>
      refine .stay (.option (fun t _ => .fresh rfl fun e => .done rfl) ?_) (.wrong _)
      exact .fresh rfl fun e => .same rfl rfl
    | comparison => exact .fresh rfl fun e => .same rfl rfl
    | sum => exact .fresh rfl fun e => .same rfl rfl
    | product => exact factor_plain
  | chain l e =>
    refine .option (fun t _ => .fresh rfl fun b => .same ?_ rfl) (.done rfl)
    exact (plains_binary e t b).symm
  | application =>
    refine .fresh rfl fun f => .option (fun t _ => .fresh rfl fun as => ?_) (.done rfl)
    exact .expect fun _ _ => .done (plains_call t f as)
  | arguments => exact .stay (.done rfl) (.same rfl rfl)
  | exprs =>
    refine .fresh rfl fun a => .option (fun t _ => .fresh rfl fun as => .done ?_) (.done ?_)
    · exact argPlains_cons a as
    · exact argPlains_singleton a
  | conditional t =>
    refine .fresh rfl fun bs => .option (fun u _ => .fresh rfl fun e => .done ?_) (.done ?_)
    · exact plains_cond t bs e
    · exact (plains_cond t bs .absent).trans (List.append_nil _)
  | branches =>
    refine .fresh rfl fun c => .expectWord <| .fresh rfl fun e => ?_
    refine .option (fun s _ => .fresh rfl fun bs => .done ?_) (.done ?_)
    · exact (branchPlains_cons c e bs).trans (List.append_assoc ..).symm
    · refine (branchPlains_cons c e []).trans ?_
      exact congrArg (c.plains ++ ·) (List.append_nil _)
  | counted t =>
    refine .expect fun x _ => .expect fun _ _ => .fresh rfl fun a => .expectWord ?_
    refine .fresh rfl fun b => .fresh rfl fun s => .expectWord <| .fresh rfl fun e => .done ?_
    simp [plain, before, plains_count]
  | step => exact .option (fun _ _ => .same rfl rfl) (.done rfl)
  | looping t =>
    refine .fresh rfl fun c => .expectWord <| .fresh rfl fun e => .done ?_
    exact plains_loop t c e
  | function t => exact .option (fun u _ => function_plain t u.literal) (function_plain t "")

/-- any goal under the names of `bound`: its result is let through, or an assignment is refused -/
theorem Goal.gated {α : Type} (bound : Names) (stop : Token) (n : Nat) (g : Goal α)
    (ts : List Token) :
    Gated bound g.before g.plain (g.read allNames stop n ts) (g.read bound stop n ts) := by
  induction n generalizing α ts with
  | zero =>
    rw [read_zero, read_zero]
    exact .error
  | succ n ih =>
    rw [read_succ, read_succ]
    exact g.script_plain.gated (fun _ g ts => ih g ts) ts

/-- a sentence is read the same under the names of `bound`, or its first assignment to another
name is refused, or it is refused under all names too -/
theorem parse_gated (bound : Names) (s : Sentence) :
    (∃ e, s.parse allNames = .ok e ∧ s.parse bound = .ok e ∧ undeclared? bound e.plains = none) ∨
      (∃ e t x, s.parse allNames = .ok e ∧ s.parse bound = .error ⟨t, .undeclared⟩ ∧
        undeclared? bound e.plains = some (t, x)) ∨
      ∃ p q, s.parse allNames = .error p ∧ s.parse bound = .error q := by
  obtain ⟨ts, stop⟩ := s
  cases ts with
  | nil => exact .inr (.inr ⟨_, _, rfl, rfl⟩)
  | cons t ts =>
    have hread : Gated bound [] plains (Sentence.expr allNames stop (fuel (t :: ts)) (t :: ts))
        (Sentence.expr bound stop (fuel (t :: ts)) (t :: ts)) :=
      Goal.gated bound stop (fuel (t :: ts)) .expr (t :: ts)
    simp only [parse]
    generalize Sentence.expr allNames stop (fuel (t :: ts)) (t :: ts) = y at hread
    generalize Sentence.expr bound stop (fuel (t :: ts)) (t :: ts) = y' at hread
    cases hread with
    | error => exact .inr (.inr ⟨_, _, rfl, rfl⟩)
    | @same e r new hplain h =>
      cases r with
      | nil => exact .inl ⟨e, rfl, rfl, hplain ▸ h⟩
      | cons u r => exact .inr (.inr ⟨_, _, rfl, rfl⟩)
    | @refused e r new u x hplain h =>
      cases r with
      | nil => exact .inr (.inl ⟨e, u, x, rfl, rfl, hplain ▸ h⟩)
      | cons v r => exact .inr (.inr ⟨_, _, rfl, rfl⟩)

end Sentence

open Sentence

theorem undeclared?_plains_eq_none {bound : Names} {e : Expr} :
    undeclared? bound e.plains = none ↔
      ∀ t x v, (Expr.assign t x v).Inside e → t.kind = .identifier → bound x = true := by
  simp only [undeclared?, List.find?_eq_none, Bool.not_eq_true', Bool.not_eq_false, Prod.forall,
    Expr.mem_plains_iff]
  grind

/-- what is read under some names is what is read under all names, and what is refused is a plain
assignment to another name -/
theorem parse_eq_ok_iff {bound : Names} {ts : List Token} {e : Expr} :
    parse bound ts = .ok e ↔ parse allNames ts = .ok e ∧ undeclared? bound e.plains = none := by
  have hparse : ∀ bound, parse bound ts = (ofTokens ts).parse bound := fun _ => rfl
  rw [hparse, hparse]
  rcases parse_gated bound (ofTokens ts) with ⟨e', hall, hb, hnone⟩ | ⟨e', t, x, hall, hb, hsome⟩ |
    ⟨p, q, hall, hb⟩
  · rw [hall, hb, Except.ok.injEq]
    exact ⟨fun h => ⟨h, h ▸ hnone⟩, And.left⟩
  · rw [hall, hb, Except.ok.injEq]
    refine ⟨nofun, ?_⟩
    rintro ⟨rfl, hnone⟩
    rw [hnone] at hsome
    cases hsome
  · rw [hall, hb]
    exact ⟨nofun, nofun⟩

/-- **The bound names only gate plain assignments.**  A sentence is read under some names just when
it is read with every name bound and its plain assignments, at any depth, are to these names; then
the tree is the same, and it is the same under more names.  Otherwise, if it can be read with every
name bound, the error is at the first of the plain assignments whose name is not bound; they are
taken in the order in which they stand in the tree, which is that of the tokens. -/
theorem names_gate_plain_assignments (bound : Names) (ts : List Token) :
    (∀ e, parse bound ts = .ok e ↔
      parse allNames ts = .ok e ∧
        ∀ t x v, (Expr.assign t x v).Inside e → t.kind = .identifier → bound x = true) ∧
    (∀ bound' e, (∀ x, bound x = true → bound' x = true) → parse bound ts = .ok e →
      parse bound' ts = .ok e) ∧
    ∀ e, parse allNames ts = .ok e →
      (∃ t x v, (Expr.assign t x v).Inside e ∧ t.kind = .identifier ∧ bound x = false) →
      List.Sublist (e.plains.map Prod.fst) ts ∧
        (∀ t x, (t, x) ∈ e.plains ↔ ∃ v, (Expr.assign t x v).Inside e ∧ t.kind = .identifier) ∧
        ∃ before t x after, e.plains = before ++ (t, x) :: after ∧
          (∀ a ∈ before, bound a.2 = true) ∧ bound x = false ∧
          parse bound ts = .error ⟨t, .undeclared⟩ := by
  refine ⟨fun e => ?_, fun bound' e hmore h => ?_, fun e hall hsome => ?_⟩
  · rw [parse_eq_ok_iff, undeclared?_plains_eq_none]
  · rw [parse_eq_ok_iff, undeclared?_plains_eq_none] at h ⊢
    exact ⟨h.1, fun t x v hv hk => hmore x (h.2 t x v hv hk)⟩
  · refine ⟨?_, fun t x => Expr.mem_plains_iff, ?_⟩
    · exact ((Expr.plains_sublist e).trans (marks_sublist hall)).trans (List.takeWhile_sublist _)
    rcases parse_gated bound (ofTokens ts) with ⟨e', hall', -, hnone⟩ |
      ⟨e', t, x, hall', hb, hfirst⟩ | ⟨p, q, hall', -⟩
    · obtain ⟨t, x, v, hv, hk, hx⟩ := hsome
      cases hall.symm.trans hall'
      rw [undeclared?_plains_eq_none.mp hnone t x v hv hk] at hx
      cases hx
    · cases hall.symm.trans hall'
      obtain ⟨hx, before, after, heq, hbefore⟩ := List.find?_eq_some_iff_append.mp hfirst
      refine ⟨before, t, x, after, heq, fun a ha => ?_, ?_, hb⟩
      · simpa using hbefore a ha
      · simpa using hx
    · cases hall.symm.trans hall'

/-- the second of three plain assignments is to a name that is not bound -/
theorem names_gate_plain_assignments_second :
    let ts := (scan "IF a = 1 THEN b = (c = 2)".toList).tokens
    let bound : Names := fun x => x == "a"
    ∃ e t, parse allNames ts = .ok e ∧ parse bound ts = .error ⟨t, .undeclared⟩ ∧
      t.literal = "b" := by
  intro ts bound
  obtain ⟨-, -, hfirst⟩ := names_gate_plain_assignments bound ts
  have hread : (parse allNames ts).toOption.any fun e => (undeclared? bound e.plains).isSome := by
    decide +kernel
  have herror : (match parse bound ts with | .error p => p.token.literal | .ok _ => "") = "b" := by
    decide +kernel
  cases hall : parse allNames ts with
  | error p =>
    rw [hall] at hread
    cases hread
  | ok e =>
    rw [hall] at hread
    have hsome : ∃ t x v, (Expr.assign t x v).Inside e ∧ t.kind = .identifier ∧
        bound x = false := by
      by_contra! hnone
      have hbound := undeclared?_plains_eq_none.mpr fun t x v hv hk => by
        simpa using hnone t x v hv hk
      simp [Except.toOption, hbound] at hread
    obtain ⟨-, -, -, t, -, -, -, -, -, hb⟩ := hfirst e hall hsome
    rw [hb] at herror
    exact ⟨e, t, rfl, hb, herror⟩

end ExprShell
