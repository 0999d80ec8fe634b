import ExprShell.Proofs.Eval.Invariant
import ExprShell.Proofs.Eval.Lockstep
import ExprShell.Session

/-!
# Courses of a session

A session is asked to run lines, to read lines, and to begin anew.  What it shows at each step is
the same as in a new session that has only run the lines that succeeded since it last began anew:
a line that fails leaves no trace, and neither does reading a line.  The two sessions number their
scopes differently, so they are compared through a link.

* `Session.Step`, `Session.take`   the steps, and what each shows;
* `Session.Course`    steps that all come to an end, with what they showed;
* `Session.remembered`   the lines of a course that count;
* `Session.Linked`    two sessions that show the same from now on.
-/

namespace ExprShell

/-- a value without the scope in which it was made, which nothing shows -/
def Value.shown : Value → Value
  | .function f => .function ⟨f.name, f.params, f.body, none⟩
  | v => v

def Answer.shown : Answer → Answer
  | .value v => .value v.shown
  | a => a

def Bindings.shown (bs : Bindings) : Bindings := bs.map fun b => (b.1, b.2.shown)

theorem Value.Linked.shown_eq {L : Link} {v w : Value} (h : Value.Linked L v w) :
    v.shown = w.shown := by
  cases h <;> rfl

theorem Bindings.Linked.shown_eq {L : Link} {bs cs : Bindings} (h : Bindings.Linked L bs cs) :
    bs.shown = cs.shown := by
  induction h with
  | nil => rfl
  | @cons a b bs cs hab _ ih =>
    have hhead : (a.1, a.2.shown) = (b.1, b.2.shown) := by rw [hab.1, hab.2.shown_eq]
    exact congrArg₂ List.cons hhead ih

namespace Session

/-- what a session can be asked to do -/
inductive Step
  | eval (line : List Char)
  | parse (line : List Char)
  | reset

/-- what a step shows; there is no answer to a line that was only read, or to a new beginning -/
structure Report where
  tree : Option Expr
  warnings : List Diagnostic
  answer : Option Answer
  log : List LogEntry
  /-- what is bound globally after the step -/
  globals : Bindings

/-- what running a line shows, when it leaves the session `s` -/
def Report.ofLine (r : LineResult) (s : Session) : Report :=
  ⟨r.tree, r.warnings, some r.answer.shown, r.log, s.bindings.shown⟩

def take (s : Session) (fuel : Nat) : Step → Report × Session
  | .eval line =>
    let (r, s') := s.eval fuel line
    (.ofLine r s', s')
  | .parse line =>
    let (ds, parsed) := s.parse line
    match parsed with
    | .ok e => (⟨some e, ds, none, [], s.bindings.shown⟩, s)
    | .error e => (⟨none, ds, some (.parseError e), [], s.bindings.shown⟩, s)
  | .reset => (⟨none, [], none, [], s.reset.bindings.shown⟩, s.reset)

/-- did the step come to an end? -/
def Report.finished (o : Report) : Bool :=
  match o.answer with
  | some .unfinished => false
  | _ => true

/-- the step comes to an end, with some amount of fuel -/
def Ends (s : Session) (x : Step) (o : Report) (s' : Session) : Prop :=
  ∃ fuel, s.take fuel x = (o, s') ∧ o.finished = true

/-- steps that all come to an end, each with what it showed -/
inductive Course (s : Session) : List (Step × Report) → Session → Prop
  | nil : Course s [] s
  | snoc {xs : List (Step × Report)} {t u : Session} {x : Step} {o : Report}
    (before : Course s xs t) (last : t.Ends x o u) : Course s (xs ++ [(x, o)]) u

theorem Ends.finished {s s' : Session} {x : Step} {o : Report} (h : s.Ends x o s') :
    o.finished = true := by
  obtain ⟨fuel, -, hfin⟩ := h
  exact hfin

theorem Ends.line {s s' : Session} {line : List Char} {o : Report} (h : s.Ends (.eval line) o s') :
    ∃ fuel, o = .ofLine (s.eval fuel line).1 (s.eval fuel line).2 ∧ s' = (s.eval fuel line).2 := by
  obtain ⟨fuel, htake, -⟩ := h
  exact ⟨fuel, (congrArg Prod.fst htake).symm, (congrArg Prod.snd htake).symm⟩

/-- did the step give a value? -/
def Report.succeeded (o : Report) : Bool :=
  match o.answer with
  | some (.value _) => true
  | _ => false

/-- what counts after one step more: nothing after a new beginning, and one line more after a line
that gave a value -/
def remember (xs : List (Step × Report)) : Step × Report → List (Step × Report)
  | (.eval line, o) => if o.succeeded then xs ++ [(.eval line, o)] else xs
  | (.parse _, _) => xs
  | (.reset, _) => []

/-- the lines since the last new beginning that gave a value -/
def remembered (xs : List (Step × Report)) : List (Step × Report) := xs.foldl remember []

theorem remembered_snoc (xs : List (Step × Report)) (x : Step × Report) :
    remembered (xs ++ [x]) = remember (remembered xs) x := List.foldl_concat ..

theorem take_parse (s : Session) (fuel : Nat) (line : List Char) :
    (s.take fuel (.parse line)).2 = s := by
  simp only [take]
  split <;> rfl

/-! ## How a line ends -/

section
variable {s : Session} {fuel : Nat} {line : List Char} {ds : List Diagnostic} {tree : Expr}

theorem eval_of_parseError {e : ParseError} (h : s.parse line = (ds, .error e)) :
    s.eval fuel line = (⟨none, ds, .parseError e, s.kept [.parseFailed e.text]⟩, s) := by
  simp only [eval, h]

theorem eval_of_done {v : Value} {σ : State} (h : s.parse line = (ds, .ok tree))
    (hσ : Eval.eval s.rule fuel 0 s.global tree ⟨s.store, #[]⟩ = .done v σ) :
    s.eval fuel line =
      (⟨some tree, ds, .value v, s.kept (σ.events.toList.map .ofEvent)⟩,
        { s with store := σ.store }) := by
  simp only [eval, h, hσ]
  rfl

theorem eval_of_failed {e : EvalError} {σ : State} (h : s.parse line = (ds, .ok tree))
    (hσ : Eval.eval s.rule fuel 0 s.global tree ⟨s.store, #[]⟩ = .failed e σ) :
    s.eval fuel line =
      (⟨some tree, ds, .evalError e,
          s.kept (σ.events.toList.map .ofEvent ++ [.evaluationFailed e.text])⟩,
        { s with store := σ.store.restore s.global s.bindings }) := by
  simp only [eval, h, hσ]
  rfl

theorem eval_of_unfinished (h : s.parse line = (ds, .ok tree))
    (hσ : Eval.eval s.rule fuel 0 s.global tree ⟨s.store, #[]⟩ = .unfinished) :
    s.eval fuel line = (⟨some tree, ds, .unfinished, []⟩, s) := by
  simp only [eval, h, hσ]

/-- under an invariant a line leaves the store of a later world, in which the global scope may have
been put back -/
theorem eval_kept {I : Invariant s.rule} {W : I.World} (hglobal : I.scope W s.global)
    (hs : I.store W s.store)
    (hline : ∀ ds tree, s.parse line = (ds, .ok tree) → I.tree W s.global tree) (n : Nat) :
    ∃ V st, I.le W V ∧ I.store V st ∧
      ((s.eval n line).2.store = st ∨
        (s.eval n line).2.store = st.restore s.global s.bindings) ∧
      ∀ v, (s.eval n line).1.answer = .value v → I.value V v := by
  rcases hp : s.parse line with ⟨ds, e | tree⟩
  · rw [eval_of_parseError hp]
    exact ⟨W, s.store, I.refl W, hs, .inl rfl, nofun⟩
  · have hend := Eval.eval_kept hglobal (hline ds tree hp) n 0 ⟨s.store, #[]⟩ hs
    cases hσ : Eval.eval s.rule n 0 s.global tree ⟨s.store, #[]⟩ with
    | done v σ =>
      rw [hσ] at hend
      rw [eval_of_done hp hσ]
      obtain ⟨V, hle, hstore, hv⟩ := hend
      refine ⟨V, σ.store, hle, hstore, .inl rfl, ?_⟩
      rintro _ ⟨⟩
      exact hv
    | failed e σ =>
      rw [hσ] at hend
      rw [eval_of_failed hp hσ]
      obtain ⟨V, hle, hstore⟩ := hend
      exact ⟨V, σ.store, hle, hstore, .inr rfl, nofun⟩
    | unfinished =>
      rw [eval_of_unfinished hp hσ]
      exact ⟨W, s.store, I.refl W, hs, .inl rfl, nofun⟩

end

/-- the second session has all scopes of the first, as they were -/
structure Keeps (s s' : Session) : Prop where
  rule : s'.rule = s.rule
  logs : s'.logs = s.logs
  global : s'.global = s.global
  frames : ∀ i, i < s.store.frames.size → s'.store.frames[i]? = s.store.frames[i]?

theorem Keeps.refl (s : Session) : s.Keeps s := ⟨rfl, rfl, rfl, fun _ _ => rfl⟩

/-- a line that gives no value leaves every scope as it was -/
theorem keeps_of_no_value {s : Session} (hs : s.global < s.store.frames.size) {fuel : Nat}
    {line : List Char} (h : ∀ v, (s.eval fuel line).1.answer ≠ .value v) :
    s.Keeps (s.eval fuel line).2 := by
  rcases hp : s.parse line with ⟨ds, e | tree⟩
  · rw [eval_of_parseError hp]
    exact .refl s
  · cases hσ : Eval.eval s.rule fuel 0 s.global tree ⟨s.store, #[]⟩ with
    | done v σ =>
      rw [eval_of_done hp hσ] at h
      exact absurd rfl (h v)
    | failed e σ =>
      rw [eval_of_failed hp hσ]
      have hc : Confined s.global tree.targets s.store σ.store :=
        (Eval.allStay s.rule fuel).tree 0 s.global tree.targets tree (List.Subset.refl _) _ _
          (by rw [hσ]; rfl)
      exact ⟨rfl, rfl, rfl, hc.frames_restore hs⟩
    | unfinished =>
      rw [eval_of_unfinished hp hσ]
      exact .refl s

/-! ## Linked sessions -/

/-- sessions under one rule whose global scopes are linked -/
structure Linked (s t : Session) : Prop where
  rule : s.rule = t.rule
  logs : s.logs = t.logs
  scopes : ∃ L : Link, L s.global t.global ∧ Store.Linked L s.store t.store

namespace Linked

variable {s t : Session}

theorem bindings_eq (h : Linked s t) : s.bindings.shown = t.bindings.shown := by
  obtain ⟨L, hg, hst⟩ := h.scopes
  exact (hst.bindings hg).shown_eq

theorem parse_eq (h : Linked s t) (line : List Char) : s.parse line = t.parse line := by
  obtain ⟨L, hg, hst⟩ := h.scopes
  have hhas : s.store.has s.global = t.store.has t.global := funext fun x => hst.has x hg
  rw [parse, parse, hhas]

theorem kept_eq (h : Linked s t) (es : List LogEntry) : s.kept es = t.kept es := by
  rw [kept, kept, h.logs]

/-- a session that keeps all scopes stays linked -/
theorem of_keeps (h : Linked s t) {s' : Session} (hk : s.Keeps s') : Linked s' t := by
  obtain ⟨L, hg, hst⟩ := h.scopes
  exact ⟨hk.rule.trans h.rule, hk.logs.trans h.logs, L, hk.global ▸ hg, hst.of_frames hk.frames⟩

theorem lt_size (h : Linked s t) : s.global < s.store.frames.size := by
  obtain ⟨L, hg, hst⟩ := h.scopes
  exact (hst.lt_sizes hg).1

theorem eval (h : Linked s t) (fuel : Nat) (line : List Char) :
    Report.ofLine (s.eval fuel line).1 (s.eval fuel line).2 =
        Report.ofLine (t.eval fuel line).1 (t.eval fuel line).2 ∧
      Linked (s.eval fuel line).2 (t.eval fuel line).2 := by
  rcases hp : s.parse line with ⟨ds, e | tree⟩
  · have hq : t.parse line = (ds, .error e) := h.parse_eq line ▸ hp
    rw [eval_of_parseError hp, eval_of_parseError hq]
    refine ⟨?_, h⟩
    simp only [Report.ofLine, h.kept_eq, h.bindings_eq]
  · have hq : t.parse line = (ds, .ok tree) := h.parse_eq line ▸ hp
    obtain ⟨L, hg, hst⟩ := h.scopes
    have hrun := Eval.eval_linked s.rule fuel 0 hg tree ⟨s.store, #[]⟩ ⟨t.store, #[]⟩ ⟨hst, rfl⟩
    generalize hσ : Eval.eval s.rule fuel 0 s.global tree ⟨s.store, #[]⟩ = x,
      hτ : Eval.eval s.rule fuel 0 t.global tree ⟨t.store, #[]⟩ = y at hrun
    rw [h.rule] at hτ
    cases hrun with
    | @done M v w σ τ sub state result =>
      rw [eval_of_done hp hσ, eval_of_done hq hτ, state.events]
      have hafter : Linked { s with store := σ.store } { t with store := τ.store } :=
        ⟨h.rule, h.logs, M, sub _ _ hg, state.store⟩
      refine ⟨?_, hafter⟩
      simp only [Report.ofLine, Answer.shown, result.shown_eq, h.kept_eq, hafter.bindings_eq]
    | @failed M e σ τ sub state =>
      rw [eval_of_failed hp hσ, eval_of_failed hq hτ, state.events]
      have hbefore : Bindings.Linked M s.bindings t.bindings := (hst.bindings hg).mono sub
      have hafter : Linked { s with store := σ.store.restore s.global s.bindings }
          { t with store := τ.store.restore t.global t.bindings } :=
        ⟨h.rule, h.logs, M, sub _ _ hg, state.store.restore (sub _ _ hg) hbefore⟩
      refine ⟨?_, hafter⟩
      simp only [Report.ofLine, h.kept_eq, hafter.bindings_eq]
    | unfinished =>
      rw [eval_of_unfinished hp hσ, eval_of_unfinished hq hτ]
      refine ⟨?_, h⟩
      simp only [Report.ofLine, h.bindings_eq]

/-- sessions that have just begun are linked, whatever scopes there were before -/
theorem of_begin (rule : CallRule) (logs : Bool) (a b : Store) :
    Linked ⟨rule, logs, a.add none [], a.next⟩ ⟨rule, logs, b.add none [], b.next⟩ := by
  have hnone : Store.Linked (fun _ _ => False) a b :=
    ⟨fun _ _ _ _ h => h.elim, fun _ _ h => h.elim⟩
  exact ⟨rfl, rfl, _, Link.add_self _ _ _, hnone.add .none .nil⟩

theorem reset (h : Linked s t) : Linked s.reset t.reset := by
  rw [Session.reset, Session.reset, h.rule, h.logs]
  exact of_begin t.rule t.logs s.store t.store

/-- linked sessions take every step in the same way -/
theorem take (h : Linked s t) (fuel : Nat) (x : Step) :
    (s.take fuel x).1 = (t.take fuel x).1 ∧ Linked (s.take fuel x).2 (t.take fuel x).2 := by
  cases x with
  | eval line => exact h.eval fuel line
  | parse line =>
    simp only [Session.take, h.parse_eq line, h.bindings_eq]
    split
    · exact ⟨rfl, h⟩
    · exact ⟨rfl, h⟩
  | reset =>
    refine ⟨?_, h.reset⟩
    simp only [Session.take, h.reset.bindings_eq]

theorem ends (h : Linked s t) {x : Step} {o : Report} {s' : Session} (hx : s.Ends x o s') :
    ∃ t', t.Ends x o t' ∧ Linked s' t' := by
  obtain ⟨fuel, htake, hend⟩ := hx
  obtain ⟨hsame, hlinked⟩ := h.take fuel x
  rw [htake] at hsame hlinked
  exact ⟨(t.take fuel x).2, ⟨fuel, Prod.ext hsame.symm rfl, hend⟩, hlinked⟩

theorem ends_iff (h : Linked s t) (x : Step) (o : Report) :
    (∃ s', s.Ends x o s') ↔ ∃ t', t.Ends x o t' := by
  constructor
  · rintro ⟨s', hx⟩
    obtain ⟨t', ht, _⟩ := h.ends hx
    exact ⟨t', ht⟩
  · rintro ⟨t', fuel, htake, hend⟩
    have hsame := (h.take fuel x).1
    rw [htake] at hsame
    exact ⟨(s.take fuel x).2, fuel, Prod.ext hsame rfl, hend⟩

end Linked

/-! ## Courses -/

/-- what running a line and beginning anew keep, a course keeps -/
theorem Course.keeps {P : Session → Prop} {s t : Session} {xs : List (Step × Report)}
    (h : s.Course xs t) (hs : P s) (hreset : ∀ s, P s → P s.reset)
    (heval : ∀ s, P s → ∀ fuel line o, (.eval line, o) ∈ xs → P (s.eval fuel line).2) : P t := by
  induction h with
  | nil => exact hs
  | @snoc xs t u x o _ last ih =>
    have ht : P t := ih fun s hs fuel line o hmem =>
      heval s hs fuel line o (List.mem_append_left _ hmem)
    have hmem : (x, o) ∈ xs ++ [(x, o)] := List.mem_append_right _ (List.mem_singleton_self _)
    cases x with
    | eval line =>
      obtain ⟨fuel, -, rfl⟩ := last.line
      exact heval t ht fuel line o hmem
    | parse line =>
      obtain ⟨fuel, htake, -⟩ := last
      have hu : t = u := (take_parse t fuel line).symm.trans (congrArg Prod.snd htake)
      exact hu ▸ ht
    | reset =>
      obtain ⟨fuel, htake, -⟩ := last
      have hu : t.reset = u := congrArg Prod.snd htake
      exact hu ▸ hreset t ht

theorem rule_eval (s : Session) (fuel : Nat) (line : List Char) :
    (s.eval fuel line).2.rule = s.rule ∧ (s.eval fuel line).2.logs = s.logs := by
  rcases hp : s.parse line with ⟨ds, e | tree⟩
  · rw [eval_of_parseError hp]
    exact ⟨rfl, rfl⟩
  · cases hσ : Eval.eval s.rule fuel 0 s.global tree ⟨s.store, #[]⟩ with
    | done v σ =>
      rw [eval_of_done hp hσ]
      exact ⟨rfl, rfl⟩
    | failed e σ =>
      rw [eval_of_failed hp hσ]
      exact ⟨rfl, rfl⟩
    | unfinished =>
      rw [eval_of_unfinished hp hσ]
      exact ⟨rfl, rfl⟩

theorem Course.rule_eq {s t : Session} {xs : List (Step × Report)} (h : s.Course xs t) :
    t.rule = s.rule ∧ t.logs = s.logs := by
  refine h.keeps (P := fun t => t.rule = s.rule ∧ t.logs = s.logs) ⟨rfl, rfl⟩ (fun _ hu => hu) ?_
  intro u hu fuel line _ _
  obtain ⟨hrule, hlogs⟩ := u.rule_eval fuel line
  exact ⟨hrule.trans hu.1, hlogs.trans hu.2⟩

/-- a step that is not remembered leaves every scope as it was -/
theorem keeps_of_failed {s s' : Session} (hs : s.global < s.store.frames.size) {line : List Char}
    {o : Report} (h : s.Ends (.eval line) o s') (ho : o.succeeded = false) : s.Keeps s' := by
  obtain ⟨fuel, rfl, rfl⟩ := h.line
  refine keeps_of_no_value hs fun v hv => ?_
  rw [Report.succeeded, Report.ofLine, hv] at ho
  cases ho

/-- after a course the session is linked to one that has run the remembered lines only -/
theorem Course.linked_remembered {rule : CallRule} {logs : Bool} {s : Session}
    {xs : List (Step × Report)} (h : (Session.new rule logs).Course xs s) :
    ∃ t, (Session.new rule logs).Course (remembered xs) t ∧ Linked s t := by
  -- on the course from its end; the other session takes the same step or none at all
  induction h with
  | nil => exact ⟨Session.new rule logs, .nil, .of_begin rule logs .empty .empty⟩
  | @snoc xs s u x o before last ih =>
    obtain ⟨t, ht, hlinked⟩ := ih
    rw [remembered_snoc]
    cases x with
    | eval line =>
      show ∃ t, Course _ (if o.succeeded then _ else _) t ∧ _
      cases ho : o.succeeded with
      | true =>
        obtain ⟨t', hend, hlinked'⟩ := hlinked.ends last
        exact ⟨t', .snoc ht hend, hlinked'⟩
      | false => exact ⟨t, ht, hlinked.of_keeps (keeps_of_failed hlinked.lt_size last ho)⟩
    | parse line =>
      obtain ⟨fuel, htake, -⟩ := last
      have hu : s = u := (take_parse s fuel line).symm.trans (congrArg Prod.snd htake)
      exact ⟨t, ht, hu ▸ hlinked⟩
    | reset =>
      obtain ⟨fuel, htake, -⟩ := last
      obtain ⟨hrule, hlogs⟩ := before.rule_eq
      have hu : s.reset = u := congrArg Prod.snd htake
      refine ⟨Session.new rule logs, .nil, ?_⟩
      rw [← hu, Session.reset, hrule, hlogs]
      exact .of_begin rule logs s.store .empty

/-- **A failed line is invisible, and only the lines since the last new beginning that gave a value
count.**  After any course a new session that has run just those lines has shown the same at each
of them, and from there on shows the same at every step.  A line that fails leaves the global scope
with the bindings it had, and changes no scope that can be got at from there. -/
theorem course_forgets_failures (rule : CallRule) (logs : Bool) (xs : List (Step × Report))
    (s : Session) (h : (Session.new rule logs).Course xs s) :
    (∃ t, (Session.new rule logs).Course (remembered xs) t ∧
        ∀ x o, (∃ s', s.Ends x o s') ↔ ∃ t', t.Ends x o t') ∧
      ∀ line o s', s.Ends (.eval line) o s' → o.succeeded = false →
        s'.bindings = s.bindings ∧ ∀ i, s.store.Reaches s.global i →
          ∃ f, s.store.frames[i]? = some f ∧ s'.store.frames[i]? = some f := by
  obtain ⟨t, ht, hlinked⟩ := h.linked_remembered
  refine ⟨⟨t, ht, hlinked.ends_iff⟩, ?_⟩
  intro line o s' hend ho
  have hkeeps := keeps_of_failed hlinked.lt_size hend ho
  constructor
  · rw [bindings, bindings, hkeeps.global, Store.bindings, hkeeps.frames _ hlinked.lt_size,
      Store.bindings]
  · intro i hi
    obtain ⟨L, hg, hst⟩ := hlinked.scopes
    obtain ⟨j, hij⟩ := hst.reaches hg hi
    obtain ⟨f, _, hf, _⟩ := hst.frames i j hij
    exact ⟨f, hf, (hkeeps.frames i (Store.lt_size hf)).trans hf⟩

/-- `VAR a = 1` and then `VAR a = c`, where `c` is not bound: the second line is not remembered -/
theorem course_forgets_failures_unbound :
    ∃ o₁ s₁ o₂ s₂,
      (Session.new ⟨.lexical, 5⟩ true).Course [(.eval "VAR a = 1".toList, o₁)] s₁ ∧
      s₁.Ends (.eval "VAR a = c".toList) o₂ s₂ ∧ o₂.succeeded = false ∧
      s₂.bindings = s₁.bindings ∧ s₁.bindings.length = 1 ∧
      ∃ t, (Session.new ⟨.lexical, 5⟩ true).Course [(.eval "VAR a = 1".toList, o₁)] t ∧
        ∀ x o, (∃ s', s₂.Ends x o s') ↔ ∃ t', t.Ends x o t' := by
  let s₀ := Session.new ⟨.lexical, 5⟩ true
  let r₁ := s₀.take 9 (.eval "VAR a = 1".toList)
  let r₂ := r₁.2.take 9 (.eval "VAR a = c".toList)
  have hsucc₁ : r₁.1.succeeded = true := by decide +kernel
  have hsucc₂ : r₂.1.succeeded = false := by decide +kernel
  have hend₁ : s₀.Ends (.eval "VAR a = 1".toList) r₁.1 r₁.2 := ⟨9, rfl, by decide +kernel⟩
  have hend₂ : r₁.2.Ends (.eval "VAR a = c".toList) r₂.1 r₂.2 := ⟨9, rfl, by decide +kernel⟩
  have h₁ : s₀.Course [(.eval "VAR a = 1".toList, r₁.1)] r₁.2 := .snoc .nil hend₁
  have h₂ := Course.snoc h₁ hend₂
  have hrem : remembered
      ([(.eval "VAR a = 1".toList, r₁.1)] ++ [(.eval "VAR a = c".toList, r₂.1)]) =
      [(.eval "VAR a = 1".toList, r₁.1)] := by
    simp [remembered, remember, hsucc₁, hsucc₂]
  have hmain := (course_forgets_failures ⟨.lexical, 5⟩ true _ _ h₂).1
  rw [hrem] at hmain
  exact ⟨r₁.1, r₁.2, r₂.1, r₂.2, h₁, hend₂, hsucc₂,
    ((course_forgets_failures ⟨.lexical, 5⟩ true _ _ h₁).2 _ _ _ hend₂ hsucc₂).1,
    by decide +kernel, hmain⟩

end Session

end ExprShell
