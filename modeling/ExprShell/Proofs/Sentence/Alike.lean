import ExprShell.Proofs.Expr.Erase
import ExprShell.Proofs.Sentence.Script
import ExprShell.Proofs.Token.Spelling
import Mathlib.Data.List.Forall2

/-!
# Reading does not look at places

Two lists of words that agree word by word in kind, text and literal are read in the same way: with
the same error at words that correspond, or to trees that are equal without places.  How the words
correspond is left open (`R`).

* `Agrees`            a correspondence between words that agree in everything but the place;
* `Alike`             two readings that end in the same way;
* `Script.Alike`      two scripts that look at nothing else;
* `Goal.Alike.read`   two readings of any goal;
* `parse_alike`       whole sentences.
-/

namespace ExprShell.Sentence
open Grammar ExprShell.Expr

/-- words that differ in their places only -/
def SameWord (t u : Token) : Prop := t.unplaced = u.unplaced

namespace SameWord

variable {t u : Token} (h : SameWord t u)
include h

theorem kind : t.kind = u.kind := by
  have hk := congrArg Token.kind h
  exact hk

theorem literal : t.literal = u.literal := by
  have hl := congrArg Token.literal h
  exact hl

theorem is (k : Keyword) : t.is k = u.is k := by
  rw [Token.is, Token.is, h.kind, h.literal]

theorem bare : bare t = bare u := by
  have hl := congrArg Token.lexeme h
  rw [Expr.bare, Expr.bare, h.kind, show t.lexeme = u.lexeme from hl]

theorem sign (l : Loop) : l.sign t = l.sign u := by
  cases l with
  | logic => simp only [Loop.sign, h.is]
  | _ => simp only [Loop.sign, h.kind]

end SameWord

/-- words that correspond differ in their places only -/
def Agrees (R : Token → Token → Prop) : Prop := ∀ t u, R t u → SameWord t u

/-- the same ending: results related by `Q` with words that correspond behind them, or the same
error at words that correspond -/
inductive Alike {α β : Type} (R : Token → Token → Prop) (Q : α → β → Prop) :
    Except ParseError (α × List Token) → Except ParseError (β × List Token) → Prop
  | ok {a : α} {b : β} {r s : List Token} (result : Q a b) (rest : List.Forall₂ R r s) :
    Alike R Q (.ok (a, r)) (.ok (b, s))
  | error {t u : Token} {c : ParseError.Cause} (token : R t u) :
    Alike R Q (.error ⟨t, c⟩) (.error ⟨u, c⟩)

/-- trees that are equal without places -/
def Like (a b : Expr) : Prop := a.erase = b.erase

namespace Like

variable {a b c d : Expr} {t u : Token}

theorem unary (ht : bare t = bare u) (h : Like a b) : Like (.unary t a) (.unary u b) := by
  simp only [Like, erase, ht] at h ⊢
  rw [h]

theorem binary (hab : Like a b) (ht : bare t = bare u) (hcd : Like c d) :
    Like (.binary a t c) (.binary b u d) := by
  simp only [Like, erase, ht] at hab hcd ⊢
  rw [hab, hcd]

theorem call {as bs : List Expr} (h : Like a b) (has : eraseArgs as = eraseArgs bs) :
    Like (.call t a as) (.call u b bs) := by
  simp only [Like, erase] at h ⊢
  rw [h, has]

theorem cond {bs cs : List (Expr × Expr)} (hbs : eraseBranches bs = eraseBranches cs)
    (h : Like a b) : Like (.cond t bs a) (.cond u cs b) := by
  simp only [Like, erase] at h ⊢
  rw [h, hbs]

theorem count {s s' e e' : Expr} {x y : String} (hxy : x = y) (hab : Like a b) (hcd : Like c d)
    (hs : Like s s') (he : Like e e') : Like (.count t x a c s e) (.count u y b d s' e') := by
  simp only [Like, erase] at hab hcd hs he ⊢
  rw [hxy, hab, hcd, hs, he]

theorem loop (hab : Like a b) (hcd : Like c d) : Like (.loop t a c) (.loop u b d) := by
  simp only [Like, erase] at hab hcd ⊢
  rw [hab, hcd]

theorem eraseArgs_cons {as bs : List Expr} (h : Like a b) (has : eraseArgs as = eraseArgs bs) :
    eraseArgs (a :: as) = eraseArgs (b :: bs) := by
  simp only [Like] at h
  rw [eraseArgs, eraseArgs, h, has]

theorem eraseBranches_cons {bs cs : List (Expr × Expr)} (hab : Like a b) (hcd : Like c d)
    (hbs : eraseBranches bs = eraseBranches cs) :
    eraseBranches ((a, c) :: bs) = eraseBranches ((b, d) :: cs) := by
  simp only [Like] at hab hcd
  rw [eraseBranches, eraseBranches, hab, hcd, hbs]

end Like

variable {R : Token → Token → Prop} {t u stop stop' : Token} {ts us : List Token}

theorem Agrees.nextIs (hR : Agrees R) (h : List.Forall₂ R ts us) (k : Token.Kind) :
    nextIs k ts = nextIs k us := by
  cases h with
  | nil => rfl
  | cons ht _ => simp only [Sentence.nextIs, (hR _ _ ht).kind]

theorem headD_related (hs : R stop stop') (h : List.Forall₂ R ts us) :
    R (ts.headD stop) (us.headD stop') := by
  cases h with
  | nil => exact hs
  | cons ht _ => exact ht

namespace Alike

variable {α β γ δ : Type} {Q : α → β → Prop} {S : γ → δ → Prop}

theorem bind {x : Except ParseError (α × List Token)} {y : Except ParseError (β × List Token)}
    {f : α × List Token → Except ParseError (γ × List Token)}
    {g : β × List Token → Except ParseError (δ × List Token)} (h : Alike R Q x y)
    (hf : ∀ a b r s, Q a b → List.Forall₂ R r s → Alike R S (f (a, r)) (g (b, s))) :
    Alike R S (x >>= f) (y >>= g) := by
  cases h with
  | ok result rest => exact hf _ _ _ _ result rest
  | error token => exact .error token

end Alike

/-! ## The head of a function -/

theorem params_alike (hR : Agrees R) (hs : R stop stop') (h : List.Forall₂ R ts us) :
    Alike R Eq (params stop ts) (params stop' us) := by
  induction ts using params.induct generalizing us with
  | case1 =>
    cases h
    exact .error hs
  | case2 t ht =>
    cases h with
    | @cons _ u _ _ htu hnil =>
      cases hnil
      rw [params, params, ← (hR _ _ htu).kind, if_pos ht, if_pos ht, (hR _ _ htu).literal]
      exact .ok rfl .nil
  | case3 t ht c rest hc ih =>
    cases h with
    | @cons _ u _ _ htu htail =>
      cases htail with
      | @cons _ d _ us hcd hrest =>
        have hd : d.kind = .comma := ((hR _ _ hcd).kind).symm.trans hc
        rw [params, params, ← (hR _ _ htu).kind, if_pos ht, if_pos ht]
        show Alike R Eq (if c.kind = .comma then _ else _) (if d.kind = .comma then _ else _)
        rw [if_pos hc, if_pos hd]
        refine (ih hrest).bind ?_
        rintro ps _ r s rfl hrs
        exact .ok (by rw [(hR _ _ htu).literal]) hrs
  | case4 t ht c rest hc =>
    cases h with
    | @cons _ u _ _ htu htail =>
      cases htail with
      | @cons _ d _ us hcd hrest =>
        have hd : ¬ d.kind = .comma := fun hd => hc (((hR _ _ hcd).kind).trans hd)
        rw [params, params, ← (hR _ _ htu).kind, if_pos ht, if_pos ht]
        show Alike R Eq (if c.kind = .comma then _ else _) (if d.kind = .comma then _ else _)
        rw [if_neg hc, if_neg hd]
        exact .ok (by rw [(hR _ _ htu).literal]) (.cons hcd hrest)
  | case5 t ts ht =>
    cases h with
    | @cons _ u _ us htu htail =>
      have hu : ¬ u.kind = .identifier := fun hu => ht (((hR _ _ htu).kind).trans hu)
      unfold params
      rw [if_neg ht, if_neg hu]
      exact .error htu

theorem paramList_alike (hR : Agrees R) (hs : R stop stop') (h : List.Forall₂ R ts us) :
    Alike R Eq (paramList stop ts) (paramList stop' us) := by
  rw [paramList, paramList, hR.nextIs h]
  split
  · exact params_alike hR hs h
  · exact .ok rfl h

/-! ## All goals -/

inductive Goal.Alike : {α : Type} → Goal α → Goal α → Prop
  | expr : Goal.Alike .expr .expr
  | assignment (t u : Token) (x : String) : Goal.Alike (.assignment t x) (.assignment u x)
  | operand (l : Loop) : Goal.Alike (.operand l) (.operand l)
  | chain (l : Loop) {a b : Expr} (h : Like a b) : Goal.Alike (.chain l a) (.chain l b)
  | application : Goal.Alike .application .application
  | arguments : Goal.Alike .arguments .arguments
  | exprs : Goal.Alike .exprs .exprs
  | conditional (t u : Token) : Goal.Alike (.conditional t) (.conditional u)
  | branches : Goal.Alike .branches .branches
  | counted (t u : Token) : Goal.Alike (.counted t) (.counted u)
  | step : Goal.Alike .step .step
  | looping (t u : Token) : Goal.Alike (.looping t) (.looping u)
  | function (t u : Token) : Goal.Alike (.function t) (.function u)

def Goal.Like {α : Type} : Goal α → α → α → Prop
  | .arguments | .exprs => fun as bs => eraseArgs as = eraseArgs bs
  | .branches => fun bs cs => eraseBranches bs = eraseBranches cs
  | .expr | .assignment _ _ | .operand _ | .chain _ _ | .application => Sentence.Like
  | .conditional _ | .counted _ | .step | .looping _ | .function _ => Sentence.Like

/-- a property of words that their places do not matter for -/
def Placeless (p : Token → Prop) : Prop := ∀ t u, SameWord t u → (p t ↔ p u)

namespace Placeless

theorem kind (k : Token.Kind) : Placeless fun t => t.kind = k := by
  intro t u h
  show t.kind = k ↔ u.kind = k
  rw [h.kind]

theorem kinds (k k' : Token.Kind) : Placeless fun t => t.kind = k ∨ t.kind = k' := by
  intro t u h
  show t.kind = k ∨ t.kind = k' ↔ u.kind = k ∨ u.kind = k'
  rw [h.kind]

theorem word (k : Keyword) : Placeless fun t => t.is k := by
  intro t u h
  show t.is k ↔ u.is k
  rw [h.is]

theorem sign (l : Loop) : Placeless fun t => l.sign t := by
  intro t u h
  show l.sign t ↔ l.sign u
  rw [h.sign]

end Placeless

/-- scripts that do the same at words that differ in their places only, up to such words -/
inductive Script.Alike {α : Type} (Q : α → α → Prop) : Script α → Script α → Prop
  | done {a b : α} (h : Q a b) : Alike Q (.done a) (.done b)
  | wrong (w : Want) : Alike Q (.wrong w) (.wrong w)
  | option {p : Token → Prop} [DecidablePred p] {yes yes' : Token → Script α} {no no' : Script α}
    (hp : Placeless p) (hyes : ∀ t u, SameWord t u → Alike Q (yes t) (yes' u))
    (hno : Alike Q no no') : Alike Q (.option p yes no) (.option p yes' no')
  | stay {p : Token → Prop} [DecidablePred p] {yes yes' no no' : Script α} (hp : Placeless p)
    (hyes : Alike Q yes yes') (hno : Alike Q no no') : Alike Q (.stay p yes no) (.stay p yes' no')
  | target {yes yes' : Token → Script α} {no no' : Script α}
    (hyes : ∀ t u, SameWord t u → Alike Q (yes t) (yes' u)) (hno : Alike Q no no') :
    Alike Q (.target yes no) (.target yes' no')
  | ask {β : Type} {g g' : Goal β} {rest rest' : β → Script α} (hg : g.Alike g')
    (h : ∀ a b, g.Like a b → Alike Q (rest a) (rest' b)) : Alike Q (.ask g rest) (.ask g' rest')
  | params {rest rest' : List String → Script α} (h : ∀ ps, Alike Q (rest ps) (rest' ps)) :
    Alike Q (.params rest) (.params rest')

namespace Script.Alike

variable {α : Type} {Q : α → α → Prop}

theorem expect {k : Token.Kind} {w : Want} {rest rest' : Token → Script α}
    (h : ∀ t u, SameWord t u → Script.Alike Q (rest t) (rest' u)) :
    Script.Alike Q (.expect k w rest) (.expect k w rest') :=
  .option (.kind k) h (.wrong w)

theorem expectWord {k : Keyword} {rest rest' : Script α} (h : Script.Alike Q rest rest') :
    Script.Alike Q (.expectWord k rest) (.expectWord k rest') :=
  .option (.word k) (fun _ _ _ => h) (.wrong _)

theorem more {w : Want} {rest rest' : Script α} (h : Script.Alike Q rest rest') :
    Script.Alike Q (.more w rest) (.more w rest') :=
  .stay (fun _ _ _ => Iff.rfl) h (.wrong w)

theorem same {g g' : Goal α} (hg : g.Alike g') (hQ : Q = g.Like) :
    Script.Alike Q (.same g) (.same g') :=
  .ask hg fun a b h => .done (by rwa [hQ])

theorem read {bound : Names} {rd rd' : Reader} {s s' : Script α} (h : s.Alike Q s')
    (hR : Agrees R) (hs : R stop stop')
    (hrd : ∀ β (g g' : Goal β) ts us, g.Alike g' → List.Forall₂ R ts us →
      Sentence.Alike R g.Like (rd β g ts) (rd' β g' us)) (hts : List.Forall₂ R ts us) :
    Sentence.Alike R Q (s.read bound stop rd ts) (s'.read bound stop' rd' us) := by
  induction h generalizing ts us with
  | done h => exact .ok h hts
  | wrong w => exact .error (headD_related hs hts)
  | @option p _ yes yes' no no' hp _ _ ihyes ihno =>
    cases hts with
    | nil => exact ihno .nil
    | @cons t u ts us htu htail =>
      have hiff := hp t u (hR t u htu)
      rw [Script.read, Script.read]
      by_cases ht : p t
      · rw [if_pos ht, if_pos (hiff.mp ht)]
        exact ihyes t u (hR t u htu) htail
      · rw [if_neg ht, if_neg (mt hiff.mpr ht)]
        exact ihno (.cons htu htail)
  | @stay p _ yes yes' no no' hp _ _ ihyes ihno =>
    cases hts with
    | nil => exact ihno .nil
    | @cons t u ts us htu htail =>
      have hiff := hp t u (hR t u htu)
      rw [Script.read, Script.read]
      by_cases ht : p t
      · rw [if_pos ht, if_pos (hiff.mp ht)]
        exact ihyes (.cons htu htail)
      · rw [if_neg ht, if_neg (mt hiff.mpr ht)]
        exact ihno (.cons htu htail)
  | target _ _ ihyes ihno =>
    cases hts with
    | nil => exact ihno .nil
    | @cons t u ts us htu htail =>
      have hsame := hR t u htu
      rw [Script.read, Script.read, hsame.kind, hsame.literal, hR.nextIs htail]
      split
      · split
        · exact ihyes t u hsame htail
        · exact .error htu
      · exact ihno (.cons htu htail)
  | ask hg _ ih => exact (hrd _ _ _ _ _ hg hts).bind fun a b r s hab hrs => ih a b hab hrs
  | params _ ih =>
    refine (paramList_alike hR hs hts).bind ?_
    rintro ps _ r s rfl hrs
    exact ih ps hrs

end Script.Alike

theorem factor_alike : factorScript.Alike Sentence.Like factorScript := by
  refine .option (.kinds _ _) (fun t u h => .ask (.operand _) fun a b hab => .done ?_) ?_
  · exact .unary h.bare hab
  refine .option (.kinds _ _) (fun t u h => .done (congrArg Expr.number h.bare)) ?_
  refine .option (.kind _) (fun t u h => .done ?_) ?_
  · exact congrArg (Expr.var Token.missing) h.literal
  refine .option (.kind _) (fun _ _ _ => .ask .expr fun a b hab => ?_) ?_
  · exact .expect fun _ _ _ => .done hab
  refine .option (.word _) (fun t u _ => .same (.conditional t u) rfl) ?_
  refine .option (.word _) (fun t u _ => .same (.counted t u) rfl) ?_
  refine .option (.word _) (fun t u _ => .same (.looping t u) rfl) ?_
  refine .option (.word _) (fun t u _ => .same (.function t u) rfl) ?_
  exact .wrong _

theorem function_alike (t u : Token) (x : String) :
    (functionScript t x).Alike Sentence.Like (functionScript u x) :=
  .expect fun _ _ _ => .params fun ps => .expect fun _ _ _ => .expect fun _ _ _ =>
    .ask .expr fun _ _ h => .done (congrArg (Expr.func Token.missing x ps) h)

theorem Goal.Alike.script {α : Type} {g g' : Goal α} (h : g.Alike g') :
    g.script.Alike g.Like g'.script := by
  cases h with
  | expr =>
    refine .more (.option (.word _) (fun t u _ => .expect fun x y hxy => ?_) ?_)
    · rw [hxy.literal]
      exact .same (.assignment t u y.literal) rfl
    · refine .target (fun t u h => ?_) (.ask (.operand _) fun a b h => .same (.chain _ h) rfl)
      rw [h.literal]
      exact .same (.assignment t u u.literal) rfl
  | assignment t u x =>
    refine .expect fun _ _ _ => .ask (.operand _) fun a b h => .done ?_
    exact congrArg (Expr.assign Token.missing x) h
  | operand l =>
    cases l with
    | logic =>
      refine .more (.option (.word _) (fun t u h => .ask (.operand _) fun a b hab => .done ?_) ?_)
      · exact .unary h.bare hab
      · exact .ask (.operand _) fun a b h => .same (.chain _ h) rfl
    | comparison => exact .ask (.operand _) fun a b h => .same (.chain _ h) rfl
    | sum => exact .ask .application fun a b h => .same (.chain _ h) rfl
    | product => exact factor_alike
  | chain l hab =>
    refine .option (.sign l) (fun t u h => .ask (.operand _) fun c d hcd => ?_) (.done hab)
    exact .same (.chain l (.binary hab h.bare hcd)) rfl
  | application =>
    refine .ask (.operand _) fun a b hab => .option (.kind _) (fun t u _ => ?_) (.done hab)
    exact .ask .arguments fun as bs has => .expect fun _ _ _ => .done (.call hab has)
  | arguments => exact .stay (.kind _) (.done rfl) (.same .exprs rfl)
  | exprs =>
    refine .ask .expr fun a b hab => ?_
    refine .option (.kind _) (fun _ _ _ => .ask .exprs fun as bs has => .done ?_) (.done ?_)
    · exact Like.eraseArgs_cons hab has
    · exact Like.eraseArgs_cons hab rfl
  | conditional t u =>
    refine .ask .branches fun bs cs hbs => .option (.word _) (fun _ _ _ => ?_)
      (.done (.cond hbs rfl))
    exact .ask .expr fun a b hab => .done (.cond hbs hab)
  | branches =>
    refine .ask .expr fun c d hcd => .expectWord <| .ask .expr fun a b hab => ?_
    refine .option (.word _) (fun _ _ _ => .ask .branches fun bs cs hbs => .done ?_) (.done ?_)
    · exact Like.eraseBranches_cons hcd hab hbs
    · exact Like.eraseBranches_cons hcd hab rfl
  | counted t u =>
    refine .expect fun x y hxy => .expect fun _ _ _ => .ask .expr fun a b hab => .expectWord ?_
    refine .ask .expr fun c d hcd => .ask .step fun s s' hs => .expectWord ?_
    exact .ask .expr fun e e' he => .done (.count hxy.literal hab hcd hs he)
  | step => exact .option (.word _) (fun _ _ _ => .same .expr rfl) (.done rfl)
  | looping t u =>
    refine .ask .expr fun a b hab => .expectWord ?_
    exact .ask .expr fun c d hcd => .done (.loop hab hcd)
  | function t u =>
    refine .option (.kind _) (fun x y hxy => ?_) (function_alike t u "")
    rw [hxy.literal]
    exact function_alike t u y.literal

/-- goals that differ in places only are read in the same way -/
theorem Goal.Alike.read {α : Type} {g g' : Goal α} (h : g.Alike g') (hR : Agrees R)
    (bound : Names) (hs : R stop stop') (n : Nat) (hts : List.Forall₂ R ts us) :
    Sentence.Alike R g.Like (g.read bound stop n ts) (g'.read bound stop' n us) := by
  induction n generalizing α ts us with
  | zero =>
    rw [read_zero, read_zero]
    exact .error (headD_related hs hts)
  | succ n ih =>
    rw [read_succ, read_succ]
    exact h.script.read hR hs (fun _ _ _ _ _ hg hts => ih hg hts) hts

/-- sentences whose words correspond are read in the same way -/
theorem parse_alike (hR : Agrees R) (bound : Names) (s s' : Sentence) (hs : R s.stop s'.stop)
    (hw : List.Forall₂ R s.words s'.words) :
    (∃ a b, s.parse bound = .ok a ∧ s'.parse bound = .ok b ∧ Like a b) ∨
      ∃ t u c, s.parse bound = .error ⟨t, c⟩ ∧ s'.parse bound = .error ⟨u, c⟩ ∧ R t u := by
  obtain ⟨ts, stop⟩ := s
  obtain ⟨us, stop'⟩ := s'
  cases hw with
  | nil => exact .inr ⟨stop, stop', .empty, rfl, rfl, hs⟩
  | @cons t u ts us htu htail =>
    have hlen : fuel (t :: ts) = fuel (u :: us) := by
      simp only [fuel, List.length_cons, htail.length_eq]
    have hread : Alike R Like (Sentence.expr bound stop (fuel (u :: us)) (t :: ts))
        (Sentence.expr bound stop' (fuel (u :: us)) (u :: us)) :=
      Goal.Alike.expr.read hR bound hs (fuel (u :: us)) (.cons htu htail)
    simp only [parse, hlen]
    generalize Sentence.expr bound stop (fuel (u :: us)) (t :: ts) = x at hread
    generalize Sentence.expr bound stop' (fuel (u :: us)) (u :: us) = y at hread
    cases hread with
    | error htok => exact .inr ⟨_, _, _, rfl, rfl, htok⟩
    | ok hab hrest =>
      cases hrest with
      | nil => exact .inl ⟨_, _, rfl, rfl, hab⟩
      | cons hpq _ => exact .inr ⟨_, _, .leftover, rfl, rfl, hpq⟩

end ExprShell.Sentence
