import ExprShell.Proofs.Eval.Compare
import ExprShell.Proofs.Store.Twin

/-!
# Trees that are the same mean the same

From twin states two trees that were read from texts and are the same up to places are evaluated
alike: the values are twins, an error has the same cause, and the states at the end are twins again.
The text of a tree is read as the same tree, so running it shows what running the tree shows.

* `Expr.Twin.layer`       twins have the same outermost layer, with the same operators and numbers;
* `twins`                 the comparison of twins;
* `Eval.same_meaning`     equal trees, and a tree and its text.
-/

namespace ExprShell

/-! ## Tokens -/

namespace Token

variable {t u : Token}

/-- scanned tokens of the same kind and text differ in their place at most -/
theorem eq_of_same (ht : t.Literate) (hu : u.Literate) (h : t.same u = true) :
    ∃ p, u = { t with pos := p } := by
  obtain ⟨kind, lexeme, literal, pos⟩ := t
  obtain ⟨kind', lexeme', literal', pos'⟩ := u
  simp only [same, Bool.and_eq_true, decide_eq_true_eq] at h
  obtain ⟨rfl, rfl⟩ := h
  rw [Literate] at ht hu
  exact ⟨pos', by simp only at ht hu; rw [ht, hu]⟩

theorem literal_eq_of_same (ht : t.Literate) (hu : u.Literate) (h : t.same u = true) :
    Operators.literal t = Operators.literal u := by
  obtain ⟨p, rfl⟩ := eq_of_same ht hu h
  rfl

theorem binary_eq_of_same (ht : t.Literate) (hu : u.Literate) (h : t.same u = true) :
    Operators.binary t = Operators.binary u := by
  obtain ⟨p, rfl⟩ := eq_of_same ht hu h
  rfl

theorem unary_eq_of_same (ht : t.Literate) (hu : u.Literate) (h : t.same u = true) :
    Operators.unary t = Operators.unary u := by
  obtain ⟨p, rfl⟩ := eq_of_same ht hu h
  rfl

end Token

/-! ## Trees -/

namespace Expr

theorem twin_args {as bs : List Expr} (ha : ∀ a ∈ as, a.Read) (hb : ∀ b ∈ bs, b.Read)
    (h : sameArgs as bs = true) : List.Forall₂ Twin as bs := by
  induction as generalizing bs with
  | nil =>
    cases bs with
    | nil => exact .nil
    | cons b bs => simp [sameArgs] at h
  | cons a as ih =>
    cases bs with
    | nil => simp [sameArgs] at h
    | cons b bs =>
      rw [List.forall_mem_cons] at ha hb
      rw [sameArgs, Bool.and_eq_true] at h
      exact .cons ⟨ha.1, hb.1, h.1⟩ (ih ha.2 hb.2 h.2)

theorem twin_branches {bs cs : List (Expr × Expr)} (hb : ∀ b ∈ bs, b.1.Read ∧ b.2.Read)
    (hc : ∀ c ∈ cs, c.1.Read ∧ c.2.Read) (h : sameBranches bs cs = true) :
    List.Forall₂ (fun b c => b.1.Twin c.1 ∧ b.2.Twin c.2) bs cs := by
  induction bs generalizing cs with
  | nil =>
    cases cs with
    | nil => exact .nil
    | cons c cs => simp [sameBranches] at h
  | cons b bs ih =>
    cases cs with
    | nil => simp [sameBranches] at h
    | cons c cs =>
      rw [List.forall_mem_cons] at hb hc
      simp only [sameBranches, Bool.and_eq_true] at h
      obtain ⟨⟨htest, hbody⟩, hrest⟩ := h
      exact .cons ⟨⟨hb.1.1, hc.1.1, htest⟩, ⟨hb.1.2, hc.1.2, hbody⟩⟩ (ih hb.2 hc.2 hrest)

theorem Read.of_branch {t : Token} {bs : List (Expr × Expr)} {e : Expr}
    (h : (Expr.cond t bs e).Read) : ∀ b ∈ bs, b.1.Read ∧ b.2.Read := by
  intro b hb
  obtain ⟨htest, hbody⟩ := mem_children_cond hb
  exact ⟨h.child htest, h.child hbody⟩

namespace Twin

variable {a b : Expr}

/-- what stands inside twins is twin if it is the same -/
theorem child (h : a.Twin b) {c d : Expr} (hc : c ∈ a.children) (hd : d ∈ b.children)
    (hsame : c.same d = true) : c.Twin d := ⟨h.left.child hc, h.right.child hd, hsame⟩

theorem layer (h : a.Twin b) (s t : ScopeId) (hst : s = t) :
    a.Layer (fun _ => s = t) (fun _ => s = t) (fun a b => s = t ∧ a.Twin b) b := by
  have hsame := h.same
  cases a with
  | absent =>
    cases b with
    | absent => exact .absent
    | _ => simp [Expr.same] at hsame
  | number t =>
    cases b with
    | number u =>
      rw [Expr.same] at hsame
      exact .number (Token.literal_eq_of_same (h.left.literate rfl) (h.right.literate rfl) hsame)
    | _ => simp [Expr.same] at hsame
  | var t x =>
    cases b with
    | var u y =>
      obtain rfl : x = y := by simpa [Expr.same] using hsame
      exact .var hst
    | _ => simp [Expr.same] at hsame
  | assign t x e =>
    cases b with
    | assign u y e' =>
      simp only [Expr.same, Bool.and_eq_true, decide_eq_true_eq] at hsame
      obtain ⟨rfl, he⟩ := hsame
      exact .assign hst ⟨hst, h.child (by simp [children]) (by simp [children]) he⟩
    | _ => simp [Expr.same] at hsame
  | binary l o e =>
    cases b with
    | binary l' o' e' =>
      simp only [Expr.same, Bool.and_eq_true] at hsame
      obtain ⟨⟨ho, hl⟩, he⟩ := hsame
      exact .binary (Token.binary_eq_of_same (h.left.literate rfl) (h.right.literate rfl) ho)
        ⟨hst, h.child (by simp [children]) (by simp [children]) hl⟩
        ⟨hst, h.child (by simp [children]) (by simp [children]) he⟩
    | _ => simp [Expr.same] at hsame
  | unary o e =>
    cases b with
    | unary o' e' =>
      simp only [Expr.same, Bool.and_eq_true] at hsame
      obtain ⟨ho, he⟩ := hsame
      exact .unary (Token.unary_eq_of_same (h.left.literate rfl) (h.right.literate rfl) ho)
        ⟨hst, h.child (by simp [children]) (by simp [children]) he⟩
    | _ => simp [Expr.same] at hsame
  | cond t bs e =>
    cases b with
    | cond u cs e' =>
      simp only [Expr.same, Bool.and_eq_true] at hsame
      obtain ⟨hbs, he⟩ := hsame
      have hpairs := twin_branches h.left.of_branch h.right.of_branch hbs
      exact .cond (hpairs.imp fun _ _ hb => ⟨⟨hst, hb.1⟩, ⟨hst, hb.2⟩⟩)
        ⟨hst, h.child (by simp [children]) (by simp [children]) he⟩
    | _ => simp [Expr.same] at hsame
  | count t x start stop step e =>
    cases b with
    | count u y start' stop' step' e' =>
      simp only [Expr.same, Bool.and_eq_true, decide_eq_true_eq] at hsame
      obtain ⟨⟨⟨⟨rfl, hstart⟩, hstop⟩, hstep⟩, he⟩ := hsame
      exact .count hst ⟨hst, h.child (by simp [children]) (by simp [children]) hstart⟩
        ⟨hst, h.child (by simp [children]) (by simp [children]) hstop⟩
        ⟨hst, h.child (by simp [children]) (by simp [children]) hstep⟩
        ⟨hst, h.child (by simp [children]) (by simp [children]) he⟩
    | _ => simp [Expr.same] at hsame
  | loop t c e =>
    cases b with
    | loop u c' e' =>
      simp only [Expr.same, Bool.and_eq_true] at hsame
      obtain ⟨hc, he⟩ := hsame
      exact .loop ⟨hst, h.child (by simp [children]) (by simp [children]) hc⟩
        ⟨hst, h.child (by simp [children]) (by simp [children]) he⟩
    | _ => simp [Expr.same] at hsame
  | func t x ps e =>
    cases b with
    | func u y qs e' =>
      simp only [Expr.same, Bool.and_eq_true, decide_eq_true_eq] at hsame
      obtain ⟨⟨rfl, rfl⟩, -⟩ := hsame
      exact .func fun _ => hst
    | _ => simp [Expr.same] at hsame
  | call t f as =>
    cases b with
    | call u g bs =>
      simp only [Expr.same, Bool.and_eq_true] at hsame
      obtain ⟨hf, has⟩ := hsame
      have hargs := twin_args (fun a ha => h.left.child (List.mem_cons_of_mem _ ha))
        (fun b hb => h.right.child (List.mem_cons_of_mem _ hb)) has
      exact .call ⟨hst, h.child (by simp [children]) (by simp [children]) hf⟩
        (hargs.imp fun _ _ ha => ⟨hst, ha⟩)
    | _ => simp [Expr.same] at hsame

theorem func {t u : Token} {x : String} {ps : List String} {e e' : Expr} (s : ScopeId)
    (h : (Expr.func t x ps e).Twin (.func u x ps e')) :
    Value.Twin (.function ⟨x, ps, e, some s⟩) (.function ⟨x, ps, e', some s⟩) := by
  have hsame := h.same
  simp only [Expr.same, Bool.and_eq_true] at hsame
  exact .function (h.child (by simp [children]) (by simp [children]) hsame.2)

end Twin

end Expr

/-! ## The comparison -/

def twins (r : CallRule) : Comparison r r where
  World := Unit
  le _ _ := True
  store _ a b := a.Twin b
  value _ v w := v.Twin w
  tree _ s t e e' := s = t ∧ e.Twin e'
  reads _ s t _ := s = t
  writes _ s t _ := s = t
  place _ _ := True
  refl _ := trivial
  trans _ _ := trivial
  value_mono _ h := h
  tree_mono _ h := h
  writes_mono _ h := h
  int _ v := .int v
  double _ x := .double x
  absent _ := .absent
  alike h := h.alike
  pos _ := trivial
  layer h := h.2.layer _ _ h.1
  lookup h hst := hst ▸ h.lookup _ _
  set h hst hv := hst ▸ h.set _ _ hv
  func h := by
    obtain ⟨rfl, h⟩ := h
    exact h.func _
  enter := by
    intro _ a a' s t e e' f f' vs vs' hstore htree hf hvs _
    obtain ⟨rfl, -⟩ := htree
    cases hf with
    | function hbody =>
      refine ⟨(), trivial, ?_, hstore.next_eq, hbody⟩
      exact hstore.add _ (.setAll .nil _ hvs)

/-! ## Evaluation -/

structure State.Twin (σ τ : State) : Prop where
  store : σ.store.Twin τ.store
  events : σ.events = τ.events

/-- the same ending: twin values, or the same cause of an error; and twin states -/
inductive Outcome.Twin : Outcome Value → Outcome Value → Prop
  | done {v w : Value} {σ τ : State} (value : v.Twin w) (state : σ.Twin τ) :
    Twin (.done v σ) (.done w τ)
  | failed {e e' : EvalError} {σ τ : State} (cause : e.cause = e'.cause) (state : σ.Twin τ) :
    Twin (.failed e σ) (.failed e' τ)
  | unfinished : Twin .unfinished .unfinished

/-- what an evaluation shows in the end: the kind and the text of the value, or the kind and the
message of the error; and what the scope binds -/
def Outcome.display (s : ScopeId) : Outcome Value →
    Option (Except (EvalError.Kind × String) (Value.Kind × String) ×
      List (String × Value.Kind × String))
  | .done v σ => some (.ok (v.kind, v.text), (σ.store.bindings s).listing)
  | .failed e σ => some (.error (e.kind, e.message), (σ.store.bindings s).listing)
  | .unfinished => none

theorem Outcome.Twin.display_eq {x y : Outcome Value} (h : x.Twin y) (s : ScopeId) :
    x.display s = y.display s := by
  cases h with
  | done value state =>
    rw [display, display, value.alike.kind_eq, value.alike.text_eq,
      (state.store.bindings s).listing_eq]
  | failed cause state =>
    rw [display, display, EvalError.kind, EvalError.kind, EvalError.message, EvalError.message,
      cause, (state.store.bindings s).listing_eq]
  | unfinished => rfl

namespace Eval

theorem eval_twin (r : CallRule) (n d : Nat) (s : ScopeId) {a b : Expr} (h : a.Twin b)
    {σ τ : State} (hσ : σ.Twin τ) : (eval r n d s a σ).Twin (eval r n d s b τ) := by
  have hagree := ((twins r).agree rfl n).tree () d s s a b ⟨rfl, h⟩ σ τ ⟨hσ.store, hσ.events⟩
  generalize eval r n d s a σ = x, eval r n d s b τ = y at hagree
  cases hagree with
  | done _ state result => exact .done result ⟨state.store, state.events⟩
  | failed _ state _ => exact .failed rfl ⟨state.store, state.events⟩
  | unfinished => exact .unfinished

/-- **Trees that are the same mean the same.**  Two trees that were read from texts and are the same
up to places, evaluated in twin states, end alike and leave twin states.  The text of a tree that
was read is read as a tree that is evaluated to the same effect: it shows the same value or the same
error, and leaves the same names bound. -/
theorem same_meaning (r : CallRule) :
    (∀ a b : Expr, a.Twin b → ∀ n d s σ τ, State.Twin σ τ →
      (eval r n d s a σ).Twin (eval r n d s b τ)) ∧
    ∀ bound cs e, parse bound (scan cs).tokens = .ok e → ∀ bound', ∃ e',
      parse bound' (scan e.render.toList).tokens = .ok e' ∧
        ∀ n d s σ, State.Twin σ σ →
          (eval r n d s e' σ).display s = (eval r n d s e σ).display s := by
  constructor
  · intro a b h n d s σ τ hσ
    exact eval_twin r n d s h hσ
  · intro bound cs e h bound'
    have hchars : e.render.toList = e.chars := String.toList_ofList
    obtain ⟨e', he', hsame⟩ := parse_render (wellFormed_of_parse h) bound'
    rw [hchars]
    refine ⟨e', he', fun n d s σ hσ => ?_⟩
    have htwin : e.Twin e' := ⟨.whole h, .whole he', hsame⟩
    exact ((eval_twin r n d s htwin hσ).display_eq s).symm

/-- `f(2)` and `f( 2 )`, where the body of `f` is `x+1` and `(x + 1)`; and `f(2)` against its
text -/
theorem same_meaning_call :
    let read (text : String) : Except ParseError Expr :=
      parse (fun _ => false) (scan text.toList).tokens
    let tree (text : String) : Expr := (read text).toOption.getD .absent
    let state (body : Expr) : State :=
      ⟨⟨#[⟨[("f", .function ⟨"f", ["x"], body, some 0⟩)], none⟩]⟩, #[]⟩
    let run (e body : Expr) : Outcome Value := eval ⟨.lexical, 3⟩ 9 0 0 e (state body)
    (run (tree "f(2)") (tree "x+1")).Twin (run (tree "f( 2 )") (tree "(x + 1)")) ∧
      (run (tree "f(2)") (tree "x+1")).display 0 =
        some (.ok (.int, "3"), [("f", .function, "<function: f>")]) ∧
      ∃ e', read (tree "f(2)").render = .ok e' ∧
        (run e' (tree "x+1")).display 0 = (run (tree "f(2)") (tree "x+1")).display 0 := by
  intro read tree state run
  have hread (text : String) (h : (read text).isOk = true) : read text = .ok (tree text) := by
    show read text = .ok ((read text).toOption.getD .absent)
    cases hr : read text with
    | ok e => rfl
    | error e =>
      rw [hr] at h
      cases h
  have hcall := hread "f(2)" (by decide +kernel)
  have hcall' := hread "f( 2 )" (by decide +kernel)
  have hbody := hread "x+1" (by decide +kernel)
  have hbody' := hread "(x + 1)" (by decide +kernel)
  have hstate (a b : Expr) (h : a.Twin b) : (state a).Twin (state b) := by
    have hempty : Store.empty.Twin Store.empty := fun _ => .none
    exact ⟨hempty.add none (Bindings.Twin.nil.set "f" (.function h)), rfl⟩
  have hmeaning := same_meaning ⟨.lexical, 3⟩
  refine ⟨?_, by decide +kernel, ?_⟩
  · exact hmeaning.1 _ _ ⟨.whole hcall, .whole hcall', by decide +kernel⟩ 9 0 0 _ _
      (hstate _ _ ⟨.whole hbody, .whole hbody', by decide +kernel⟩)
  · obtain ⟨e', he', hdisplay⟩ := hmeaning.2 _ _ _ hcall fun _ => false
    refine ⟨e', he', hdisplay 9 0 0 _ (hstate _ _ ⟨.whole hbody, .whole hbody, ?_⟩)⟩
    decide +kernel

end Eval

end ExprShell
