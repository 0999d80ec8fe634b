import ExprShell.Expr.Render

/-!
# Trees without places

`same` compares two trees and `erase` drops what it does not look at; the text of a tree has nothing
of that in it either.

* `Expr.induct`          induction on a tree, with the hypothesis for every member of its lists;
* `Expr.same_iff_erase`  trees are the same if and only if they are equal without places;
* `Expr.chars_erase`     a tree without places has the same text.
-/

namespace ExprShell.Expr

@[elab_as_elim]
theorem induct {motive : Expr → Prop} (absent : motive .absent)
    (number : ∀ t, motive (.number t)) (var : ∀ t x, motive (.var t x))
    (assign : ∀ t x e, motive e → motive (.assign t x e))
    (binary : ∀ l o r, motive l → motive r → motive (.binary l o r))
    (unary : ∀ o e, motive e → motive (.unary o e))
    (cond : ∀ t bs e, (∀ b ∈ bs, motive b.1 ∧ motive b.2) → motive e → motive (.cond t bs e))
    (count : ∀ t x a b s e, motive a → motive b → motive s → motive e →
      motive (.count t x a b s e))
    (loop : ∀ t c e, motive c → motive e → motive (.loop t c e))
    (func : ∀ t x ps e, motive e → motive (.func t x ps e))
    (call : ∀ t f as, motive f → (∀ a ∈ as, motive a) → motive (.call t f as)) (e : Expr) :
    motive e := by
  refine @Expr.rec motive (fun bs => ∀ b ∈ bs, motive b.1 ∧ motive b.2)
    (fun as => ∀ a ∈ as, motive a) (fun b => motive b.1 ∧ motive b.2)
    absent number var assign binary unary cond count loop func call ?_ ?_ ?_ ?_ ?_ e
  · simp
  · intro b bs hb hbs c hc
    rcases List.mem_cons.mp hc with rfl | hc
    · exact hb
    · exact hbs c hc
  · simp
  · intro a as ha has b hb
    rcases List.mem_cons.mp hb with rfl | hb
    · exact ha
    · exact has b hb
  · intro c e hc he
    exact ⟨hc, he⟩

/-! ## The same without places -/

theorem sameBranches_iff {bs : List (Expr × Expr)}
    (ih : ∀ b ∈ bs, (∀ c, b.1.same c = true ↔ b.1.erase = c.erase) ∧
      ∀ e, b.2.same e = true ↔ b.2.erase = e.erase) (cs : List (Expr × Expr)) :
    sameBranches bs cs = true ↔ eraseBranches bs = eraseBranches cs := by
  induction bs generalizing cs with
  | nil =>
    cases cs with
    | nil => simp [sameBranches, eraseBranches]
    | cons c cs => simp [sameBranches, eraseBranches]
  | cons b bs ihbs =>
    have hbs := ihbs fun c hc => ih c (List.mem_cons_of_mem _ hc)
    obtain ⟨hb, he⟩ := ih b List.mem_cons_self
    cases cs with
    | nil => simp [sameBranches, eraseBranches]
    | cons c cs => simp [sameBranches, eraseBranches, hb, he, hbs]

theorem sameArgs_iff {as : List Expr}
    (ih : ∀ a ∈ as, ∀ b, a.same b = true ↔ a.erase = b.erase) (bs : List Expr) :
    sameArgs as bs = true ↔ eraseArgs as = eraseArgs bs := by
  induction as generalizing bs with
  | nil =>
    cases bs with
    | nil => simp [sameArgs, eraseArgs]
    | cons b bs => simp [sameArgs, eraseArgs]
  | cons a as ihas =>
    have has := ihas fun c hc => ih c (List.mem_cons_of_mem _ hc)
    have ha := ih a List.mem_cons_self
    cases bs with
    | nil => simp [sameArgs, eraseArgs]
    | cons b bs => simp [sameArgs, eraseArgs, ha, has]

theorem same_iff_erase (a b : Expr) : a.same b = true ↔ a.erase = b.erase := by
  induction a using induct generalizing b with
  | absent => cases b <;> simp [same, erase]
  | number t => cases b <;> simp [same, erase, same_eq_true_iff_bare]
  | var t x => cases b <;> simp [same, erase]
  | assign t x e ih => cases b <;> simp [same, erase, ih]
  | binary l o r ihl ihr =>
    cases b <;> simp [same, erase, same_eq_true_iff_bare, ihl, ihr, and_assoc, and_left_comm]
  | unary o e ih => cases b <;> simp [same, erase, same_eq_true_iff_bare, ih]
  | cond t bs e ihbs ih =>
    have hbs := sameBranches_iff fun b hb => ⟨(ihbs b hb).1, (ihbs b hb).2⟩
    cases b <;> simp [same, erase, hbs, ih]
  | count t x start stop s e iha ihb ihs ih =>
    cases b <;> simp [same, erase, iha, ihb, ihs, ih, and_assoc]
  | loop t c e ihc ih => cases b <;> simp [same, erase, ihc, ih]
  | func t x ps e ih => cases b <;> simp [same, erase, ih, and_assoc]
  | call t f as ihf ihas =>
    have has := sameArgs_iff ihas
    cases b <;> simp [same, erase, ihf, has]

/-! ## The text, case by case -/

section

variable (t o : Token) (x : String) (ps : List String) (a b c e f l r s : Expr)

theorem chars_assign :
    (assign t x e).chars = '(' :: (Keyword.var.spelling.toList ++ ' ' :: (x.toList ++
      ' ' :: '=' :: ' ' :: (e.chars ++ [')']))) := by
  show "(VAR ".toList ++ x.toList ++ " = ".toList ++ e.chars ++ [')'] = _
  simp only [List.append_assoc]
  rfl

theorem chars_binary :
    (binary l o r).chars =
      '(' :: (l.chars ++ ' ' :: (o.lexeme.toList ++ ' ' :: (r.chars ++ [')']))) :=
  rfl

theorem chars_unary :
    (unary o e).chars = '(' :: (o.lexeme.toList ++ ((if o.kind = .keyword then [' '] else []) ++
      (e.chars ++ [')']))) := by
  show '(' :: (o.lexeme.toList ++ (if o.kind = .keyword then [' '] else []) ++ e.chars ++ [')']) = _
  simp only [List.append_assoc]

/-- a clause of a condition or a loop: nothing, or its word and an expression, between spaces -/
def clauseChars (k : Keyword) (e : Expr) : List Char :=
  if e.isAbsent then [] else ' ' :: (k.spelling.toList ++ ' ' :: e.chars)

theorem chars_cond (bs : List (Expr × Expr)) :
    (cond t bs e).chars =
      '(' :: (branchChars "IF ".toList bs ++ (clauseChars .else e ++ [')'])) := by
  show '(' :: (branchChars "IF ".toList bs ++
    (if e.isAbsent then [] else " ELSE ".toList ++ e.chars) ++ [')']) = _
  rw [List.append_assoc]
  rfl

theorem chars_count :
    (count t x a b s e).chars = '(' :: (Keyword.for.spelling.toList ++ ' ' :: (x.toList ++
      ' ' :: '=' :: ' ' :: (a.chars ++ ' ' :: (Keyword.to.spelling.toList ++ ' ' :: (b.chars ++
        (clauseChars .step s ++ ' ' :: (Keyword.then.spelling.toList ++
          ' ' :: (e.chars ++ [')'])))))))) := by
  show "(FOR ".toList ++ x.toList ++ " = ".toList ++ a.chars ++ " TO ".toList ++ b.chars ++
    (if s.isAbsent then [] else " STEP ".toList ++ s.chars) ++ " THEN ".toList ++ e.chars ++
      [')'] = _
  simp only [List.append_assoc]
  rfl

theorem chars_loop :
    (loop t c e).chars = '(' :: (Keyword.while.spelling.toList ++ ' ' :: (c.chars ++
      ' ' :: (Keyword.then.spelling.toList ++ ' ' :: (e.chars ++ [')'])))) := by
  show "(WHILE ".toList ++ c.chars ++ " THEN ".toList ++ e.chars ++ [')'] = _
  simp only [List.append_assoc]
  rfl

theorem chars_func :
    (func t x ps e).chars = '(' :: (Keyword.fn.spelling.toList ++ ' ' :: (x.toList ++
      '(' :: (commas (ps.map String.toList) ++ ')' :: ' ' :: '-' :: '>' :: ' ' ::
        (e.chars ++ [')'])))) := by
  show "(FN ".toList ++ x.toList ++ '(' :: (commas (ps.map String.toList) ++ ") -> ".toList ++
    e.chars ++ [')']) = _
  simp only [List.append_assoc]
  rfl

theorem chars_call (as : List Expr) :
    (call t f as).chars = '(' :: (f.chars ++ '(' :: (commas (argChars as) ++ [')', ')'])) := rfl

theorem branchChars_cons (word : List Char) (bs : List (Expr × Expr)) :
    branchChars word ((c, e) :: bs) = word ++ (c.chars ++ ' ' :: (Keyword.then.spelling.toList ++
      ' ' :: (e.chars ++ branchChars " ELIF ".toList bs))) := by
  show word ++ c.chars ++ " THEN ".toList ++ e.chars ++ branchChars " ELIF ".toList bs = _
  simp only [List.append_assoc]
  rfl

end

/-! ## The text without places -/

theorem isAbsent_erase (e : Expr) : e.erase.isAbsent = e.isAbsent := by
  cases e <;> rfl

theorem clauseChars_erase (k : Keyword) {e : Expr} (ih : e.erase.chars = e.chars) :
    clauseChars k e.erase = clauseChars k e := by
  rw [clauseChars, clauseChars, isAbsent_erase, ih]

theorem branchChars_erase {bs : List (Expr × Expr)}
    (ih : ∀ b ∈ bs, b.1.erase.chars = b.1.chars ∧ b.2.erase.chars = b.2.chars) (word : List Char) :
    branchChars word (eraseBranches bs) = branchChars word bs := by
  induction bs generalizing word with
  | nil => rfl
  | cons b bs ihbs =>
    obtain ⟨hc, he⟩ := ih b List.mem_cons_self
    have hbs := ihbs fun c hc => ih c (List.mem_cons_of_mem _ hc)
    obtain ⟨c, e⟩ := b
    rw [eraseBranches, branchChars_cons, branchChars_cons, hc, he, hbs]

theorem argChars_erase {as : List Expr} (ih : ∀ a ∈ as, a.erase.chars = a.chars) :
    argChars (eraseArgs as) = argChars as := by
  induction as with
  | nil => rfl
  | cons a as ihas =>
    have ha := ih a List.mem_cons_self
    have has := ihas fun c hc => ih c (List.mem_cons_of_mem _ hc)
    show a.erase.chars :: argChars (eraseArgs as) = a.chars :: argChars as
    rw [ha, has]

theorem chars_erase (e : Expr) : e.erase.chars = e.chars := by
  induction e using induct with
  | absent => rfl
  | number t => rfl
  | var t x => rfl
  | assign t x e ih => rw [erase, chars_assign, chars_assign, ih]
  | binary l o r ihl ihr =>
    rw [erase, chars_binary, chars_binary, ihl, ihr]
    rfl
  | unary o e ih =>
    rw [erase, chars_unary, chars_unary, ih]
    rfl
  | cond t bs e ihbs ih =>
    rw [erase, chars_cond, chars_cond, branchChars_erase ihbs, clauseChars_erase _ ih]
  | count t x a b s e iha ihb ihs ih =>
    rw [erase, chars_count, chars_count, iha, ihb, clauseChars_erase _ ihs, ih]
  | loop t c e ihc ih => rw [erase, chars_loop, chars_loop, ihc, ih]
  | func t x ps e ih => rw [erase, chars_func, chars_func, ih]
  | call t f as ihf ihas => rw [erase, chars_call, chars_call, ihf, argChars_erase ihas]

theorem render_eq_of_same {a b : Expr} (h : a.same b = true) : a.render = b.render := by
  have he : a.erase = b.erase := (same_iff_erase a b).mp h
  rw [render, render, ← chars_erase a, ← chars_erase b, he]

end ExprShell.Expr
