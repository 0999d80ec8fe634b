import ExprShell.Proofs.Expr.Erase
import ExprShell.Proofs.Token.Spelling
import Mathlib.Data.List.Forall2

/-!
# The words of a tree

A tree as it comes from a text is well formed: it lacks no child but the last branch of a condition
and the step of a counted loop, and its names, numbers and operators are spelt as they are read.
The text of such a tree spells its words, which stand in the same order as in the text.

* `Expr.wellFormed`    no child is missing, and names, numbers and operators are as in a text;
* `Expr.words`         the words of the text of a tree;
* `Expr.spelt_chars`   the text of a well-formed tree spells its words.
-/

namespace ExprShell.Expr
open Token

mutual

/-- no child is missing, and names, numbers and operators are as in a text -/
def wellFormed : Expr → Bool
  | .absent => false
  | .number t => t.isNumber
  | .var _ x => isName x
  | .assign _ x e => isName x && e.wellFormed
  | .binary l o r => o.isBinary && l.wellFormed && r.wellFormed
  | .unary o e => o.isUnary && e.wellFormed
  | .cond _ bs e => !bs.isEmpty && wellFormedBranches bs && (e.isAbsent || e.wellFormed)
  | .count _ x a b s e =>
    isName x && a.wellFormed && b.wellFormed && (s.isAbsent || s.wellFormed) && e.wellFormed
  | .loop _ c e => c.wellFormed && e.wellFormed
  | .func _ x ps e => (x = "" || isName x) && ps.all isName && e.wellFormed
  | .call _ f as => f.wellFormed && wellFormedArgs as

def wellFormedBranches : List (Expr × Expr) → Bool
  | [] => true
  | (c, e) :: bs => c.wellFormed && e.wellFormed && wellFormedBranches bs

def wellFormedArgs : List Expr → Bool
  | [] => true
  | a :: as => a.wellFormed && wellFormedArgs as

end

theorem wellFormedBranches_iff {bs : List (Expr × Expr)} :
    wellFormedBranches bs = true ↔
      ∀ b ∈ bs, b.1.wellFormed = true ∧ b.2.wellFormed = true := by
  induction bs with
  | nil => simp [wellFormedBranches]
  | cons b bs ih => simp [wellFormedBranches, ih]

theorem wellFormedArgs_iff {as : List Expr} :
    wellFormedArgs as = true ↔ ∀ a ∈ as, a.wellFormed = true := by
  induction as with
  | nil => simp [wellFormedArgs]
  | cons a as ih => simp [wellFormedArgs, ih]

/-! ## Words -/

def joined : List (List Token) → List Token
  | [] => []
  | [w] => w
  | w :: ws => w ++ written .comma [','] :: joined ws

/-- the words of a name, a keyword, an operator or number -/
abbrev nameWord (x : String) : Token := written .identifier x.toList
abbrev keyWord (k : Keyword) : Token := written .keyword k.spelling.toList
abbrev ownWord (t : Token) : Token := written t.kind t.lexeme.toList

abbrev opening : Token := written .lparen ['(']
abbrev closing : Token := written .rparen [')']

def titleWords (x : String) : List Token := if x = "" then [] else [nameWord x]

mutual

def words : Expr → List Token
  | .absent => []
  | .number t => [ownWord t]
  | .var _ x => [nameWord x]
  | .assign _ x e =>
    opening :: keyWord .var :: nameWord x :: written .equal ['='] :: (e.words ++ [closing])
  | .binary l o r => opening :: (l.words ++ ownWord o :: (r.words ++ [closing]))
  | .unary o e => opening :: ownWord o :: (e.words ++ [closing])
  | .cond _ bs e =>
    opening :: (branchWords .if bs ++
      ((if e.isAbsent then [] else keyWord .else :: e.words) ++ [closing]))
  | .count _ x a b s e =>
    opening :: keyWord .for :: nameWord x :: written .equal ['='] :: (a.words ++
      keyWord .to :: (b.words ++ ((if s.isAbsent then [] else keyWord .step :: s.words) ++
        keyWord .then :: (e.words ++ [closing]))))
  | .loop _ c e => opening :: keyWord .while :: (c.words ++ keyWord .then :: (e.words ++ [closing]))
  | .func _ x ps e =>
    opening :: keyWord .fn :: (titleWords x ++ opening :: (joined (ps.map fun p => [nameWord p]) ++
      closing :: written .arrow ['-', '>'] :: (e.words ++ [closing])))
  | .call _ f as => opening :: (f.words ++ opening :: (joined (argWords as) ++ [closing, closing]))

def branchWords (k : Keyword) : List (Expr × Expr) → List Token
  | [] => []
  | (c, e) :: bs => keyWord k :: (c.words ++ keyWord .then :: (e.words ++ branchWords .elif bs))

def argWords : List Expr → List (List Token)
  | [] => []
  | a :: as => a.words :: argWords as

end

/-! ## Operators -/

theorem spelt_binary {o : Token} (ho : o.isBinary = true) {cs : List Char} {ts : List Token}
    (h : Spelt cs ts) : Spelt (o.lexeme.toList ++ ' ' :: cs) (ownWord o :: ts) := by
  unfold isBinary at ho
  split at ho
  case h_11 hk =>
    rw [Bool.or_eq_true, decide_eq_true_eq, decide_eq_true_eq] at ho
    rcases ho with ho | ho
    · rw [ownWord, hk, ho]
      exact .keyword .and (ends_cons _) h.space
    · rw [ownWord, hk, ho]
      exact .keyword .or (ends_cons _) h.space
  case h_12 => cases ho
  all_goals exact .sign (of_decide_eq_true ho) h

theorem spelt_unary {o : Token} (ho : o.isUnary = true) {cs : List Char} {ts : List Token}
    (hcs : ∀ r, cs ≠ '>' :: r) (h : Spelt cs ts) :
    Spelt (o.lexeme.toList ++ ((if o.kind = .keyword then [' '] else []) ++ cs))
      (ownWord o :: ts) := by
  unfold isUnary at ho
  split at ho
  · next hk =>
    have hx : o.lexeme = "+" := by simpa [hk, Kind.sign?, eq_comm] using ho
    rw [ownWord, hk, hx, if_neg (by decide)]
    exact .plus h
  · next hk =>
    have hx : o.lexeme = "-" := by simpa [hk, Kind.sign?, eq_comm] using ho
    rw [ownWord, hk, hx, if_neg (by decide)]
    exact .minus hcs h
  · next hk =>
    rw [decide_eq_true_eq] at ho
    rw [ownWord, hk, ho, if_pos rfl]
    exact .keyword .not (ends_cons _) h.space
  · cases ho

/-! ## The text spells the words -/

/-- the text spells the words, whatever stands behind it -/
def Says (cs : List Char) (ws : List Token) : Prop :=
  ∀ r ts, Ends r → Spelt r ts → Spelt (cs ++ r) (ws ++ ts)

theorem says_closed {cs : List Char} {ws : List Token} {r : List Char} {ts : List Token}
    (h : Says cs ws) (hr : Spelt r ts) : Spelt (cs ++ ')' :: r) (ws ++ closing :: ts) :=
  h _ _ (ends_cons r) hr.closing

theorem says_commas {css : List (List Char)} {wss : List (List Token)}
    (h : List.Forall₂ Says css wss) : Says (commas css) (joined wss) := by
  induction h with
  | nil => exact fun r ts hr hs => hs
  | @cons cs ws css wss hw htail ih =>
    cases htail with
    | nil => exact hw
    | cons hnext hrest =>
      intro r ts hr hs
      have h := hw _ _ (ends_cons _) (ih r ts hr hs).space.comma
      rw [commas_cons_cons]
      simpa only [joined, List.append_assoc, List.cons_append] using h

theorem digits_of_isNumber {t : Token} (h : t.isNumber = true) :
    ∃ w v, t.lexeme.toList = w ++ v ∧ w ≠ [] ∧ ∀ c ∈ w, Text.isDigit c = true := by
  have hrun {w : List Char} (hw : isDigits w = true) :
      w ≠ [] ∧ ∀ c ∈ w, Text.isDigit c = true := by
    simpa [isDigits] using hw
  unfold isNumber at h
  split at h
  · exact ⟨t.lexeme.toList, [], (List.append_nil _).symm, hrun h⟩
  · rw [Bool.and_eq_true] at h
    exact ⟨_, _, List.takeWhile_append_dropWhile.symm, hrun h.1⟩
  · cases h

/-- the text of a tree does not make an arrow of a minus sign before it -/
theorem chars_ne_cons {e : Expr} (h : e.wellFormed = true) (cs r : List Char) :
    e.chars ++ cs ≠ '>' :: r := by
  have hfirst {w cs : List Char} {p : Char → Bool} (hp : p '>' = false) (hne : w ≠ [])
      (hw : ∀ c ∈ w, p c = true) : w ++ cs ≠ '>' :: r := by
    intro hcat
    cases w with
    | nil => exact hne rfl
    | cons c w =>
      cases hcat
      have hc := hw '>' List.mem_cons_self
      rw [hp] at hc
      cases hc
  cases e with
  | absent => cases h
  | number t =>
    obtain ⟨w, v, hcat, hne, hw⟩ := digits_of_isNumber h
    have hchars : (number t).chars ++ cs = w ++ (v ++ cs) := by
      rw [← List.append_assoc, ← hcat]
      rfl
    rw [hchars]
    exact hfirst (p := Text.isDigit) (by decide) hne hw
  | var t x =>
    simp only [wellFormed, isName, Bool.and_eq_true, decide_eq_true_eq, List.all_eq_true] at h
    have hne : x.toList ≠ [] := by simpa using h.1.1
    exact hfirst (p := Text.isLetter) (by decide) hne h.1.2
  | _ =>
    intro hcat
    have hhead := (List.cons.inj hcat).1
    exact absurd hhead (by decide)

theorem says_clause {k : Keyword} {e : Expr} (h : e.isAbsent = false → Says e.chars e.words)
    {r : List Char} {ts : List Token} (hr : Ends r) (hs : Spelt r ts) :
    Spelt (clauseChars k e ++ r) ((if e.isAbsent then [] else keyWord k :: e.words) ++ ts) ∧
      Ends (clauseChars k e ++ r) := by
  unfold clauseChars
  cases he : e.isAbsent with
  | true => exact ⟨hs, hr⟩
  | false =>
    have hw := (Spelt.keyword k (ends_cons _) (h he r ts hr hs).space).space
    refine ⟨?_, ends_cons _⟩
    simpa using hw

theorem says_branches {bs : List (Expr × Expr)}
    (h : ∀ b ∈ bs, Says b.1.chars b.1.words ∧ Says b.2.chars b.2.words) {r : List Char}
    {ts : List Token} (hr : Ends r) (hs : Spelt r ts) :
    Spelt (branchChars " ELIF ".toList bs ++ r) (branchWords .elif bs ++ ts) ∧
      Ends (branchChars " ELIF ".toList bs ++ r) := by
  induction bs with
  | nil => exact ⟨hs, hr⟩
  | cons b bs ih =>
    obtain ⟨c, e⟩ := b
    obtain ⟨hrest, hends⟩ := ih fun b hb => h b (List.mem_cons_of_mem _ hb)
    obtain ⟨hc, he⟩ := h (c, e) List.mem_cons_self
    have hbody := he _ _ hends hrest
    have hthen := (Spelt.keyword .then (ends_cons _) hbody.space).space
    have hcond := hc _ _ (ends_cons _) hthen
    have hword := (Spelt.keyword .elif (ends_cons _) hcond.space).space
    rw [branchChars_cons, branchWords]
    simp only [List.cons_append, List.append_assoc]
    exact ⟨hword, ends_cons _⟩

theorem says_title {x : String} (h : x = "" ∨ isName x = true) : Says x.toList (titleWords x) := by
  intro r ts hr hs
  unfold titleWords
  split
  · next hx =>
    rw [hx]
    exact hs
  · next hx => exact .name (h.resolve_left hx) hr hs

theorem says_params {ps : List String} (h : ps.all isName = true) :
    List.Forall₂ Says (ps.map String.toList) (ps.map fun p => [nameWord p]) := by
  induction ps with
  | nil => exact .nil
  | cons p ps ih =>
    rw [List.all_cons, Bool.and_eq_true] at h
    exact .cons (fun r ts hr hs => .name h.1 hr hs) (ih h.2)

theorem says_args {as : List Expr} (h : ∀ a ∈ as, Says a.chars a.words) :
    List.Forall₂ Says (argChars as) (argWords as) := by
  induction as with
  | nil => exact .nil
  | cons a as ih =>
    exact .cons (h a List.mem_cons_self) (ih fun b hb => h b (List.mem_cons_of_mem _ hb))

theorem says_chars (e : Expr) (h : e.wellFormed = true) : Says e.chars e.words := by
  -- each case is built from the end of the text, the way `Spelt` grows
  induction e using induct with
  | absent => cases h
  | number t => exact fun r ts hr hs => .number h hr hs
  | var t x => exact fun r ts hr hs => .name h hr hs
  | assign t x e ih =>
    rw [wellFormed, Bool.and_eq_true] at h
    intro r ts hr hs
    have he := says_closed (ih h.2) hs
    have hq := (Spelt.sign (k := .equal) rfl he).space
    have hx := Spelt.name h.1 (ends_cons _) hq
    have hv := Spelt.keyword .var (ends_cons _) hx.space
    rw [chars_assign, words]
    simp only [List.cons_append, List.append_assoc, List.nil_append]
    exact hv.opening
  | binary l o r ihl ihr =>
    rw [wellFormed, Bool.and_eq_true, Bool.and_eq_true] at h
    intro rest ts hr hs
    have hright := says_closed (ihr h.2) hs
    have ho := (spelt_binary h.1.1 hright).space
    have hleft := ihl h.1.2 _ _ (ends_cons _) ho
    rw [chars_binary, words]
    simp only [List.cons_append, List.append_assoc, List.nil_append]
    exact hleft.opening
  | unary o e ih =>
    rw [wellFormed, Bool.and_eq_true] at h
    intro r ts hr hs
    have he := says_closed (ih h.2) hs
    have ho := spelt_unary h.1 (chars_ne_cons h.2 _) he
    rw [chars_unary, words]
    simp only [List.cons_append, List.append_assoc, List.nil_append]
    exact ho.opening
  | cond t bs e ihbs ih =>
    rw [wellFormed, Bool.and_eq_true, Bool.and_eq_true, Bool.or_eq_true] at h
    obtain ⟨⟨hne, hbs⟩, he⟩ := h
    intro r ts hr hs
    obtain ⟨hlast, hends⟩ :=
      says_clause (k := .else) (fun ha => ih (by simpa [ha] using he)) (ends_cons r) hs.closing
    have hsays : ∀ b ∈ bs, Says b.1.chars b.1.words ∧ Says b.2.chars b.2.words := by
      intro b hb
      obtain ⟨hc, he⟩ := wellFormedBranches_iff.mp hbs b hb
      exact ⟨(ihbs b hb).1 hc, (ihbs b hb).2 he⟩
    cases bs with
    | nil => cases hne
    | cons b bs =>
      obtain ⟨c, a⟩ := b
      obtain ⟨hc, ha⟩ := hsays (c, a) List.mem_cons_self
      obtain ⟨hrest, hends⟩ :=
        says_branches (fun b hb => hsays b (List.mem_cons_of_mem _ hb)) hends hlast
      have hthen := (Spelt.keyword .then (ends_cons _) (ha _ _ hends hrest).space).space
      have hif := Spelt.keyword .if (ends_cons _) (hc _ _ (ends_cons _) hthen).space
      rw [chars_cond, branchChars_cons, words, branchWords]
      simp only [List.cons_append, List.append_assoc, List.nil_append]
      exact hif.opening
  | count t x a b s e iha ihb ihs ih =>
    simp only [wellFormed, Bool.and_eq_true, Bool.or_eq_true] at h
    obtain ⟨⟨⟨⟨hx, ha⟩, hb⟩, hstep⟩, he⟩ := h
    intro r ts hr hs
    have hbody := says_closed (ih he) hs
    have hthen := (Spelt.keyword .then (ends_cons _) hbody.space).space
    obtain ⟨hstep, hends⟩ :=
      says_clause (k := .step) (fun ha => ihs (by simpa [ha] using hstep)) (ends_cons _) hthen
    have hto := (Spelt.keyword .to (ends_cons _) (ihb hb _ _ hends hstep).space).space
    have hq := (Spelt.sign (k := .equal) rfl (iha ha _ _ (ends_cons _) hto)).space
    have hfor := Spelt.keyword .for (ends_cons _) (Spelt.name hx (ends_cons _) hq).space
    rw [chars_count, words]
    simp only [List.cons_append, List.append_assoc, List.nil_append]
    exact hfor.opening
  | loop t c e ihc ih =>
    rw [wellFormed, Bool.and_eq_true] at h
    intro r ts hr hs
    have hbody := says_closed (ih h.2) hs
    have hthen := (Spelt.keyword .then (ends_cons _) hbody.space).space
    have hwhile := Spelt.keyword .while (ends_cons _) (ihc h.1 _ _ (ends_cons _) hthen).space
    rw [chars_loop, words]
    simp only [List.cons_append, List.append_assoc, List.nil_append]
    exact hwhile.opening
  | func t x ps e ih =>
    rw [wellFormed, Bool.and_eq_true, Bool.and_eq_true, Bool.or_eq_true, decide_eq_true_eq] at h
    obtain ⟨⟨hx, hps⟩, he⟩ := h
    intro r ts hr hs
    have hbody := says_closed (ih he) hs
    have harrow := (Spelt.sign (k := .arrow) rfl hbody).space
    have hparams := says_commas (says_params hps) _ _ (ends_cons _) harrow.closing
    have htitle := says_title hx _ _ (ends_cons _) hparams.opening
    have hfn := Spelt.keyword .fn (ends_cons _) htitle.space
    rw [chars_func, words]
    simp only [List.cons_append, List.append_assoc, List.nil_append]
    exact hfn.opening
  | call t f as ihf ihas =>
    rw [wellFormed, Bool.and_eq_true] at h
    intro r ts hr hs
    have hargs : List.Forall₂ Says (argChars as) (argWords as) :=
      says_args fun a ha => ihas a ha (wellFormedArgs_iff.mp h.2 a ha)
    have hlist := says_closed (says_commas hargs) hs.closing
    have hcallee := ihf h.1 _ _ (ends_cons _) hlist.opening
    rw [chars_call, words]
    simp only [List.cons_append, List.append_assoc, List.nil_append]
    exact hcallee.opening

theorem spelt_chars {e : Expr} (h : e.wellFormed = true) : Spelt e.chars e.words := by
  have hends : Ends [] := fun c r hc => nomatch hc
  simpa using says_chars e h [] [] hends .nil

end ExprShell.Expr
