import ExprShell.Proofs.Token.Longest

/-!
# A skipped character acts like a space

Every character that scanning reports is replaced by a space.  The new text is scanned to the same
tokens at the same places, and nothing is reported any more.

A lexeme has no space in it.  So a lexeme at the front of the new text lies in front of the first
space that was put in, where nothing has changed, and is at the front of the old text as well: what
was the longest lexeme still is.  Places stay the same because no line feed is ever replaced, and a
replaced character is told by its place because places only go forward.

* `Position.Before`     the order of places;
* `blanked ds p cs`     the text with spaces at the places of the diagnostics `ds`;
* `skipped_as_space`    it is scanned as the text was.
-/

namespace ExprShell
open Text Token

/-! ## Places go forward -/

namespace Position

/-- on an earlier line, or further to the front on the same line -/
def Before (p q : Position) : Prop := p.line < q.line ∨ p.line = q.line ∧ p.col < q.col

variable {p q r : Position}

theorem before_irrefl (p : Position) : ¬ p.Before p := by
  unfold Before
  omega

theorem Before.trans (hpq : p.Before q) (hqr : q.Before r) : p.Before r := by
  unfold Before at *
  omega

theorem before_next (p : Position) (c : Char) : p.Before (p.next c) := by
  unfold Before next
  split
  · exact .inl (Int.lt_add_one_iff.mpr (Int.le_refl _))
  · exact .inr ⟨rfl, Int.lt_add_one_iff.mpr (Int.le_refl _)⟩

theorem before_after {w : List Char} (hw : w ≠ []) (p : Position) : p.Before (p.after w) := by
  induction w generalizing p with
  | nil => exact absurd rfl hw
  | cons c w ih =>
    rw [after_cons]
    cases w with
    | nil => exact before_next p c
    | cons d w => exact (before_next p c).trans (ih (List.cons_ne_nil d w) (p.next c))

end Position

/-! ## Spaces at the places of the diagnostics -/

/-- the text that begins at `p`, with a space for every character at the place of a diagnostic -/
def blanked (ds : List Diagnostic) : Position → List Char → List Char
  | _, [] => []
  | p, c :: cs => (if p ∈ ds.map Diagnostic.pos then ' ' else c) :: blanked ds (p.next c) cs

section
variable {ds : List Diagnostic} {p : Position} {cs w : List Char}

theorem blanked_cons_of_mem {c : Char} (h : p ∈ ds.map Diagnostic.pos) :
    blanked ds p (c :: cs) = ' ' :: blanked ds (p.next c) cs := by
  rw [blanked, if_pos h]

theorem blanked_append (h : ∀ d ∈ ds, ¬ d.pos.Before (p.after w)) :
    blanked ds p (w ++ cs) = w ++ blanked ds (p.after w) cs := by
  induction w generalizing p with
  | nil => rfl
  | cons c w ih =>
    have hp : p ∉ ds.map Diagnostic.pos := by
      intro hmem
      obtain ⟨d, hd, hpos⟩ := List.mem_map.mp hmem
      apply h d hd
      rw [hpos]
      exact Position.before_after (List.cons_ne_nil c w) p
    rw [List.cons_append, blanked, if_neg hp, ih h]
    rfl

/-- a diagnostic in front of the text does not matter -/
theorem blanked_of_before {d : Diagnostic} (h : d.pos.Before p) :
    blanked (d :: ds) p cs = blanked ds p cs := by
  induction cs generalizing p with
  | nil => rfl
  | cons c cs ih =>
    have hne : p ≠ d.pos := by
      intro heq
      rw [heq] at h
      exact Position.before_irrefl _ h
    have hmem : p ∈ (d :: ds).map Diagnostic.pos ↔ p ∈ ds.map Diagnostic.pos := by
      rw [List.map_cons, List.mem_cons]
      exact or_iff_right hne
    have htail := ih (h.trans (Position.before_next p c))
    rw [blanked, blanked, htail]
    simp only [hmem]

/-- without a space in it, what the new text begins with is what the old one began with -/
theorem front_of_blanked (hw : ' ' ∉ w) (h : w <+: blanked ds p cs) : w <+: cs := by
  induction cs generalizing p w with
  | nil => exact h
  | cons c cs ih =>
    cases w with
    | nil => exact List.nil_prefix
    | cons d w =>
      rw [blanked, List.cons_prefix_cons] at h
      obtain ⟨hd, htail⟩ := h
      rw [List.mem_cons, not_or] at hw
      have hkept : d = c := by
        split at hd
        · exact absurd hd.symm hw.1
        · exact hd
      exact List.cons_prefix_cons.mpr ⟨hkept, ih hw.2 htail⟩

end

theorem Stretch.space_not_mem {p : Char → Bool} (hp : p ' ' = false) {w : List Char}
    (h : Stretch p w) : ' ' ∉ w := by
  intro hmem
  have hspace := h.2 ' ' hmem
  rw [hp] at hspace
  cases hspace

theorem Lexeme.space_not_mem {k : Kind} {w : List Char} (h : Lexeme k w) : ' ' ∉ w := by
  cases h with
  | @sign k s h => cases k <;> cases h <;> decide
  | keyword u => exact (stretch_spelling u).space_not_mem (by decide)
  | identifier hletters _ => exact hletters.space_not_mem (by decide)
  | int hdigits => exact hdigits.space_not_mem (by decide)
  | double hwhole hfrac =>
    have hleft := hwhole.space_not_mem (by decide)
    have hright := hfrac.space_not_mem (by decide)
    simp [hleft, hright]

theorem Longest.blanked {k : Kind} {w cs : List Char} (h : Longest k w cs) {ds : List Diagnostic}
    {p : Position} (hfront : w <+: blanked ds p cs) : Longest k w (blanked ds p cs) where
  lexeme := h.lexeme
  front := hfront
  longest := by
    intro k' w' hw' hfront'
    exact h.longest k' w' hw' (front_of_blanked hw'.space_not_mem hfront')

/-! ## Scanning again -/

namespace Lexed

variable {p : Position} {cs : List Char} {ts : List Token} {ds : List Diagnostic}

theorem not_before (h : Lexed p cs ts ds) : ∀ d ∈ ds, ¬ d.pos.Before p := by
  induction h with
  | nil p => nofun
  | @token p cs ts ds t _ hlong _ _ ih =>
    intro d hd hbefore
    exact ih d hd (hbefore.trans (Position.before_after hlong.lexeme.ne_nil p))
  | @layout p cs ts ds c _ _ ih =>
    intro d hd hbefore
    exact ih d hd (hbefore.trans (Position.before_next p c))
  | @skipped p cs ts ds c _ _ _ ih =>
    intro d hd hbefore
    rcases List.mem_cons.mp hd with rfl | hd
    · exact Position.before_irrefl p hbefore
    · exact ih d hd (hbefore.trans (Position.before_next p c))

/-- the new text has the same tokens, no diagnostics, and the same place behind it -/
theorem blanked (h : Lexed p cs ts ds) :
    Lexed p (ExprShell.blanked ds p cs) ts [] ∧ p.after (ExprShell.blanked ds p cs) = p.after cs := by
  induction h with
  | nil p => exact ⟨.nil p, rfl⟩
  | @token p cs ts ds t hpos hlong hlit hrest ih =>
    have happend : ExprShell.blanked ds p (t.lexeme.toList ++ cs) =
        t.lexeme.toList ++ ExprShell.blanked ds (p.after t.lexeme.toList) cs :=
      blanked_append hrest.not_before
    have hfront : t.lexeme.toList <+: ExprShell.blanked ds p (t.lexeme.toList ++ cs) := by
      rw [happend]
      exact List.prefix_append _ _
    have hlong' := hlong.blanked hfront
    rw [happend] at hlong' ⊢
    refine ⟨.token t hpos hlong' hlit ih.1, ?_⟩
    rw [Position.after_append, Position.after_append, ih.2]
  | @layout p cs ts ds c hblank hrest ih =>
    have happend : ExprShell.blanked ds p (c :: cs) = c :: ExprShell.blanked ds (p.next c) cs :=
      blanked_append (w := [c]) hrest.not_before
    rw [happend]
    exact ⟨.layout c hblank ih.1, ih.2⟩
  | @skipped p cs ts ds c hsolid _ hrest ih =>
    have hc : c ≠ '\n' := by
      rintro rfl
      exact hsolid (by decide)
    have hnext : p.next c = p.next ' ' := by
      rw [Position.next, Position.next, if_neg hc, if_neg (by decide)]
    rw [blanked_cons_of_mem List.mem_cons_self, blanked_of_before (Position.before_next p c)]
    rw [Position.after_cons, Position.after_cons]
    rw [hnext] at ih ⊢
    exact ⟨.layout ' ' (by decide) ih.1, ih.2⟩

end Lexed

/-- **A skipped character acts like a space.**  With a space in the place of every character that
is reported, and all others as they are, a text is scanned to the very same tokens, places and end
mark included, and nothing is reported. -/
theorem skipped_as_space (cs : List Char) :
    scan (blanked (scan cs).diagnostics .start cs) = ⟨(scan cs).tokens, []⟩ := by
  obtain ⟨hlexed, hafter⟩ := (lexed_scan cs).blanked
  rw [scan_eq_of_lexed hlexed, hafter]
  rfl

end ExprShell
