import ExprShell.Proofs.Token.Spelling
import ExprShell.Proofs.Text.Decoded

/-!
# Nothing is lost, and every place is true

A scanned text falls into the lexemes of its tokens, layout and skipped characters, one behind the
other.  The place of a token or a diagnostic is found by counting in the text in front of it: the
line feeds for the line, the characters behind the last of them for the column.

* `Position.behind`   the place behind a text, by counting;
* `Cut`               a text cut into lexemes, layout and skipped characters;
* `Reader.pull`       tokens one at a time: those of the scan, and then the end mark for ever.
-/

namespace ExprShell
open Text Token

/-! ## Places -/

namespace Position

/-- the place behind a text, by counting -/
def behind (cs : List Char) : Position :=
  ⟨1 + cs.count '\n', 1 + (cs.reverse.takeWhile (· ≠ '\n')).length⟩

theorem behind_concat (cs : List Char) (c : Char) : behind (cs ++ [c]) = (behind cs).next c := by
  by_cases hc : c = '\n'
  · subst hc
    simp [behind, next, Int.add_assoc]
  · simp [behind, next, hc, Int.add_assoc]

theorem after_behind (before cs : List Char) :
    (behind before).after cs = behind (before ++ cs) := by
  induction cs generalizing before with
  | nil => rw [after_nil, List.append_nil]
  | cons c cs ih => rw [after_cons, ← behind_concat, ih, List.append_assoc, List.singleton_append]

theorem after_start (cs : List Char) : start.after cs = behind cs := after_behind [] cs

end Position

/-! ## Cutting -/

/-- the text `cs` behind the text `before`, cut into the lexemes of the tokens `ts`, layout, and the
characters of the diagnostics `ds` -/
inductive Cut : List Char → List Char → List Token → List Diagnostic → Prop
  | nil (before : List Char) : Cut before [] [] []
  | token {before cs : List Char} {ts : List Token} {ds : List Diagnostic} (t : Token)
    (kind : t.kind ≠ .eof) (lexeme : t.lexeme ≠ "") (pos : t.pos = .behind before)
    (rest : Cut (before ++ t.lexeme.toList) cs ts ds) :
    Cut before (t.lexeme.toList ++ cs) (t :: ts) ds
  | layout {before cs : List Char} {ts : List Token} {ds : List Diagnostic} (c : Char)
    (blank : c ∈ [' ', '\t', '\r', '\n']) (rest : Cut (before ++ [c]) cs ts ds) :
    Cut before (c :: cs) ts ds
  | skipped {before cs : List Char} {ts : List Token} {ds : List Diagnostic} (d : Diagnostic)
    (pos : d.pos = .behind before) (rest : Cut (before ++ [d.fault.char]) cs ts ds) :
    Cut before (d.fault.char :: cs) ts (d :: ds)

theorem Piece.isLayout_of_first {c d : Char} {cs : List Char} (h : (first c cs).1 = .layout d) :
    isLayout d = true := by
  unfold first at h
  split at h
  · next hc =>
    cases h
    exact hc
  · split at h
    · cases h
    · split at h
      · unfold number at h
        split at h
        · split at h <;> cases h
        · cases h
      · unfold sign at h
        split at h <;> cases h

theorem cut_split (before cs : List Char) :
    Cut before cs ((Placed.place (.behind before) (Piece.split cs)).filterMap Placed.token?)
      ((Placed.place (.behind before) (Piece.split cs)).filterMap Placed.diagnostic?) := by
  fun_induction Piece.split cs generalizing before with
  | case1 => exact .nil before
  | case2 c cs ih =>
    have htext := Piece.text_first c cs
    have hne := Piece.text_first_ne_nil c cs
    have hgen := Piece.isGenuine_first c cs
    have hlay : ∀ d, (Piece.first c cs).1 = .layout d → Piece.isLayout d = true := fun d h =>
      Piece.isLayout_of_first h
    have hrest := ih (before ++ (Piece.first c cs).1.text)
    rw [Placed.place_cons, Position.after_behind, List.filterMap_cons, List.filterMap_cons, ← htext]
    generalize (Piece.first c cs).2 = r at hrest
    generalize (Piece.first c cs).1 = x at hne hgen hlay hrest
    cases x with
    | lexeme k w =>
      have hw : (String.ofList w).toList = w := String.toList_ofList
      have hlexeme : String.ofList w ≠ "" := fun h => hne (hw.symm.trans (congrArg String.toList h))
      have hcut := Cut.token ⟨k, String.ofList w, _, .behind before⟩ (kind_ne_eof hgen) hlexeme rfl
        (hw.symm ▸ hrest)
      rwa [hw] at hcut
    | layout d =>
      have hd : d ∈ [' ', '\t', '\r', '\n'] := by simpa [Piece.isLayout, or_assoc] using hlay d rfl
      exact .layout d hd hrest
    | skipped f => exact .skipped ⟨.behind before, f⟩ rfl hrest

/-! ## One token at a time -/

namespace Reader

/-- takes `n` tokens, one behind the other -/
def pull : Nat → Reader → List Token × Reader
  | 0, r => ([], r)
  | n + 1, r =>
    let (t, r) := r.next
    let (ts, r) := pull n r
    (t :: ts, r)

/-- what is left to read gives these tokens and these diagnostics -/
structure Holds (r : Reader) (ts : List Token) (ds : List Diagnostic) : Prop where
  tokens : r.ahead.filterMap Placed.token? = ts
  diagnostics : r.skipped ++ r.ahead.filterMap Placed.diagnostic? = ds

theorem advance_of_nil {xs : List Placed} (h : xs.filterMap Placed.token? = [])
    (ds : List Diagnostic) :
    advance xs ds = (none, [], ds ++ xs.filterMap Placed.diagnostic?) := by
  induction xs generalizing ds with
  | nil => simp [advance]
  | cons x xs ih =>
    rw [List.filterMap_cons] at h
    cases hx : x.token? with
    | some t => simp [hx] at h
    | none =>
      simp only [hx] at h
      rw [advance, hx, ih h]
      cases hd : x.diagnostic? <;> simp [hd]

theorem advance_of_cons {xs : List Placed} {t : Token} {ts : List Token}
    (h : xs.filterMap Placed.token? = t :: ts) (ds : List Diagnostic) :
    ∃ ys es, advance xs ds = (some t, ys, es) ∧ ys.filterMap Placed.token? = ts ∧
      es ++ ys.filterMap Placed.diagnostic? = ds ++ xs.filterMap Placed.diagnostic? := by
  induction xs generalizing ds with
  | nil => cases h
  | cons x xs ih =>
    rw [List.filterMap_cons] at h
    cases hx : x.token? with
    | some u =>
      simp only [hx, List.cons.injEq] at h
      have hd : x.diagnostic? = none := by
        unfold Placed.token? at hx
        unfold Placed.diagnostic?
        split at hx
        · next hp => rw [hp]
        · cases hx
      refine ⟨xs, ds, ?_, h.2, ?_⟩
      · rw [advance, hx, h.1]
      · rw [List.filterMap_cons, hd]
    | none =>
      simp only [hx] at h
      obtain ⟨ys, es, hadv, hts, hes⟩ := ih h (ds ++ x.diagnostic?.toList)
      refine ⟨ys, es, ?_, hts, ?_⟩
      · rw [advance, hx, hadv]
      · rw [hes]
        cases hd : x.diagnostic? <;> simp [hd]

theorem Holds.next_cons {r : Reader} {t : Token} {ts : List Token} {ds : List Diagnostic}
    (h : r.Holds (t :: ts) ds) : ∃ r', r.next = (t, r') ∧ r'.stop = r.stop ∧ r'.Holds ts ds := by
  obtain ⟨ys, es, hadv, hts, hes⟩ := advance_of_cons h.tokens r.skipped
  refine ⟨⟨ys, r.stop, es⟩, ?_, rfl, hts, hes.trans h.diagnostics⟩
  rw [next, hadv]
  rfl

theorem Holds.next_nil {r : Reader} {ds : List Diagnostic} (h : r.Holds [] ds) :
    r.next = (Token.endAt r.stop, ⟨[], r.stop, ds⟩) := by
  rw [next, advance_of_nil h.tokens, h.diagnostics]
  rfl

theorem Holds.pull_nil {r : Reader} {ds : List Diagnostic} (h : r.Holds [] ds) (n : Nat) :
    r.pull (n + 1) = (List.replicate (n + 1) (Token.endAt r.stop), ⟨[], r.stop, ds⟩) := by
  induction n generalizing r with
  | zero =>
    rw [Reader.pull, h.next_nil]
    rfl
  | succ n ih =>
    have hend : Holds ⟨[], r.stop, ds⟩ [] ds := ⟨rfl, List.append_nil ds⟩
    rw [Reader.pull, h.next_nil]
    simp only [ih hend]
    rfl

theorem Holds.pull {r : Reader} {ts : List Token} {ds : List Diagnostic} (h : r.Holds ts ds)
    (n : Nat) : r.pull (ts.length + (n + 1)) =
      (ts ++ List.replicate (n + 1) (Token.endAt r.stop), ⟨[], r.stop, ds⟩) := by
  induction ts generalizing r with
  | nil =>
    rw [List.length_nil, Nat.zero_add, List.nil_append]
    exact h.pull_nil n
  | cons t ts ih =>
    obtain ⟨r₁, hnext, hstop, h₁⟩ := h.next_cons
    rw [List.length_cons, Nat.add_right_comm, Reader.pull, hnext]
    simp only [ih h₁, hstop, List.cons_append]

theorem holds_ofText (cs : List Char) : (ofText cs).Holds (scanned cs) (scan cs).diagnostics :=
  ⟨rfl, List.nil_append _⟩

end Reader

theorem tokens_scan (cs : List Char) :
    (scan cs).tokens = scanned cs ++ [Token.endAt (.behind cs)] := by
  rw [← Position.after_start]
  rfl

theorem cut_scan (cs : List Char) : Cut [] cs (scanned cs) (scan cs).diagnostics := cut_split [] cs

theorem Cut.pos_of_mem {before cs : List Char} {ts : List Token} {ds : List Diagnostic}
    (h : Cut before cs ts ds) {t : Token} (ht : t ∈ ts) : ∃ cs, t.pos = .behind cs := by
  induction h with
  | nil => cases ht
  | token u _ _ pos _ ih =>
    rcases List.mem_cons.mp ht with rfl | ht
    · exact ⟨_, pos⟩
    · exact ih ht
  | layout _ _ _ ih => exact ih ht
  | skipped _ _ _ ih => exact ih ht

theorem one_le_pos_of_mem_scanned {cs : List Char} {t : Token} (h : t ∈ scanned cs) :
    1 ≤ t.pos.line ∧ 1 ≤ t.pos.col := by
  obtain ⟨before, hpos⟩ := (cut_scan cs).pos_of_mem h
  rw [hpos]
  unfold Position.behind
  exact ⟨Int.le_add_of_nonneg_right (Int.natCast_nonneg _),
    Int.le_add_of_nonneg_right (Int.natCast_nonneg _)⟩

/-- **Scanning loses nothing, and places are true.**  Whatever the bytes are, the characters that
they stand for are cut into lexemes, layout and skipped characters; the tokens and the diagnostics
come in the order of these and stand where counting finds them, and one end mark stands behind the
last character.  Taken one at a time the tokens are the same, and behind them there is the same end
mark for ever and no further diagnostic. -/
theorem scan_covers_text (bytes : List UInt8) :
    ∃ cs ts, Decoded bytes cs ∧ cs = decodeUtf8 bytes ∧
      (scan cs).tokens = ts ++ [Token.endAt (.behind cs)] ∧ Cut [] cs ts (scan cs).diagnostics ∧
      ∀ n, ∃ r, (Reader.ofText cs).pull ((scan cs).tokens.length + n) =
          ((scan cs).tokens ++ List.replicate n (Token.endAt (.behind cs)), r) ∧
        r.skipped = (scan cs).diagnostics := by
  refine ⟨decodeUtf8 bytes, scanned (decodeUtf8 bytes), decoded_decodeUtf8 bytes, rfl,
    tokens_scan _, cut_scan _, fun n => ?_⟩
  generalize decodeUtf8 bytes = cs
  have hstop : (Reader.ofText cs).stop = .behind cs := Position.after_start cs
  have hpull := (Reader.holds_ofText cs).pull n
  rw [hstop, List.replicate_succ, Nat.add_comm n 1, ← Nat.add_assoc] at hpull
  refine ⟨⟨[], .behind cs, (scan cs).diagnostics⟩, ?_, rfl⟩
  rw [tokens_scan, List.length_append, List.length_singleton, hpull, List.append_assoc]
  rfl

end ExprShell
