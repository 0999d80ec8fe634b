import ExprShell.Proofs.Sentence.Alike
import ExprShell.Proofs.Sentence.Reread
import ExprShell.Proofs.Sentence.Sound

/-!
# A text and its tree

The text of a well-formed tree is scanned without fault and read as that tree, places apart; and the
trees that are read from a scanned text are all well formed.

* `Grammar.Formed`             well-formedness for every part of a sentence;
* `Grammar.formed_of_derives`   genuine words derive well-formed trees only;
* `render_undone`              both directions.
-/

namespace ExprShell

/-! ## Trees of genuine words -/

namespace Grammar
open Token ExprShell.Expr

def Formed : (p : Part) → p.Tree → Prop
  | .expr, e | .application, e | .operand _, e => e.wellFormed = true
  | .conditional, e | .counted, e | .looping, e | .function, e => e.wellFormed = true
  | .chain _, f => ∀ e : Expr, e.wellFormed = true → (f e).wellFormed = true
  | .args, as | .exprs, as => wellFormedArgs as = true
  | .branches, bs => bs ≠ [] ∧ wellFormedBranches bs = true
  | .clause _, e => (e.isAbsent || e.wellFormed) = true
  | .title, x => x = "" ∨ isName x = true
  | .params, ps | .names, ps => ps.all isName = true

variable {t : Token}

theorem isName_literal (h : t.isGenuine = true) (hk : t.kind = .identifier) :
    isName t.literal = true := by
  simp only [isGenuine, hk, Bool.and_eq_true, decide_eq_true_eq] at h
  rw [h.2]
  exact h.1

theorem isNumber_of_genuine (h : t.isGenuine = true) (hk : t.kind = .int ∨ t.kind = .double) :
    t.isNumber = true := by
  rcases hk with hk | hk <;> simpa only [isGenuine, hk] using h

theorem lexeme_of_is {k : Keyword} (h : t.isGenuine = true) (hk : t.is k) :
    t.lexeme = k.spelling := by
  simp only [isGenuine, kind_of_is hk, Bool.and_eq_true, decide_eq_true_eq] at h
  simp only [Token.is, Bool.and_eq_true, decide_eq_true_eq] at hk
  rw [← h.2, hk.2]

theorem isBinary_of_sign {l : Loop} (h : t.isGenuine = true) (ht : l.sign t) :
    t.isBinary = true := by
  cases l with
  | logic =>
    simp only [Loop.sign, Bool.or_eq_true] at ht
    rcases ht with ht | ht
    · simp [isBinary, kind_of_is ht, lexeme_of_is h ht]
    · simp [isBinary, kind_of_is ht, lexeme_of_is h ht]
  | comparison =>
    simp only [Loop.sign, Kind.isComparison] at ht
    split at ht
    all_goals cases ht
    all_goals
      next hk =>
        simp only [isGenuine, hk] at h
        simpa only [isBinary, hk] using h
  | sum =>
    simp only [Loop.sign, Bool.or_eq_true, decide_eq_true_eq] at ht
    rcases ht with hk | hk <;> simpa only [isBinary, isGenuine, hk] using h
  | product =>
    simp only [Loop.sign, Bool.or_eq_true, decide_eq_true_eq] at ht
    rcases ht with hk | hk <;> simpa only [isBinary, isGenuine, hk] using h

theorem isUnary_of_kind (h : t.isGenuine = true) (hk : t.kind = .plus ∨ t.kind = .minus) :
    t.isUnary = true := by
  rcases hk with hk | hk <;> simpa only [isUnary, isGenuine, hk] using h

theorem isUnary_of_is (h : t.isGenuine = true) (ht : t.is .not) : t.isUnary = true := by
  simp [isUnary, kind_of_is ht, lexeme_of_is h ht]

theorem formed_of_derives {bound : Names} {p : Part} {w : List Token} {e : p.Tree}
    (h : Derives bound p w e) (hw : ∀ t ∈ w, t.isGenuine = true) : Formed p e := by
  induction h with
  | declare ht hx hq _ ih =>
    simp only [List.forall_mem_cons] at hw
    have he := ih hw.2.2.2
    simp only [Formed, wellFormed, Bool.and_eq_true] at he ⊢
    exact ⟨isName_literal hw.2.1 hx, he⟩
  | assign hx hb hq _ ih =>
    simp only [List.forall_mem_cons] at hw
    have he := ih hw.2.2
    simp only [Formed, wellFormed, Bool.and_eq_true] at he ⊢
    exact ⟨isName_literal hw.1 hx, he⟩
  | logic _ _ ihw ihv | comparison _ _ ihw ihv | sum _ _ ihw ihv | product _ _ ihw ihv =>
    rw [List.forall_mem_append] at hw
    exact ihv hw.2 _ (ihw hw.1)
  | negation ht _ ih =>
    rw [List.forall_mem_cons] at hw
    have he := ih hw.2
    simp only [Formed, wellFormed, Bool.and_eq_true] at he ⊢
    exact ⟨isUnary_of_is hw.1 ht, he⟩
  | stop => exact fun e he => he
  | next ht _ _ ihw ihv =>
    simp only [List.forall_mem_cons, List.forall_mem_append] at hw
    intro e he
    refine ihv hw.2.2 _ ?_
    have hr := ihw hw.2.1
    simp only [Formed] at hr
    simp only [wellFormed, Bool.and_eq_true]
    exact ⟨⟨isBinary_of_sign hw.1 ht, he⟩, hr⟩
  | plain _ ih => exact ih hw
  | call _ ht _ hq ihw ihv =>
    simp only [List.forall_mem_cons, List.forall_mem_append] at hw
    have hf := ihw hw.1
    have has := ihv hw.2.2.1
    simp only [Formed, wellFormed, Bool.and_eq_true] at hf has ⊢
    exact ⟨hf, has⟩
  | noArgs => rfl
  | someArgs _ ih => exact ih hw
  | lastExpr _ ih =>
    have he := ih hw
    simp only [Formed, wellFormedArgs, Bool.and_true] at he ⊢
    exact he
  | nextExpr _ ht _ ihw ihv =>
    simp only [List.forall_mem_cons, List.forall_mem_append] at hw
    have he := ihw hw.1
    have has := ihv hw.2.2
    simp only [Formed, wellFormedArgs, Bool.and_eq_true] at he has ⊢
    exact ⟨he, has⟩
  | signed ht _ ih =>
    rw [List.forall_mem_cons] at hw
    have he := ih hw.2
    simp only [Formed, wellFormed, Bool.and_eq_true] at he ⊢
    exact ⟨isUnary_of_kind hw.1 ht, he⟩
  | number ht => exact isNumber_of_genuine (hw _ List.mem_cons_self) ht
  | name ht => exact isName_literal (hw _ List.mem_cons_self) ht
  | group ht _ hq ih =>
    simp only [List.forall_mem_cons, List.forall_mem_append] at hw
    exact ih hw.2.1
  | conditional _ ih | counted _ ih | looping _ ih | function _ ih => exact ih hw
  | cond ht _ _ ihw ihv =>
    simp only [List.forall_mem_cons, List.forall_mem_append] at hw
    obtain ⟨hne, hbs⟩ := ihw hw.2.1
    have he := ihv hw.2.2
    simp only [Formed, wellFormed, Bool.and_eq_true] at he ⊢
    exact ⟨⟨by simpa using hne, hbs⟩, he⟩
  | lastBranch _ ht _ ihw ihv =>
    simp only [List.forall_mem_cons, List.forall_mem_append] at hw
    have hc := ihw hw.1
    have he := ihv hw.2.2
    simp only [Formed] at hc he ⊢
    exact ⟨List.cons_ne_nil _ _, by simp [wellFormedBranches, hc, he]⟩
  | nextBranch _ ht _ hs _ ihw ihv ihu =>
    simp only [List.forall_mem_cons, List.forall_mem_append] at hw
    have hc := ihw hw.1
    have he := ihv hw.2.2.1
    have hbs := ihu hw.2.2.2.2
    simp only [Formed] at hc he hbs ⊢
    exact ⟨List.cons_ne_nil _ _, by simp [wellFormedBranches, hc, he, hbs.2]⟩
  | noClause => rfl
  | someClause ht _ ih =>
    rw [List.forall_mem_cons] at hw
    have he := ih hw.2
    simp only [Formed] at he ⊢
    rw [he, Bool.or_true]
  | count ht hx hq _ hr _ _ hs _ ihu ihv ihz ihw =>
    simp only [List.forall_mem_cons, List.forall_mem_append] at hw
    obtain ⟨-, hxg, -, hu, -, hv, hz, -, hw⟩ := hw
    have ha := ihu hu
    have hb := ihv hv
    have hc := ihz hz
    have he := ihw hw
    simp only [Formed] at ha hb hc he ⊢
    simp only [wellFormed, Bool.and_eq_true]
    exact ⟨⟨⟨⟨isName_literal hxg hx, ha⟩, hb⟩, hc⟩, he⟩
  | loop ht _ hs _ ihw ihv =>
    simp only [List.forall_mem_cons, List.forall_mem_append] at hw
    have hc := ihw hw.2.1
    have he := ihv hw.2.2.2
    simp only [Formed, wellFormed, Bool.and_eq_true] at hc he ⊢
    exact ⟨hc, he⟩
  | func ht _ hp _ hq hr _ ihu ihv ihw =>
    simp only [List.forall_mem_cons, List.forall_mem_append] at hw
    obtain ⟨-, hu, -, hv, -, -, hw⟩ := hw
    have hx := ihu hu
    have hps := ihv hv
    have he := ihw hw
    simp only [Formed] at hx hps he ⊢
    simp only [wellFormed, Bool.and_eq_true, Bool.or_eq_true, decide_eq_true_eq]
    exact ⟨⟨hx, hps⟩, he⟩
  | noTitle => exact .inl rfl
  | someTitle ht => exact .inr (isName_literal (hw _ List.mem_cons_self) ht)
  | noParams => rfl
  | someParams _ ih => exact ih hw
  | lastName ht =>
    simp only [Formed, List.all_cons, List.all_nil, Bool.and_true]
    exact isName_literal (hw _ List.mem_cons_self) ht
  | nextName ht hc _ ih =>
    simp only [List.forall_mem_cons] at hw
    have hps := ih hw.2.2
    simp only [Formed] at hps ⊢
    rw [List.all_cons, isName_literal hw.1 ht, hps]
    rfl

end Grammar

/-! ## There and back -/

open Token ExprShell.Expr

theorem words_ofTokens_scan (cs : List Char) :
    (Sentence.ofTokens (scan cs).tokens).words = scanned cs := by
  rw [← takeWhile_scan]
  simp [Sentence.ofTokens, Sentence.isEnd]

theorem scanned_agree {cs : List Char} {ts : List Token} (h : Spelt cs ts) :
    List.Forall₂ (fun t u => t.unplaced = u.unplaced) (scanned cs) ts := by
  rw [← h.map_unplaced, List.forall₂_map_right_iff, List.forall₂_same]
  exact fun t _ => rfl

theorem wellFormed_of_parse {bound : Names} {cs : List Char} {e : Expr}
    (h : parse bound (scan cs).tokens = .ok e) : e.wellFormed = true := by
  have hd := Sentence.derives_of_parse h
  rw [words_ofTokens_scan] at hd
  exact Grammar.formed_of_derives hd fun t => isGenuine_of_mem_scanned

theorem parse_render {e : Expr} (h : e.wellFormed = true) (bound : Names) :
    ∃ a, parse bound (scan e.chars).tokens = .ok a ∧ e.same a = true := by
  let s := Sentence.ofTokens (scan e.chars).tokens
  have hwords : List.Forall₂ (fun t u => t.unplaced = u.unplaced) s.words e.words := by
    rw [words_ofTokens_scan]
    exact scanned_agree (spelt_chars h)
  obtain ⟨a, ha, he⟩ := Sentence.parse_words bound s.stop h
  rcases Sentence.parse_alike (fun _ _ h => h) bound s ⟨e.words, s.stop⟩ rfl hwords with
    ⟨b, c, hb, hc, hbc⟩ | ⟨t, u, c, -, hc, -⟩
  · rw [ha] at hc
    cases hc
    have hbe : b.erase = e.erase := hbc.trans he
    exact ⟨b, hb, (same_iff_erase e b).mpr hbe.symm⟩
  · rw [ha] at hc
    cases hc

/-- **The text of a tree is read as that tree.**  Whatever names are bound, the text of a
well-formed tree is scanned without fault and read as the same tree, which has the same text again;
and every tree read from a scanned text is well formed. -/
theorem render_undone :
    (∀ e : Expr, e.wellFormed = true → ∀ bound : Names,
      (scan e.render.toList).diagnostics = [] ∧
        ∃ a, parse bound (scan e.render.toList).tokens = .ok a ∧ e.same a = true ∧
          a.render = e.render) ∧
    ∀ (bound : Names) (cs : List Char) (e : Expr), parse bound (scan cs).tokens = .ok e →
      e.wellFormed = true := by
  refine ⟨fun e h bound => ?_, fun bound cs e h => wellFormed_of_parse h⟩
  have hchars : e.render.toList = e.chars := String.toList_ofList
  rw [hchars]
  obtain ⟨a, ha, hsame⟩ := parse_render h bound
  exact ⟨(spelt_chars h).diagnostics, a, ha, hsame, (render_eq_of_same hsame).symm⟩

/-- a tree made by hand, without places and literals, with a condition inside an assignment inside
a call; what is read from its text is well formed again -/
theorem render_undone_by_hand :
    let x := Expr.var Token.missing "x"
    let op (k : Token.Kind) (s : String) : Token := ⟨k, s, "", ⟨0, 0⟩⟩
    let e := Expr.call Token.missing (.func Token.missing "" ["x"] (.unary (op .minus "-") x))
      [.assign Token.missing "y" (.cond Token.missing
        [(.binary x (op .lte "<=") (.number (op .double "2.50")), x)] .absent)]
    e.wellFormed = true ∧ ∃ a, parse (fun _ => false) (scan e.render.toList).tokens = .ok a ∧
      e.same a = true ∧ a.wellFormed = true := by
  intro x op e
  have he : e.wellFormed = true := by decide
  obtain ⟨-, a, ha, hsame, -⟩ := render_undone.1 e he fun _ => false
  exact ⟨he, a, ha, hsame, render_undone.2 _ _ a ha⟩

end ExprShell
