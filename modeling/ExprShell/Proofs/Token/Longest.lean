import ExprShell.Proofs.Token.Spelling

/-!
# Every token is the longest that fits

Which texts are lexemes is said here without a scanner.  Scanning takes the longest lexeme that the
text ahead begins with; where no lexeme begins, one character is passed over, and it is reported
unless it is layout.

A lexeme is told by its first character: behind a letter there are letters only, behind a digit the
lexeme is a number, and all others are signs.  So the longest one is found class by class.

* `Lexeme k w`        the text `w` is a lexeme of the kind `k`;
* `Longest k w cs`    no lexeme that `cs` begins with is longer than `w`;
* `Lexed p cs ts ds`  from the place `p` on the text is taken apart by the longest lexemes.
-/

namespace ExprShell
open Text Token

/-! ## Lexemes -/

/-- a run of characters of one class, with at least one of them -/
def Stretch (p : Char → Bool) (w : List Char) : Prop := w ≠ [] ∧ ∀ c ∈ w, p c = true

/-- the lexemes and their kinds -/
inductive Lexeme : Kind → List Char → Prop
  | sign {k : Kind} {s : String} (h : k.sign? = some s) : Lexeme k s.toList
  | keyword (k : Keyword) : Lexeme .keyword k.spelling.toList
  | identifier {w : List Char} (letters : Stretch isLetter w)
    (free : ∀ k : Keyword, w ≠ k.spelling.toList) : Lexeme .identifier w
  | int {w : List Char} (digits : Stretch isDigit w) : Lexeme .int w
  | double {w v : List Char} (whole : Stretch isDigit w) (fraction : Stretch isDigit v) :
    Lexeme .double (w ++ '.' :: v)

/-- the longest lexeme that the text begins with -/
structure Longest (k : Kind) (w cs : List Char) : Prop where
  lexeme : Lexeme k w
  front : w <+: cs
  longest : ∀ k' w', Lexeme k' w' → w' <+: cs → w'.length ≤ w.length

/-- what is wrong with a character that is skipped -/
def Fault.ofChar (c : Char) : Fault := if c = '!' then .loneBang else .illegal c

theorem Fault.char_ofChar (c : Char) : (Fault.ofChar c).char = c := by
  unfold ofChar
  split
  · next h => exact h.symm
  · rfl

/-- the text `cs` begins at `p` and is taken apart from its front: a token is the longest lexeme
there is, and a character with which no lexeme begins is passed over, with a diagnostic unless it
is layout -/
inductive Lexed : Position → List Char → List Token → List Diagnostic → Prop
  | nil (p : Position) : Lexed p [] [] []
  | token {p : Position} {cs : List Char} {ts : List Token} {ds : List Diagnostic} (t : Token)
    (pos : t.pos = p) (longest : Longest t.kind t.lexeme.toList (t.lexeme.toList ++ cs))
    (literal : t.literal =
      if t.kind ∈ [.int, .double, .identifier, .keyword] then t.lexeme else "")
    (rest : Lexed (p.after t.lexeme.toList) cs ts ds) :
    Lexed p (t.lexeme.toList ++ cs) (t :: ts) ds
  | layout {p : Position} {cs : List Char} {ts : List Token} {ds : List Diagnostic} (c : Char)
    (blank : c ∈ [' ', '\t', '\r', '\n']) (rest : Lexed (p.next c) cs ts ds) :
    Lexed p (c :: cs) ts ds
  | skipped {p : Position} {cs : List Char} {ts : List Token} {ds : List Diagnostic} (c : Char)
    (solid : c ∉ [' ', '\t', '\r', '\n']) (none : ∀ k w, Lexeme k w → ¬ w <+: c :: cs)
    (rest : Lexed (p.next c) cs ts ds) : Lexed p (c :: cs) ts (⟨p, .ofChar c⟩ :: ds)

/-! ## What the first character tells -/

theorem Stretch.head {p : Char → Bool} {w : List Char} (h : Stretch p w) :
    ∃ c v, w = c :: v ∧ p c = true := by
  obtain ⟨hne, hall⟩ := h
  obtain ⟨c, v, rfl⟩ := List.exists_cons_of_ne_nil hne
  exact ⟨c, v, rfl, hall c List.mem_cons_self⟩

theorem stretch_spelling (k : Keyword) : Stretch isLetter k.spelling.toList := by
  have hne : k.spelling.toList ≠ [] := by cases k <;> decide
  have hall : k.spelling.toList.all isLetter = true := by cases k <;> decide
  exact ⟨hne, List.all_eq_true.mp hall⟩

theorem not_isDigit_point : ¬ isDigit '.' = true := by decide

/-- a sign begins with neither a letter nor a digit nor layout -/
theorem sign_head {k : Kind} {s : String} (h : k.sign? = some s) :
    ∃ c v, s.toList = c :: v ∧ isLetter c = false ∧ isDigit c = false ∧
      c ∉ [' ', '\t', '\r', '\n'] := by
  cases k <;> cases h <;> exact ⟨_, _, rfl, by decide, by decide, by decide⟩

namespace Lexeme

variable {k : Kind} {c : Char} {w : List Char}

/-- the three classes of lexemes, told by the first character -/
theorem head_class (h : Lexeme k (c :: w)) :
    (isLetter c = true ∧
      ((k = .keyword ∧ ∃ u : Keyword, c :: w = u.spelling.toList) ∨
        (k = .identifier ∧ Stretch isLetter (c :: w) ∧
          ∀ u : Keyword, c :: w ≠ u.spelling.toList))) ∨
      (isDigit c = true ∧
        ((k = .int ∧ Stretch isDigit (c :: w)) ∨
          (k = .double ∧ ∃ a b, c :: w = a ++ '.' :: b ∧ Stretch isDigit a ∧ Stretch isDigit b))) ∨
      (isLetter c = false ∧ isDigit c = false ∧ ∃ s, k.sign? = some s ∧ c :: w = s.toList) := by
  generalize hw : c :: w = cw at h
  cases h with
  | @sign _ s h =>
    obtain ⟨d, v, hs, hl, hd, -⟩ := sign_head h
    rw [hs] at hw
    cases hw
    exact .inr (.inr ⟨hl, hd, s, h, rfl⟩)
  | keyword u =>
    have hc : isLetter c = true := (stretch_spelling u).2 c (hw ▸ List.mem_cons_self)
    exact .inl ⟨hc, .inl ⟨rfl, u, rfl⟩⟩
  | identifier hletters hfree =>
    have hc : isLetter c = true := hletters.2 c (hw ▸ List.mem_cons_self)
    exact .inl ⟨hc, .inr ⟨rfl, hletters, hfree⟩⟩
  | int hdigits =>
    have hc : isDigit c = true := hdigits.2 c (hw ▸ List.mem_cons_self)
    exact .inr (.inl ⟨hc, .inl ⟨rfl, hdigits⟩⟩)
  | double hwhole hfrac =>
    obtain ⟨d, v, rfl, hd⟩ := hwhole.head
    have hc : isDigit c = true := by
      cases hw
      exact hd
    exact .inr (.inl ⟨hc, .inr ⟨rfl, _, _, rfl, hwhole, hfrac⟩⟩)

theorem letters (h : Lexeme k (c :: w)) (hc : isLetter c = true) :
    (k = .keyword ∧ ∃ u : Keyword, c :: w = u.spelling.toList) ∨
      (k = .identifier ∧ Stretch isLetter (c :: w) ∧
        ∀ u : Keyword, c :: w ≠ u.spelling.toList) := by
  rcases h.head_class with ⟨-, hword⟩ | ⟨hd, -⟩ | ⟨hl, -⟩
  · exact hword
  · rw [isLetter_eq_false_of_isDigit hd] at hc
    cases hc
  · rw [hl] at hc
    cases hc

theorem stretch_of_letter (h : Lexeme k (c :: w)) (hc : isLetter c = true) :
    Stretch isLetter (c :: w) := by
  rcases h.letters hc with ⟨-, u, hu⟩ | ⟨-, hletters, -⟩
  · rw [hu]
    exact stretch_spelling u
  · exact hletters

theorem digits (h : Lexeme k (c :: w)) (hc : isDigit c = true) :
    (k = .int ∧ Stretch isDigit (c :: w)) ∨
      (k = .double ∧ ∃ a b, c :: w = a ++ '.' :: b ∧ Stretch isDigit a ∧ Stretch isDigit b) := by
  rcases h.head_class with ⟨hl, -⟩ | ⟨-, hnumber⟩ | ⟨-, hd, -⟩
  · rw [isDigit_eq_false_of_isLetter hl] at hc
    cases hc
  · exact hnumber
  · rw [hd] at hc
    cases hc

theorem signs (h : Lexeme k (c :: w)) (hl : isLetter c = false) (hd : isDigit c = false) :
    ∃ s, k.sign? = some s ∧ c :: w = s.toList := by
  rcases h.head_class with ⟨hc, -⟩ | ⟨hc, -⟩ | ⟨-, -, hsign⟩
  · rw [hl] at hc
    cases hc
  · rw [hd] at hc
    cases hc
  · exact hsign

theorem ne_nil (h : Lexeme k w) : w ≠ [] := by
  cases h with
  | sign h =>
    obtain ⟨c, v, hs, -⟩ := sign_head h
    rw [hs]
    exact List.cons_ne_nil c v
  | keyword u => exact (stretch_spelling u).1
  | identifier hletters _ => exact hletters.1
  | int hdigits => exact hdigits.1
  | double _ _ => simp

theorem head_not_layout (h : Lexeme k (c :: w)) : c ∉ [' ', '\t', '\r', '\n'] := by
  intro hc
  have hclass : isLetter c = false ∧ isDigit c = false := by
    simp only [List.mem_cons, List.not_mem_nil, or_false] at hc
    rcases hc with rfl | rfl | rfl | rfl <;> decide
  obtain ⟨s, hs, hw⟩ := h.signs hclass.1 hclass.2
  obtain ⟨d, v, hsd, -, -, hd⟩ := sign_head hs
  rw [hsd] at hw
  cases hw
  exact hd hc

/-- a sign that stands alone is read as what it is -/
theorem sign_self {s : String} (h : k.sign? = some s) :
    ∃ c v, s.toList = c :: v ∧ Piece.sign c v = (.lexeme k (c :: v), []) := by
  cases k <;> cases h <;> exact ⟨_, _, rfl, rfl⟩

theorem sign_injective {k' : Kind} {s : String} (h : k.sign? = some s) (h' : k'.sign? = some s) :
    k = k' := by
  obtain ⟨c, v, hs, hsign⟩ := sign_self h
  obtain ⟨c', v', hs', hsign'⟩ := sign_self h'
  rw [hs] at hs'
  cases hs'
  rw [hsign] at hsign'
  cases hsign'
  rfl

theorem kind_unique {k' : Kind} (h : Lexeme k w) (h' : Lexeme k' w) : k = k' := by
  obtain ⟨c, w, rfl⟩ := List.exists_cons_of_ne_nil h.ne_nil
  cases hl : isLetter c with
  | true =>
    rcases h.letters hl with ⟨rfl, u, hu⟩ | ⟨rfl, -, hfree⟩
    · rcases h'.letters hl with ⟨rfl, -⟩ | ⟨-, -, hfree'⟩
      · rfl
      · exact absurd hu (hfree' u)
    · rcases h'.letters hl with ⟨-, u, hu⟩ | ⟨rfl, -, -⟩
      · exact absurd hu (hfree u)
      · rfl
  | false =>
    cases hd : isDigit c with
    | true =>
      have hmix : ∀ {a b : List Char}, c :: w = a ++ '.' :: b → ¬ Stretch isDigit (c :: w) := by
        intro a b hab hall
        apply not_isDigit_point
        apply hall.2
        rw [hab]
        simp
      rcases h.digits hd with ⟨rfl, hall⟩ | ⟨rfl, a, b, hab, -⟩
      · rcases h'.digits hd with ⟨rfl, -⟩ | ⟨-, a, b, hab, -⟩
        · rfl
        · exact absurd hall (hmix hab)
      · rcases h'.digits hd with ⟨-, hall⟩ | ⟨rfl, -⟩
        · exact absurd hall (hmix hab)
        · rfl
    | false =>
      obtain ⟨s, hs, hw⟩ := h.signs hl hd
      obtain ⟨s', hs', hw'⟩ := h'.signs hl hd
      have hsame : s = s' := String.toList_inj.mp (hw.symm.trans hw')
      rw [← hsame] at hs'
      exact sign_injective hs hs'

end Lexeme

/-! ## Words -/

/-- a part in front whose characters are all of a class is part of the run of that class -/
theorem front_of_stretch {p : Char → Bool} {w cs : List Char} (hw : ∀ c ∈ w, p c = true)
    (h : w <+: cs) : w <+: cs.takeWhile p := by
  obtain ⟨r, rfl⟩ := h
  rw [List.takeWhile_append_of_pos hw]
  exact List.prefix_append _ _

namespace Piece

variable {c : Char} {cs : List Char}

theorem stretch_takeWhile {p : Char → Bool} (hc : p c = true) (cs : List Char) :
    Stretch p (c :: cs.takeWhile p) := by
  refine ⟨List.cons_ne_nil _ _, fun d hd => ?_⟩
  rcases List.mem_cons.mp hd with rfl | hd
  · exact hc
  · exact List.all_eq_true.mp List.all_takeWhile d hd

theorem front_takeWhile (p : Char → Bool) (c : Char) (cs : List Char) :
    c :: cs.takeWhile p <+: c :: cs :=
  List.cons_prefix_cons.mpr ⟨rfl, List.takeWhile_prefix p⟩

theorem lexeme_word {w : List Char} (h : Stretch isLetter w) :
    Lexeme (Kind.ofWord (String.ofList w)) w := by
  unfold Kind.ofWord
  split
  · next hres =>
    rw [Keyword.reserves, List.any_eq_true] at hres
    obtain ⟨k, -, hk⟩ := hres
    have hw : k.spelling.toList = w := by
      rw [of_decide_eq_true hk, String.toList_ofList]
    rw [← hw]
    exact .keyword k
  · next hres =>
    refine .identifier h fun k hk => hres ?_
    rw [hk, String.ofList_toList]
    exact Keyword.reserves_spelling k

theorem longest_word (hc : isLetter c = true) (cs : List Char) :
    Longest (Kind.ofWord (String.ofList (c :: cs.takeWhile isLetter))) (c :: cs.takeWhile isLetter)
      (c :: cs) where
  lexeme := lexeme_word (stretch_takeWhile hc cs)
  front := front_takeWhile isLetter c cs
  longest := by
    intro k w hw hfront
    obtain ⟨d, w, rfl⟩ := List.exists_cons_of_ne_nil hw.ne_nil
    obtain ⟨rfl, -⟩ := List.cons_prefix_cons.mp hfront
    have hall := (hw.stretch_of_letter hc).2
    have hrun := front_of_stretch hall hfront
    rw [List.takeWhile_cons_of_pos hc] at hrun
    exact hrun.length_le

/-! ## Numbers -/

/-- the digits before a point are all the digits there are -/
theorem split_point {a b cs : List Char} (ha : Stretch isDigit a) (h : a ++ '.' :: b <+: cs) :
    cs.takeWhile isDigit = a ∧ '.' :: b <+: cs.dropWhile isDigit := by
  obtain ⟨r, rfl⟩ := h
  rw [List.append_assoc, List.takeWhile_append_of_pos ha.2, List.dropWhile_append_of_pos ha.2,
    List.cons_append, List.takeWhile_cons_of_neg not_isDigit_point,
    List.dropWhile_cons_of_neg not_isDigit_point, List.append_nil]
  exact ⟨rfl, List.cons_prefix_cons.mpr ⟨rfl, List.prefix_append b r⟩⟩

/-- a lexeme behind a digit is part of the run of digits, or it is that run with a fraction -/
theorem number_cases {k : Kind} {w : List Char} (hc : isDigit c = true) (hw : Lexeme k w)
    (h : w <+: c :: cs) :
    w.length ≤ (c :: cs.takeWhile isDigit).length ∨
      ∃ b, Stretch isDigit b ∧ w = c :: cs.takeWhile isDigit ++ '.' :: b ∧
        '.' :: b <+: cs.dropWhile isDigit := by
  obtain ⟨d, w, rfl⟩ := List.exists_cons_of_ne_nil hw.ne_nil
  obtain ⟨rfl, -⟩ := List.cons_prefix_cons.mp h
  rcases hw.digits hc with ⟨-, hall⟩ | ⟨-, a, b, hab, ha, hb⟩
  · have hrun := front_of_stretch hall.2 h
    rw [List.takeWhile_cons_of_pos hc] at hrun
    exact .inl hrun.length_le
  · rw [hab] at h
    obtain ⟨hrun, hrest⟩ := split_point ha h
    rw [List.takeWhile_cons_of_pos hc] at hrun
    rw [List.dropWhile_cons_of_pos hc] at hrest
    exact .inr ⟨b, hb, by rw [hab, hrun], hrest⟩

theorem longest_int (hc : isDigit c = true)
    (hrest : ∀ d r, cs.dropWhile isDigit = '.' :: d :: r → isDigit d = false) :
    Longest .int (c :: cs.takeWhile isDigit) (c :: cs) where
  lexeme := .int (stretch_takeWhile hc cs)
  front := front_takeWhile isDigit c cs
  longest := by
    intro k w hw hfront
    rcases number_cases hc hw hfront with hle | ⟨b, hb, -, r, hr⟩
    · exact hle
    · obtain ⟨d, b, rfl, hd⟩ := hb.head
      rw [hrest d (b ++ r) hr.symm] at hd
      cases hd

theorem longest_double {d : Char} {r : List Char} (hc : isDigit c = true) (hd : isDigit d = true)
    (hrest : cs.dropWhile isDigit = '.' :: d :: r) :
    Longest .double (c :: cs.takeWhile isDigit ++ '.' :: d :: r.takeWhile isDigit) (c :: cs) where
  lexeme := .double (stretch_takeWhile hc cs) (stretch_takeWhile hd r)
  front := by
    have hcs : cs.takeWhile isDigit ++ '.' :: d :: r = cs := by
      rw [← hrest]
      exact List.takeWhile_append_dropWhile
    refine ⟨r.dropWhile isDigit, ?_⟩
    show c :: ((cs.takeWhile isDigit ++ '.' :: d :: r.takeWhile isDigit) ++ r.dropWhile isDigit) = _
    rw [List.append_assoc, List.cons_append, List.cons_append, List.takeWhile_append_dropWhile, hcs]
  longest := by
    intro k w hw hfront
    rcases number_cases hc hw hfront with hle | ⟨b, hb, rfl, hb'⟩
    · rw [List.length_append]
      exact Nat.le_trans hle (Nat.le_add_right _ _)
    · rw [hrest] at hb'
      have hrun := front_of_stretch hb.2 (List.cons_prefix_cons.mp hb').2
      rw [List.takeWhile_cons_of_pos hd] at hrun
      have hlen := hrun.length_le
      simp only [List.length_append, List.length_cons] at hlen ⊢
      omega

/-! ## Signs -/

def pairs : List (List Char) := [['-', '>'], ['=', '='], ['!', '='], ['<', '='], ['>', '=']]

theorem length_sign {k : Kind} {s : String} (h : k.sign? = some s) :
    s.toList.length = 1 ∨ s.toList ∈ pairs ∧ s.toList.length = 2 := by
  cases k <;> cases h <;> first | exact .inl rfl | exact .inr (by decide)

section
variable (hl : isLetter c = false) (hd : isDigit c = false)
include hl hd

/-- where neither a word nor a number begins, a lexeme in front is a sign -/
theorem sign_of_front {k : Kind} {w : List Char} (hw : Lexeme k w) (h : w <+: c :: cs) :
    ∃ s, k.sign? = some s ∧ w = s.toList := by
  obtain ⟨d, w, rfl⟩ := List.exists_cons_of_ne_nil hw.ne_nil
  obtain ⟨rfl, -⟩ := List.cons_prefix_cons.mp h
  exact hw.signs hl hd

theorem longest_pair {k : Kind} {s : String} (hk : k.sign? = some s) (hs : s.toList.length = 2)
    (hfront : s.toList <+: c :: cs) : Longest k s.toList (c :: cs) where
  lexeme := .sign hk
  front := hfront
  longest := by
    intro k' w hw hw'
    obtain ⟨s', hk', rfl⟩ := sign_of_front hl hd hw hw'
    rcases length_sign hk' with h | ⟨-, h⟩ <;> omega

theorem longest_single {k : Kind} {s : String} (hk : k.sign? = some s) (hs : s.toList.length = 1)
    (hfront : s.toList <+: c :: cs) (hpairs : ∀ w ∈ pairs, ¬ w <+: c :: cs) :
    Longest k s.toList (c :: cs) where
  lexeme := .sign hk
  front := hfront
  longest := by
    intro k' w hw hw'
    obtain ⟨s', hk', rfl⟩ := sign_of_front hl hd hw hw'
    rcases length_sign hk' with h | ⟨h, -⟩
    · omega
    · exact absurd hw' (hpairs _ h)

end

/-! ## The first piece -/

def Fits (x : Piece) (cs : List Char) : Prop :=
  match x with
  | .lexeme k w => Longest k w cs
  | .layout c => c ∈ [' ', '\t', '\r', '\n']
  | .skipped f =>
    ∃ c r, cs = c :: r ∧ f = .ofChar c ∧ c ∉ [' ', '\t', '\r', '\n'] ∧
      ∀ k w, Lexeme k w → ¬ w <+: cs

theorem not_front {d : Char} (h : ∀ r, cs = d :: r → False) : ¬ [d] <+: cs := by
  rintro ⟨r, hr⟩
  exact h r hr.symm

/-- where no sign begins either, the character is skipped -/
theorem fits_skipped (hlay : isLayout c = false) (hl : isLetter c = false) (hd : isDigit c = false)
    (hsigns : ∀ k s, Kind.sign? k = some s → ¬ s.toList <+: c :: cs) :
    Fits (.skipped (.ofChar c)) (c :: cs) := by
  have hsolid : c ∉ [' ', '\t', '\r', '\n'] := by
    simpa [isLayout, and_assoc] using hlay
  refine ⟨c, cs, rfl, rfl, hsolid, ?_⟩
  intro k w hw hfront
  obtain ⟨s, hk, rfl⟩ := sign_of_front hl hd hw hfront
  exact hsigns k s hk hfront

theorem fits_sign (hlay : isLayout c = false) (hl : isLetter c = false) (hd : isDigit c = false)
    (cs : List Char) : Fits (sign c cs).1 (c :: cs) := by
  unfold sign
  split
  · exact longest_single hl hd (s := "(") rfl rfl ⟨_, rfl⟩ (by simp [pairs])
  · exact longest_single hl hd (s := ")") rfl rfl ⟨_, rfl⟩ (by simp [pairs])
  · exact longest_single hl hd (s := ",") rfl rfl ⟨_, rfl⟩ (by simp [pairs])
  · exact longest_single hl hd (s := "+") rfl rfl ⟨_, rfl⟩ (by simp [pairs])
  · exact longest_single hl hd (s := "*") rfl rfl ⟨_, rfl⟩ (by simp [pairs])
  · exact longest_single hl hd (s := "/") rfl rfl ⟨_, rfl⟩ (by simp [pairs])
  · exact longest_pair hl hd (s := "->") rfl rfl ⟨_, rfl⟩
  · next h =>
    exact longest_single hl hd (s := "-") rfl rfl ⟨_, rfl⟩ (by simpa [pairs] using not_front h)
  · exact longest_pair hl hd (s := "==") rfl rfl ⟨_, rfl⟩
  · next h =>
    exact longest_single hl hd (s := "=") rfl rfl ⟨_, rfl⟩ (by simpa [pairs] using not_front h)
  · exact longest_pair hl hd (s := "!=") rfl rfl ⟨_, rfl⟩
  · next h =>
    refine fits_skipped hlay hl hd fun k s hk => ?_
    have hbang : ¬ ['!', '='] <+: '!' :: cs := by simpa using not_front h
    cases k <;> cases hk <;> first | exact hbang | simp
  · exact longest_pair hl hd (s := "<=") rfl rfl ⟨_, rfl⟩
  · next h =>
    exact longest_single hl hd (s := "<") rfl rfl ⟨_, rfl⟩ (by simpa [pairs] using not_front h)
  · exact longest_pair hl hd (s := ">=") rfl rfl ⟨_, rfl⟩
  · next h =>
    exact longest_single hl hd (s := ">") rfl rfl ⟨_, rfl⟩ (by simpa [pairs] using not_front h)
  · next hbang _ _ _ _ _ _ _ =>
    have hfault : Fault.ofChar c = .illegal c := if_neg hbang
    rw [← hfault]
    refine fits_skipped hlay hl hd fun k s hk => ?_
    rintro ⟨r, hr⟩
    cases k <;> cases hk <;>
      · have hc := (List.cons.inj hr).1
        subst hc
        contradiction

theorem fits_number (hc : isDigit c = true) (cs : List Char) :
    Fits (number c cs).1 (c :: cs) := by
  unfold number
  split
  · next d r hrest =>
    split
    · next hd => exact longest_double hc hd hrest
    · next hd =>
      refine longest_int hc fun d' r' hrest' => ?_
      rw [hrest] at hrest'
      cases hrest'
      exact Bool.eq_false_iff.mpr hd
  · next hrest => exact longest_int hc fun d r h => absurd h (hrest d r)

theorem fits_first (c : Char) (cs : List Char) : Fits (first c cs).1 (c :: cs) := by
  unfold first
  split
  · next hc =>
    show c ∈ [' ', '\t', '\r', '\n']
    simpa [isLayout, or_assoc] using hc
  · next hlay =>
    split
    · next hc => exact longest_word hc cs
    · next hl =>
      split
      · next hc => exact fits_number hc cs
      · next hd =>
        exact fits_sign (Bool.eq_false_iff.mpr hlay) (Bool.eq_false_iff.mpr hl)
          (Bool.eq_false_iff.mpr hd) cs

end Piece

/-! ## All pieces -/

theorem hasLiteral_iff (k : Kind) :
    k.hasLiteral = true ↔ k ∈ [.int, .double, .identifier, .keyword] := by
  cases k <;> simp [Kind.hasLiteral]

theorem lexed_split (p : Position) (cs : List Char) :
    Lexed p cs ((Placed.place p (Piece.split cs)).filterMap Placed.token?)
      ((Placed.place p (Piece.split cs)).filterMap Placed.diagnostic?) := by
  fun_induction Piece.split cs generalizing p with
  | case1 => exact .nil p
  | case2 c cs ih =>
    have htext := Piece.text_first c cs
    have hfits := Piece.fits_first c cs
    have hrest := ih (p.after (Piece.first c cs).1.text)
    rw [← htext] at hfits
    rw [Placed.place_cons, List.filterMap_cons, List.filterMap_cons, ← htext]
    generalize (Piece.first c cs).2 = r at hrest hfits
    generalize (Piece.first c cs).1 = x at hrest hfits
    cases x with
    | lexeme k w =>
      have hw : (String.ofList w).toList = w := String.toList_ofList
      let t : Token := ⟨k, String.ofList w, if k.hasLiteral then String.ofList w else "", p⟩
      have hlit : t.literal =
          if t.kind ∈ [.int, .double, .identifier, .keyword] then t.lexeme else "" := by
        simp only [t, hasLiteral_iff]
      have hlong : Longest t.kind t.lexeme.toList (t.lexeme.toList ++ r) := hw.symm ▸ hfits
      have h := Lexed.token t rfl hlong hlit (hw.symm ▸ hrest)
      rwa [show t.lexeme.toList = w from hw] at h
    | layout d => exact .layout d hfits hrest
    | skipped f =>
      obtain ⟨d, s, hd, rfl, hsolid, hnone⟩ := hfits
      have hd' : (Piece.skipped (.ofChar d)).text = [d] := by rw [Piece.text, Fault.char_ofChar]
      rw [hd'] at hrest hnone ⊢
      exact .skipped d hsolid hnone hrest

/-! ## There is one way to do it -/

theorem Longest.unique {k k' : Kind} {w w' cs : List Char} (h : Longest k w cs)
    (h' : Longest k' w' cs) : k = k' ∧ w = w' := by
  have hle := h.longest k' w' h'.lexeme h'.front
  have hge := h'.longest k w h.lexeme h.front
  have hfront : w <+: w' := List.prefix_of_prefix_length_le h.front h'.front hge
  have hw : w = w' := hfront.eq_of_length_le hle
  subst hw
  exact ⟨h.lexeme.kind_unique h'.lexeme, rfl⟩

theorem Longest.not_layout {k : Kind} {w cs : List Char} {c : Char} (h : Longest k w (c :: cs)) :
    c ∉ [' ', '\t', '\r', '\n'] := by
  obtain ⟨d, v, hw⟩ := List.exists_cons_of_ne_nil h.lexeme.ne_nil
  have hlex := h.lexeme
  have hfront := h.front
  rw [hw] at hlex hfront
  obtain ⟨rfl, -⟩ := List.cons_prefix_cons.mp hfront
  exact hlex.head_not_layout

theorem Lexed.unique {p : Position} {cs : List Char} {ts ts' : List Token}
    {ds ds' : List Diagnostic} (h : Lexed p cs ts ds) (h' : Lexed p cs ts' ds') :
    ts = ts' ∧ ds = ds' := by
  induction h generalizing ts' ds' with
  | nil p =>
    generalize hcs : [] = cs at h'
    cases h' with
    | nil => exact ⟨rfl, rfl⟩
    | token t _ hlong => exact absurd (List.append_eq_nil_iff.mp hcs.symm).1 hlong.lexeme.ne_nil
    | layout => cases hcs
    | skipped => cases hcs
  | @token p cs ts ds t hpos hlong hlit _ ih =>
    generalize hcs : t.lexeme.toList ++ cs = text at hlong h'
    cases h' with
    | nil => exact absurd (List.append_eq_nil_iff.mp hcs).1 hlong.lexeme.ne_nil
    | @token _ cs' ts' _ t' hpos' hlong' hlit' rest' =>
      obtain ⟨hk, hw⟩ := hlong.unique hlong'
      have hlex : t.lexeme = t'.lexeme := String.toList_inj.mp hw
      have ht : t = t' := by
        obtain ⟨k, l, m, q⟩ := t
        obtain ⟨k', l', m', q'⟩ := t'
        simp only at hk hlex hpos hpos' hlit hlit'
        rw [hk, hlex, hpos, hpos', hlit, hlit', hk, hlex]
      subst ht
      rw [List.append_cancel_left hcs] at ih
      obtain ⟨rfl, rfl⟩ := ih rest'
      exact ⟨rfl, rfl⟩
    | layout c hblank => exact absurd hblank hlong.not_layout
    | skipped c _ hnone => exact absurd hlong.front (hnone _ _ hlong.lexeme)
  | @layout p cs ts ds c hblank _ ih =>
    generalize hcs : c :: cs = text at h'
    cases h' with
    | nil => cases hcs
    | token t _ hlong =>
      rw [← hcs] at hlong
      exact absurd hblank hlong.not_layout
    | layout c' _ rest' =>
      cases hcs
      exact ih rest'
    | skipped c' hsolid =>
      cases hcs
      exact absurd hblank hsolid
  | @skipped p cs ts ds c hsolid hnone _ ih =>
    generalize hcs : c :: cs = text at hnone h'
    cases h' with
    | nil => cases hcs
    | token t _ hlong => exact absurd hlong.front (hnone _ _ hlong.lexeme)
    | layout c' hblank =>
      cases hcs
      exact absurd hblank hsolid
    | skipped c' _ _ rest' =>
      cases hcs
      obtain ⟨rfl, rfl⟩ := ih rest'
      exact ⟨rfl, rfl⟩

theorem lexed_scan (cs : List Char) : Lexed .start cs (scanned cs) (scan cs).diagnostics :=
  lexed_split .start cs

theorem scan_eq_of_lexed {cs : List Char} {ts : List Token} {ds : List Diagnostic}
    (h : Lexed .start cs ts ds) :
    scan cs = ⟨ts ++ [Token.endAt (Position.start.after cs)], ds⟩ := by
  obtain ⟨hts, hds⟩ := h.unique (lexed_scan cs)
  rw [hts, hds]
  rfl

/-- **Tokens are the longest lexemes, and only what begins no lexeme is reported.**  A text is taken
apart from its front in one way only, and this is what scanning gives: each token is the longest
lexeme that the text ahead begins with, its kind is told by that lexeme, and its literal is the
lexeme if it is a word or a number; a character outside the tokens is reported exactly if it is not
layout and no lexeme begins with it. -/
theorem scan_longest_match (cs : List Char) :
    (∃ ts, (scan cs).tokens = ts ++ [Token.endAt (Position.start.after cs)] ∧
      Lexed .start cs ts (scan cs).diagnostics ∧
      ∀ ts' ds', Lexed .start cs ts' ds' → ts' = ts ∧ ds' = (scan cs).diagnostics) ∧
    ∀ k k' w, Lexeme k w → Lexeme k' w → k = k' := by
  refine ⟨⟨scanned cs, rfl, lexed_scan cs, ?_⟩, fun k k' w h h' => h.kind_unique h'⟩
  intro ts ds h
  exact h.unique (lexed_scan cs)

/-- a point with no digit behind it is reported; of three signs the last two are one -/
theorem scan_longest_match_point :
    Lexed .start "5.-->".toList
        [⟨.int, "5", "5", ⟨1, 1⟩⟩, ⟨.minus, "-", "", ⟨1, 3⟩⟩, ⟨.arrow, "->", "", ⟨1, 4⟩⟩]
        [⟨⟨1, 2⟩, .illegal '.'⟩] ∧
      Lexeme .keyword "IF".toList ∧ ¬ Lexeme .identifier "IF".toList := by
  obtain ⟨⟨ts, hts, hlexed, -⟩, hkind⟩ := scan_longest_match "5.-->".toList
  have htokens : (scan "5.-->".toList).tokens =
      [⟨.int, "5", "5", ⟨1, 1⟩⟩, ⟨.minus, "-", "", ⟨1, 3⟩⟩, ⟨.arrow, "->", "", ⟨1, 4⟩⟩] ++
        [Token.endAt (Position.start.after "5.-->".toList)] := by decide +kernel
  have hdiagnostics : (scan "5.-->".toList).diagnostics = [⟨⟨1, 2⟩, .illegal '.'⟩] := by
    decide +kernel
  rw [htokens] at hts
  rw [hdiagnostics, ← List.append_cancel_right hts] at hlexed
  have hif : Lexeme .keyword "IF".toList := .keyword .if
  exact ⟨hlexed, hif, fun h => by cases hkind _ _ _ hif h⟩

end ExprShell
