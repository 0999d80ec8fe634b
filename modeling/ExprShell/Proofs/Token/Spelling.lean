import ExprShell.Token.Scan

/-!
# How tokens are spelt

The tokens of a text without their places, and the texts from which a given list of tokens is read.
A text is built from behind: in front of a text that spells some tokens stands a space, a sign, or a
word or a number that does not run on into it.

* `Token.isGenuine`   kind, text and literal belong together; scanned tokens are genuine;
* `Spelt cs ts`       the text `cs` is scanned without fault, and to the tokens `ts`;
* `Ends cs`           no word and no number runs on into the text.
-/

namespace ExprShell
open Text Token

/-! ## Genuine tokens -/

def isName (x : String) : Bool := x ≠ "" && x.toList.all isLetter && !Keyword.reserves x

def isDigits (cs : List Char) : Bool := cs ≠ [] && cs.all isDigit

namespace Token

def Kind.sign? : Kind → Option String
  | .lparen => some "("
  | .rparen => some ")"
  | .comma => some ","
  | .arrow => some "->"
  | .plus => some "+"
  | .minus => some "-"
  | .mul => some "*"
  | .div => some "/"
  | .ee => some "=="
  | .ne => some "!="
  | .lt => some "<"
  | .gt => some ">"
  | .lte => some "<="
  | .gte => some ">="
  | .equal => some "="
  | _ => none

/-- digits for a whole number, and two runs of digits with a point between them for another -/
def isNumber (t : Token) : Bool :=
  match t.kind with
  | .int => isDigits t.lexeme.toList
  | .double =>
    isDigits (t.lexeme.toList.takeWhile isDigit) &&
      match t.lexeme.toList.dropWhile isDigit with
      | '.' :: r => isDigits r
      | _ => false
  | _ => false

def isBinary (t : Token) : Bool :=
  match t.kind with
  | .plus | .minus | .mul | .div | .ee | .ne | .lt | .gt | .lte | .gte =>
    t.kind.sign? = some t.lexeme
  | .keyword => t.lexeme = Keyword.and.spelling || t.lexeme = Keyword.or.spelling
  | _ => false

def isUnary (t : Token) : Bool :=
  match t.kind with
  | .plus | .minus => t.kind.sign? = some t.lexeme
  | .keyword => t.lexeme = Keyword.not.spelling
  | _ => false

/-- kind, text and literal as they come from one lexeme -/
def isGenuine (t : Token) : Bool :=
  match t.kind with
  | .identifier => isName t.lexeme && t.literal = t.lexeme
  | .keyword => Keyword.reserves t.lexeme && t.literal = t.lexeme
  | .int | .double => t.isNumber
  | k => k.sign? = some t.lexeme

def unplaced (t : Token) : Token := { t with pos := ⟨0, 0⟩ }

/-- the token with this kind and text, without a place -/
def written (k : Kind) (cs : List Char) : Token :=
  ⟨k, String.ofList cs, if k.hasLiteral then String.ofList cs else "", ⟨0, 0⟩⟩

end Token

namespace Piece

def token? : Piece → Option Token
  | .lexeme k cs => some (written k cs)
  | _ => none

def fault? : Piece → Option Fault
  | .skipped f => some f
  | _ => none

end Piece

/-! ## Spelling -/

/-- the text is scanned without fault and to these tokens, places apart -/
structure Spelt (cs : List Char) (ts : List Token) : Prop where
  tokens : (Piece.split cs).filterMap Piece.token? = ts
  faults : (Piece.split cs).filterMap Piece.fault? = []

/-- no word and no number runs on into the text -/
def Ends (cs : List Char) : Prop :=
  ∀ c r, cs = c :: r → isLetter c = false ∧ isDigit c = false ∧ c ≠ '.'

theorem ends_cons {c : Char} (cs : List Char)
    (h : isLetter c = false ∧ isDigit c = false ∧ c ≠ '.' := by decide) : Ends (c :: cs) := by
  rintro d r hd
  cases hd
  exact h

/-- no character of a class without layout is layout -/
theorem isLayout_eq_false {p : Char → Bool} {c : Char}
    (hp : [' ', '\t', '\r', '\n'].any p = false) (h : p c = true) : Piece.isLayout c = false := by
  cases hc : Piece.isLayout c with
  | false => rfl
  | true =>
    simp only [Piece.isLayout, Bool.or_eq_true, decide_eq_true_eq] at hc
    simp only [List.any_cons, List.any_nil, Bool.or_eq_false_iff] at hp
    rcases hc with ((rfl | rfl) | rfl) | rfl <;> simp_all

theorem isLetter_eq_false_of_isDigit {c : Char} (h : isDigit c = true) : isLetter c = false := by
  cases hc : isLetter c with
  | false => rfl
  | true => rw [isDigit_eq_false_of_isLetter hc] at h; cases h

theorem takeWhile_of_ends {p : Char → Bool} {cs : List Char}
    (h : ∀ c r, cs = c :: r → p c = false) : cs.takeWhile p = [] ∧ cs.dropWhile p = cs := by
  cases cs with
  | nil => exact ⟨rfl, rfl⟩
  | cons c cs =>
    have hc := h c cs rfl
    exact ⟨List.takeWhile_cons_of_neg (by simp [hc]), List.dropWhile_cons_of_neg (by simp [hc])⟩

namespace Spelt

variable {c : Char} {cs r : List Char} {ts : List Token}

theorem nil : Spelt [] [] := by
  constructor <;> simp

theorem lexeme {k : Kind} {w : List Char} (hw : Piece.first c cs = (.lexeme k w, r))
    (h : Spelt r ts) : Spelt (c :: cs) (written k w :: ts) := by
  constructor
  · rw [Piece.split_cons, hw, List.filterMap_cons, ← h.tokens]
    rfl
  · rw [Piece.split_cons, hw, List.filterMap_cons]
    exact h.faults

theorem space (h : Spelt cs ts) : Spelt (' ' :: cs) ts := by
  have hw : Piece.first ' ' cs = (.layout ' ', cs) := rfl
  constructor
  · rw [Piece.split_cons, hw, List.filterMap_cons, ← h.tokens]
    rfl
  · rw [Piece.split_cons, hw, List.filterMap_cons]
    exact h.faults

theorem word {w : List Char} (hne : w ≠ []) (hw : ∀ c ∈ w, isLetter c = true) (hcs : Ends cs)
    (h : Spelt cs ts) : Spelt (w ++ cs) (written (Kind.ofWord (String.ofList w)) w :: ts) := by
  cases w with
  | nil => exact absurd rfl hne
  | cons c w =>
    have hc : isLetter c = true := hw c List.mem_cons_self
    have hall : ∀ d ∈ w, isLetter d = true := fun d hd => hw d (List.mem_cons_of_mem _ hd)
    obtain ⟨htake, hdrop⟩ := takeWhile_of_ends fun d r hd => (hcs d r hd).1
    rw [List.cons_append]
    refine lexeme ?_ h
    rw [Piece.first, if_neg (by simp [isLayout_eq_false (p := isLetter) (by decide) hc]),
      if_pos hc, Piece.word, List.takeWhile_append_of_pos hall, List.dropWhile_append_of_pos hall,
      htake, hdrop, List.append_nil]

theorem first_of_isDigit (hc : isDigit c = true) (cs : List Char) :
    Piece.first c cs = Piece.number c cs := by
  rw [Piece.first, if_neg (by simp [isLayout_eq_false (p := isDigit) (by decide) hc]),
    if_neg (by simp [isLetter_eq_false_of_isDigit hc]), if_pos hc]

theorem whole {w : List Char} (hw : isDigits w = true) (hcs : Ends cs) (h : Spelt cs ts) :
    Spelt (w ++ cs) (written .int w :: ts) := by
  simp only [isDigits, Bool.and_eq_true, decide_eq_true_eq, List.all_eq_true] at hw
  obtain ⟨hne, hw⟩ := hw
  cases w with
  | nil => exact absurd rfl hne
  | cons c w =>
    have hc : isDigit c = true := hw c List.mem_cons_self
    have hall : ∀ d ∈ w, isDigit d = true := fun d hd => hw d (List.mem_cons_of_mem _ hd)
    obtain ⟨htake, hdrop⟩ := takeWhile_of_ends fun d r hd => (hcs d r hd).2.1
    rw [List.cons_append]
    refine lexeme ?_ h
    rw [first_of_isDigit hc, Piece.number, List.takeWhile_append_of_pos hall,
      List.dropWhile_append_of_pos hall, htake, hdrop, List.append_nil]
    split
    · next d r hd => exact absurd rfl (hcs _ _ rfl).2.2
    · rfl

theorem fraction {w v : List Char} (hw : isDigits w = true) (hv : isDigits v = true)
    (hcs : Ends cs) (h : Spelt cs ts) :
    Spelt (w ++ '.' :: (v ++ cs)) (written .double (w ++ '.' :: v) :: ts) := by
  simp only [isDigits, Bool.and_eq_true, decide_eq_true_eq, List.all_eq_true] at hw hv
  obtain ⟨hne, hw⟩ := hw
  obtain ⟨hne', hv⟩ := hv
  cases w with
  | nil => exact absurd rfl hne
  | cons c w =>
    cases v with
    | nil => exact absurd rfl hne'
    | cons d v =>
      have hc : isDigit c = true := hw c List.mem_cons_self
      have hall : ∀ d ∈ w, isDigit d = true := fun d hd => hw d (List.mem_cons_of_mem _ hd)
      have hd : isDigit d = true := hv d List.mem_cons_self
      have hall' : ∀ d ∈ v, isDigit d = true := fun d hd => hv d (List.mem_cons_of_mem _ hd)
      have hpoint : isDigit '.' = false := by decide
      obtain ⟨htake, hdrop⟩ := takeWhile_of_ends fun d r hd => (hcs d r hd).2.1
      rw [List.cons_append]
      refine lexeme ?_ h
      rw [first_of_isDigit hc, Piece.number, List.takeWhile_append_of_pos hall,
        List.dropWhile_append_of_pos hall, List.takeWhile_cons_of_neg (by simp [hpoint]),
        List.dropWhile_cons_of_neg (by simp [hpoint]), List.cons_append]
      simp only [hd, if_true, List.append_nil, List.takeWhile_append_of_pos hall',
        List.dropWhile_append_of_pos hall', htake, hdrop]

theorem number {t : Token} (ht : t.isNumber = true) (hcs : Ends cs) (h : Spelt cs ts) :
    Spelt (t.lexeme.toList ++ cs) (written t.kind t.lexeme.toList :: ts) := by
  unfold isNumber at ht
  split at ht
  · next hk =>
    rw [hk]
    exact whole ht hcs h
  · next hk =>
    rw [Bool.and_eq_true] at ht
    obtain ⟨hw, ht⟩ := ht
    split at ht
    · next v hv =>
      have hcat := List.takeWhile_append_dropWhile (p := isDigit) (l := t.lexeme.toList)
      rw [hv] at hcat
      rw [hk, ← hcat, List.append_assoc]
      exact fraction hw ht hcs h
    · cases ht
  · cases ht

theorem keyword (k : Keyword) (hcs : Ends cs) (h : Spelt cs ts) :
    Spelt (k.spelling.toList ++ cs) (written .keyword k.spelling.toList :: ts) := by
  have hk : Kind.ofWord (String.ofList k.spelling.toList) = .keyword := by
    rw [String.ofList_toList, Kind.ofWord, if_pos (Keyword.reserves_spelling k)]
  have hne : k.spelling.toList ≠ [] := by cases k <;> decide
  have hall : k.spelling.toList.all isLetter = true := by cases k <;> decide
  have hw := word hne (List.all_eq_true.mp hall) hcs h
  rwa [hk] at hw

theorem name {x : String} (hx : isName x = true) (hcs : Ends cs) (h : Spelt cs ts) :
    Spelt (x.toList ++ cs) (written .identifier x.toList :: ts) := by
  simp only [isName, Bool.and_eq_true, decide_eq_true_eq, List.all_eq_true, Bool.not_eq_true'] at hx
  obtain ⟨⟨hne, hall⟩, hres⟩ := hx
  have hk : Kind.ofWord (String.ofList x.toList) = .identifier := by
    rw [String.ofList_toList, Kind.ofWord, if_neg (by simp [hres])]
  have hw := word (w := x.toList) (by simpa using hne) hall hcs h
  rwa [hk] at hw

theorem sign {k : Kind} {s : String} (hk : k.sign? = some s) (h : Spelt cs ts) :
    Spelt (s.toList ++ ' ' :: cs) (written k s.toList :: ts) := by
  cases k <;> cases hk <;> exact lexeme rfl h.space

/-! A sign that is never part of a longer one may stand before anything. -/

theorem opening (h : Spelt cs ts) : Spelt ('(' :: cs) (written .lparen ['('] :: ts) :=
  lexeme rfl h

theorem closing (h : Spelt cs ts) : Spelt (')' :: cs) (written .rparen [')'] :: ts) :=
  lexeme rfl h

theorem comma (h : Spelt cs ts) : Spelt (',' :: cs) (written .comma [','] :: ts) :=
  lexeme rfl h

theorem plus (h : Spelt cs ts) : Spelt ('+' :: cs) (written .plus ['+'] :: ts) :=
  lexeme rfl h

theorem minus (hcs : ∀ r, cs ≠ '>' :: r) (h : Spelt cs ts) :
    Spelt ('-' :: cs) (written .minus ['-'] :: ts) := by
  refine lexeme ?_ h
  show Piece.sign '-' cs = _
  unfold Piece.sign
  split <;> simp_all

end Spelt

/-! ## Scanned tokens are genuine -/

namespace Piece

/-- a lexeme whose token is genuine, or no lexeme -/
def isGenuine (x : Piece) : Bool := x.token?.all Token.isGenuine

theorem isGenuine_word {c : Char} (hc : isLetter c = true) (cs : List Char) :
    (word c cs).1.isGenuine = true := by
  have hne : c :: cs.takeWhile isLetter ≠ [] := List.cons_ne_nil _ _
  have hall : (c :: cs.takeWhile isLetter).all isLetter = true := by
    rw [List.all_cons, hc, List.all_takeWhile]
    rfl
  show (written (Kind.ofWord (String.ofList (c :: cs.takeWhile isLetter)))
    (c :: cs.takeWhile isLetter)).isGenuine = true
  generalize c :: cs.takeWhile isLetter = w at hne hall
  unfold Kind.ofWord
  split
  · next hk => simp [written, Kind.hasLiteral, Token.isGenuine, hk]
  · next hk =>
    have hname : isName (String.ofList w) = true := by
      simpa [isName, hk, hne, ← String.toList_inj] using hall
    simp [written, Kind.hasLiteral, Token.isGenuine, hname]

theorem isGenuine_number {c : Char} (hc : isDigit c = true) (cs : List Char) :
    (number c cs).1.isGenuine = true := by
  have hall : isDigits (c :: cs.takeWhile isDigit) = true := by
    simp [isDigits, hc]
  unfold number
  split
  · next d r hr =>
    split
    · next hd =>
      have hfrac : isDigits (d :: r.takeWhile isDigit) = true := by
        simp [isDigits, hd]
      have hpoint : isDigit '.' = false := by decide
      have hdigits : ∀ x ∈ c :: cs.takeWhile isDigit, isDigit x = true := by
        rw [isDigits, Bool.and_eq_true, List.all_eq_true] at hall
        exact hall.2
      show (written .double (c :: cs.takeWhile isDigit ++ '.' :: d :: r.takeWhile isDigit)).isNumber
        = true
      generalize c :: cs.takeWhile isDigit = w at hall hdigits
      simp only [isNumber, written, String.toList_ofList, List.takeWhile_append_of_pos hdigits,
        List.dropWhile_append_of_pos hdigits]
      rw [List.takeWhile_cons_of_neg (by simp [hpoint]),
        List.dropWhile_cons_of_neg (by simp [hpoint]), List.append_nil, hall]
      exact hfrac
    · simpa [isGenuine, token?, written, Token.isGenuine, isNumber, Kind.hasLiteral] using hall
  · simpa [isGenuine, token?, written, Token.isGenuine, isNumber, Kind.hasLiteral] using hall

theorem isGenuine_sign (c : Char) (cs : List Char) : (sign c cs).1.isGenuine = true := by
  unfold sign
  split <;> rfl

theorem isGenuine_first (c : Char) (cs : List Char) : (first c cs).1.isGenuine = true := by
  unfold first
  split
  · rfl
  split
  · next hc => exact isGenuine_word hc cs
  split
  · next hc => exact isGenuine_number hc cs
  · exact isGenuine_sign c cs

theorem isGenuine_of_mem_split {x : Piece} {cs : List Char} (hx : x ∈ split cs) :
    x.isGenuine = true := by
  fun_induction split cs with
  | case1 => cases hx
  | case2 c cs ih =>
    rcases List.mem_cons.mp hx with rfl | hx
    · exact isGenuine_first c cs
    · exact ih hx

end Piece

/-! ## The tokens of a scan -/

def scanned (cs : List Char) : List Token := (placed cs).filterMap Placed.token?

theorem map_unplaced_place (p : Position) (xs : List Piece) :
    ((Placed.place p xs).filterMap Placed.token?).map unplaced = xs.filterMap Piece.token? := by
  induction xs generalizing p with
  | nil => rfl
  | cons x xs ih =>
    rw [Placed.place_cons, List.filterMap_cons, List.filterMap_cons]
    cases x with
    | lexeme k w =>
      show unplaced ⟨k, String.ofList w, _, p⟩ :: List.map unplaced _ = written k w :: _
      rw [ih]
      rfl
    | layout c => exact ih _
    | skipped f => exact ih _

theorem map_fault_place (p : Position) (xs : List Piece) :
    ((Placed.place p xs).filterMap Placed.diagnostic?).map Diagnostic.fault =
      xs.filterMap Piece.fault? := by
  induction xs generalizing p with
  | nil => rfl
  | cons x xs ih =>
    rw [Placed.place_cons, List.filterMap_cons, List.filterMap_cons]
    cases x with
    | lexeme k w => exact ih _
    | layout c => exact ih _
    | skipped f =>
      show f :: List.map Diagnostic.fault _ = f :: _
      rw [ih]

theorem Spelt.map_unplaced {cs : List Char} {ts : List Token} (h : Spelt cs ts) :
    (scanned cs).map unplaced = ts := by
  rw [scanned, placed, map_unplaced_place, h.tokens]

theorem Spelt.diagnostics {cs : List Char} {ts : List Token} (h : Spelt cs ts) :
    (scan cs).diagnostics = [] := by
  have hf := map_fault_place Position.start (Piece.split cs)
  rw [h.faults, List.map_eq_nil_iff] at hf
  exact hf

theorem isGenuine_of_mem_scanned {t : Token} {cs : List Char} (ht : t ∈ scanned cs) :
    t.isGenuine = true := by
  have hu : t.unplaced ∈ (Piece.split cs).filterMap Piece.token? := by
    rw [← map_unplaced_place Position.start]
    exact List.mem_map_of_mem ht
  obtain ⟨x, hx, hxt⟩ := List.mem_filterMap.mp hu
  have hgen := Piece.isGenuine_of_mem_split hx
  rw [Piece.isGenuine, hxt] at hgen
  exact hgen

theorem kind_ne_eof {t : Token} (ht : t.isGenuine = true) : t.kind ≠ .eof := by
  intro hk
  simp [isGenuine, hk, Kind.sign?] at ht

/-- the words of a scanned text are the tokens before the end mark -/
theorem takeWhile_scan (cs : List Char) :
    (scan cs).tokens.takeWhile (fun t => t.kind ≠ .eof) = scanned cs := by
  show (scanned cs ++ [Token.endAt _]).takeWhile _ = _
  rw [List.takeWhile_append_of_pos]
  · rw [List.takeWhile_cons_of_neg (by simp [Token.endAt]), List.append_nil]
  · intro t ht
    simpa using kind_ne_eof (isGenuine_of_mem_scanned ht)

end ExprShell
