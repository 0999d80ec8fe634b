import ExprShell.Proofs.Token.Places

/-!
# Scanning with a cursor

`scan` cuts a text into pieces and then puts them in their places.  Here a cursor goes over the same
text one character at a time, and never looks further than one character ahead:

* behind the last character there is a sentinel, the character with the code 0, which may stand in
  the text too (`Cursor.ch`, `Cursor.peek`);
* line and column are counted along, and it is the character behind a line feed that begins the new
  line (`Cursor.readChar`);
* a token is the text between two places of the cursor (`Cursor.since`);
* a character with which nothing begins is written down and passed, and the search for a token
  begins anew (`Cursor.next`).

A cursor gives the tokens that a `Reader` gives, one at a time, and to the end those of `scan`.

* `Cursor.At`              the cursor stands behind some characters and before the others;
* `Cursor.dispatch_takes`  what begins at the cursor is the first piece of the text ahead;
* `Cursor.next_follows`    the next token is that of the reader;
* `Cursor.scanAll_eq`      all tokens are those of the scan.
-/

namespace ExprShell
open Text Token

/-- the character that stands for none -/
def nul : Char := Char.ofNat 0

/-- a place in a text, with the line and the column counted so far, and what was skipped -/
structure Cursor where
  input : List Char
  pos : Nat
  line : Int
  col : Int
  skipped : List Diagnostic

namespace Cursor

def ofText (cs : List Char) : Cursor := ⟨cs, 0, 1, 1, []⟩

def ch (l : Cursor) : Char := l.input[l.pos]?.getD nul

def peek (l : Cursor) : Char := l.input[l.pos + 1]?.getD nul

/-- goes on by one character, but not beyond the end -/
def readChar (l : Cursor) : Cursor where
  input := l.input
  pos := if l.pos < l.input.length then l.pos + 1 else l.pos
  line := if l.ch = '\n' then l.line + 1 else l.line
  col := (if l.ch = '\n' then 0 else l.col) + 1
  skipped := l.skipped

theorem pos_readChar {l : Cursor} (h : l.pos < l.input.length) : l.readChar.pos = l.pos + 1 :=
  if_pos h

/-- goes on while the characters are of some sort -/
def skipWhile (p : Char → Bool) (l : Cursor) : Cursor :=
  if l.pos < l.input.length ∧ p l.ch then skipWhile p l.readChar else l
termination_by l.input.length - l.pos
decreasing_by
  next h =>
  rw [pos_readChar h.1]
  exact Nat.sub_lt_sub_left h.1 (Nat.lt_succ_self _)

def token (l : Cursor) (k : Kind) (lexeme literal : String) : Token :=
  ⟨k, lexeme, literal, ⟨l.line, l.col⟩⟩

def since (l : Cursor) (start : Nat) : String :=
  String.ofList ((l.input.drop start).take (l.pos - start))

/-- writes down that the character at the cursor is skipped, and passes it -/
def skip (l : Cursor) (f : Fault) : Cursor :=
  { l.readChar with skipped := l.skipped ++ [⟨⟨l.line, l.col⟩, f⟩] }

def readIdentifier (l : Cursor) : Token × Cursor :=
  let stop := l.skipWhile isLetter
  let text := stop.since l.pos
  (l.token (Kind.ofWord text) text text, stop)

/-- a point belongs to the number if a digit stands behind it -/
def readNumber (l : Cursor) : Token × Cursor :=
  let whole := l.skipWhile isDigit
  if whole.ch = '.' ∧ isDigit whole.peek then
    let stop := whole.readChar.skipWhile isDigit
    (l.token .double (stop.since l.pos) (stop.since l.pos), stop)
  else (l.token .int (whole.since l.pos) (whole.since l.pos), whole)

def one (l : Cursor) (k : Kind) (lexeme : String) : Option Token × Cursor :=
  (some (l.token k lexeme ""), l.readChar)

/-- an operator of two characters, if the second one is there -/
def two (l : Cursor) (second : Char) (k : Kind) (lexeme : String)
    (otherwise : Option Token × Cursor) : Option Token × Cursor :=
  if l.peek = second then (some (l.token k lexeme ""), l.readChar.readChar) else otherwise

/-- what begins at the cursor, which stands on no layout: a token, or a character to be skipped -/
def dispatch (l : Cursor) : Option Token × Cursor :=
  if l.ch = nul then
    if l.input.length ≤ l.pos then (some (l.token .eof "" ""), l)
    else (none, l.skip (.illegal l.ch))
  else match l.ch with
    | '(' => l.one .lparen "("
    | ')' => l.one .rparen ")"
    | ',' => l.one .comma ","
    | '+' => l.one .plus "+"
    | '*' => l.one .mul "*"
    | '/' => l.one .div "/"
    | '-' => l.two '>' .arrow "->" (l.one .minus "-")
    | '=' => l.two '=' .ee "==" (l.one .equal "=")
    | '!' => l.two '=' .ne "!=" (none, l.skip .loneBang)
    | '<' => l.two '=' .lte "<=" (l.one .lt "<")
    | '>' => l.two '=' .gte ">=" (l.one .gt ">")
    | c =>
      if isLetter c then (some l.readIdentifier.1, l.readIdentifier.2)
      else if isDigit c then (some l.readNumber.1, l.readNumber.2)
      else (none, l.skip (.illegal c))

/-! ## Where the cursor stands -/

/-- the cursor stands behind the characters `before`, the characters `cs` are ahead, and the
characters in `ds` were skipped -/
structure At (l : Cursor) (before cs : List Char) (ds : List Diagnostic) : Prop where
  input : l.input = before ++ cs
  pos : l.pos = before.length
  place : (⟨l.line, l.col⟩ : Position) = .behind before
  skipped : l.skipped = ds

theorem at_ofText (cs : List Char) : (ofText cs).At [] cs [] := ⟨rfl, rfl, rfl, rfl⟩

namespace At

variable {l : Cursor} {before cs : List Char} {c : Char} {ds : List Diagnostic}

theorem ch_eq (h : l.At before cs ds) : l.ch = cs.headD nul := by
  rw [ch, h.input, h.pos, List.getElem?_append_right (Nat.le_refl _), Nat.sub_self]
  cases cs <;> rfl

theorem peek_eq (h : l.At before (c :: cs) ds) : l.peek = cs.headD nul := by
  rw [peek, h.input, h.pos, List.getElem?_append_right (Nat.le_add_right _ 1),
    Nat.add_sub_cancel_left]
  cases cs <;> rfl

theorem lt_length (h : l.At before (c :: cs) ds) : l.pos < l.input.length := by
  rw [h.pos, h.input, List.length_append, List.length_cons]
  omega

theorem readChar (h : l.At before (c :: cs) ds) : l.readChar.At (before ++ [c]) cs ds where
  input := by
    rw [List.append_assoc]
    exact h.input
  pos := by
    rw [pos_readChar h.lt_length, h.pos, List.length_append]
    rfl
  place := by
    have hplace := h.place
    rw [Position.behind_concat, ← hplace, Position.next]
    show (⟨if l.ch = '\n' then _ else _, (if l.ch = '\n' then _ else _) + 1⟩ : Position) = _
    rw [h.ch_eq, List.headD_cons]
    by_cases hc : c = '\n'
    · rw [if_pos hc, if_pos hc, if_pos hc]
      rfl
    · rw [if_neg hc, if_neg hc, if_neg hc]
  skipped := h.skipped

theorem skip (h : l.At before (c :: cs) ds) (f : Fault) :
    (l.skip f).At (before ++ [c]) cs (ds ++ [⟨.behind before, f⟩]) where
  input := h.readChar.input
  pos := h.readChar.pos
  place := h.readChar.place
  skipped := by
    show l.skipped ++ _ = _
    rw [h.skipped, h.place]

theorem skipWhile (p : Char → Bool) (h : l.At before cs ds) :
    (l.skipWhile p).At (before ++ cs.takeWhile p) (cs.dropWhile p) ds := by
  induction cs generalizing before l with
  | nil =>
    rw [Cursor.skipWhile, if_neg, List.takeWhile_nil, List.append_nil]
    · exact h
    · rw [h.pos, h.input, List.append_nil]
      exact fun hlt => Nat.lt_irrefl _ hlt.1
  | cons c cs ih =>
    rw [Cursor.skipWhile, h.ch_eq]
    by_cases hc : p c
    · rw [if_pos ⟨h.lt_length, hc⟩, List.takeWhile_cons_of_pos hc, List.dropWhile_cons_of_pos hc]
      have hrest := ih h.readChar
      rwa [List.append_assoc] at hrest
    · rw [if_neg (fun hp => hc hp.2), List.takeWhile_cons_of_neg hc, List.dropWhile_cons_of_neg hc,
        List.append_nil]
      exact h

theorem since {w : List Char} {l' : Cursor} (h : l'.At (before ++ w) cs ds) :
    l'.since before.length = String.ofList w := by
  rw [Cursor.since, h.input, h.pos, List.append_assoc, List.drop_left, List.length_append,
    Nat.add_sub_cancel_left, List.take_left]

end At

/-! ## One piece -/

/-- what a cursor behind `before` gives, and where it is then, if it takes this piece -/
def Takes (y : Option Token × Cursor) (before : List Char) (ds : List Diagnostic)
    (x : Piece × List Char) : Prop :=
  y.1 = (⟨.behind before, x.1⟩ : Placed).token? ∧
    y.2.At (before ++ x.1.text) x.2 (ds ++ (⟨.behind before, x.1⟩ : Placed).diagnostic?.toList)

section

variable {l : Cursor} {before cs : List Char} {c : Char} {ds : List Diagnostic}

theorem takes_lexeme (h : l.At before (c :: cs) ds) {l' : Cursor} {k : Kind} {w r : List Char}
    (h' : l'.At (before ++ w) r ds) {s literal : String} (hs : s = String.ofList w)
    (hl : literal = if k.hasLiteral then s else "") :
    Takes (some (l.token k s literal), l') before ds (.lexeme k w, r) := by
  subst hs hl
  refine ⟨?_, ?_⟩
  · rw [token, h.place]
    rfl
  · show l'.At (before ++ w) r (ds ++ [])
    rwa [List.append_nil]

theorem takes_skipped (h : l.At before (c :: cs) ds) {f : Fault} (hf : f.char = c) :
    Takes (none, l.skip f) before ds (.skipped f, cs) := by
  subst hf
  exact ⟨rfl, h.skip f⟩

theorem one_takes (h : l.At before (c :: cs) ds) {k : Kind} (hk : k.hasLiteral = false)
    {s : String} (hs : s = String.ofList [c]) :
    Takes (l.one k s) before ds (.lexeme k [c], cs) := by
  apply takes_lexeme h h.readChar hs
  rw [hk]
  rfl

theorem two_takes (h : l.At before (c :: cs) ds) {d : Char} (hd : d ≠ nul) {k : Kind}
    (hk : k.hasLiteral = false) {s : String} (hs : s = String.ofList [c, d])
    (hlong : ∀ r, Piece.sign c (d :: r) = (.lexeme k [c, d], r))
    {y : Option Token × Cursor} (hshort : cs.head? ≠ some d → Takes y before ds (Piece.sign c cs)) :
    Takes (l.two d k s y) before ds (Piece.sign c cs) := by
  rw [two, h.peek_eq]
  by_cases hcs : cs.head? = some d
  · obtain ⟨r, rfl⟩ := List.head?_eq_some_iff.mp hcs
    rw [List.headD_cons, if_pos rfl, hlong]
    have h' := h.readChar.readChar
    rw [List.append_assoc] at h'
    apply takes_lexeme h h' hs
    rw [hk]
    rfl
  · rw [if_neg]
    · exact hshort hcs
    · intro hhead
      cases cs with
      | nil => exact hd hhead.symm
      | cons e r => exact hcs (congrArg some hhead)

theorem readIdentifier_takes (h : l.At before (c :: cs) ds) (hc : isLetter c = true) :
    Takes (some l.readIdentifier.1, l.readIdentifier.2) before ds (Piece.word c cs) := by
  have h' := h.skipWhile isLetter
  rw [List.takeWhile_cons_of_pos hc, List.dropWhile_cons_of_pos hc] at h'
  have hsince :
      (l.skipWhile isLetter).since l.pos = String.ofList (c :: cs.takeWhile isLetter) := by
    rw [h.pos]
    exact h'.since
  rw [readIdentifier, hsince]
  apply takes_lexeme h h' rfl
  rw [Kind.ofWord]
  split <;> rfl

theorem readNumber_takes (h : l.At before (c :: cs) ds) (hc : isDigit c = true) :
    Takes (some l.readNumber.1, l.readNumber.2) before ds (Piece.number c cs) := by
  have hwhole := h.skipWhile isDigit
  rw [List.takeWhile_cons_of_pos hc, List.dropWhile_cons_of_pos hc] at hwhole
  unfold readNumber Piece.number
  generalize l.skipWhile isDigit = whole at hwhole
  have hint : Takes (some (l.token .int (whole.since l.pos) (whole.since l.pos)), whole) before ds
      (.lexeme .int (c :: cs.takeWhile isDigit), cs.dropWhile isDigit) := by
    rw [h.pos]
    exact takes_lexeme h hwhole hwhole.since rfl
  generalize cs.dropWhile isDigit = r at hwhole hint
  split
  · next d r =>
    have hpoint : whole.ch = '.' := hwhole.ch_eq
    have hnext : whole.peek = d := hwhole.peek_eq
    by_cases hd : isDigit d = true
    · rw [if_pos ⟨hpoint, hnext ▸ hd⟩, if_pos hd]
      have hstop := hwhole.readChar.skipWhile isDigit
      rw [List.takeWhile_cons_of_pos hd, List.dropWhile_cons_of_pos hd, List.append_assoc,
        List.append_assoc] at hstop
      rw [h.pos]
      exact takes_lexeme h hstop hstop.since rfl
    · rw [if_neg (fun hp => hd (hnext ▸ hp.2)), if_neg hd]
      exact hint
  · next hnone =>
    rw [if_neg]
    · exact hint
    · rintro ⟨hpoint, hnext⟩
      rw [hwhole.ch_eq] at hpoint
      cases r with
      | nil => exact absurd hpoint (by decide)
      | cons e r =>
        obtain rfl : e = '.' := hpoint
        cases r with
        | nil =>
          rw [hwhole.peek_eq] at hnext
          exact absurd hnext (by decide)
        | cons d r => exact hnone d r rfl

/-- the first character of an operator of two characters, where the second one is missing -/
def alone : Char → Piece
  | '-' => .lexeme .minus ['-']
  | '=' => .lexeme .equal ['=']
  | '<' => .lexeme .lt ['<']
  | '>' => .lexeme .gt ['>']
  | _ => .skipped .loneBang

theorem sign_alone {d : Char} (hcs : cs.head? ≠ some d)
    (h : (c, d) ∈ [('-', '>'), ('=', '='), ('!', '='), ('<', '='), ('>', '=')]) :
    Piece.sign c cs = (alone c, cs) := by
  simp only [List.mem_cons, Prod.mk.injEq, List.not_mem_nil, or_false] at h
  obtain ⟨rfl, rfl⟩ | ⟨rfl, rfl⟩ | ⟨rfl, rfl⟩ | ⟨rfl, rfl⟩ | ⟨rfl, rfl⟩ := h
  all_goals
    unfold Piece.sign
    split <;> simp_all [alone]

/-- behind the last character the cursor gives the end mark, and stays -/
theorem dispatch_nil (h : l.At before [] ds) :
    l.dispatch = (some (Token.endAt (.behind before)), l) := by
  have hch : l.ch = nul := h.ch_eq
  have hlen : l.input.length = before.length := by rw [h.input, List.append_nil]
  have hle : l.input.length ≤ l.pos := Nat.le_of_eq (hlen.trans h.pos.symm)
  have hplace : l.token .eof "" "" = Token.endAt (.behind before) :=
    congrArg (Token.mk .eof "" "") h.place
  rw [dispatch, if_pos hch, if_pos hle, hplace]

/-- behind layout the cursor takes the first piece of the text ahead -/
theorem dispatch_takes (h : l.At before (c :: cs) ds) (hc : Piece.isLayout c = false) :
    Takes l.dispatch before ds (Piece.first c cs) := by
  have hch : l.ch = c := h.ch_eq
  have hsign (hl : isLetter c = false) (hd : isDigit c = false) :
      Piece.first c cs = Piece.sign c cs := by
    rw [Piece.first, if_neg (by simp [hc]), if_neg (by simp [hl]), if_neg (by simp [hd])]
  rw [dispatch, hch]
  by_cases hnul : c = nul
  · subst hnul
    rw [if_pos rfl, if_neg (Nat.not_le_of_lt h.lt_length), hsign (by decide +kernel) (by decide)]
    exact takes_skipped h rfl
  rw [if_neg hnul]
  split
  case h_1 | h_2 | h_3 | h_4 | h_5 | h_6 =>
    rw [hsign (by decide +kernel) (by decide)]
    exact one_takes h rfl rfl
  case h_7 | h_8 | h_10 | h_11 =>
    rw [hsign (by decide +kernel) (by decide)]
    refine two_takes h (by decide) rfl rfl (fun _ => rfl) fun hcs => ?_
    rw [sign_alone hcs (by decide)]
    exact one_takes h rfl rfl
  case h_9 =>
    rw [hsign (by decide +kernel) (by decide)]
    refine two_takes h (by decide) rfl rfl (fun _ => rfl) fun hcs => ?_
    rw [sign_alone hcs (by decide)]
    exact takes_skipped h rfl
  · next h₁ h₂ h₃ h₄ h₅ h₆ h₇ h₈ h₉ h₁₀ h₁₁ =>
    by_cases hl : isLetter c = true
    · rw [if_pos hl, Piece.first, if_neg (by simp [hc]), if_pos hl]
      exact readIdentifier_takes h hl
    rw [if_neg hl]
    by_cases hd : isDigit c = true
    · rw [if_pos hd, Piece.first, if_neg (by simp [hc]), if_neg hl, if_pos hd]
      exact readNumber_takes h hd
    rw [if_neg hd, hsign (Bool.eq_false_iff.mpr hl) (Bool.eq_false_iff.mpr hd)]
    have hother : Piece.sign c cs = (.skipped (.illegal c), cs) := by
      unfold Piece.sign
      split <;> first | rfl | contradiction
    rw [hother]
    exact takes_skipped h rfl

end

/-! ## One token at a time -/

theorem lt_length_of_ch {l : Cursor} (h : l.ch ≠ nul) : l.pos < l.input.length := by
  apply Nat.lt_of_not_le
  intro hle
  apply h
  rw [ch, List.getElem?_eq_none hle]
  rfl

theorem lt_length_of_dispatch {l l' : Cursor} (h : l.dispatch = (none, l')) :
    l.pos < l.input.length ∧ ∃ f, l' = l.skip f := by
  unfold dispatch at h
  by_cases hnul : l.ch = nul
  · rw [if_pos hnul] at h
    split at h
    · cases h
    · next hlt =>
      cases h
      exact ⟨Nat.lt_of_not_le hlt, _, rfl⟩
  · refine ⟨lt_length_of_ch hnul, ?_⟩
    rw [if_neg hnul] at h
    unfold two one at h
    split at h <;> repeat' split at h
    all_goals first
      | cases h
        exact ⟨_, rfl⟩
      | cases h

theorem input_skipWhile (p : Char → Bool) (l : Cursor) : (l.skipWhile p).input = l.input := by
  fun_induction skipWhile p l with
  | case1 l _ ih => exact ih
  | case2 => rfl

theorem le_pos_skipWhile (p : Char → Bool) (l : Cursor) : l.pos ≤ (l.skipWhile p).pos := by
  fun_induction skipWhile p l with
  | case1 l h ih =>
    rw [pos_readChar h.1] at ih
    exact Nat.le_of_succ_le ih
  | case2 l => exact Nat.le_refl _

/-- the next token; behind the last one it is the end mark -/
def next (l : Cursor) : Token × Cursor :=
  match _h : (l.skipWhile Piece.isLayout).dispatch with
  | (some t, l') => (t, l')
  | (none, l') => l'.next
termination_by l.input.length - l.pos
decreasing_by
  obtain ⟨hlt, f, rfl⟩ := lt_length_of_dispatch _h
  have hle := le_pos_skipWhile Piece.isLayout l
  have hpos : ((l.skipWhile Piece.isLayout).skip f).pos = (l.skipWhile Piece.isLayout).pos + 1 :=
    pos_readChar hlt
  rw [input_skipWhile] at hlt
  rw [hpos]
  show (l.skipWhile Piece.isLayout).input.length - _ < _
  rw [input_skipWhile]
  omega

theorem next_eq (l : Cursor) :
    l.next = ((l.skipWhile Piece.isLayout).dispatch.1.map fun t =>
      (t, (l.skipWhile Piece.isLayout).dispatch.2)).getD
        (l.skipWhile Piece.isLayout).dispatch.2.next := by
  rw [next]
  split
  · next h => rw [h]; rfl
  · next h => rw [h]; rfl

theorem next_layout {l : Cursor} {before cs : List Char} {c : Char} {ds : List Diagnostic}
    (h : l.At before (c :: cs) ds) (hc : Piece.isLayout c = true) :
    l.next = l.readChar.next := by
  have hskip : l.skipWhile Piece.isLayout = l.readChar.skipWhile Piece.isLayout := by
    rw [skipWhile, if_pos ⟨h.lt_length, by rwa [h.ch_eq]⟩]
  rw [next_eq, next_eq l.readChar, hskip]

end Cursor

namespace Reader

/-- the reader behind the characters `before`, with the characters `cs` ahead -/
def behind (before cs : List Char) (ds : List Diagnostic) : Reader :=
  ⟨Placed.place (.behind before) (Piece.split cs), .behind (before ++ cs), ds⟩

theorem next_behind_nil (before : List Char) (ds : List Diagnostic) :
    (behind before [] ds).next = (Token.endAt (.behind before), behind before [] ds) := by
  rw [behind, Piece.split_nil, List.append_nil]
  rfl

theorem next_behind_cons (before : List Char) (c : Char) (cs : List Char) (ds : List Diagnostic) :
    let x : Placed := ⟨.behind before, (Piece.first c cs).1⟩
    let r := behind (before ++ x.piece.text) (Piece.first c cs).2 (ds ++ x.diagnostic?.toList)
    (behind before (c :: cs) ds).next = (x.token?.map fun t => (t, r)).getD r.next := by
  intro x r
  have hstop : Position.behind (before ++ c :: cs) = r.stop := by
    show _ = Position.behind ((before ++ x.piece.text) ++ (Piece.first c cs).2)
    rw [List.append_assoc, Piece.text_first]
  rw [behind, Piece.split_cons, Placed.place_cons, Position.after_behind, hstop]
  cases hx : x.token? with
  | none => rw [next, advance, hx]; rfl
  | some t =>
    have hlexeme : ds ++ x.diagnostic?.toList = ds := by
      obtain ⟨p, x⟩ := x
      cases x with
      | lexeme k w => exact List.append_nil ds
      | layout c => cases hx
      | skipped f => cases hx
    rw [next, advance, hx]
    show (t, Reader.mk _ _ ds) = (t, Reader.mk _ _ (ds ++ x.diagnostic?.toList))
    rw [hlexeme]
    rfl

end Reader

namespace Cursor

/-- the reader has the text ahead of the cursor, in pieces -/
def Follows (l : Cursor) (r : Reader) : Prop :=
  ∃ before cs ds, l.At before cs ds ∧ r = .behind before cs ds

theorem follows_ofText (cs : List Char) : (ofText cs).Follows (Reader.ofText cs) :=
  ⟨[], cs, [], at_ofText cs, congrArg (Reader.mk _ · _) (Position.after_start cs)⟩

/-- **The next token.**  It is that of the reader, and so are those behind it. -/
theorem next_follows {l : Cursor} {r : Reader} (h : l.Follows r) :
    l.next.1 = r.next.1 ∧ l.next.2.Follows r.next.2 := by
  obtain ⟨before, cs, ds, hl, rfl⟩ := h
  induction hn : cs.length using Nat.strongRecOn generalizing l before cs ds with
  | ind n ih =>
    cases cs with
    | nil =>
      have hend := hl.skipWhile Piece.isLayout
      rw [List.takeWhile_nil, List.dropWhile_nil, List.append_nil] at hend
      rw [next_eq, dispatch_nil hend, Reader.next_behind_nil]
      exact ⟨rfl, before, [], ds, hend, rfl⟩
    | cons c cs =>
      rw [Reader.next_behind_cons]
      by_cases hc : Piece.isLayout c = true
      · -- a reader takes layout one by one, and a cursor takes all of it at once
        have hfirst : Piece.first c cs = (.layout c, cs) := if_pos hc
        have hrest := ih cs.length (hn ▸ Nat.lt_succ_self _) _ _ _ hl.readChar rfl
        rw [next_layout hl hc, hfirst]
        show _ = (Reader.behind (before ++ [c]) cs (ds ++ [])).next.1 ∧
          Follows _ (Reader.behind (before ++ [c]) cs (ds ++ [])).next.2
        rwa [List.append_nil]
      have hstay : l.skipWhile Piece.isLayout = l := by
        rw [skipWhile, hl.ch_eq]
        exact if_neg fun hp => hc hp.2
      have hlt : (Piece.first c cs).2.length < n := by
        rw [← hn]
        exact Nat.lt_succ_of_le (Piece.length_first c cs)
      obtain ⟨htoken, hafter⟩ := dispatch_takes hl (Bool.eq_false_iff.mpr hc)
      rw [next_eq, hstay, htoken]
      cases (⟨.behind before, (Piece.first c cs).1⟩ : Placed).token? with
      | some t => exact ⟨rfl, _, _, _, hafter, rfl⟩
      | none => exact ih _ hlt _ _ _ hafter rfl

/-- the tokens up to the end mark, at most `n`, and what was skipped -/
def scanAll : Nat → Cursor → Scan
  | 0, l => ⟨[], l.skipped⟩
  | n + 1, l =>
    if l.next.1.kind = .eof then ⟨[l.next.1], l.next.2.skipped⟩
    else ⟨l.next.1 :: (scanAll n l.next.2).tokens, (scanAll n l.next.2).diagnostics⟩

theorem Follows.skipped {l : Cursor} {r : Reader} (h : l.Follows r) : l.skipped = r.skipped := by
  obtain ⟨before, cs, ds, hl, rfl⟩ := h
  exact hl.skipped

theorem Follows.scanAll {l : Cursor} {r : Reader} (h : l.Follows r) {ts : List Token}
    {ds : List Diagnostic} (hr : r.Holds ts ds) (hts : ∀ t ∈ ts, t.kind ≠ .eof) {n : Nat}
    (hn : ts.length < n) : l.scanAll n = ⟨ts ++ [Token.endAt r.stop], ds⟩ := by
  obtain ⟨n, rfl⟩ := Nat.exists_eq_succ_of_ne_zero (Nat.ne_of_gt (Nat.zero_lt_of_lt hn))
  obtain ⟨htoken, hafter⟩ := next_follows h
  induction ts generalizing l r n with
  | nil =>
    rw [hr.next_nil] at htoken hafter
    have heof : l.next.1.kind = .eof := congrArg Token.kind htoken
    rw [Cursor.scanAll, if_pos heof, htoken, hafter.skipped]
    rfl
  | cons t ts ih =>
    obtain ⟨r', hnext, hstop, hr'⟩ := hr.next_cons
    rw [hnext] at htoken hafter
    obtain ⟨ht, hts⟩ := List.forall_mem_cons.mp hts
    have hlt : ts.length < n := Nat.lt_of_succ_lt_succ hn
    obtain ⟨n, rfl⟩ := Nat.exists_eq_succ_of_ne_zero (Nat.ne_of_gt (Nat.zero_lt_of_lt hlt))
    obtain ⟨htoken', hafter'⟩ := next_follows hafter
    rw [Cursor.scanAll, if_neg (htoken ▸ ht), ih hafter hr' hts n hlt htoken' hafter', htoken,
      hstop]
    rfl

end Cursor

theorem Cut.length_le {before cs : List Char} {ts : List Token} {ds : List Diagnostic}
    (h : Cut before cs ts ds) : ts.length ≤ cs.length := by
  induction h with
  | nil => exact Nat.le_refl 0
  | token t _ lexeme _ _ ih =>
    have hpos : t.lexeme.toList.length ≠ 0 := fun h =>
      lexeme (String.toList_eq_nil_iff.mp (List.length_eq_zero_iff.mp h))
    rw [List.length_cons, List.length_append]
    omega
  | layout | skipped =>
    rw [List.length_cons]
    omega

namespace Cursor

/-- **All tokens.**  A cursor that is asked until it gives the end mark gives what a scan gives. -/
theorem scanAll_eq (cs : List Char) : (ofText cs).scanAll (cs.length + 1) = ExprShell.scan cs := by
  have hkinds : ∀ t ∈ scanned cs, t.kind ≠ .eof := fun t ht =>
    kind_ne_eof (isGenuine_of_mem_scanned ht)
  exact (follows_ofText cs).scanAll (Reader.holds_ofText cs) hkinds
    (Nat.lt_succ_of_le (cut_scan cs).length_le)

end Cursor

end ExprShell
