import ExprShell.Shell.Loop
import Mathlib.Data.List.TakeWhile

/-!
# The shell drives the session

What the shell does with a line is said here without the shell: a line is trimmed, and then it is
blank, a command or a line for the session.  Of the commands only one touches the session, and none
the count of failures.  The shell does with every line just that, and so with every list of lines;
a run on bytes handles the lines of the bytes in order, up to one that asks to stop.

* `Trimmed`, `CommandWord`, `Lines`   a trimmed line, the word of a command, the lines of bytes;
* `Acts`, `Driven`          what one line does to a session and a count of failures, and what many
                            do;
* `Shell.shell_drives_session`  the shell does the same.
-/

namespace ExprShell
open Text

/-! ## Trimmed lines -/

/-- the text of a line without the white space at its ends -/
structure Trimmed (line text : List Char) : Prop where
  cut : ∃ left right, line = left ++ (text ++ right) ∧ (∀ c ∈ left, isBlank c = true) ∧
    ∀ c ∈ right, isBlank c = true
  first : ∀ c, text.head? = some c → isBlank c = false
  last : ∀ c, text.getLast? = some c → isBlank c = false

theorem trimmed_trim (line : List Char) : Trimmed line (trim line) := by
  have hleft := List.takeWhile_append_dropWhile (p := isBlank) (l := line)
  have hright :=
    List.takeWhile_append_dropWhile (p := isBlank) (l := (line.dropWhile isBlank).reverse)
  have hcut : line.dropWhile isBlank =
      trim line ++ ((line.dropWhile isBlank).reverse.takeWhile isBlank).reverse := by
    rw [trim, trimBy, ← List.reverse_append, hright, List.reverse_reverse]
  refine ⟨⟨line.takeWhile isBlank, _, by rw [← hcut, hleft], ?_, ?_⟩, ?_, ?_⟩
  · exact fun c hc => List.mem_takeWhile_imp hc
  · exact fun c hc => List.mem_takeWhile_imp (List.mem_reverse.mp hc)
  · intro c hc
    have hhead : (line.dropWhile isBlank).head? = some c := by
      rw [hcut, List.head?_append, hc]
      rfl
    have hnot := List.head?_dropWhile_not isBlank line
    rw [hhead] at hnot
    simpa using hnot
  · intro c hc
    have hnot := List.head?_dropWhile_not isBlank (line.dropWhile isBlank).reverse
    rw [trim, trimBy, List.getLast?_reverse] at hc
    rw [hc] at hnot
    simpa using hnot

/-- a text that does not begin with a blank is what is left when blanks are dropped in front -/
theorem dropWhile_isBlank {left text : List Char} (hleft : ∀ c ∈ left, isBlank c = true)
    (h : ∀ c, text.head? = some c → isBlank c = false) :
    (left ++ text).dropWhile isBlank = text := by
  rw [List.dropWhile_append_of_pos hleft]
  cases text with
  | nil => rfl
  | cons c text => exact List.dropWhile_cons_of_neg (by simp [h c rfl])

theorem Trimmed.eq_trim {line text : List Char} (h : Trimmed line text) : text = trim line := by
  obtain ⟨⟨left, right, rfl, hleft, hright⟩, hfirst, hlast⟩ := h
  have hrev : ∀ c ∈ right.reverse, isBlank c = true := fun c hc => hright c (List.mem_reverse.mp hc)
  have hdrop : (right.reverse ++ text.reverse).dropWhile isBlank = text.reverse :=
    dropWhile_isBlank hrev fun c hc => hlast c (by rwa [List.head?_reverse] at hc)
  cases text with
  | nil =>
    have hall : ∀ c ∈ left ++ ([] ++ right), isBlank c = true := by
      simpa [or_imp, forall_and] using ⟨hleft, hright⟩
    rw [trim, trimBy, List.dropWhile_eq_nil_iff.mpr hall]
    rfl
  | cons c text =>
    have hfront : (left ++ (c :: text ++ right)).dropWhile isBlank = c :: text ++ right :=
      dropWhile_isBlank hleft fun d hd => hfirst d hd
    rw [trim, trimBy, hfront, List.reverse_append, hdrop, List.reverse_reverse]

/-! ## Command words -/

/-- the word of a command, up to the first space and in small letters -/
def CommandWord (text : List Char) (w : String) : Prop :=
  ∃ word rest, text = word ++ rest ∧ ' ' ∉ word ∧ (∀ c, rest.head? = some c → c = ' ') ∧
    w = String.ofList (word.map lower)

theorem commandWord_cut (text : List Char) :
    CommandWord text (String.ofList ((Shell.cutAtSpace text).1.map lower)) := by
  refine ⟨text.takeWhile (· ≠ ' '), text.dropWhile (· ≠ ' '), ?_, ?_, ?_, rfl⟩
  · exact List.takeWhile_append_dropWhile.symm
  · intro hmem
    have h := List.mem_takeWhile_imp hmem
    simp at h
  · intro c hc
    have hnot := List.head?_dropWhile_not (fun c : Char => decide (c ≠ ' ')) text
    rw [hc] at hnot
    simpa using hnot

theorem CommandWord.eq_cut {text : List Char} {w : String} (h : CommandWord text w) :
    w = String.ofList ((Shell.cutAtSpace text).1.map lower) := by
  obtain ⟨word, rest, rfl, hword, hrest, rfl⟩ := h
  have hall : ∀ c ∈ word, decide (c ≠ ' ') = true := fun c hc =>
    decide_eq_true fun h => hword (h ▸ hc)
  have hnone : rest.takeWhile (· ≠ ' ') = [] := by
    cases rest with
    | nil => rfl
    | cons c rest => exact List.takeWhile_cons_of_neg (by simp [hrest c rfl])
  rw [Shell.cutAtSpace, List.takeWhile_append_of_pos hall, hnone, List.append_nil]

theorem Command.ofWord?_eq_reset_iff {word : List Char} :
    ofWord? word = some .reset ↔ String.ofList (word.map lower) = ":reset" := by
  simp only [ofWord?]
  generalize String.ofList (word.map lower) = w
  constructor
  · intro h
    by_contra hw
    grind
  · rintro rfl
    decide

theorem Command.ofWord?_eq_quit_iff {word : List Char} :
    ofWord? word = some .quit ↔ String.ofList (word.map lower) ∈ [":quit", ":q", ":exit"] := by
  simp only [ofWord?, List.mem_cons, List.not_mem_nil, or_false]
  generalize String.ofList (word.map lower) = w
  split
  · next h => simpa using h
  · next h => grind

/-! ## One line -/

/-- what a line does to a session and a count of failures -/
inductive Acts (fuel : Nat) (line : List Char) : Session × Nat → Session × Nat → Prop
  | blank {s : Session} {n : Nat} (hline : Trimmed line []) : Acts fuel line (s, n) (s, n)
  | command {s : Session} {n : Nat} {text : List Char} {w : String}
    (hline : Trimmed line (':' :: text)) (hword : CommandWord (':' :: text) w)
    (hw : w ≠ ":reset") : Acts fuel line (s, n) (s, n)
  | reset {s : Session} {n : Nat} {text : List Char} (hline : Trimmed line (':' :: text))
    (hword : CommandWord (':' :: text) ":reset") : Acts fuel line (s, n) (s.reset, n)
  | passed {s s' : Session} {n : Nat} {c : Char} {text : List Char} {r : LineResult}
    (hline : Trimmed line (c :: text)) (hc : c ≠ ':') (heval : s.eval fuel (c :: text) = (r, s'))
    (hparse : ∀ e, r.answer ≠ .parseError e) (heval' : ∀ e, r.answer ≠ .evalError e) :
    Acts fuel line (s, n) (s', n)
  | failed {s s' : Session} {n : Nat} {c : Char} {text : List Char} {r : LineResult}
    (hline : Trimmed line (c :: text)) (hc : c ≠ ':') (heval : s.eval fuel (c :: text) = (r, s'))
    (herror : (∃ e, r.answer = .parseError e) ∨ ∃ e, r.answer = .evalError e) :
    Acts fuel line (s, n) (s', n + 1)

inductive Driven (fuel : Nat) : List (List Char) → Session × Nat → Session × Nat → Prop
  | nil {x : Session × Nat} : Driven fuel [] x x
  | cons {line : List Char} {lines : List (List Char)} {x y z : Session × Nat}
    (first : Acts fuel line x y) (rest : Driven fuel lines y z) : Driven fuel (line :: lines) x z

namespace Shell

def state (sh : Shell) : Session × Nat := (sh.session, sh.failures)

section
variable {sh : Shell} {fuel : Nat} {line text : List Char}

theorem handle_of_nil (h : trim line = []) : sh.handle fuel line = (Reply.silent, sh) := by
  simp only [handle, h]

theorem handle_of_colon (h : trim line = ':' :: text) :
    sh.handle fuel line = sh.command (':' :: text) := by
  simp only [handle, h]

theorem handle_of_cons {c : Char} (h : trim line = c :: text) (hc : c ≠ ':') :
    sh.handle fuel line =
      (report sh.showTree (sh.session.eval fuel (c :: text)).1,
        ⟨sh.showTree, (sh.session.eval fuel (c :: text)).2,
          if isFailure (sh.session.eval fuel (c :: text)).1.answer then sh.failures + 1
          else sh.failures⟩) := by
  unfold handle
  split
  · next hnil =>
    rw [h] at hnil
    cases hnil
  · next hcolon =>
    rw [h] at hcolon
    cases hcolon
    exact absurd rfl hc
  · rw [h]

theorem isFailure_eq_false {a : Answer} (hparse : ∀ e, a ≠ .parseError e)
    (heval : ∀ e, a ≠ .evalError e) : isFailure a = false := by
  cases a with
  | value v => rfl
  | unfinished => rfl
  | parseError e => exact absurd rfl (hparse e)
  | evalError e => exact absurd rfl (heval e)

/-- one command begins the session anew; the others leave the shell as it was -/
theorem state_command (sh : Shell) {w : String} (hw : CommandWord text w) :
    (sh.command text).2.state =
      if w = ":reset" then (sh.session.reset, sh.failures) else sh.state := by
  have hreset : w = ":reset" ↔ Command.ofWord? (cutAtSpace text).1 = some .reset := by
    rw [hw.eq_cut, Command.ofWord?_eq_reset_iff]
  simp only [hreset, command]
  cases Command.ofWord? (cutAtSpace text).1 with
  | none => rfl
  | some c => cases c <;> rfl

theorem quit_readingReply (s : Session) (text : List Char) : (readingReply s text).quit = false := by
  unfold readingReply
  split
  split <;> rfl

theorem quit_report (showTree : Bool) (r : LineResult) : (report showTree r).quit = false := by
  simp only [report]
  cases r.answer <;> rfl

theorem quit_command (sh : Shell) {w : String} (hw : CommandWord text w) :
    (sh.command text).1.quit = true ↔ w ∈ [":quit", ":q", ":exit"] := by
  rw [hw.eq_cut, ← Command.ofWord?_eq_quit_iff]
  simp only [command]
  cases Command.ofWord? (cutAtSpace text).1 with
  | none => simp [Reply.silent]
  | some c => cases c <;> simp [Reply.silent, quit_readingReply]

/-- the shell does with a line what the line does -/
theorem handle_acts (sh : Shell) (fuel : Nat) (line : List Char) :
    Acts fuel line sh.state (sh.handle fuel line).2.state := by
  have htrim := trimmed_trim line
  cases h : trim line with
  | nil =>
    rw [h] at htrim
    rw [handle_of_nil h]
    exact .blank htrim
  | cons c text =>
    rw [h] at htrim
    by_cases hc : c = ':'
    · subst hc
      have hword := commandWord_cut (':' :: text)
      rw [handle_of_colon h, state_command sh hword]
      split
      · next hreset =>
        rw [hreset] at hword
        exact .reset htrim hword
      · next hreset => exact .command htrim hword hreset
    · rw [handle_of_cons h hc]
      obtain ⟨⟨r, s⟩, heval⟩ : ∃ x, sh.session.eval fuel (c :: text) = x := ⟨_, rfl⟩
      simp only [heval, state]
      cases hanswer : r.answer with
      | value v => exact .passed htrim hc heval (by simp [hanswer]) (by simp [hanswer])
      | unfinished => exact .passed htrim hc heval (by simp [hanswer]) (by simp [hanswer])
      | parseError e => exact .failed htrim hc heval (.inl ⟨e, hanswer⟩)
      | evalError e => exact .failed htrim hc heval (.inr ⟨e, hanswer⟩)

theorem state_handle_of_acts {x : Session × Nat} (h : Acts fuel line sh.state x) :
    (sh.handle fuel line).2.state = x := by
  generalize hstate : sh.state = y at h
  cases h with
  | blank hline => rw [handle_of_nil hline.eq_trim.symm, hstate]
  | command hline hword hw =>
    rw [handle_of_colon hline.eq_trim.symm, state_command sh hword, if_neg hw, hstate]
  | reset hline hword =>
    rw [handle_of_colon hline.eq_trim.symm, state_command sh hword, if_pos rfl]
    obtain ⟨rfl, rfl⟩ := Prod.mk.inj hstate
    rfl
  | passed hline hc heval hparse heval' =>
    obtain ⟨rfl, rfl⟩ := Prod.mk.inj hstate
    rw [handle_of_cons hline.eq_trim.symm hc, heval]
    have hno := isFailure_eq_false hparse heval'
    simp [state, hno]
  | failed hline hc heval herror =>
    obtain ⟨rfl, rfl⟩ := Prod.mk.inj hstate
    rw [handle_of_cons hline.eq_trim.symm hc, heval]
    obtain ⟨e, he⟩ | ⟨e, he⟩ := herror
    · simp [state, he, isFailure]
    · simp [state, he, isFailure]

theorem quit_handle_iff (sh : Shell) (fuel : Nat) (line : List Char) :
    (sh.handle fuel line).1.quit = true ↔ ∃ text w, Trimmed line (':' :: text) ∧
      CommandWord (':' :: text) w ∧ w ∈ [":quit", ":q", ":exit"] := by
  constructor
  · intro hquit
    have htrim := trimmed_trim line
    cases h : trim line with
    | nil =>
      rw [handle_of_nil h] at hquit
      cases hquit
    | cons c text =>
      by_cases hc : c = ':'
      · subst hc
        have hword := commandWord_cut (':' :: text)
        rw [handle_of_colon h, quit_command sh hword] at hquit
        exact ⟨text, _, h ▸ htrim, hword, hquit⟩
      · rw [handle_of_cons h hc, quit_report] at hquit
        cases hquit
  · rintro ⟨text, w, hline, hword, hw⟩
    rw [handle_of_colon hline.eq_trim.symm, quit_command sh hword]
    exact hw

end

/-! ## Many lines -/

def handleAll (sh : Shell) (fuel : Nat) : List (List Char) → List Reply × Shell
  | [] => ([], sh)
  | l :: ls =>
    let (r, sh) := sh.handle fuel l
    let (rs, sh) := handleAll sh fuel ls
    (r :: rs, sh)

theorem driven_iff (sh : Shell) {fuel : Nat} {lines : List (List Char)} {x : Session × Nat} :
    Driven fuel lines sh.state x ↔ (sh.handleAll fuel lines).2.state = x := by
  induction lines generalizing sh with
  | nil =>
    constructor
    · rintro ⟨⟩
      rfl
    · rintro rfl
      exact .nil
  | cons l ls ih =>
    constructor
    · rintro ⟨⟩
      next y first rest =>
      obtain rfl := state_handle_of_acts first
      exact (ih _).mp rest
    · intro h
      exact .cons (handle_acts sh fuel l) ((ih _).mpr h)

/-! ## Bytes -/

/-- the lines of bytes without their line feeds; the last need not have one -/
inductive Lines : List UInt8 → List (List UInt8) → Prop
  | nil : Lines [] []
  | last {l : List UInt8} (hne : l ≠ []) (hl : RawLine.feed ∉ l) : Lines l [l]
  | cons {l bs : List UInt8} {ls : List (List UInt8)} (hl : RawLine.feed ∉ l)
    (rest : Lines bs ls) : Lines (l ++ RawLine.feed :: bs) (l :: ls)

/-- bytes with a line feed are those before it, the line feed and those behind it -/
theorem takeWhile_append_feed {bs : List UInt8} (h : RawLine.feed ∈ bs) :
    bs.takeWhile (· ≠ RawLine.feed) ++
      RawLine.feed :: (bs.dropWhile (· ≠ RawLine.feed)).drop 1 = bs := by
  induction bs with
  | nil => cases h
  | cons b bs ih =>
    by_cases hb : b = RawLine.feed
    · simp [hb]
    · have hmem : RawLine.feed ∈ bs := by
        cases h with
        | head => exact absurd rfl hb
        | tail _ hmem => exact hmem
      simp only [ne_eq, hb, not_false_eq_true, decide_true, List.takeWhile_cons_of_pos,
        List.dropWhile_cons_of_pos, List.cons_append]
      exact congrArg (b :: ·) (ih hmem)

theorem lines_split (bs : List UInt8) : Lines bs ((RawLine.split bs).map RawLine.bytes) := by
  fun_induction RawLine.split bs with
  | case1 => exact .nil
  | case2 b bs hfeed ih =>
    have hmem : RawLine.feed ∈ b :: bs := List.contains_iff_mem.mp hfeed
    have hno : RawLine.feed ∉ (b :: bs).takeWhile (· ≠ RawLine.feed) := by
      intro h
      have hne := List.mem_takeWhile_imp h
      simp at hne
    have h := Lines.cons hno ih
    rwa [takeWhile_append_feed hmem] at h
  | case3 b bs hfeed =>
    exact .last (List.cons_ne_nil b bs) fun hmem => hfeed (List.contains_iff_mem.mpr hmem)

/-- the text of a line, one carriage return at its end dropped -/
def lineText (l : List UInt8) : List Char := decodeUtf8 (RawLine.dropCarriage l)

/-- a run that took the lines `done` and left the lines `rest` -/
structure Took (sh : Shell) (fuel : Nat) (done rest : List (List UInt8)) (t : Transcript) :
    Prop where
  handled : (t.replies, t.shell) = sh.handleAll fuel (done.map lineText)
  short : ∀ l ∈ done, l.length < lineLimit
  goes_on : ∀ r ∈ t.replies.dropLast, r.quit = false
  ends : t.error = none ∧ (rest = [] ∨ ∃ r, t.replies.getLast? = some r ∧ r.quit = true) ∨
    t.error = some .lineTooLong ∧ (∀ r ∈ t.replies, r.quit = false) ∧
      ∃ l, rest.head? = some l ∧ lineLimit ≤ l.length

namespace Took
variable {sh : Shell} {fuel : Nat} {l : List UInt8} {done rest : List (List UInt8)} {t : Transcript}

/-- a line that asks to stop is the last one taken -/
theorem of_quit (hl : l.length < lineLimit) (hquit : (sh.handle fuel (lineText l)).1.quit = true) :
    Took sh fuel [l] rest
      ⟨[(sh.handle fuel (lineText l)).1], (sh.handle fuel (lineText l)).2, none⟩ where
  handled := rfl
  short := by simpa using hl
  goes_on := by simp
  ends := .inl ⟨rfl, .inr ⟨_, rfl, hquit⟩⟩

/-- any other line is taken before the lines that follow -/
theorem cons (hl : l.length < lineLimit) (hquit : (sh.handle fuel (lineText l)).1.quit = false)
    (h : Took (sh.handle fuel (lineText l)).2 fuel done rest t) :
    Took sh fuel (l :: done) rest (t.cons (sh.handle fuel (lineText l)).1) where
  handled := by
    have hrest := h.handled
    simp only [List.map_cons, handleAll, ← hrest, Transcript.cons]
  short := by simpa using ⟨hl, h.short⟩
  goes_on := by
    intro r hr
    cases hreplies : t.replies with
    | nil => simp [Transcript.cons, hreplies] at hr
    | cons r' rs =>
      have hgo := h.goes_on
      simp only [Transcript.cons, hreplies, List.dropLast_cons_cons, List.mem_cons] at hr hgo
      obtain rfl | hr := hr
      · exact hquit
      · exact hgo r hr
  ends := by
    obtain ⟨herror, hrest | ⟨r, hlast, hr⟩⟩ | ⟨herror, hall, hlong⟩ := h.ends
    · exact .inl ⟨herror, .inl hrest⟩
    · refine .inl ⟨herror, .inr ⟨r, ?_, hr⟩⟩
      simp [Transcript.cons, List.getLast?_cons, hlast]
    · exact .inr ⟨herror, by simpa [Transcript.cons] using ⟨hquit, hall⟩, hlong⟩

end Took

theorem runLines_cons {sh : Shell} {fuel : Nat} {l : RawLine} (h : l.bytes.length < lineLimit)
    (ls : List RawLine) :
    sh.runLines fuel (l :: ls) =
      if (sh.handle fuel (lineText l.bytes)).1.quit then
        ⟨[(sh.handle fuel (lineText l.bytes)).1], (sh.handle fuel (lineText l.bytes)).2, none⟩
      else
        ((sh.handle fuel (lineText l.bytes)).2.runLines fuel ls).cons
          (sh.handle fuel (lineText l.bytes)).1 := by
  rw [runLines, if_neg (by omega)]
  rfl

theorem runLines_took (sh : Shell) (fuel : Nat) (ls : List RawLine) :
    ∃ done rest, ls.map RawLine.bytes = done ++ rest ∧
      Took sh fuel done rest (sh.runLines fuel ls) := by
  induction ls generalizing sh with
  | nil => exact ⟨[], [], rfl, rfl, by simp, by simp [runLines], .inl ⟨rfl, .inl rfl⟩⟩
  | cons l ls ih =>
    by_cases hlong : lineLimit ≤ l.bytes.length
    · have hrun : sh.runLines fuel (l :: ls) = ⟨[], sh, some .lineTooLong⟩ := if_pos hlong
      rw [hrun]
      exact ⟨[], _, rfl, rfl, by simp, by simp, .inr ⟨rfl, by simp, l.bytes, rfl, hlong⟩⟩
    · have hshort : l.bytes.length < lineLimit := Nat.lt_of_not_le hlong
      rw [runLines_cons hshort]
      split
      · next hquit => exact ⟨[l.bytes], ls.map RawLine.bytes, rfl, .of_quit hshort hquit⟩
      · next hquit =>
        obtain ⟨done, rest, hls, h⟩ := ih (sh.handle fuel (lineText l.bytes)).2
        refine ⟨l.bytes :: done, rest, by rw [List.map_cons, hls, List.cons_append], ?_⟩
        exact .cons hshort (Bool.eq_false_iff.mpr hquit) h

/-- **The shell is a driver of the session.**  Lines do to a shell what they do to a session and a
count of failures; a line asks to stop just by one of three commands; and a run on bytes takes the
lines of the bytes in order, up to one that asks to stop or is too long. -/
theorem shell_drives_session (c : Config) (logs : Bool) (fuel : Nat) :
    (∀ lines x, Driven fuel lines (Session.new c.callRule (logs && c.level.showsDebug), 0) x ↔
      ((new c logs).handleAll fuel lines).2.state = x) ∧
    (∀ (sh : Shell) (line : List Char), (sh.handle fuel line).1.quit = true ↔
      ∃ text w, Trimmed line (':' :: text) ∧ CommandWord (':' :: text) w ∧
        w ∈ [":quit", ":q", ":exit"]) ∧
    ∀ (sh : Shell) (bs : List UInt8), ∃ done rest, Lines bs (done ++ rest) ∧
      Took sh fuel done rest (sh.runLines fuel (RawLine.split bs)) := by
  refine ⟨fun lines x => ?_, fun sh line => quit_handle_iff sh fuel line, fun sh bs => ?_⟩
  · exact driven_iff (new c logs)
  · obtain ⟨done, rest, hls, htook⟩ := runLines_took sh fuel (RawLine.split bs)
    exact ⟨done, rest, hls ▸ lines_split bs, htook⟩

end Shell

end ExprShell
