import ExprShell.Proofs.Sentence.Blocks
import ExprShell.Proofs.Sentence.Stuck

/-!
# The cursor follows the words

A walk over tokens that begin with the words `w` and an end mark does what a reading of `w` does,
whatever tokens stand behind: it comes to the same result or the same error, and the cursor stays
among the words, or on the end mark.

* `Walk.Follows`             a walk and a reading that come to the same end;
* `Walk.Follows.bind`        two walks, one behind the other;
* `Walk.Follows.option`, `Walk.Follows.ask`   a walk beside a script: a word, a further goal;
* `Walk.follows_paramList`   the names between the parentheses of a function.
-/

namespace ExprShell.Walk
open Grammar

/-- nothing was done behind this place, and every part that was read moved the cursor forward -/
def Event.Within (last : Nat) : Event → Prop
  | .looked i => i ≤ last
  | .moved i => i ≤ last
  | .read _ i j => i < j ∧ j ≤ last

/-- from the place `i` in the words `w`, the walk and the reading come to the same end -/
inductive Follows {α β : Type} (w : List Token) (stop : Token) (m : Walk α) (i : Nat)
    (Q : α → β → Nat → Prop) : Except ParseError (β × List Token) → Prop
  | ok {a : α} {b : β} {j : Nat} {log : List Event}
    (trail : ∀ rest, m (w ++ stop :: rest) i = ⟨.ok a, j, log⟩)
    (within : ∀ ev ∈ log, ev.Within w.length) (le : i ≤ j) (stop_le : j ≤ w.length)
    (result : Q a b j) : Follows w stop m i Q (.ok (b, w.drop j))
  | error {e : ParseError} {j : Nat} {log : List Event}
    (trail : ∀ rest, m (w ++ stop :: rest) i = ⟨.error (.wrong e), j, log⟩)
    (within : ∀ ev ∈ log, ev.Within w.length) (stop_le : j ≤ w.length)
    (fuelled : e.cause ≠ .exhausted) : Follows w stop m i Q (.error e)

/-! ## Tokens by their places -/

section

variable {w ts : List Token} {t : Token} {i : Nat}

theorem lt_of_drop (h : w.drop i = t :: ts) : i < w.length := by
  apply Nat.lt_of_not_le
  intro hle
  rw [List.drop_of_length_le hle] at h
  cases h

theorem getElem?_of_le (hi : i ≤ w.length) (stop : Token) (rest : List Token) :
    (w ++ stop :: rest)[i]? = some ((w.drop i).headD stop) := by
  rcases Nat.lt_or_eq_of_le hi with hlt | rfl
  · rw [List.getElem?_append_left hlt, List.drop_eq_getElem_cons hlt,
      List.getElem?_eq_getElem hlt, List.headD_cons]
  · rw [List.getElem?_append_right (Nat.le_refl _), Nat.sub_self, List.drop_length]
    rfl

theorem advance_of_drop (h : w.drop i = t :: ts) (stop : Token) (rest : List Token) :
    advance (w ++ stop :: rest) i = ⟨.ok (), i + 1, [.moved (i + 1)]⟩ := by
  have hlt := lt_of_drop h
  have hlast : i < (w ++ stop :: rest).length - 1 := by
    rw [List.length_append, List.length_cons]
    omega
  rw [advance, if_pos hlast]
  simp only [getElem?_of_le hlt]

theorem within_moved (h : w.drop i = t :: ts) :
    ∀ ev ∈ [Event.moved (i + 1)], ev.Within w.length :=
  List.forall_mem_singleton.mpr (lt_of_drop h)

end

namespace Follows

variable {α β γ δ : Type} {w : List Token} {stop : Token} {i : Nat} {m : Walk α}
  {Q : α → β → Nat → Prop} {R : γ → δ → Nat → Prop} {x : Except ParseError (β × List Token)}

theorem pure {a : α} {b : β} {r : List Token} (hi : i ≤ w.length) (hd : w.drop i = r)
    (h : Q a b i) : Follows w stop (pure a) i Q (.ok (b, r)) := by
  rw [← hd]
  exact .ok (fun _ => rfl) (List.forall_mem_nil _) (Nat.le_refl i) hi h

/-- a step of the cursor before a walk, of which the reading has nothing -/
theorem step {s : Walk γ} {f : γ → Walk α} {c : γ} {j : Nat} {log : List Event}
    (hs : ∀ rest, s (w ++ stop :: rest) i = ⟨.ok c, j, log⟩)
    (hlog : ∀ ev ∈ log, ev.Within w.length) (hij : i ≤ j) (h : Follows w stop (f c) j Q x) :
    Follows w stop (s >>= f) i Q x := by
  cases h with
  | ok trail within le stop_le result =>
    refine .ok (fun rest => ?_) (List.forall_mem_append.mpr ⟨hlog, within⟩) (Nat.le_trans hij le)
      stop_le result
    rw [bind_of_ok (hs rest), trail rest]
    rfl
  | error trail within stop_le fuelled =>
    refine .error (fun rest => ?_) (List.forall_mem_append.mpr ⟨hlog, within⟩) stop_le fuelled
    rw [bind_of_ok (hs rest), trail rest]
    rfl

theorem bind_error {f : α → Walk γ} {e : ParseError}
    (h : Follows w stop m i Q (.error e : Except ParseError (β × List Token))) :
    Follows w stop (m >>= f) i R (.error e) := by
  cases h with
  | error trail within stop_le fuelled =>
    exact .error (fun rest => bind_of_error (trail rest) f) within stop_le fuelled

/-- the second walk goes on where the first one ended -/
theorem bind {f : α → Walk γ} {g : β × List Token → Except ParseError (δ × List Token)}
    (h : Follows w stop m i Q x)
    (hf : ∀ a b j, i ≤ j → j ≤ w.length → Q a b j → Follows w stop (f a) j R (g (b, w.drop j))) :
    Follows w stop (m >>= f) i R (x >>= g) := by
  cases x with
  | error e => exact h.bind_error
  | ok r =>
    cases h with
    | @ok a b j log trail within le stop_le result =>
      exact .step trail within le (hf a b j le stop_le result)

theorem here {f : Nat → Walk α} (h : Follows w stop (f i) i Q x) :
    Follows w stop (Walk.here >>= f) i Q x :=
  .step (fun _ => rfl) (List.forall_mem_nil _) (Nat.le_refl i) h

theorem cur {f : Token → Walk α} (hi : i ≤ w.length)
    (h : Follows w stop (f ((w.drop i).headD stop)) i Q x) :
    Follows w stop (Walk.cur >>= f) i Q x := by
  have hlog : ∀ ev ∈ [Event.looked i], ev.Within w.length := List.forall_mem_singleton.mpr hi
  refine .step (fun rest => ?_) hlog (Nat.le_refl i) h
  rw [Walk.cur, Walk.look, getElem?_of_le hi]

theorem cur_nil {f : Token → Walk α} (hi : i ≤ w.length) (hd : w.drop i = [])
    (h : Follows w stop (f stop) i Q x) : Follows w stop (Walk.cur >>= f) i Q x := by
  apply cur hi
  rw [hd]
  exact h

theorem cur_cons {t : Token} {ts : List Token} {f : Token → Walk α} (hd : w.drop i = t :: ts)
    (h : Follows w stop (f t) i Q x) : Follows w stop (Walk.cur >>= f) i Q x := by
  apply cur (Nat.le_of_lt (lt_of_drop hd))
  rw [hd]
  exact h

theorem fail {t : Token} (hi : i ≤ w.length) (ht : (w.drop i).headD stop = t)
    {c : ParseError.Cause} (hc : c ≠ .exhausted) :
    Follows w stop (Walk.fail c) i Q (.error ⟨t, c⟩) := by
  apply cur hi
  rw [ht]
  exact .error (fun _ => rfl) (List.forall_mem_nil _) hi hc

theorem fail_cons {t : Token} {ts : List Token} (hd : w.drop i = t :: ts)
    {c : ParseError.Cause} (hc : c ≠ .exhausted) :
    Follows w stop (Walk.fail c) i Q (.error ⟨t, c⟩) :=
  .fail (Nat.le_of_lt (lt_of_drop hd)) (by rw [hd, List.headD_cons]) hc

theorem advance {t : Token} {ts : List Token} {f : Unit → Walk α} (hd : w.drop i = t :: ts)
    (h : Follows w stop (f ()) (i + 1) Q x) : Follows w stop (Walk.advance >>= f) i Q x :=
  .step (advance_of_drop hd stop) (within_moved hd) (Nat.le_succ i) h

/-- a word is taken if it is of some sort, which the end mark is not -/
theorem option {bound : Names} {rd : Sentence.Reader} {p : Token → Prop} [DecidablePred p]
    {f : Token → Walk α} {m' : Walk α} {yes : Token → Sentence.Script β} {no : Sentence.Script β}
    (hi : i ≤ w.length) (hp : ¬ p stop)
    (htake : ∀ t ts, w.drop i = t :: ts → p t →
      Follows w stop (f t) (i + 1) Q ((yes t).read bound stop rd (w.drop (i + 1))))
    (hleave : Follows w stop m' i Q (no.read bound stop rd (w.drop i))) :
    Follows w stop (Walk.cur >>= fun t => if p t then Walk.advance >>= fun _ => f t else m') i Q
      ((Sentence.Script.option p yes no).read bound stop rd (w.drop i)) := by
  cases hd : w.drop i with
  | nil =>
    rw [hd] at hleave
    refine .cur_nil hi hd ?_
    rw [if_neg hp]
    exact hleave
  | cons t ts =>
    have htake := htake t ts hd
    rw [drop_next hd] at htake
    rw [hd] at hleave
    refine .cur_cons hd ?_
    rw [Sentence.Script.read]
    by_cases ht : p t
    · rw [if_pos ht, if_pos ht]
      exact .advance hd (htake ht)
    · rw [if_neg ht, if_neg ht]
      exact hleave

/-- a word of some sort, which the end mark is not, is only looked at -/
theorem stay {bound : Names} {rd : Sentence.Reader} {p : Token → Prop} [DecidablePred p]
    {m' : Walk α} {yes no : Sentence.Script β} (hi : i ≤ w.length) (hp : ¬ p stop)
    (hyes : Follows w stop m i Q (yes.read bound stop rd (w.drop i)))
    (hno : Follows w stop m' i Q (no.read bound stop rd (w.drop i))) :
    Follows w stop (Walk.cur >>= fun t => if p t then m else m') i Q
      ((Sentence.Script.stay p yes no).read bound stop rd (w.drop i)) := by
  cases hd : w.drop i with
  | nil =>
    rw [hd] at hno
    refine .cur_nil hi hd ?_
    rw [if_neg hp]
    exact hno
  | cons t ts =>
    rw [hd] at hyes hno
    refine .cur_cons hd ?_
    rw [Sentence.Script.read]
    by_cases ht : p t
    · rw [if_pos ht, if_pos ht]
      exact hyes
    · rw [if_neg ht, if_neg ht]
      exact hno

theorem ask {bound : Names} {rd : Sentence.Reader} {g : Sentence.Goal β}
    {rest : β → Sentence.Script δ} {f : α → Walk γ}
    (h : Follows w stop m i Q (rd _ g (w.drop i)))
    (hf : ∀ a b j, i ≤ j → j ≤ w.length → Q a b j →
      Follows w stop (f a) j R ((rest b).read bound stop rd (w.drop j))) :
    Follows w stop (m >>= f) i R ((Sentence.Script.ask g rest).read bound stop rd (w.drop i)) :=
  h.bind hf

theorem same {bound : Names} {rd : Sentence.Reader} {g : Sentence.Goal β}
    (h : Follows w stop m i Q (rd _ g (w.drop i))) :
    Follows w stop m i Q ((Sentence.Script.same g).read bound stop rd (w.drop i)) := by
  rw [Sentence.Script.read_same]
  exact h

/-- a part of the grammar that moves the cursor forward -/
theorem level (p : Part) (h : Follows w stop m i Q x) (hlt : ∀ a b j, Q a b j → i < j) :
    Follows w stop (Walk.level p m) i Q x := by
  cases h with
  | @ok a b j log trail within le stop_le result =>
    have hread : ∀ ev ∈ [Event.read p i j], ev.Within w.length :=
      List.forall_mem_singleton.mpr ⟨hlt a b j result, stop_le⟩
    refine .ok (fun rest => ?_) (List.forall_mem_append.mpr ⟨within, hread⟩) le stop_le result
    rw [Walk.level, trail rest]
  | error trail within stop_le fuelled =>
    refine .error (fun rest => ?_) within stop_le fuelled
    rw [Walk.level, trail rest]

theorem build_bind {f : Spanned → Walk α} {j : Nat} {e : Expr} {ps : List Spanned}
    (h : Follows w stop (f ⟨e, j, i, ps⟩) i Q x) : Follows w stop (Walk.build j e ps >>= f) i Q x :=
  .step (fun _ => rfl) (List.forall_mem_nil _) (Nat.le_refl i) h

theorem build {bound : Names} {j : Nat} {e : Expr} {ps : List Spanned} (hj : j ≤ w.length)
    (present : e.isAbsent = false) (first : firstWord w i j = some e.token)
    (parts : ps.map Spanned.expr = e.present) (row : Row bound w i ps j) :
    Follows w stop (Walk.build i e ps) j (Took bound w i) (.ok (e, w.drop j)) :=
  .here (.pure hj rfl (.node hj present first parts row))

theorem leaf {bound : Names} {t : Token} {ts : List Token} {e : Expr} (hd : w.drop i = t :: ts)
    (ht : t.kind ≠ .lparen) (token : e.token = t) (present : e.isAbsent = false)
    (children : e.children = []) :
    Follows w stop (Walk.advance >>= fun _ => Walk.build i e []) i (Took bound w i)
      (.ok (e, ts)) := by
  have hfirst : firstWord w i (i + 1) = some e.token := by
    rw [token]
    exact firstWord_of_drop hd ht (Nat.lt_succ_self i)
  have hrow : Row bound w i [] (i + 1) := .nil (Nat.le_succ i)
  rw [← drop_next hd]
  exact .advance hd (.build (lt_of_drop hd) present hfirst (hrow.map_eq_present children) hrow)

/-- the reading of a level derives its tree from the words it takes, so the walk does -/
theorem derive {bound : Names} {m : Walk Spanned} {x : Parsed} {D : List Token → Expr → Prop}
    (h : Follows w stop m i (Took bound w i) x) (hreads : Sentence.Reads x (w.drop i) D)
    (hexpr : ∀ u e, D u e → Derives bound .expr u e) :
    Follows w stop m i (Got bound D w i) x := by
  cases h with
  | @ok p e j log trail within le stop_le took =>
    obtain ⟨u, hu, hd⟩ := hreads e (w.drop j) rfl
    rw [eq_extract hu stop_le] at hd
    exact .ok trail within le stop_le ⟨took, hd, took.sound_of (hexpr _ e hd)⟩
  | error trail within stop_le fuelled => exact .error trail within stop_le fuelled

end Follows

/-! ## Single words -/

section

variable {α : Type}

theorem fail_bind {β : Type} (c : ParseError.Cause) (f : β → Walk α) : fail c >>= f = fail c :=
  bind_assoc cur (fun t _ i => ⟨.error (.wrong ⟨t, c⟩), i, []⟩) f

theorem expect_bind (k : Token.Kind) (want : Want) (f : Token → Walk α) :
    expect k want >>= f = cur >>= fun t =>
      if t.kind = k then advance >>= fun _ => f t else fail (.wanted want) := by
  rw [expect, bind_assoc]
  refine bind_congr fun t => ?_
  split
  · rw [bind_assoc]
    rfl
  · exact fail_bind _ f

theorem expectWord_bind (k : Keyword) (f : Unit → Walk α) :
    expectWord k >>= f = cur >>= fun t =>
      if t.is k then advance >>= f else fail (.wanted (.word k)) := by
  rw [expectWord, bind_assoc]
  refine bind_congr fun t => ?_
  split
  · rfl
  · exact fail_bind _ f

def behindName (n : Nat) (f : String × List String → Walk α) (x : String) : Walk α := do
  let _ ← expect .lparen .opening
  let ps ← paramList n
  let _ ← expect .rparen .commaOrClosing
  let _ ← expect .arrow .arrow
  f (x, ps)

theorem funcHead_bind (n : Nat) (f : String × List String → Walk α) :
    funcHead n >>= f = cur >>= fun t =>
      if t.kind = .identifier then advance >>= fun _ => behindName n f t.literal
      else behindName n f "" := by
  have hname : funcHead n >>= f = funcName >>= behindName n f := by
    simp only [funcHead, bind_assoc, pure_bind]
    rfl
  rw [hname, funcName, bind_assoc]
  refine bind_congr fun t => ?_
  split
  · rw [bind_assoc]
    rfl
  · rfl

end

/-- do the words begin with a name and an equals sign? -/
def assignsTo : List Token → Bool
  | t :: ts => t.kind = .identifier ∧ Sentence.nextIs .equal ts
  | [] => false

section

variable {α β : Type} {bound : Names} {rd : Sentence.Reader} {w : List Token} {stop : Token}
  {i : Nat} {Q : α → β → Nat → Prop}

theorem not_is_stop (hstop : stop.kind = .eof) (k : Keyword) : ¬ stop.is k := by
  intro h
  rw [kind_of_is h] at hstop
  cases hstop

theorem follows_expect (hstop : stop.kind = .eof) {k : Token.Kind} (hk : k ≠ .eof) {want : Want}
    {f : Token → Walk α} {rest : Token → Sentence.Script β} (hi : i ≤ w.length)
    (hf : ∀ t, i + 1 ≤ w.length →
      Follows w stop (f t) (i + 1) Q ((rest t).read bound stop rd (w.drop (i + 1)))) :
    Follows w stop (expect k want >>= f) i Q
      ((Sentence.Script.expect k want rest).read bound stop rd (w.drop i)) := by
  have hne : ¬ stop.kind = k := fun h => hk (h ▸ hstop)
  rw [expect_bind]
  exact .option hi hne (fun t _ hd _ => hf t (lt_of_drop hd)) (.fail hi rfl (by simp))

theorem follows_expectWord (hstop : stop.kind = .eof) {k : Keyword} {f : Unit → Walk α}
    {rest : Sentence.Script β} (hi : i ≤ w.length)
    (hf : i + 1 ≤ w.length →
      Follows w stop (f ()) (i + 1) Q (rest.read bound stop rd (w.drop (i + 1)))) :
    Follows w stop (expectWord k >>= f) i Q
      ((Sentence.Script.expectWord k rest).read bound stop rd (w.drop i)) := by
  rw [expectWord_bind]
  exact .option hi (not_is_stop hstop k) (fun _ _ hd _ => hf (lt_of_drop hd))
    (.fail hi rfl (by simp))

theorem follows_peek {t : Token} {ts : List Token} {f : Token → Walk α}
    {x : Except ParseError (β × List Token)} (hd : w.drop i = t :: ts)
    (h : Follows w stop (f (ts.headD stop)) i Q x) : Follows w stop (peek >>= f) i Q x := by
  have hlt := lt_of_drop hd
  have hlog : ∀ ev ∈ [Event.looked (i + 1)], ev.Within w.length :=
    List.forall_mem_singleton.mpr hlt
  refine .step (fun rest => ?_) hlog (Nat.le_refl i) h
  have hin : i + 1 < (w ++ stop :: rest).length := by
    rw [List.length_append, List.length_cons]
    omega
  rw [peek, if_pos hin, look, getElem?_of_le hlt, drop_next hd]

theorem follows_assigns (hstop : stop.kind = .eof) {f : Bool → Walk α}
    {x : Except ParseError (β × List Token)} (hi : i ≤ w.length)
    (h : Follows w stop (f (assignsTo (w.drop i))) i Q x) :
    Follows w stop (assigns >>= f) i Q x := by
  have hread : Follows w stop assigns i (fun b () j => b = assignsTo (w.drop i) ∧ j = i)
      (.ok ((), w.drop i)) := by
    cases hd : w.drop i with
    | nil =>
      refine .cur_nil hi hd ?_
      rw [if_neg (by rw [hstop]; simp)]
      exact .pure hi hd ⟨rfl, rfl⟩
    | cons t ts =>
      refine .cur_cons hd ?_
      by_cases ht : t.kind = .identifier
      · rw [if_pos ht]
        refine follows_peek hd (.pure hi hd ⟨?_, rfl⟩)
        cases ts with
        | nil => simp [assignsTo, Sentence.nextIs, hstop]
        | cons u us => simp [assignsTo, Sentence.nextIs, ht]
      · rw [if_neg ht]
        exact .pure hi hd ⟨by simp [assignsTo, ht], rfl⟩
  refine hread.bind (g := fun _ => x) ?_
  rintro _ _ _ - - ⟨rfl, rfl⟩
  exact h

/-- a name with an equals sign behind it is taken, if it is bound -/
theorem follows_target (hstop : stop.kind = .eof) {t : Token} {ts : List Token} {m m' : Walk α}
    {yes : Token → Sentence.Script β} {no : Sentence.Script β} (hd : w.drop i = t :: ts)
    (htake : t.kind = .identifier →
      Follows w stop m (i + 1) Q ((yes t).read bound stop rd (w.drop (i + 1))))
    (hleave : Follows w stop m' i Q (no.read bound stop rd (w.drop i))) :
    Follows w stop
      (assigns >>= fun b =>
        if b then if bound t.literal then advance >>= fun _ => m else Walk.fail .undeclared
        else m') i Q
      ((Sentence.Script.target yes no).read bound stop rd (w.drop i)) := by
  apply follows_assigns hstop (Nat.le_of_lt (lt_of_drop hd))
  rw [drop_next hd] at htake
  rw [hd] at hleave ⊢
  rw [Sentence.Script.read]
  show Follows w stop (if decide (_ ∧ _) then _ else _) i Q _
  by_cases ht : t.kind = .identifier ∧ Sentence.nextIs .equal ts
  · rw [if_pos (decide_eq_true ht), if_pos ht]
    by_cases hb : bound t.literal
    · rw [if_pos hb, if_pos hb]
      exact .advance hd (htake ht.1)
    · rw [if_neg hb, if_neg hb]
      exact .fail_cons hd (by simp)
  · rw [if_neg (by simpa using ht), if_neg ht]
    exact hleave

end

/-! ## The head of a function -/

section

variable {w : List Token} {stop : Token} {i n : Nat} (hstop : stop.kind = .eof)
  (hi : i ≤ w.length) (hn : w.length + 1 ≤ n + i)

include hstop hi hn

theorem follows_names :
    Follows w stop (names n) i (fun a b _ => a = b) (Sentence.params stop (w.drop i)) := by
  induction n generalizing i with
  | zero => omega
  | succ n ih =>
    rw [names, expect_bind]
    cases hd : w.drop i with
    | nil =>
      refine .cur_nil hi hd ?_
      rw [if_neg (by simp [hstop])]
      exact .fail hi (by rw [hd]; rfl) (by simp)
    | cons t ts =>
      refine .cur_cons hd ?_
      rw [Sentence.params.eq_def]
      show Follows w stop _ i _ (if t.kind = .identifier then _ else _)
      by_cases ht : t.kind = .identifier
      · rw [if_pos ht, if_pos ht]
        have hlt := lt_of_drop hd
        have hnext := drop_next hd
        refine .advance hd ?_
        cases ts with
        | nil =>
          refine .cur_nil hlt hnext ?_
          rw [if_neg (by simp [hstop])]
          exact .pure hlt hnext rfl
        | cons c r =>
          refine .cur_cons hnext ?_
          show Follows w stop _ (i + 1) _ (if c.kind = .comma then _ else _)
          by_cases hc : c.kind = .comma
          · rw [if_pos hc, if_pos hc, ← drop_next hnext]
            refine .advance hnext ((ih (lt_of_drop hnext) (by omega)).bind ?_)
            rintro xs _ k - hk rfl
            exact .pure hk rfl rfl
          · rw [if_neg hc, if_neg hc]
            exact .pure hlt hnext rfl
      · rw [if_neg ht, if_neg ht]
        exact .fail_cons hd (by simp)

theorem follows_paramList :
    Follows w stop (paramList n) i (fun a b _ => a = b) (Sentence.paramList stop (w.drop i)) := by
  have hnames := follows_names hstop hi hn
  cases hd : w.drop i with
  | nil =>
    refine .cur_nil hi hd ?_
    rw [if_neg (by rw [hstop]; simp)]
    exact .pure hi hd rfl
  | cons t ts =>
    rw [hd] at hnames
    refine .cur_cons hd ?_
    by_cases ht : t.kind = .identifier
    · rw [if_pos ht, Sentence.paramList, if_pos (by simp [Sentence.nextIs, ht])]
      exact hnames
    · rw [if_neg ht, Sentence.paramList, if_neg (by simp [Sentence.nextIs, ht])]
      exact .pure hi hd rfl

end

end ExprShell.Walk
