import ExprShell.Proofs.Sentence.Earliest
import ExprShell.Proofs.Sentence.Levels

/-!
# Reading comes to an end before the first end mark

Every level of the grammar takes words.  A cursor that goes over all the tokens comes to the result
of `parse`; it never asks for a token that is not there, every level that it reads moves it forward,
and it stops on the first end mark at the latest, so that the tokens behind that mark make no
difference.

* `Sentence.Settled.result_eq`   more fuel than enough makes no difference;
* `Sentence.Passes.lt`           every level takes at least one word;
* `Walk.follows_sentence`        a walk over all the tokens follows the reading of the words;
* `reading_progresses`           what the cursor does, from the first token to the last.
-/

namespace ExprShell

namespace Sentence
open Grammar

theorem Settled.result_eq {α : Type} {bound : Names} {stop : Token} {L : Language Token}
    {G : Nat → List Token → Except ParseError (α × List Token)} {m n : Nat} {ts : List Token}
    (h : Settled bound stop L G n ts) (hm : Settled bound stop L G m ts) : G n ts = G m ts := by
  have hfuel (t : Token) : G m ts ≠ .error ⟨t, .exhausted⟩ := by
    intro ht
    cases hm with
    | ok _ result => rw [result] at ht; cases ht
    | error _ result stuck =>
      rw [result] at ht
      injection ht with ht
      exact stuck.fuelled (congrArg ParseError.cause ht)
  have hends {y : Except ParseError (α × List Token)} (hn : G n ts = y) (hm : EndsAs (G m ts) y) :
      G n ts = G m ts := by
    obtain hm | ⟨t, ht⟩ := hm
    · exact hn.trans hm.symm
    · exact absurd ht (hfuel t)
  cases h with
  | @ok w r a words result mem alike =>
    refine hends result ?_
    rw [words]
    exact alike m r rfl
  | @error w r c words result stuck alike =>
    refine hends result ?_
    rw [words]
    exact alike m r rfl

theorem expr_fuel {bound : Names} {stop : Token} {n : Nat} {w : List Token}
    (hn : 10 * (w.length + 1) ≤ n) : expr bound stop n w = expr bound stop (fuel w) w := by
  have hspare : Goal.expr.spare = 6 := rfl
  have hn' : 10 * w.length + Goal.expr.spare ≤ n := by omega
  have hfuel : 10 * w.length + Goal.expr.spare ≤ fuel w := by
    rw [fuel]
    omega
  exact (Goal.expr.settled hn').result_eq (Goal.expr.settled hfuel)

/-! ## Levels take words -/

/-- a level was read with fuel `m` from the words `w`, which left the words `r` -/
inductive Passes (bound : Names) (stop : Token) (m : Nat) : List Token → List Token → Prop
  | expr {w r : List Token} {e : Expr} (h : expr bound stop m w = .ok (e, r)) :
    Passes bound stop m w r
  | comparison {w r : List Token} {e : Expr} (h : comparison bound stop m w = .ok (e, r)) :
    Passes bound stop m w r
  | sum {w r : List Token} {e : Expr} (h : sum bound stop m w = .ok (e, r)) :
    Passes bound stop m w r
  | product {w r : List Token} {e : Expr} (h : product bound stop m w = .ok (e, r)) :
    Passes bound stop m w r
  | application {w r : List Token} {e : Expr} (h : application bound stop m w = .ok (e, r)) :
    Passes bound stop m w r
  | factor {w r : List Token} {e : Expr} (h : factor bound stop m w = .ok (e, r)) :
    Passes bound stop m w r
  | conditional {t : Token} {w r : List Token} {e : Expr} (ht : t.is .if)
    (h : conditional bound stop m t w = .ok (e, r)) : Passes bound stop m (t :: w) r
  | counted {t : Token} {w r : List Token} {e : Expr} (ht : t.is .for)
    (h : counted bound stop m t w = .ok (e, r)) : Passes bound stop m (t :: w) r
  | looping {t : Token} {w r : List Token} {e : Expr} (ht : t.is .while)
    (h : looping bound stop m t w = .ok (e, r)) : Passes bound stop m (t :: w) r
  | function {t : Token} {w r : List Token} {e : Expr} (ht : t.is .fn)
    (h : function bound stop m t w = .ok (e, r)) : Passes bound stop m (t :: w) r

theorem begins_ne_nil {w : List Token} (h : Begins w) : w ≠ [] := by
  obtain ⟨t, v, rfl, -⟩ := h
  exact List.cons_ne_nil t v

theorem operand_ne_nil {bound : Names} {l : Loop} {w : List Token} {e : Expr}
    (h : Derives bound (.operand l) w e) : w ≠ [] := by
  cases l with
  | logic =>
    rcases h.begins_of_comparison with hw | ⟨t, v, rfl, -⟩
    · exact begins_ne_nil hw
    · exact List.cons_ne_nil t v
  | comparison => exact begins_ne_nil h.begins_of_sum
  | sum => exact begins_ne_nil h.begins_of_product
  | product => exact begins_ne_nil h.begins_of_factor

theorem expr_ne_nil {bound : Names} {w : List Token} {e : Expr} (h : Derives bound .expr w e) :
    w ≠ [] := by
  cases h with
  | declare | assign => exact List.cons_ne_nil _ _
  | logic hw _ => exact List.append_ne_nil_of_left_ne_nil (operand_ne_nil hw) _

theorem Passes.lt {bound : Names} {stop : Token} {m : Nat} {w r : List Token}
    (h : Passes bound stop m w r) : r <:+ w ∧ r.length < w.length := by
  have hreads {α : Type} (g : Goal α) (w : List Token) := g.reads bound stop m w
  have htook {x : Parsed} {w r : List Token} {e : Expr} {D : List Token → Expr → Prop}
      (hreads : Reads x w D) (hx : x = .ok (e, r)) (hD : ∀ u, D u e → u ≠ []) :
      r <:+ w ∧ r.length < w.length := by
    obtain ⟨u, rfl, hu⟩ := hreads e r hx
    have hlen := List.length_pos_of_ne_nil (hD u hu)
    exact ⟨List.suffix_append u r, by rw [List.length_append]; omega⟩
  have hword {x : Parsed} {t : Token} {w r : List Token} {e : Expr} {D : List Token → Expr → Prop}
      (hreads : Reads x w D) (hx : x = .ok (e, r)) : r <:+ t :: w ∧ r.length < (t :: w).length := by
    obtain ⟨u, rfl, -⟩ := hreads e r hx
    refine ⟨(List.suffix_append u r).trans (List.suffix_cons t _), ?_⟩
    simp only [List.length_cons, List.length_append]
    omega
  cases h with
  | expr h => exact htook (hreads .expr w) h fun _ => expr_ne_nil
  | comparison h => exact htook (hreads (.operand .logic) w) h fun _ => operand_ne_nil
  | sum h => exact htook (hreads (.operand .comparison) w) h fun _ => operand_ne_nil
  | product h => exact htook (hreads (.operand .sum) w) h fun _ => operand_ne_nil
  | factor h => exact htook (hreads (.operand .product) w) h fun _ => operand_ne_nil
  | application h =>
    exact htook (hreads .application w) h fun _ hu => begins_ne_nil hu.begins_of_application
  | @conditional t w r e ht h => exact hword (hreads (.conditional t) w) h
  | @counted t w r e ht h => exact hword (hreads (.counted t) w) h
  | @looping t w r e ht h => exact hword (hreads (.looping t) w) h
  | @function t w r e ht h => exact hword (hreads (.function t) w) h

/-! ## The first end mark -/

theorem isEnd_stop (ts : List Token) : isEnd (ofTokens ts).stop := by
  show isEnd ((ts.find? isEnd).getD Token.missing)
  cases h : ts.find? isEnd with
  | none => rfl
  | some t => exact List.find?_some h

theorem isEnd_words {ts : List Token} {t : Token} (h : t ∈ (ofTokens ts).words) :
    isEnd t = false := by
  have hend := List.all_eq_true.mp List.all_takeWhile t h
  simpa using hend

theorem ofTokens_cut {w : List Token} {stop : Token} (hw : ∀ t ∈ w, isEnd t = false)
    (hstop : isEnd stop) (rest : List Token) : ofTokens (w ++ stop :: rest) = ⟨w, stop⟩ := by
  have hwords : (w ++ stop :: rest).takeWhile (fun t => !isEnd t) = w := by
    rw [List.takeWhile_append_of_pos (by simpa using hw),
      List.takeWhile_cons_of_neg (by simp [hstop]), List.append_nil]
  have hfind : (w ++ stop :: rest).find? isEnd = some stop := by
    rw [List.find?_append, List.find?_eq_none.mpr (by simpa using hw), Option.none_or,
      List.find?_cons_of_pos hstop]
  rw [ofTokens, hwords, hfind, Option.getD_some]

theorem eq_of_find? {ts : List Token} {stop : Token} (h : ts.find? isEnd = some stop) :
    ∃ rest, ts = (ofTokens ts).words ++ stop :: rest := by
  obtain ⟨hstop, w, rest, rfl, hw⟩ := List.find?_eq_some_iff_append.mp h
  refine ⟨rest, ?_⟩
  rw [ofTokens_cut (by simpa using hw) hstop]

/-- the words and the end mark are the first of the tokens that the cursor goes over -/
theorem closed_eq (ts : List Token) :
    ∃ rest, Walk.closed ts = (ofTokens ts).words ++ (ofTokens ts).stop :: rest := by
  cases h : ts.find? isEnd with
  | none =>
    have hlast : ¬ ts.getLast?.any isEnd := by
      intro hlast
      obtain ⟨t, ht, hend⟩ := (Option.any_eq_true isEnd _).mp hlast
      exact List.find?_eq_none.mp h t (List.mem_of_getLast? ht) hend
    rw [Walk.closed, if_neg hlast]
    exact ofTokens_append ts
  | some stop =>
    obtain ⟨rest, hrest⟩ := eq_of_find? h
    have hmark : (ofTokens ts).stop = stop := by rw [ofTokens, h, Option.getD_some]
    rw [Walk.closed, hmark]
    by_cases hlast : ts.getLast?.any isEnd
    · rw [if_pos hlast]
      exact ⟨rest, hrest⟩
    · rw [if_neg hlast]
      refine ⟨rest ++ [Token.missing], ?_⟩
      rw [← List.cons_append, ← List.append_assoc, ← hrest]

end Sentence

namespace Walk
open Sentence

/-- a walk over all the tokens follows the reading of the words -/
theorem follows_sentence (bound : Names) {w : List Token} {stop : Token} {n : Nat}
    (hw : ∀ t ∈ w, isEnd t = false) (hstop : isEnd stop) (hn : 10 * (w.length + 1) ≤ n) :
    Follows w stop (sentence bound n) 0
      (fun p e _ => Got bound (Grammar.Derives bound .expr) w 0 p e w.length)
      (Sentence.parse bound ⟨w, stop⟩ >>= fun e => pure (e, [])) := by
  have heof : stop.kind = .eof := of_decide_eq_true hstop
  cases w with
  | nil =>
    refine .cur_nil (Nat.le_refl 0) rfl ?_
    rw [if_pos hstop]
    exact .fail (Nat.le_refl 0) rfl (by simp)
  | cons t ts =>
    have hread := (allFollow bound (t :: ts) heof n).expr (Nat.zero_le _) (by omega)
    rw [List.drop_zero, Goal.read, expr_fuel hn] at hread
    refine .cur_cons rfl ?_
    rw [if_neg (by simp [hw t List.mem_cons_self]), Sentence.parse, bind_assoc]
    refine hread.bind ?_
    intro p e j hij hj hp
    cases hd : (t :: ts).drop j with
    | nil =>
      obtain rfl : j = (t :: ts).length := Nat.le_antisymm hj (List.drop_eq_nil_iff.mp hd)
      refine .cur_nil hj hd ?_
      rw [if_pos hstop]
      exact .pure hj hd hp
    | cons u us =>
      have hu : u ∈ t :: ts := List.mem_of_mem_drop (hd ▸ List.mem_cons_self)
      refine .cur_cons hd ?_
      rw [if_neg (by simp [hw u hu])]
      exact .fail_cons hd (by simp)

/-- how a walk over the words `w` and an end mark goes -/
structure Ends (bound : Names) (w : List Token) (stop : Token) (run : Trail Spanned) : Prop where
  result : run.result.map Spanned.expr = (Sentence.parse bound ⟨w, stop⟩).mapError .wrong
  got : ∀ p, run.result = .ok p →
    Got bound (Grammar.Derives bound .expr) w 0 p p.expr w.length
  pos : run.pos ≤ w.length
  within : ∀ ev ∈ run.log, ev.Within w.length
  fuelled : ∀ e, Sentence.parse bound ⟨w, stop⟩ = .error e → e.cause ≠ .exhausted

/-- the walk is the same for all tokens behind the end mark -/
theorem exists_ends (bound : Names) {w : List Token} {stop : Token} {n : Nat}
    (hw : ∀ t ∈ w, isEnd t = false) (hstop : isEnd stop) (hn : 10 * (w.length + 1) ≤ n) :
    ∃ run, Ends bound w stop run ∧ ∀ rest, sentence bound n (w ++ stop :: rest) 0 = run := by
  have hfollows := follows_sentence bound hw hstop hn
  cases hparse : Sentence.parse bound ⟨w, stop⟩ with
  | ok e =>
    rw [hparse] at hfollows
    generalize hx : (Except.ok e >>= fun e => pure (e, [])) = x at hfollows
    cases hfollows with
    | @ok p e' j log trail within le stop_le got =>
      injection hx with hx
      obtain rfl : e = e' := congrArg Prod.fst hx
      refine ⟨⟨.ok p, j, log⟩, ⟨?_, ?_, stop_le, within, ?_⟩, trail⟩
      · rw [hparse]
        exact congrArg Except.ok got.expr
      · rintro _ ⟨⟩
        rw [got.expr]
        exact got
      · intro err herr
        cases hparse.symm.trans herr
    | error => cases hx
  | error e =>
    rw [hparse] at hfollows
    generalize hx : (Except.error e >>= fun e => pure (e, [])) = x at hfollows
    cases hfollows with
    | ok => cases hx
    | @error e' j log trail within stop_le fuelled =>
      cases hx
      refine ⟨⟨.error (.wrong e), j, log⟩, ⟨?_, ?_, stop_le, within, ?_⟩, trail⟩
      · rw [hparse]
        rfl
      · intro p hp
        cases hp
      · intro err herr
        cases hparse.symm.trans herr
        exact fuelled

theorem ends_read (bound : Names) {ts : List Token} {n : Nat}
    (hn : 10 * ((ofTokens ts).words.length + 1) ≤ n) :
    Ends bound (ofTokens ts).words (ofTokens ts).stop (read bound n ts) := by
  obtain ⟨run, hends, hrun⟩ := exists_ends bound (fun _ => isEnd_words) (isEnd_stop ts) hn
  obtain ⟨rest, hrest⟩ := closed_eq ts
  rw [read, hrest, hrun]
  exact hends

/-- the tokens behind the first end mark make no difference -/
theorem read_congr {bound : Names} {ts us : List Token} {n : Nat}
    (hn : 10 * ((ofTokens ts).words.length + 1) ≤ n) (h : ofTokens ts = ofTokens us) :
    read bound n us = read bound n ts := by
  obtain ⟨run, -, hrun⟩ := exists_ends bound (fun _ => isEnd_words) (isEnd_stop ts) hn
  obtain ⟨rest, hrest⟩ := closed_eq ts
  obtain ⟨rest', hrest'⟩ := closed_eq us
  rw [read, read, hrest, hrest', ← h, hrun, hrun]

end Walk

/-- **Reading comes to an end, and never looks behind the first end mark.**  With ten levels for
every word and for the mark the walk has the result of `parse`: it finds a token wherever it looks,
and levels enough.  Every level that is read takes a word and moves the cursor forward; the cursor
stays before the mark or on it; and the walk is the same for all tokens behind the mark. -/
theorem reading_progresses (bound : Names) (ts : List Token) (n : Nat) :
    let words := ts.takeWhile fun t => t.kind ≠ .eof
    let last := words.length
    let run := Walk.read bound n ts
    10 * (last + 1) ≤ n →
    (∃ stop, (Walk.closed ts)[last]? = some stop ∧ stop.kind = .eof) ∧
    run.result.map Spanned.expr = (parse bound ts).mapError .wrong ∧
    (∀ e, parse bound ts = .error e → e.cause ≠ .exhausted) ∧
    (∀ stop m w r, Sentence.Passes bound stop m w r → r <:+ w ∧ r.length < w.length) ∧
    run.pos ≤ last ∧
    (∀ i, .looked i ∈ run.log ∨ .moved i ∈ run.log → i ≤ last) ∧
    (∀ p i j, .read p i j ∈ run.log → i < j ∧ j ≤ last) ∧
    ∀ stop, ts.find? (fun t => t.kind = .eof) = some stop → ∀ rest,
      Walk.read bound n (words ++ stop :: rest) = run ∧
      parse bound (words ++ stop :: rest) = parse bound ts := by
  intro words last run hn
  have hwords : words = (Sentence.ofTokens ts).words := by
    simp [words, Sentence.ofTokens, Sentence.isEnd]
  have hn : 10 * ((Sentence.ofTokens ts).words.length + 1) ≤ n := by rwa [← hwords]
  have hends : Walk.Ends bound words (Sentence.ofTokens ts).stop run := by
    rw [hwords]
    exact Walk.ends_read bound hn
  have hstop : (Sentence.ofTokens ts).stop.kind = .eof := of_decide_eq_true (Sentence.isEnd_stop ts)
  have hparse : parse bound ts = Sentence.parse bound ⟨words, (Sentence.ofTokens ts).stop⟩ := by
    rw [hwords]
    rfl
  have hmark : (Walk.closed ts)[last]? = some (Sentence.ofTokens ts).stop := by
    obtain ⟨rest, hrest⟩ := Sentence.closed_eq ts
    rw [hrest, ← hwords, List.getElem?_append_right (Nat.le_refl _), Nat.sub_self,
      List.getElem?_cons_zero]
  refine ⟨⟨_, hmark, hstop⟩, hparse ▸ hends.result, hparse ▸ hends.fuelled,
    fun _ _ _ _ => Sentence.Passes.lt, hends.pos, ?_, ?_, ?_⟩
  · rintro i (hi | hi)
    · exact hends.within _ hi
    · exact hends.within _ hi
  · intro p i j hread
    exact hends.within _ hread
  · intro stop hfind rest
    have hcut : Sentence.ofTokens (words ++ stop :: rest) = Sentence.ofTokens ts := by
      have hts : Sentence.ofTokens ts = ⟨words, stop⟩ := by
        rw [hwords]
        exact congrArg (Sentence.mk _) (congrArg (Option.getD · Token.missing) hfind)
      rw [hts]
      refine Sentence.ofTokens_cut (fun t ht => ?_) (List.find?_some hfind) rest
      exact Sentence.isEnd_words (hwords ▸ ht)
    exact ⟨Walk.read_congr hn hcut.symm, congrArg (Sentence.parse bound) hcut⟩

/-- `1 + 2`, an end mark, and two tokens that are never looked at -/
theorem reading_progresses_interior :
    let bound : Names := fun _ => false
    let token (k : Token.Kind) (s : String) : Token := ⟨k, s, s, ⟨1, 1⟩⟩
    let words := [token .int "1", token .plus "+", token .int "2"]
    let ts := words ++ token .eof "" :: [token .rparen ")", token (.other 99) "?"]
    let run := Walk.read bound 40 ts
    (∀ p i j, .read p i j ∈ run.log → i < j ∧ j ≤ 3) ∧
    ∀ rest, parse bound (words ++ token .eof "" :: rest) = parse bound ts := by
  intro bound token words ts run
  obtain ⟨-, -, -, -, -, -, hread, hrest⟩ := reading_progresses bound ts 40 (by decide)
  exact ⟨hread, fun rest => (hrest _ rfl rest).2⟩

example :
    let token (k : Token.Kind) (s : String) : Token := ⟨k, s, s, ⟨1, 1⟩⟩
    let run := Walk.read (fun _ => false) 40
      [token .int "1", token .plus "+", token .int "2", token .eof "", token .rparen ")"]
    run.pos = 3 ∧ .read .expr 0 3 ∈ run.log := by decide +kernel

end ExprShell
