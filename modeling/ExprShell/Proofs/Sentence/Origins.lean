import ExprShell.Proofs.Expr.Nesting
import ExprShell.Proofs.Sentence.Progress

/-!
# Where the nodes of a tree begin

A tree begins with the first word that is no opening parenthesis, and so does every node of it in
the block of words it was read from.  Blocks of children lie one behind the other, so if the words
stand in a text, the children of a node begin one behind the other.

* `Spanned.Sound.pairwise_before`   the places of the children of a node;
* `nodes_begin_their_blocks`        the same for everything inside a tree that was read.
-/

namespace ExprShell

/-- a block of the first tokens is a block of all the tokens -/
theorem extract_append_left {w : List Token} {i j : Nat} (hj : j ≤ w.length) (rest : List Token) :
    (w ++ rest).extract i j = w.extract i j := by
  show ((w ++ rest).drop i).take (j - i) = (w.drop i).take (j - i)
  rw [← List.drop_take, ← List.drop_take, List.take_append_of_le_length hj]

theorem firstWord_all (w : List Token) :
    firstWord w 0 w.length = w.find? fun t => t.kind ≠ .lparen := by
  show ((w.drop 0).take (w.length - 0)).find? _ = _
  rw [List.drop_zero, Nat.sub_zero, List.take_length]

/-- a block that begins behind another one begins with a later word -/
theorem before_of_firstWord {w : List Token} (hw : w.Pairwise fun t u => t.pos.Before u.pos)
    {i j k l : Nat} {t u : Token} (ht : firstWord w i j = some t) (hu : firstWord w k l = some u)
    (hjk : j ≤ k) : t.pos.Before u.pos := by
  obtain ⟨m, -, hm, hmt⟩ := exists_of_firstWord ht
  obtain ⟨n, hn, -, hnu⟩ := exists_of_firstWord hu
  obtain ⟨hmw, rfl⟩ := List.getElem?_eq_some_iff.mp hmt
  obtain ⟨hnw, rfl⟩ := List.getElem?_eq_some_iff.mp hnu
  exact List.pairwise_iff_getElem.mp hw m n hmw hnw (by omega)

theorem Spanned.Sound.pairwise_before {bound : Names} {w : List Token} {p : Spanned}
    (h : p.Sound bound w) (hw : w.Pairwise fun t u => t.pos.Before u.pos) :
    (p.expr.present.map Expr.pos).Pairwise Position.Before := by
  have hp := h p .self
  have hlined : p.parts.Pairwise fun q r => q.expr.pos.Before r.expr.pos := by
    refine hp.lined.pairwise.imp_of_mem ?_
    intro q r hq hr hqr
    exact before_of_firstWord hw (h q (.part .self hq)).first (h r (.part .self hr)).first hqr
  rw [← hp.parts, List.map_map]
  exact List.pairwise_map.mpr hlined

theorem exists_sound_of_parse {bound : Names} {ts : List Token} {e : Expr}
    (h : parse bound ts = .ok e) :
    ∃ p, (Walk.read bound (Sentence.fuel ts) ts).result = .ok p ∧ p.expr = e ∧
      p.Sound bound (Sentence.ofTokens ts).words ∧
      firstWord (Sentence.ofTokens ts).words 0 (Sentence.ofTokens ts).words.length =
        some e.token := by
  have hlen : (Sentence.ofTokens ts).words.length ≤ ts.length := (List.takeWhile_prefix _).length_le
  have hn : 10 * ((Sentence.ofTokens ts).words.length + 1) ≤ Sentence.fuel ts := by
    simp only [Sentence.fuel]
    omega
  have hends := Walk.ends_read bound hn
  have hresult : _ = (parse bound ts).mapError Walk.Halt.wrong := hends.result
  rw [h] at hresult
  cases hrun : (Walk.read bound (Sentence.fuel ts) ts).result with
  | error =>
    rw [hrun] at hresult
    cases hresult
  | ok p =>
    have hgot := hends.got p hrun
    rw [hrun] at hresult
    cases hresult
    exact ⟨p, rfl, rfl, hgot.sound, hgot.first⟩

/-- **Nodes begin where their words begin.**  The tree begins with the first token that is no
opening parenthesis.  Every node of it was read from a block of tokens that is a sentence with this
tree, and begins with the first such token of its block; the blocks of its children lie in the block
of a node, in order.  In a text no operand to the left and no callee begins behind its node, and the
children of a node begin one behind the other. -/
theorem nodes_begin_their_blocks {bound : Names} {ts : List Token} {e : Expr}
    (h : parse bound ts = .ok e) :
    ts.find? (fun t => t.kind ≠ .lparen) = some e.token ∧
    (∃ p, (Walk.read bound (Sentence.fuel ts) ts).result = .ok p ∧ p.expr = e ∧
      (∀ q : Spanned, q.Inside p →
        Grammar.Derives bound .expr (ts.extract q.start q.stop) q.expr ∧
        firstWord ts q.start q.stop = some q.expr.token ∧ q.stop ≤ ts.length ∧
        q.parts.map Spanned.expr = q.expr.present ∧ Lined q.start q.parts q.stop) ∧
      ∀ a : Expr, a.Inside e → a.isAbsent = false → ∃ q : Spanned, q.Inside p ∧ q.expr = a) ∧
    ∀ cs, ts = (scan cs).tokens →
      (∀ l o r, (Expr.binary l o r).Inside e → ¬ (Expr.binary l o r).pos.Before l.pos) ∧
      (∀ t f as, (Expr.call t f as).Inside e → ¬ (Expr.call t f as).pos.Before f.pos) ∧
      ∀ a : Expr, a.Inside e → (a.present.map Expr.pos).Pairwise Position.Before := by
  obtain ⟨p, hrun, rfl, hsound, hfirst⟩ := exists_sound_of_parse h
  obtain ⟨rest, hrest⟩ : (Sentence.ofTokens ts).words <+: ts := List.takeWhile_prefix _
  have hblock {i j : Nat} (hj : j ≤ (Sentence.ofTokens ts).words.length) :
      ts.extract i j = (Sentence.ofTokens ts).words.extract i j := by
    conv_lhs => rw [← hrest]
    exact extract_append_left hj rest
  refine ⟨?_, ⟨p, hrun, rfl, ?_, fun a => hsound.exists_inside⟩, ?_⟩
  · rw [firstWord_all] at hfirst
    rw [← hrest, List.find?_append, hfirst, Option.some_or]
  · intro q hq
    have hstands := hsound q hq
    refine ⟨?_, ?_, ?_, hstands.parts, hstands.lined⟩
    · rw [hblock hstands.stop_le]
      exact hstands.derives
    · rw [firstWord, hblock hstands.stop_le]
      exact hstands.first
    · exact Nat.le_trans hstands.stop_le (List.takeWhile_prefix _).length_le
  · rintro cs rfl
    have hwords : (Sentence.ofTokens (scan cs).tokens).words.Pairwise fun t u =>
        t.pos.Before u.pos := by
      rw [words_ofTokens_scan]
      exact (cut_scan cs).pairwise_before.2
    refine ⟨fun l o r _ => Position.before_irrefl _, fun t f as _ => Position.before_irrefl _, ?_⟩
    intro a ha
    by_cases hne : a.isAbsent = false
    · obtain ⟨q, hq, rfl⟩ := hsound.exists_inside ha hne
      exact Spanned.Sound.pairwise_before (fun r hr => hsound r (hr.trans hq)) hwords
    · cases a with
      | absent => exact .nil
      | _ => exact absurd rfl hne

/-- `(1 + 2) * x`: the tree begins with the number behind the parenthesis -/
theorem nodes_begin_their_blocks_group :
    let token (k : Token.Kind) (s l : String) (c : Nat) : Token := ⟨k, s, l, ⟨1, c⟩⟩
    let ts := [token .lparen "(" "" 1, token .int "1" "1" 2, token .plus "+" "" 4,
      token .int "2" "2" 6, token .rparen ")" "" 7, token .mul "*" "" 9,
      token .identifier "x" "x" 11, token .eof "" "" 12]
    let e := Expr.binary
      (.binary (.number (token .int "1" "1" 2)) (token .plus "+" "" 4)
        (.number (token .int "2" "2" 6)))
      (token .mul "*" "" 9) (.var (token .identifier "x" "x" 11) "x")
    parse (fun _ => false) ts = .ok e ∧ ts = (scan "(1 + 2) * x".toList).tokens ∧
    ts.find? (fun t => t.kind ≠ .lparen) = some e.token ∧
    (e.present.map Expr.pos).Pairwise Position.Before := by
  intro token ts e
  have hparse : parse (fun _ => false) ts = .ok e := rfl
  have hscan : ts = (scan "(1 + 2) * x".toList).tokens := by decide +kernel
  obtain ⟨hroot, -, hplaces⟩ := nodes_begin_their_blocks hparse
  exact ⟨hparse, hscan, hroot, (hplaces _ hscan).2.2 e .self⟩

end ExprShell
