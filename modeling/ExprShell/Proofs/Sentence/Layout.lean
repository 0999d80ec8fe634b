import ExprShell.Proofs.Expr.RoundTrip
import ExprShell.Proofs.Token.Places

/-!
# Layout does not matter

The lexemes of a scanned text, written down again with any layout between them, are scanned to the
same tokens, and these are read in the same way.  Layout parts two lexemes: behind each of them
stands a character with which no lexeme goes on.

* `Spaced ts cs`         the text `cs` is the lexemes of `ts`, with layout behind each of them;
* `spelt_spaced`         such a text spells the tokens that it was made from;
* `layout_immaterial`    tokens, trees and errors are the same, places apart.
-/

namespace ExprShell
open Text Token

/-- layout only -/
def Gap (cs : List Char) : Prop := ∀ c ∈ cs, c ∈ [' ', '\t', '\r', '\n']

instance (cs : List Char) : Decidable (Gap cs) :=
  List.decidableBAll (fun c => c ∈ [' ', '\t', '\r', '\n']) cs

/-- the lexemes in order, with layout behind each of them, which may be missing behind the last -/
inductive Spaced : List Token → List Char → Prop
  | nil : Spaced [] []
  | last {t : Token} {gap : List Char} (hgap : Gap gap) : Spaced [t] (t.lexeme.toList ++ gap)
  | cons {t u : Token} {ts : List Token} {gap cs : List Char} (hgap : Gap gap) (hne : gap ≠ [])
    (rest : Spaced (u :: ts) cs) : Spaced (t :: u :: ts) (t.lexeme.toList ++ (gap ++ cs))

/-! ## What stands behind a lexeme -/

/-- the text is at its end, or goes on with layout -/
def Parted (cs : List Char) : Prop := ∀ c r, cs = c :: r → c ∈ [' ', '\t', '\r', '\n']

theorem Gap.parted {gap : List Char} (h : Gap gap) : Parted gap := by
  rintro c r rfl
  exact h c List.mem_cons_self

theorem Gap.parted_append {gap : List Char} (h : Gap gap) (hne : gap ≠ []) (cs : List Char) :
    Parted (gap ++ cs) := by
  obtain ⟨d, gap, rfl⟩ := List.exists_cons_of_ne_nil hne
  rintro c r hc
  cases hc
  exact h d List.mem_cons_self

theorem Parted.ends {cs : List Char} (h : Parted cs) : Ends cs := by
  rintro c r hc
  have hmem := h c r hc
  simp only [List.mem_cons, List.not_mem_nil, or_false] at hmem
  rcases hmem with rfl | rfl | rfl | rfl <;> decide

namespace Spelt

variable {cs : List Char} {ts : List Token}

theorem layout {c : Char} (hc : c ∈ [' ', '\t', '\r', '\n']) (h : Spelt cs ts) :
    Spelt (c :: cs) ts := by
  have hfirst : Piece.first c cs = (.layout c, cs) := by
    simp only [List.mem_cons, List.not_mem_nil, or_false] at hc
    rcases hc with rfl | rfl | rfl | rfl <;> rfl
  constructor
  · rw [Piece.split_cons, hfirst, List.filterMap_cons, ← h.tokens]
    rfl
  · rw [Piece.split_cons, hfirst, List.filterMap_cons]
    exact h.faults

theorem gap {gap : List Char} (hgap : Gap gap) (h : Spelt cs ts) : Spelt (gap ++ cs) ts := by
  induction gap with
  | nil => exact h
  | cons c gap ih =>
    have hrest := ih fun d hd => hgap d (List.mem_cons_of_mem _ hd)
    exact hrest.layout (hgap c List.mem_cons_self)

theorem sign_of_parted {k : Kind} {s : String} (hk : k.sign? = some s) (hcs : Parted cs)
    (h : Spelt cs ts) : Spelt (s.toList ++ cs) (written k s.toList :: ts) := by
  cases cs with
  | nil => cases k <;> cases hk <;> exact lexeme rfl h
  | cons c cs =>
    have hc := hcs c cs rfl
    simp only [List.mem_cons, List.not_mem_nil, or_false] at hc
    rcases hc with rfl | rfl | rfl | rfl <;> cases k <;> cases hk <;> exact lexeme rfl h

theorem genuine {t : Token} (ht : t.isGenuine = true) (hcs : Parted cs) (h : Spelt cs ts) :
    Spelt (t.lexeme.toList ++ cs) (written t.kind t.lexeme.toList :: ts) := by
  unfold isGenuine at ht
  split at ht
  · next hk =>
    rw [Bool.and_eq_true] at ht
    rw [hk]
    exact name ht.1 hcs.ends h
  · next hk =>
    rw [Bool.and_eq_true, Keyword.reserves, List.any_eq_true] at ht
    obtain ⟨⟨k, -, hspell⟩, -⟩ := ht
    have hspell : k.spelling = t.lexeme := of_decide_eq_true hspell
    rw [hk, ← hspell]
    exact keyword k hcs.ends h
  · exact number ht hcs.ends h
  · exact number ht hcs.ends h
  · exact sign_of_parted (of_decide_eq_true ht) hcs h

end Spelt

theorem spelt_spaced {ts : List Token} {cs : List Char} (hts : ∀ t ∈ ts, t.isGenuine = true)
    (h : Spaced ts cs) : Spelt cs (ts.map fun t => written t.kind t.lexeme.toList) := by
  induction h with
  | nil => exact .nil
  | @last t gap hgap =>
    have hgap' : Spelt gap [] := by simpa using Spelt.nil.gap hgap
    exact hgap'.genuine (hts t List.mem_cons_self) hgap.parted
  | @cons t u ts gap cs hgap hne _ ih =>
    have hrest := ih fun v hv => hts v (List.mem_cons_of_mem _ hv)
    exact (hrest.gap hgap).genuine (hts t List.mem_cons_self) (hgap.parted_append hne cs)

/-! ## The tokens of the new text -/

/-- kind and lexeme of a scanned token say what its literal is -/
theorem unplaced_of_mem_scanned {cs : List Char} {t : Token} (ht : t ∈ scanned cs) :
    t.unplaced = written t.kind t.lexeme.toList := by
  have hmem : t.unplaced ∈ (Piece.split cs).filterMap Piece.token? := by
    rw [← map_unplaced_place Position.start]
    exact List.mem_map_of_mem ht
  obtain ⟨x, -, hx⟩ := List.mem_filterMap.mp hmem
  cases x with
  | lexeme k w =>
    have hw : written k w = t.unplaced := Option.some.inj hx
    have hk : k = t.kind := congrArg Token.kind hw
    have hl : String.ofList w = t.lexeme := congrArg Token.lexeme hw
    rw [← hw, ← hk, ← hl, String.toList_ofList]
  | layout c => cases hx
  | skipped f => cases hx

theorem filter_tokens_scan (cs : List Char) :
    (scan cs).tokens.filter (fun t => t.kind ≠ .eof) = scanned cs := by
  have hall : ∀ t ∈ scanned cs, decide (t.kind ≠ .eof) = true := fun t ht =>
    decide_eq_true (kind_ne_eof (isGenuine_of_mem_scanned ht))
  rw [tokens_scan, List.filter_append, List.filter_eq_self.mpr hall]
  exact List.append_nil _

theorem stop_ofTokens_scan (cs : List Char) :
    (Sentence.ofTokens (scan cs).tokens).stop = Token.endAt (.behind cs) := by
  have hnone : (scanned cs).find? Sentence.isEnd = none := by
    rw [List.find?_eq_none]
    intro t ht
    simpa [Sentence.isEnd] using kind_ne_eof (isGenuine_of_mem_scanned ht)
  rw [tokens_scan, Sentence.ofTokens, List.find?_append, hnone]
  rfl

section
variable {src new : List Char}

theorem map_unplaced_tokens (h : (scanned new).map unplaced = (scanned src).map unplaced) :
    (scan new).tokens.map unplaced = (scan src).tokens.map unplaced := by
  rw [tokens_scan, tokens_scan, List.map_append, List.map_append, h]
  rfl

/-- tokens at the same index -/
def Abreast (ts us : List Token) (t u : Token) : Prop :=
  ∃ i : Nat, ts[i]? = some t ∧ us[i]? = some u

theorem Abreast.agrees {ts us : List Token} (h : us.map unplaced = ts.map unplaced) :
    Sentence.Agrees (Abreast ts us) := by
  rintro t u ⟨i, ht, hu⟩
  have hi := congrArg (fun l => l[i]?) h
  rw [List.getElem?_map, List.getElem?_map, ht, hu] at hi
  exact (Option.some.inj hi).symm

theorem Abreast.words (h : (scanned src).length = (scanned new).length) :
    List.Forall₂ (Abreast (scan src).tokens (scan new).tokens) (scanned src) (scanned new) := by
  rw [List.forall₂_iff_get]
  refine ⟨h, fun i hi hi' => ⟨i, ?_, ?_⟩⟩
  · rw [tokens_scan, List.getElem?_append_left hi]
    exact List.getElem?_eq_getElem hi
  · rw [tokens_scan, List.getElem?_append_left hi']
    exact List.getElem?_eq_getElem hi'

theorem Abreast.stop (h : (scanned src).length = (scanned new).length) :
    Abreast (scan src).tokens (scan new).tokens (Token.endAt (.behind src))
      (Token.endAt (.behind new)) := by
  refine ⟨(scanned src).length, ?_, ?_⟩
  · rw [tokens_scan, List.getElem?_concat_length]
  · rw [tokens_scan, h, List.getElem?_concat_length]

end

theorem message_eq_of_unplaced {t u : Token} (h : t.unplaced = u.unplaced) (c : ParseError.Cause) :
    (ParseError.mk t c).message = (ParseError.mk u c).message := by
  obtain ⟨k, l, m, p⟩ := t
  obtain ⟨k', l', m', p'⟩ := u
  simp only [unplaced, Token.mk.injEq] at h
  obtain ⟨rfl, rfl, rfl, -⟩ := h
  rfl

/-- **Layout does not matter.**  The lexemes of any text, joined by layout again, with any layout in
front and behind, are scanned without fault to the same kinds, lexemes and literals.  Whatever names
are bound, the tokens of both texts are read to the same tree, or both are refused with the same
message at tokens of the same index. -/
theorem layout_immaterial (src front body : List Char) (hfront : Gap front)
    (hbody : Spaced ((scan src).tokens.filter fun t => t.kind ≠ .eof) body) :
    (scan (front ++ body)).diagnostics = [] ∧
      ((scan (front ++ body)).tokens.map fun t => (t.kind, t.lexeme, t.literal)) =
        ((scan src).tokens.map fun t => (t.kind, t.lexeme, t.literal)) ∧
      ∀ bound : Names,
        (∃ a b, parse bound (scan src).tokens = .ok a ∧
          parse bound (scan (front ++ body)).tokens = .ok b ∧ a.same b = true) ∨
        ∃ (i : Nat) (e f : ParseError), parse bound (scan src).tokens = .error e ∧
          parse bound (scan (front ++ body)).tokens = .error f ∧ e.message = f.message ∧
          (scan src).tokens[i]? = some e.token ∧
          (scan (front ++ body)).tokens[i]? = some f.token := by
  rw [filter_tokens_scan] at hbody
  have hspelt : Spelt (front ++ body) ((scanned src).map unplaced) := by
    have h := (spelt_spaced (fun t => isGenuine_of_mem_scanned) hbody).gap hfront
    rwa [List.map_congr_left fun t ht => (unplaced_of_mem_scanned ht).symm] at h
  generalize front ++ body = new at hspelt
  have hsame : (scan new).tokens.map unplaced = (scan src).tokens.map unplaced :=
    map_unplaced_tokens hspelt.map_unplaced
  have hlen : (scanned src).length = (scanned new).length := by
    have h := congrArg List.length hspelt.map_unplaced
    rw [List.length_map, List.length_map] at h
    exact h.symm
  refine ⟨hspelt.diagnostics, ?_, fun bound => ?_⟩
  · have h := congrArg (List.map fun t => (t.kind, t.lexeme, t.literal)) hsame
    rwa [List.map_map, List.map_map] at h
  · have hR := Abreast.agrees hsame
    have hread := Sentence.parse_alike hR bound (.ofTokens (scan src).tokens)
      (.ofTokens (scan new).tokens)
    rw [words_ofTokens_scan, words_ofTokens_scan, stop_ofTokens_scan, stop_ofTokens_scan] at hread
    rcases hread (Abreast.stop hlen) (Abreast.words hlen) with
      ⟨a, b, ha, hb, hab⟩ | ⟨t, u, c, ha, hb, htu⟩
    · exact .inl ⟨a, b, ha, hb, (Expr.same_iff_erase a b).mpr hab⟩
    · obtain ⟨i, ht, hu⟩ := htu
      exact .inr ⟨i, _, _, ha, hb, message_eq_of_unplaced (hR t u ⟨i, ht, hu⟩) c, ht, hu⟩

/-- a text with a character that is skipped, and its three lexemes again with other layout -/
theorem layout_immaterial_skipped :
    let src := "a<!1.5".toList
    let front := "\n".toList
    let body := "a\t<\r\n 1.5 ".toList
    Gap front ∧ Spaced ((scan src).tokens.filter fun t => t.kind ≠ .eof) body ∧
      (scan (front ++ body)).diagnostics = [] ∧ (scan src).diagnostics ≠ [] ∧
      ∃ a b, parse (fun _ => false) (scan src).tokens = .ok a ∧
        parse (fun _ => false) (scan (front ++ body)).tokens = .ok b ∧ a.same b = true := by
  intro src front body
  have hfront : Gap front := by decide
  have hwords : ((scan src).tokens.filter fun t => t.kind ≠ .eof) =
      [⟨.identifier, "a", "a", ⟨1, 1⟩⟩, ⟨.lt, "<", "", ⟨1, 2⟩⟩, ⟨.double, "1.5", "1.5", ⟨1, 4⟩⟩] := by
    decide +kernel
  have hbody : Spaced ((scan src).tokens.filter fun t => t.kind ≠ .eof) body := by
    rw [hwords]
    have htab : Gap ['\t'] := by decide
    have hbreak : Gap ['\r', '\n', ' '] := by decide
    have hspace : Gap [' '] := by decide
    exact .cons htab (by decide) (.cons hbreak (by decide) (.last hspace))
  obtain ⟨hclean, -, hread⟩ := layout_immaterial src front body hfront hbody
  refine ⟨hfront, hbody, hclean, by decide +kernel, ?_⟩
  rcases hread fun _ => false with h | ⟨i, e, f, he, -⟩
  · exact h
  · have hok : (parse (fun _ => false) (scan src).tokens).isOk = true := by decide +kernel
    rw [he] at hok
    cases hok

end ExprShell
