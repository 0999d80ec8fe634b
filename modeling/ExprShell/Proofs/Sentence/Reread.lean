import ExprShell.Proofs.Expr.Words
import ExprShell.Proofs.Sentence.Takes

/-!
# The words of a tree are read as that tree

Every compound tree stands in parentheses, so its words are one factor, whatever stands behind them.
One lemma for every form of a tree says so, given that its parts are read back; the rest is the
induction on the tree.

* `Stands`                 the words of a tree are read as that tree, places apart;
* `stands_of_wellFormed`   this holds of every well-formed tree, whatever names are bound;
* `parse_words`            hence a sentence of these words is read as that tree.
-/

namespace ExprShell.Sentence
open Grammar Token ExprShell.Expr

variable {bound : Names} {stop : Token} {r : List Token}

/-! ## The words of a tree -/

theorem is_keyWord (k : Keyword) : (keyWord k).is k = true := by
  simp [keyWord, written, Token.is, Kind.hasLiteral]

theorem literal_nameWord (x : String) : (nameWord x).literal = x := by
  simp [nameWord, written, Kind.hasLiteral]

theorem bare_ownWord (t : Token) : bare (ownWord t) = bare t := by
  simp [bare, ownWord, written]

theorem kind_of_isNumber {t : Token} (h : t.isNumber = true) :
    t.kind = .int ∨ t.kind = .double := by
  unfold isNumber at h
  split at h
  · next hk => exact .inl hk
  · next hk => exact .inr hk
  · cases h

theorem sign_ownWord {o : Token} (ho : o.isBinary = true) : ∃ l : Loop, l.sign (ownWord o) := by
  unfold isBinary at ho
  split at ho
  case h_11 hk =>
    refine ⟨.logic, ?_⟩
    simpa [Loop.sign, ownWord, written, Token.is, Kind.hasLiteral, hk] using ho
  case h_12 => cases ho
  case h_1 hk | h_2 hk => exact ⟨.sum, by simp [Loop.sign, ownWord, written, hk]⟩
  case h_3 hk | h_4 hk => exact ⟨.product, by simp [Loop.sign, ownWord, written, hk]⟩
  all_goals
    next hk => exact ⟨.comparison, by simp [Loop.sign, ownWord, written, hk, Kind.isComparison]⟩

theorem kind_of_isUnary {o : Token} (ho : o.isUnary = true) :
    ((ownWord o).kind = .plus ∨ (ownWord o).kind = .minus) ∨ (ownWord o).is .not := by
  unfold isUnary at ho
  split at ho
  · next hk => exact .inl (.inl hk)
  · next hk => exact .inl (.inr hk)
  · next hk => exact .inr (by simpa [ownWord, written, Token.is, Kind.hasLiteral, hk] using ho)
  · cases ho

theorem calm_closing (r : List Token) : Calm (closing :: r) := calm_of_kind r (.inl rfl)

theorem calm_keyWord (k : Keyword) (r : List Token) (hk : k ≠ .and ∧ k ≠ .or := by decide) :
    Calm (keyWord k :: r) := calm_of_is r (is_keyWord k) hk

theorem begins_words {e : Expr} (h : e.wellFormed = true) (hr : nextIs .equal r = false) :
    Begins (e.words ++ r) := by
  cases e with
  | absent => cases h
  | number t =>
    have hk : t.kind = .int ∨ t.kind = .double := kind_of_isNumber h
    exact .sign _ (.inr (.inr (hk.imp_right .inl)))
  | var t x => exact ⟨_, r, rfl, rfl, fun _ => hr⟩
  | _ => exact .sign _ (by simp [opening, written])

theorem head_words {e : Expr} (h : e.wellFormed = true) :
    ∃ t v, e.words = t :: v ∧ t.kind ≠ .rparen := by
  obtain ⟨t, v, htv, ht, -⟩ := begins_words (r := []) h rfl
  rw [List.append_nil] at htv
  refine ⟨t, v, htv, fun hk => ?_⟩
  simp [opens, hk] at ht

/-- a well-formed tree whose words are read as a factor, which is that tree, places apart -/
structure Stands (bound : Names) (stop : Token) (e : Expr) : Prop where
  wellFormed : e.wellFormed = true
  takes : ∀ r, Takes 1 (factor bound stop) (e.words ++ r) r fun a => a.erase = e.erase

namespace Stands

variable {e : Expr}

theorem application (h : Stands bound stop e) (hr : Calm r) :
    Takes 2 (application bound stop) (e.words ++ r) r fun a => a.erase = e.erase :=
  (h.takes r).application fun t u htu => (hr t u htu).2.1

theorem expr (h : Stands bound stop e) (hr : Calm r) :
    Takes 6 (expr bound stop) (e.words ++ r) r fun a => a.erase = e.erase :=
  (h.takes r).expr_of_factor (begins_words h.wellFormed hr.nextIs_equal) hr

end Stands

theorem eq_absent {e : Expr} (h : e.isAbsent = true) : e = .absent := by
  cases e with
  | absent => rfl
  | _ => cases h

theorem Stands.isAbsent_eq {e : Expr} (h : Stands bound stop e) : e.isAbsent = false := by
  cases e with
  | absent => cases h.wellFormed
  | _ => rfl

/-! ## Lists in a tree -/

theorem params_joined (p : String) (ps : List String) (r : List Token) :
    params stop (joined ((p :: ps).map fun p => [nameWord p]) ++ closing :: r) =
      .ok (p :: ps, closing :: r) := by
  induction ps generalizing p with
  | nil =>
    show params stop (nameWord p :: closing :: r) = _
    rw [params]
    show Except.ok ([(nameWord p).literal], closing :: r) = _
    rw [literal_nameWord]
  | cons q ps ih =>
    show params stop (nameWord p :: written .comma [','] ::
      (joined ((q :: ps).map fun p => [nameWord p]) ++ closing :: r)) = _
    rw [params]
    show (params stop (joined ((q :: ps).map fun p => [nameWord p]) ++ closing :: r) >>= _) = _
    rw [ih, literal_nameWord]
    rfl

theorem paramList_joined (ps : List String) (r : List Token) :
    paramList stop (joined (ps.map fun p => [nameWord p]) ++ closing :: r) =
      .ok (ps, closing :: r) := by
  cases ps with
  | nil => rfl
  | cons p ps =>
    have hnext : nextIs .identifier
        (joined ((p :: ps).map fun p => [nameWord p]) ++ closing :: r) := by
      cases ps <;> rfl
    rw [paramList, if_pos hnext, params_joined]

theorem funcName_words (x : String) (r : List Token) :
    funcName (titleWords x ++ opening :: r) = (x, opening :: r) := by
  unfold titleWords
  split
  · next hx =>
    rw [hx]
    rfl
  · show ((nameWord x).literal, opening :: r) = _
    rw [literal_nameWord]

theorem funcHead_words (x : String) (ps : List String) (r : List Token) :
    funcHead stop (titleWords x ++ opening :: (joined (ps.map fun p => [nameWord p]) ++
      closing :: written .arrow ['-', '>'] :: r)) = .ok (x, ps, r) := by
  rw [funcHead, funcName_words]
  show (paramList stop _ >>= _) = _
  rw [paramList_joined]
  rfl

theorem exprs_take_args {a : Expr} {as : List Expr} (h : ∀ b ∈ a :: as, Stands bound stop b)
    (r : List Token) :
    Takes 7 (exprs bound stop) (joined (argWords (a :: as)) ++ closing :: r) (closing :: r)
      fun cs => eraseArgs cs = eraseArgs (a :: as) := by
  have ha := h a List.mem_cons_self
  induction as generalizing a with
  | nil =>
    refine (Takes.exprs_last (by decide) (ha.expr (calm_closing r))).imp ?_
    rintro _ ⟨b, rfl, hb⟩
    simp only [eraseArgs, hb]
  | cons b as ih =>
    have has (c : Expr) (hc : c ∈ b :: as) := h c (List.mem_cons_of_mem _ hc)
    have hrest := ih has (has b List.mem_cons_self)
    have hcat : joined (argWords (a :: b :: as)) ++ closing :: r =
        a.words ++ written .comma [','] :: (joined (argWords (b :: as)) ++ closing :: r) := by
      simp [argWords, joined]
    rw [hcat]
    refine (Takes.exprs_next rfl (ha.expr (calm_of_kind _ (.inr rfl))) hrest ?_).imp ?_
    · simp only [List.length_append, List.length_cons]
      omega
    · rintro _ ⟨c, cs, rfl, hc, hcs⟩
      simp only [eraseArgs, hc] at hcs ⊢
      rw [hcs]

theorem nextIs_rparen_joined {a : Expr} (ha : a.wellFormed = true) (as : List Expr)
    (r : List Token) : nextIs .rparen (joined (argWords (a :: as)) ++ r) = false := by
  obtain ⟨t, v, htv, ht⟩ := head_words ha
  cases as with
  | nil => simpa [argWords, joined, htv, nextIs] using ht
  | cons b as => simpa [argWords, joined, htv, nextIs] using ht

theorem arguments_take_args {as : List Expr} (h : ∀ a ∈ as, Stands bound stop a)
    (r : List Token) :
    Takes 8 (arguments bound stop) (joined (argWords as) ++ closing :: r) (closing :: r)
      fun cs => eraseArgs cs = eraseArgs as := by
  intro n hn
  obtain ⟨n, rfl⟩ := Nat.exists_eq_add_of_le' (show 1 ≤ n by omega)
  cases as with
  | nil => exact ⟨[], rfl, rfl⟩
  | cons a as =>
    have hnext := nextIs_rparen_joined (h a List.mem_cons_self).wellFormed as (closing :: r)
    obtain ⟨cs, hcs, hP⟩ := exprs_take_args h r n (by omega)
    refine ⟨cs, ?_, hP⟩
    rw [arguments, if_neg (by simp [hnext]), hcs]

/-- the branches behind their first word, before a calm word that is not `ELIF` -/
theorem branches_take_words {c e : Expr} {bs : List (Expr × Expr)}
    (h : ∀ b ∈ (c, e) :: bs, Stands bound stop b.1 ∧ Stands bound stop b.2) (hr : Calm r)
    (helif : ∀ t u, r = t :: u → ¬ t.is .elif) :
    Takes 7 (branches bound stop)
      (c.words ++ keyWord .then :: (e.words ++ (branchWords .elif bs ++ r))) r
      fun cs => eraseBranches cs = eraseBranches ((c, e) :: bs) := by
  obtain ⟨hc, he⟩ := h (c, e) List.mem_cons_self
  induction bs generalizing c e with
  | nil =>
    refine (Takes.branches_last (is_keyWord _) helif (hc.expr (calm_keyWord _ _)) (he.expr hr)
      ?_).imp ?_
    · simp only [List.length_append, List.length_cons]
      omega
    · rintro _ ⟨a, b, rfl, ha, hb⟩
      simp only [eraseBranches, ha, hb]
  | cons b bs ih =>
    obtain ⟨c', e'⟩ := b
    have hbs (b : Expr × Expr) (hb : b ∈ (c', e') :: bs) := h b (List.mem_cons_of_mem _ hb)
    obtain ⟨hc', he'⟩ := hbs (c', e') List.mem_cons_self
    have hrest := ih hbs hc' he'
    rw [branchWords]
    simp only [List.cons_append, List.append_assoc]
    refine (Takes.branches_next (is_keyWord _) (is_keyWord _) (hc.expr (calm_keyWord _ _))
      (he.expr (calm_keyWord _ _)) hrest ?_ ?_).imp ?_
    · simp only [List.length_append, List.length_cons]
      omega
    · simp only [List.length_append, List.length_cons]
      omega
    · rintro _ ⟨a, b, cs, rfl, ha, hb, hcs⟩
      simp only [eraseBranches, ha, hb] at hcs ⊢
      rw [hcs]

/-! ## One form of a tree after the other -/

namespace Stands

variable {a b c e f l s : Expr}

theorem number {t : Token} (h : t.isNumber = true) : Stands bound stop (.number t) := by
  refine ⟨h, fun r => ?_⟩
  have hkind : t.kind = .int ∨ t.kind = .double := kind_of_isNumber h
  refine (Takes.number (t := ownWord t) hkind).imp ?_
  rintro _ rfl
  simp only [erase, bare_ownWord]

theorem var {t : Token} {x : String} (h : isName x = true) : Stands bound stop (.var t x) := by
  refine ⟨h, fun r n hn => ?_⟩
  obtain ⟨n, rfl⟩ := Nat.exists_eq_add_of_le' (show 1 ≤ n by omega)
  refine ⟨.var (nameWord x) x, ?_, rfl⟩
  show Except.ok (Expr.var (nameWord x) (nameWord x).literal, r) = _
  rw [literal_nameWord]

theorem assign {t : Token} {x : String} (hx : isName x = true) (he : Stands bound stop e) :
    Stands bound stop (.assign t x e) := by
  refine ⟨by simp [Expr.wellFormed, hx, he.wellFormed], fun r => ?_⟩
  have hsum := (he.application (calm_closing r)).sum_of_application (calm_closing r)
  rw [Expr.words]
  simp only [List.cons_append, List.append_assoc, List.nil_append]
  refine ((Takes.declare (is_keyWord .var) rfl rfl hsum).group rfl rfl).imp ?_
  rintro _ ⟨a, rfl, ha⟩
  simp only [erase, ha, literal_nameWord]

theorem binary {o : Token} (ho : o.isBinary = true) (hl : Stands bound stop l)
    (hs : Stands bound stop s) : Stands bound stop (.binary l o s) := by
  refine ⟨by simp [Expr.wellFormed, ho, hl.wellFormed, hs.wellFormed], fun r => ?_⟩
  obtain ⟨j, hj⟩ := sign_ownWord ho
  obtain ⟨t, v, htv, -⟩ := head_words hl.wellFormed
  rw [Expr.words]
  simp only [List.cons_append, List.append_assoc, List.nil_append]
  refine ((Takes.expr_of_binary hj (hl.takes _) (hs.takes _)
    (begins_words hl.wellFormed (nextIs_equal_of_sign hj _))
    (begins_words hs.wellFormed (calm_closing r).nextIs_equal) ?_ (calm_closing r)).group
      rfl rfl).imp ?_
  · simp only [htv, List.length_append, List.length_cons]
    omega
  · rintro _ ⟨a, b, rfl, ha, hb⟩
    simp only [erase, ha, hb, bare_ownWord]

theorem unary {o : Token} (ho : o.isUnary = true) (he : Stands bound stop e) :
    Stands bound stop (.unary o e) := by
  refine ⟨by simp [Expr.wellFormed, ho, he.wellFormed], fun r => ?_⟩
  have hcalm := calm_closing r
  have hbeg := begins_words he.wellFormed hcalm.nextIs_equal
  have hunary : Takes 6 (Sentence.expr bound stop) (ownWord o :: (e.words ++ closing :: r))
      (closing :: r) fun a => ∃ b, a = .unary (ownWord o) b ∧ b.erase = e.erase := by
    rcases kind_of_isUnary ho with hk | hk
    · exact ((he.takes _).signed hk).expr_of_factor (.sign _ (hk.imp_right .inl)) hcalm
    · exact .negation hk hcalm ((he.application hcalm).comparison_of_application hbeg hcalm)
  rw [Expr.words]
  simp only [List.cons_append, List.append_assoc, List.nil_append]
  refine (hunary.group rfl rfl).imp ?_
  rintro _ ⟨b, rfl, hb⟩
  simp only [erase, hb, bare_ownWord]

theorem cond {t : Token} {bs : List (Expr × Expr)}
    (h : ∀ b ∈ (c, a) :: bs, Stands bound stop b.1 ∧ Stands bound stop b.2) :
    Stands bound stop (.cond t ((c, a) :: bs) .absent) := by
  have hbs : wellFormedBranches ((c, a) :: bs) = true :=
    wellFormedBranches_iff.mpr fun b hb => ⟨(h b hb).1.wellFormed, (h b hb).2.wellFormed⟩
  refine ⟨by simp [Expr.wellFormed, isAbsent, hbs], fun r => ?_⟩
  have hcalm := calm_closing r
  have hbranches := branches_take_words h hcalm (by simp [closing, written, Token.is])
  have hcond := Takes.conditional_plain (is_keyWord .if) (by simp [closing, written, Token.is])
    hbranches
  rw [Expr.words, branchWords]
  simp only [isAbsent, if_true, List.cons_append, List.append_assoc, List.nil_append]
  refine ((hcond.expr_of_factor (.word _ (is_keyWord _) (by decide)) hcalm).group rfl rfl).imp ?_
  rintro _ ⟨cs, rfl, hcs⟩
  simp only [erase, hcs]

theorem condElse {t : Token} {bs : List (Expr × Expr)}
    (h : ∀ b ∈ (c, a) :: bs, Stands bound stop b.1 ∧ Stands bound stop b.2)
    (he : Stands bound stop e) : Stands bound stop (.cond t ((c, a) :: bs) e) := by
  have hbs : wellFormedBranches ((c, a) :: bs) = true :=
    wellFormedBranches_iff.mpr fun b hb => ⟨(h b hb).1.wellFormed, (h b hb).2.wellFormed⟩
  refine ⟨by simp [Expr.wellFormed, he.wellFormed, hbs], fun r => ?_⟩
  have hcalm := calm_closing r
  have hbranches := branches_take_words h (calm_keyWord .else (e.words ++ closing :: r))
    (by rintro _ _ ⟨rfl, rfl⟩; simp [is_iff (is_keyWord .else)])
  have hcond := Takes.conditional_else (is_keyWord .if) (is_keyWord .else) hbranches
    (he.expr hcalm) (by simp only [List.length_append, List.length_cons]; omega)
  rw [Expr.words, branchWords]
  simp only [he.isAbsent_eq, Bool.false_eq_true, if_false, List.cons_append, List.append_assoc,
    List.nil_append]
  refine ((hcond.expr_of_factor (.word _ (is_keyWord _) (by decide)) hcalm).group rfl rfl).imp ?_
  rintro _ ⟨cs, b, rfl, hcs, hb⟩
  simp only [erase, hcs, hb]

theorem step (hs : s = .absent ∨ Stands bound stop s) (u : List Token) :
    Calm ((if s.isAbsent then [] else keyWord .step :: s.words) ++ keyWord .then :: u) ∧
      Takes 1 (Sentence.step bound stop)
        ((if s.isAbsent then [] else keyWord .step :: s.words) ++ keyWord .then :: u)
        (keyWord .then :: u) fun a => a.erase = s.erase := by
  rcases hs with rfl | hs
  · refine ⟨calm_keyWord _ _, (Takes.step_none (is_keyWord _)).imp ?_⟩
    rintro _ rfl
    rfl
  · simp only [hs.isAbsent_eq, Bool.false_eq_true, if_false, List.cons_append]
    exact ⟨calm_keyWord _ _, .step_some (is_keyWord _) (hs.expr (calm_keyWord _ _))⟩

theorem count {t : Token} {x : String} (hx : isName x = true) (ha : Stands bound stop a)
    (hb : Stands bound stop b) (hs : s = .absent ∨ Stands bound stop s)
    (he : Stands bound stop e) : Stands bound stop (.count t x a b s e) := by
  have hwf : (s.isAbsent || s.wellFormed) = true := by
    rcases hs with rfl | hs
    · rfl
    · rw [hs.wellFormed, Bool.or_true]
  refine ⟨by simp [Expr.wellFormed, hx, ha.wellFormed, hb.wellFormed, hwf, he.wellFormed],
    fun r => ?_⟩
  have hcalm := calm_closing r
  obtain ⟨hclause, hstep⟩ := step hs (e.words ++ closing :: r)
  obtain ⟨_, _, hlen, -⟩ := head_words hb.wellFormed
  have hcount := Takes.counted (q := written .equal ['=']) (is_keyWord .for)
    (show (nameWord x).kind = .identifier from rfl) rfl (is_keyWord .to) (is_keyWord .then)
    (ha.expr (calm_keyWord .to _)) (hb.expr hclause) hstep (he.expr hcalm)
    (by simp only [List.length_append, List.length_cons]; omega)
    (by simp only [hlen, List.length_append, List.length_cons]; omega)
    (by simp only [List.length_append, List.length_cons]; omega)
  rw [Expr.words]
  simp only [List.cons_append, List.append_assoc, List.nil_append]
  refine ((hcount.expr_of_factor (.word _ (is_keyWord _) (by decide)) hcalm).group rfl rfl).imp ?_
  rintro _ ⟨a, b, c, d, rfl, ha, hb, hc, hd⟩
  simp only [erase, ha, hb, hc, hd, literal_nameWord]

theorem loop {t : Token} (hc : Stands bound stop c) (he : Stands bound stop e) :
    Stands bound stop (.loop t c e) := by
  refine ⟨by simp [Expr.wellFormed, hc.wellFormed, he.wellFormed], fun r => ?_⟩
  have hcalm := calm_closing r
  have hloop := Takes.looping (is_keyWord .while) (is_keyWord .then)
    (hc.expr (calm_keyWord .then (e.words ++ closing :: r))) (he.expr hcalm)
    (by simp only [List.length_append, List.length_cons]; omega)
  rw [Expr.words]
  simp only [List.cons_append, List.append_assoc, List.nil_append]
  refine ((hloop.expr_of_factor (.word _ (is_keyWord _) (by decide)) hcalm).group rfl rfl).imp ?_
  rintro _ ⟨a, b, rfl, ha, hb⟩
  simp only [erase, ha, hb]

theorem func {t : Token} {x : String} {ps : List String} (hx : x = "" ∨ isName x = true)
    (hps : ps.all isName = true) (he : Stands bound stop e) :
    Stands bound stop (.func t x ps e) := by
  refine ⟨by simpa [Expr.wellFormed, hx, he.wellFormed] using hps, fun r => ?_⟩
  have hcalm := calm_closing r
  have hfunc := Takes.function (is_keyWord .fn) (funcHead_words x ps _) (he.expr hcalm)
    (by simp only [List.length_append, List.length_cons]; omega)
  rw [Expr.words]
  simp only [List.cons_append, List.append_assoc, List.nil_append]
  refine ((hfunc.expr_of_factor (.word _ (is_keyWord _) (by decide)) hcalm).group rfl rfl).imp ?_
  rintro _ ⟨b, rfl, hb⟩
  simp only [erase, hb]

theorem call {t : Token} {as : List Expr} (hf : Stands bound stop f)
    (has : ∀ a ∈ as, Stands bound stop a) : Stands bound stop (.call t f as) := by
  have hargs : wellFormedArgs as = true :=
    wellFormedArgs_iff.mpr fun a ha => (has a ha).wellFormed
  refine ⟨by simp [Expr.wellFormed, hf.wellFormed, hargs], fun r => ?_⟩
  have hcall := Takes.call (t := opening) (q := closing) rfl rfl (hf.takes _)
    (arguments_take_args has (closing :: r))
    (by simp only [List.length_append, List.length_cons]; omega)
  have hbeg := begins_words hf.wellFormed
    (r := opening :: (joined (argWords as) ++ closing :: closing :: r)) rfl
  rw [Expr.words]
  simp only [List.cons_append, List.append_assoc, List.nil_append]
  refine ((hcall.expr_of_application hbeg (calm_closing r)).group rfl rfl).imp ?_
  rintro _ ⟨g, cs, rfl, hg, hcs⟩
  simp only [erase, hg, hcs]

end Stands

/-! ## Every tree -/

theorem stands_of_wellFormed (bound : Names) (stop : Token) (e : Expr)
    (h : e.wellFormed = true) : Stands bound stop e := by
  induction e using induct with
  | absent => cases h
  | number t => exact .number h
  | var t x => exact .var h
  | assign t x e ih =>
    rw [wellFormed, Bool.and_eq_true] at h
    exact .assign h.1 (ih h.2)
  | binary l o s ihl ihs =>
    rw [wellFormed, Bool.and_eq_true, Bool.and_eq_true] at h
    exact .binary h.1.1 (ihl h.1.2) (ihs h.2)
  | unary o e ih =>
    rw [wellFormed, Bool.and_eq_true] at h
    exact .unary h.1 (ih h.2)
  | cond t bs e ihbs ih =>
    rw [wellFormed, Bool.and_eq_true, Bool.and_eq_true, Bool.or_eq_true] at h
    obtain ⟨⟨hne, hbs⟩, he⟩ := h
    have hall : ∀ b ∈ bs, Stands bound stop b.1 ∧ Stands bound stop b.2 := by
      intro b hb
      obtain ⟨hc, ha⟩ := wellFormedBranches_iff.mp hbs b hb
      exact ⟨(ihbs b hb).1 hc, (ihbs b hb).2 ha⟩
    cases bs with
    | nil => cases hne
    | cons b bs =>
      rcases he with he | he
      · rw [eq_absent he]
        exact .cond hall
      · exact .condElse hall (ih he)
  | count t x a b s e iha ihb ihs ih =>
    simp only [wellFormed, Bool.and_eq_true, Bool.or_eq_true] at h
    obtain ⟨⟨⟨⟨hx, ha⟩, hb⟩, hs⟩, he⟩ := h
    exact .count hx (iha ha) (ihb hb) (hs.imp eq_absent ihs) (ih he)
  | loop t c e ihc ih =>
    rw [wellFormed, Bool.and_eq_true] at h
    exact .loop (ihc h.1) (ih h.2)
  | func t x ps e ih =>
    rw [wellFormed, Bool.and_eq_true, Bool.and_eq_true, Bool.or_eq_true, decide_eq_true_eq] at h
    exact .func h.1.1 h.1.2 (ih h.2)
  | call t f as ihf ihas =>
    rw [wellFormed, Bool.and_eq_true] at h
    exact .call (ihf h.1) fun a ha => ihas a ha (wellFormedArgs_iff.mp h.2 a ha)

theorem parse_words (bound : Names) (stop : Token) {e : Expr} (h : e.wellFormed = true) :
    ∃ a, Sentence.parse bound ⟨e.words, stop⟩ = .ok a ∧ a.erase = e.erase := by
  have hcalm : Calm [] := fun t u htu => nomatch htu
  have hread := (stands_of_wellFormed bound stop e h).expr hcalm
  obtain ⟨t, v, htv, -⟩ := head_words h
  rw [List.append_nil] at hread
  exact hread.parse (htv ▸ List.cons_ne_nil t v)

end ExprShell.Sentence
