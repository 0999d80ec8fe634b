import ExprShell.Proofs.Expr.RoundTrip

/-!
# Trees that the grammar builds

A tree that was read is built from its words: every token in it is one of them, every operator is
one that the grammar knows, every number has a token of a number, and a name that is assigned to
stands behind the word that declares it or was bound before.  Nothing is absent but the last branch
of a condition and the step of a counted loop.

* `Expr.Built`        trees built from words, under the names that were bound;
* `built_of_parse`    all trees that are read are such trees.
-/

namespace ExprShell

/-- the tree was built from the words `w`, when the names of `bound` were bound -/
inductive Expr.Built (bound : Names) (w : List Token) : Expr → Prop
  | number {t : Token} (ht : t ∈ w) (hk : t.kind = .int ∨ t.kind = .double) :
    Built bound w (.number t)
  | var {t : Token} (ht : t ∈ w) : Built bound w (.var t t.literal)
  | declare {t x : Token} {e : Expr} (htx : [t, x] <:+: w) (ht : t.is .var)
    (hx : x.kind = .identifier) (he : Built bound w e) : Built bound w (.assign t x.literal e)
  | assign {x : Token} {e : Expr} (hx : x ∈ w) (hb : bound x.literal) (he : Built bound w e) :
    Built bound w (.assign x x.literal e)
  | binary {l : Grammar.Loop} {o : Token} {a b : Expr} (ho : o ∈ w) (hs : l.sign o)
    (ha : Built bound w a) (hb : Built bound w b) : Built bound w (.binary a o b)
  | unary {o : Token} {e : Expr} (ho : o ∈ w) (hs : o.kind = .plus ∨ o.kind = .minus ∨ o.is .not)
    (he : Built bound w e) : Built bound w (.unary o e)
  | cond {t : Token} {bs : List (Expr × Expr)} {e : Expr} (ht : t ∈ w)
    (htests : ∀ b ∈ bs, Built bound w b.1) (hbodies : ∀ b ∈ bs, Built bound w b.2)
    (he : e ≠ .absent → Built bound w e) : Built bound w (.cond t bs e)
  | count {t x : Token} {a b s e : Expr} (htx : [t, x] <:+: w) (ht : t.is .for)
    (hx : x.kind = .identifier) (ha : Built bound w a) (hb : Built bound w b)
    (hs : s ≠ .absent → Built bound w s) (he : Built bound w e) :
    Built bound w (.count t x.literal a b s e)
  | loop {t : Token} {c e : Expr} (ht : t ∈ w) (hk : t.is .while) (hc : Built bound w c)
    (he : Built bound w e) : Built bound w (.loop t c e)
  | func {t : Token} {x : String} {ps : List String} {e : Expr} (ht : t ∈ w) (hk : t.is .fn)
    (hx : x ≠ "" → ∃ n : Token, [t, n] <:+: w ∧ n.kind = .identifier ∧ n.literal = x)
    (he : Built bound w e) : Built bound w (.func t x ps e)
  | call {t : Token} {f : Expr} {as : List Expr} (hf : Built bound w f)
    (has : ∀ a ∈ as, Built bound w a) : Built bound w (.call t f as)

namespace Expr.Built

variable {bound : Names} {w : List Token} {e : Expr}

theorem token_mem (h : e.Built bound w) : e.token ∈ w := by
  induction h with
  | number ht _ | var ht | cond ht | loop ht | func ht => exact ht
  | declare htx _ _ _ | count htx => exact htx.subset List.mem_cons_self
  | assign hx _ _ _ => exact hx
  | binary _ _ _ _ ih _ => exact ih
  | unary ho _ _ _ => exact ho
  | call _ _ ih _ => exact ih

end Expr.Built

/-! ## What the grammar builds -/

namespace Grammar

def BuiltAs (bound : Names) (w : List Token) : (p : Part) → p.Tree → Prop
  | .expr, e | .application, e | .operand _, e => e.Built bound w
  | .conditional, e | .counted, e | .looping, e | .function, e => e.Built bound w
  | .clause _, e => e ≠ .absent → e.Built bound w
  | .chain _, f => ∀ e : Expr, e.Built bound w → (f e).Built bound w
  | .args, as | .exprs, as => ∀ a ∈ as, Expr.Built bound w a
  | .branches, bs => ∀ b ∈ bs, b.1.Built bound w ∧ b.2.Built bound w
  | .title, _ | .params, _ | .names, _ => True

theorem infix_of_cons {t : Token} {v w : List Token} (h : t :: v <:+: w) : v <:+: w :=
  (List.suffix_cons t v).isInfix.trans h

theorem infix_of_append {u v w : List Token} (h : u ++ v <:+: w) : u <:+: w ∧ v <:+: w :=
  ⟨(List.prefix_append u v).isInfix.trans h, (List.suffix_append u v).isInfix.trans h⟩

theorem mem_of_cons {t : Token} {v w : List Token} (h : t :: v <:+: w) : t ∈ w :=
  h.subset List.mem_cons_self

theorem adjacent_of_cons {t x : Token} {v w : List Token} (h : t :: x :: v <:+: w) :
    [t, x] <:+: w :=
  (infix_of_append (u := [t, x]) h).1

/-- the name of a function stands behind the word before it -/
theorem adjacent_of_title {bound : Names} {t : Token} {u v w : List Token} {x : String}
    (h : Derives bound .title u x) (hw : t :: (u ++ v) <:+: w) (hx : x ≠ "") :
    ∃ n : Token, [t, n] <:+: w ∧ n.kind = .identifier ∧ n.literal = x := by
  cases h with
  | noTitle => exact absurd rfl hx
  | @someTitle n hn => exact ⟨n, adjacent_of_cons hw, hn, rfl⟩

theorem builtAs_of_derives {bound : Names} {p : Part} {v w : List Token} {e : p.Tree}
    (h : Derives bound p v e) (hv : v <:+: w) : BuiltAs bound w p e := by
  induction h with
  | declare ht hx _ _ ih =>
    have hw := infix_of_cons (infix_of_cons (infix_of_cons hv))
    exact .declare (adjacent_of_cons hv) ht hx (ih hw)
  | assign _ hb _ _ ih =>
    exact .assign (mem_of_cons hv) hb (ih (infix_of_cons (infix_of_cons hv)))
  | logic _ _ ihw ihv | comparison _ _ ihw ihv | sum _ _ ihw ihv | product _ _ ihw ihv =>
    obtain ⟨hleft, hright⟩ := infix_of_append hv
    exact ihv hright _ (ihw hleft)
  | negation ht _ ih =>
    exact .unary (mem_of_cons hv) (.inr (.inr ht)) (ih (infix_of_cons hv))
  | stop => exact fun e he => he
  | next ht _ _ ihw ihv =>
    obtain ⟨hleft, hright⟩ := infix_of_append (infix_of_cons hv)
    intro left hl
    exact ihv hright _ (.binary (mem_of_cons hv) ht hl (ihw hleft))
  | plain _ ih | someArgs _ ih => exact ih hv
  | conditional _ ih | counted _ ih | looping _ ih | function _ ih => exact ih hv
  | call _ _ _ _ ihw ihv =>
    obtain ⟨hleft, hright⟩ := infix_of_append hv
    exact .call (ihw hleft) (ihv (infix_of_append (infix_of_cons hright)).1)
  | noArgs => exact nofun
  | lastExpr _ ih => exact List.forall_mem_singleton.mpr (ih hv)
  | nextExpr _ _ _ ihw ihv =>
    obtain ⟨hleft, hright⟩ := infix_of_append hv
    exact List.forall_mem_cons.mpr ⟨ihw hleft, ihv (infix_of_cons hright)⟩
  | signed ht _ ih =>
    exact .unary (mem_of_cons hv) (ht.imp_right .inl) (ih (infix_of_cons hv))
  | number ht => exact .number (mem_of_cons hv) ht
  | name _ => exact .var (mem_of_cons hv)
  | group _ _ _ ih => exact ih (infix_of_append (infix_of_cons hv)).1
  | cond _ _ _ ihw ihv =>
    obtain ⟨hleft, hright⟩ := infix_of_append (infix_of_cons hv)
    have hbs := ihw hleft
    exact .cond (mem_of_cons hv) (fun b hb => (hbs b hb).1) (fun b hb => (hbs b hb).2)
      (ihv hright)
  | lastBranch _ _ _ ihw ihv =>
    obtain ⟨hleft, hright⟩ := infix_of_append hv
    exact List.forall_mem_singleton.mpr ⟨ihw hleft, ihv (infix_of_cons hright)⟩
  | nextBranch _ _ _ _ _ ihw ihv ihu =>
    obtain ⟨hw, hrest⟩ := infix_of_append hv
    obtain ⟨hv, hu⟩ := infix_of_append (infix_of_cons hrest)
    exact List.forall_mem_cons.mpr ⟨⟨ihw hw, ihv hv⟩, ihu (infix_of_cons hu)⟩
  | noClause => exact fun h => absurd rfl h
  | someClause _ _ ih => exact fun _ => ih (infix_of_cons hv)
  | count ht hx _ _ _ _ _ _ _ ihu ihv ihz ihw =>
    obtain ⟨hu, hrest⟩ := infix_of_append (infix_of_cons (infix_of_cons (infix_of_cons hv)))
    obtain ⟨hb, hrest⟩ := infix_of_append (infix_of_cons hrest)
    obtain ⟨hz, hrest⟩ := infix_of_append hrest
    exact .count (adjacent_of_cons hv) ht hx (ihu hu) (ihv hb) (ihz hz) (ihw (infix_of_cons hrest))
  | loop ht _ _ _ ihw ihv =>
    obtain ⟨hleft, hright⟩ := infix_of_append (infix_of_cons hv)
    exact .loop (mem_of_cons hv) ht (ihw hleft) (ihv (infix_of_cons hright))
  | func ht hu _ _ _ _ _ _ _ ihw =>
    obtain ⟨-, hrest⟩ := infix_of_append (infix_of_cons hv)
    obtain ⟨-, hbody⟩ := infix_of_append (infix_of_cons hrest)
    exact .func (mem_of_cons hv) ht (adjacent_of_title hu hv)
      (ihw (infix_of_cons (infix_of_cons hbody)))
  | noTitle | someTitle _ | noParams | someParams _ | lastName _ | nextName _ _ _ => trivial

end Grammar

theorem built_of_parse {bound : Names} {ts : List Token} {e : Expr} (h : parse bound ts = .ok e) :
    e.Built bound (Sentence.ofTokens ts).words :=
  Grammar.builtAs_of_derives (Sentence.derives_of_parse h) List.infix_rfl

theorem built_of_parse_scan {bound : Names} {cs : List Char} {e : Expr}
    (h : parse bound (scan cs).tokens = .ok e) : e.Built bound (scanned cs) := by
  rw [← words_ofTokens_scan]
  exact built_of_parse h

end ExprShell
