import ExprShell.Proofs.Expr.Parts
import ExprShell.Proofs.Expr.RoundTrip

/-!
# Trees that were read from a text

A tree that was read from a scanned text, or stands inside one, has numbers and operators that were
scanned; so their literals follow from their kinds and texts.  Two such trees that are the same up
to places have the same numbers and the same operators, although `same` never looks at a literal.

* `Expr.Read`      what was read from a text, and what stands inside;
* `Expr.Carries`   all numbers and operators of a tree are tokens of a kind;
* `Expr.Twin`      trees that were read from texts and are the same up to places.
-/

namespace ExprShell

/-- the literal is the text, for the kinds that have one -/
def Token.Literate (t : Token) : Prop := t.literal = if t.kind.hasLiteral then t.lexeme else ""

namespace Expr

def sign? : Expr → Option Token
  | .number t => some t
  | .binary _ o _ | .unary o _ => some o
  | _ => none

/-- the tree was read from a scanned text, or stands inside one that was -/
def Read (e : Expr) : Prop :=
  ∃ bound cs a, parse bound (scan cs).tokens = .ok a ∧ e.Inside a

theorem Read.whole {bound : Names} {cs : List Char} {e : Expr}
    (h : parse bound (scan cs).tokens = .ok e) : e.Read := ⟨bound, cs, e, h, .self⟩

theorem Read.child {a e : Expr} (h : a.Read) (he : e ∈ a.children) : e.Read := by
  obtain ⟨bound, cs, b, hb, ha⟩ := h
  exact ⟨bound, cs, b, hb, ha.child he⟩

/-- all numbers and operators are tokens with `P` -/
inductive Carries (P : Token → Prop) : Expr → Prop
  | node {e : Expr} (sign : ∀ t ∈ e.sign?, P t) (children : ∀ a ∈ e.children, Carries P a) :
    Carries P e

theorem Carries.of_none {P : Token → Prop} {e : Expr} (h : e.sign? = none)
    (hc : ∀ a ∈ e.children, a.Carries P) : e.Carries P := by
  refine .node (fun t ht => ?_) hc
  rw [h] at ht
  cases ht

theorem Carries.of_some {P : Token → Prop} {e : Expr} {t : Token} (h : e.sign? = some t) (ht : P t)
    (hc : ∀ a ∈ e.children, a.Carries P) : e.Carries P := by
  refine .node (fun u hu => ?_) hc
  rw [h] at hu
  cases hu
  exact ht

end Expr

/-! ## What is scanned -/

theorem literate_of_mem_scanned {t : Token} {cs : List Char} (h : t ∈ scanned cs) :
    t.Literate := by
  obtain ⟨x, -, hx⟩ := List.mem_filterMap.mp h
  unfold Placed.token? at hx
  split at hx
  · cases hx
    rfl
  · cases hx

namespace Grammar
open ExprShell.Expr

/-- what a part of a text is read as, from tokens with `P` -/
def Carried (P : Token → Prop) : (p : Part) → p.Tree → Prop
  | .expr, e | .application, e | .operand _, e | .clause _, e => e.Carries P
  | .conditional, e | .counted, e | .looping, e | .function, e => e.Carries P
  | .chain _, f => ∀ e : Expr, e.Carries P → (f e).Carries P
  | .args, as | .exprs, as => ∀ a ∈ as, Carries P a
  | .branches, bs => ∀ b ∈ bs, Carries P b.1 ∧ Carries P b.2
  | .title, _ | .params, _ | .names, _ => True

theorem carried_of_derives {P : Token → Prop} {bound : Names} {p : Part} {w : List Token}
    {e : p.Tree} (h : Derives bound p w e) (hw : ∀ t ∈ w, P t) : Carried P p e := by
  induction h with
  | declare _ _ _ _ ih =>
    simp only [List.forall_mem_cons] at hw
    exact .of_none rfl (List.forall_mem_singleton.mpr (ih hw.2.2.2))
  | assign _ _ _ _ ih =>
    simp only [List.forall_mem_cons] at hw
    exact .of_none rfl (List.forall_mem_singleton.mpr (ih hw.2.2))
  | logic _ _ ihw ihv | comparison _ _ ihw ihv | sum _ _ ihw ihv | product _ _ ihw ihv =>
    rw [List.forall_mem_append] at hw
    exact ihv hw.2 _ (ihw hw.1)
  | negation _ _ ih | signed _ _ ih =>
    rw [List.forall_mem_cons] at hw
    exact .of_some rfl hw.1 (List.forall_mem_singleton.mpr (ih hw.2))
  | stop => exact fun e he => he
  | @next l t w v e f _ _ _ ihw ihv =>
    simp only [List.forall_mem_cons, List.forall_mem_append] at hw
    intro left hleft
    have hboth : ∀ a ∈ [left, e], Carries P a :=
      List.forall_mem_cons.mpr ⟨hleft, List.forall_mem_singleton.mpr (ihw hw.2.1)⟩
    exact ihv hw.2.2 _ (.of_some rfl hw.1 hboth)
  | plain _ ih => exact ih hw
  | call _ _ _ _ ihw ihv =>
    simp only [List.forall_mem_cons, List.forall_mem_append] at hw
    exact .of_none rfl (List.forall_mem_cons.mpr ⟨ihw hw.1, ihv hw.2.2.1⟩)
  | noArgs => exact nofun
  | someArgs _ ih => exact ih hw
  | lastExpr _ ih => exact List.forall_mem_singleton.mpr (ih hw)
  | nextExpr _ _ _ ihw ihv =>
    simp only [List.forall_mem_cons, List.forall_mem_append] at hw
    exact List.forall_mem_cons.mpr ⟨ihw hw.1, ihv hw.2.2⟩
  | number _ => exact .of_some rfl (hw _ List.mem_cons_self) nofun
  | name _ => exact .of_none rfl nofun
  | group _ _ _ ih =>
    simp only [List.forall_mem_cons, List.forall_mem_append] at hw
    exact ih hw.2.1
  | conditional _ ih | counted _ ih | looping _ ih | function _ ih => exact ih hw
  | @cond t w v bs e _ _ _ ihw ihv =>
    simp only [List.forall_mem_cons, List.forall_mem_append] at hw
    have hbs : ∀ b ∈ bs, Carries P b.1 ∧ Carries P b.2 := ihw hw.2.1
    have hlast := List.forall_mem_singleton.mpr (ihv hw.2.2)
    refine .of_none rfl (List.forall_mem_append.mpr ⟨?_, hlast⟩)
    intro a ha
    obtain ⟨b, hb, hab⟩ := List.mem_flatMap.mp ha
    rcases List.mem_pair.mp hab with rfl | rfl
    · exact (hbs b hb).1
    · exact (hbs b hb).2
  | lastBranch _ _ _ ihw ihv =>
    simp only [List.forall_mem_cons, List.forall_mem_append] at hw
    exact List.forall_mem_singleton.mpr ⟨ihw hw.1, ihv hw.2.2⟩
  | nextBranch _ _ _ _ _ ihw ihv ihu =>
    simp only [List.forall_mem_cons, List.forall_mem_append] at hw
    exact List.forall_mem_cons.mpr ⟨⟨ihw hw.1, ihv hw.2.2.1⟩, ihu hw.2.2.2.2⟩
  | noClause => exact .of_none rfl nofun
  | someClause _ _ ih =>
    rw [List.forall_mem_cons] at hw
    exact ih hw.2
  | count _ _ _ _ _ _ _ _ _ ihu ihv ihz ihw =>
    simp only [List.forall_mem_cons, List.forall_mem_append] at hw
    obtain ⟨-, -, -, hu, -, hv, hz, -, hw⟩ := hw
    refine .of_none rfl ?_
    simp only [children, List.forall_mem_cons]
    exact ⟨ihu hu, ihv hv, ihz hz, ihw hw, nofun⟩
  | loop _ _ _ _ ihw ihv =>
    simp only [List.forall_mem_cons, List.forall_mem_append] at hw
    exact .of_none rfl
      (List.forall_mem_cons.mpr ⟨ihw hw.2.1, List.forall_mem_singleton.mpr (ihv hw.2.2.2)⟩)
  | func _ _ _ _ _ _ _ _ _ ihw =>
    simp only [List.forall_mem_cons, List.forall_mem_append] at hw
    obtain ⟨-, -, -, -, -, -, hw⟩ := hw
    exact .of_none rfl (List.forall_mem_singleton.mpr (ihw hw))
  | noTitle | someTitle _ | noParams | someParams _ | lastName _ | nextName _ _ _ => trivial

end Grammar

namespace Expr

/-- every number and operator that was read was scanned -/
theorem Read.carries {e : Expr} (h : e.Read) : e.Carries Token.Literate := by
  obtain ⟨bound, cs, a, ha, he⟩ := h
  induction he with
  | self =>
    have hd := Sentence.derives_of_parse ha
    rw [words_ofTokens_scan] at hd
    exact Grammar.carried_of_derives hd fun t => literate_of_mem_scanned
  | child _ hb ih =>
    obtain ⟨_, hchildren⟩ := ih ha
    exact hchildren _ hb

theorem Read.literate {e : Expr} (h : e.Read) {t : Token} (ht : t ∈ e.sign?) : t.Literate := by
  obtain ⟨hsign, _⟩ := h.carries
  exact hsign t ht

/-- both were read from texts, and they are the same up to places -/
structure Twin (a b : Expr) : Prop where
  left : a.Read
  right : b.Read
  same : a.same b = true

end Expr

end ExprShell
