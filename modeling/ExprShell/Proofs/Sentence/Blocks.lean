import ExprShell.Proofs.Expr.Parts
import ExprShell.Proofs.Sentence.Walk

/-!
# Blocks of words

A node of a tree was read from a block of the words.  The block is a sentence of the grammar, with
the node as its tree, and the node begins with the first word there that is no opening parenthesis.
The blocks of its children lie inside its own, one behind the other, in the order in which the
children are listed.

* `firstWord`         the first word of a block that is no opening parenthesis;
* `Spanned.Stands`    what holds of one node and its block;
* `Spanned.Sound`     the same for all the nodes of a tree;
* `Row`               trees that were read one behind the other;
* `Took`              a tree that was made of words, whose level is still being read;
* `Got`               a tree that was read at some level of the grammar.
-/

namespace ExprShell
open List (find?_append find?_cons)
open Grammar

/-- the first word from the place `i` up to the place `j` that is no opening parenthesis -/
def firstWord (w : List Token) (i j : Nat) : Option Token :=
  (w.extract i j).find? fun t => t.kind ≠ .lparen

section

variable {w ts : List Token} {t : Token} {i j k : Nat}

theorem drop_next (h : w.drop i = t :: ts) : w.drop (i + 1) = ts := by
  rw [← List.tail_drop, h, List.tail_cons]

theorem extract_of_drop (h : w.drop i = t :: ts) (hij : i < j) :
    w.extract i j = t :: w.extract (i + 1) j := by
  show (w.drop i).take (j - i) = t :: (w.drop (i + 1)).take (j - (i + 1))
  rw [h, drop_next h, show j - i = (j - (i + 1)) + 1 by omega, List.take_succ_cons]

theorem extract_append (hij : i ≤ j) (hjk : j ≤ k) :
    w.extract i j ++ w.extract j k = w.extract i k := by
  have hdrop : w.drop j = (w.drop i).drop (j - i) := by
    rw [List.drop_drop, Nat.add_sub_of_le hij]
  show (w.drop i).take (j - i) ++ (w.drop j).take (k - j) = (w.drop i).take (k - i)
  rw [hdrop, ← List.take_add, show j - i + (k - j) = k - i by omega]

/-- the words between two places, if those from the second place on are left -/
theorem eq_extract {u : List Token} (h : w.drop i = u ++ w.drop j) (hj : j ≤ w.length) :
    u = w.extract i j := by
  have hlen := congrArg List.length h
  rw [List.length_append, List.length_drop, List.length_drop] at hlen
  show u = (w.drop i).take (j - i)
  rw [h, show j - i = u.length by omega, List.take_left]

theorem firstWord_of_drop (h : w.drop i = t :: ts) (ht : t.kind ≠ .lparen) (hij : i < j) :
    firstWord w i j = some t := by
  rw [firstWord, extract_of_drop h hij, find?_cons, decide_eq_true ht]

theorem firstWord_of_opening (h : w.drop i = t :: ts) (ht : t.kind = .lparen) (hij : i < j) :
    firstWord w i j = firstWord w (i + 1) j := by
  rw [firstWord, extract_of_drop h hij, find?_cons, decide_eq_false (not_not_intro ht), firstWord]

theorem exists_of_firstWord (h : firstWord w i j = some t) :
    ∃ k, i ≤ k ∧ k < j ∧ w[k]? = some t := by
  obtain ⟨-, k, hk, hget, -⟩ := List.find?_eq_some_iff_getElem.mp h
  have hlen : k < j - i := Nat.lt_of_lt_of_le hk (List.length_take_le _ _)
  have hget? : (w.extract i j)[k]? = some t := by rw [List.getElem?_eq_getElem hk, hget]
  rw [List.getElem?_take_of_lt hlen, List.getElem?_drop] at hget?
  exact ⟨i + k, by omega, by omega, hget?⟩

theorem lt_of_firstWord (h : firstWord w i j = some t) : i < j := by
  obtain ⟨k, hik, hkj, -⟩ := exists_of_firstWord h
  omega

theorem firstWord_mono (h : firstWord w i j = some t) (hjk : j ≤ k) : firstWord w i k = some t := by
  have hij : i ≤ j := Nat.le_of_lt (lt_of_firstWord h)
  rw [firstWord] at h
  rw [firstWord, ← extract_append hij hjk, find?_append, h, Option.some_or]

end

def Expr.present (e : Expr) : List Expr := e.children.filter fun c => !c.isAbsent

/-- trees that lie between two places, one behind the other -/
inductive Lined : Nat → List Spanned → Nat → Prop
  | nil {i j : Nat} (h : i ≤ j) : Lined i [] j
  | cons {i j : Nat} {p : Spanned} {ps : List Spanned} (start : i ≤ p.start)
    (nonempty : p.start < p.stop) (rest : Lined p.stop ps j) : Lined i (p :: ps) j

namespace Lined

variable {i j k l : Nat} {ps qs : List Spanned}

theorem le (h : Lined i ps j) : i ≤ j := by
  induction h with
  | nil h => exact h
  | cons start nonempty _ ih => omega

theorem append (h : Lined i ps j) (hjk : j ≤ k) (hq : Lined k qs l) : Lined i (ps ++ qs) l := by
  induction h with
  | nil h =>
    cases hq with
    | nil hq => exact .nil (by omega)
    | cons start nonempty rest => exact .cons (by omega) nonempty rest
  | cons start nonempty _ ih => exact .cons start nonempty (ih hjk)

theorem widen (h : Lined i ps j) (hki : k ≤ i) (hjl : j ≤ l) : Lined k ps l := by
  have hright : Lined i (ps ++ []) l := h.append (Nat.le_refl j) (.nil hjl)
  rw [List.append_nil] at hright
  cases hright with
  | nil h => exact .nil (by omega)
  | cons start nonempty rest => exact .cons (by omega) nonempty rest

theorem le_start {p : Spanned} (h : Lined i ps j) (hp : p ∈ ps) : i ≤ p.start ∧ p.stop ≤ j := by
  induction h with
  | nil => cases hp
  | cons start nonempty rest ih =>
    rcases List.mem_cons.mp hp with rfl | hp
    · exact ⟨start, rest.le⟩
    · obtain ⟨hstart, hstop⟩ := ih hp
      exact ⟨by omega, hstop⟩

theorem pairwise (h : Lined i ps j) : ps.Pairwise fun p q => p.stop ≤ q.start := by
  induction h with
  | nil => exact .nil
  | cons _ _ rest ih => exact ih.cons fun q hq => (rest.le_start hq).1

end Lined

namespace Spanned

/-- the first tree is a node of the second -/
inductive Inside : Spanned → Spanned → Prop
  | self {p : Spanned} : Inside p p
  | part {q p r : Spanned} (h : Inside q p) (hr : r ∈ q.parts) : Inside r p

/-- a node with its block: the words there are a sentence with this tree, which begins with the
first of them; the parts are the children of the tree, and their blocks lie inside in this order -/
structure Stands (bound : Names) (w : List Token) (p : Spanned) : Prop where
  derives : Derives bound .expr (w.extract p.start p.stop) p.expr
  first : firstWord w p.start p.stop = some p.expr.token
  stop_le : p.stop ≤ w.length
  parts : p.parts.map Spanned.expr = p.expr.present
  lined : Lined p.start p.parts p.stop

/-- all the nodes stand in their blocks -/
def Sound (bound : Names) (w : List Token) (p : Spanned) : Prop :=
  ∀ q : Spanned, q.Inside p → q.Stands bound w

variable {bound : Names} {w : List Token} {p q : Spanned}

theorem Inside.trans {r : Spanned} (hrq : r.Inside q) (hqp : q.Inside p) : r.Inside p := by
  induction hrq with
  | self => exact hqp
  | part _ hr ih => exact .part (ih hqp) hr

theorem Inside.cases_part (h : q.Inside p) : q = p ∨ ∃ r ∈ p.parts, q.Inside r := by
  induction h with
  | self => exact .inl rfl
  | @part q p r _ hr ih =>
    rcases ih with rfl | ⟨s, hs, hqs⟩
    · exact .inr ⟨r, hr, .self⟩
    · exact .inr ⟨s, hs, .part hqs hr⟩

theorem Sound.node (h : p.Stands bound w) (hparts : ∀ r ∈ p.parts, r.Sound bound w) :
    p.Sound bound w := by
  intro q hq
  rcases hq.cases_part with rfl | ⟨r, hr, hqr⟩
  · exact h
  · exact hparts r hr q hqr

theorem Sound.start_lt_stop (h : p.Sound bound w) : p.start < p.stop :=
  lt_of_firstWord (h p .self).first

theorem Sound.exists_inside (h : p.Sound bound w) {a : Expr} (ha : a.Inside p.expr)
    (hne : a.isAbsent = false) : ∃ q : Spanned, q.Inside p ∧ q.expr = a := by
  generalize he : p.expr = e at ha
  induction ha with
  | self => exact ⟨p, .self, he⟩
  | @child a b _ _ hb ih =>
    have ha : a.isAbsent = false := by
      cases a with
      | absent => cases hb
      | _ => rfl
    obtain ⟨q, hq, rfl⟩ := ih ha he
    have hmem : b ∈ q.parts.map Spanned.expr := by
      rw [(h q hq).parts]
      exact List.mem_filter.mpr ⟨hb, by rw [hne]; rfl⟩
    obtain ⟨r, hr, rfl⟩ := List.mem_map.mp hmem
    exact ⟨r, .part hq hr, rfl⟩

end Spanned

/-! ## What was read -/

/-- trees that were read from the words between two places, one behind the other -/
structure Row (bound : Names) (w : List Token) (i : Nat) (ps : List Spanned) (j : Nat) : Prop where
  lined : Lined i ps j
  sound : ∀ p ∈ ps, p.Sound bound w
  present : ∀ p ∈ ps, p.expr.isAbsent = false

/-- the tree `e` was made of the words between two places, as `p` with its blocks; once they are
known to be a sentence with this tree, the blocks are -/
structure Took (bound : Names) (w : List Token) (i : Nat) (p : Spanned) (e : Expr) (j : Nat) :
    Prop where
  expr : p.expr = e
  present : e.isAbsent = false
  sound_of : Derives bound .expr (w.extract i j) e → p.Sound bound w
  start_le : i ≤ p.start
  stop_le : p.stop ≤ j
  first : firstWord w i j = some e.token

/-- the tree `e` was read from the words between two places at the level `D` -/
structure Got (bound : Names) (D : List Token → Expr → Prop) (w : List Token) (i : Nat)
    (p : Spanned) (e : Expr) (j : Nat) : Prop extends Took bound w i p e j where
  level : D (w.extract i j) e
  sound : p.Sound bound w

namespace Row

variable {bound : Names} {w : List Token} {i j k l : Nat} {ps qs : List Spanned}

theorem nil (h : i ≤ j) : Row bound w i [] j :=
  ⟨.nil h, List.forall_mem_nil _, List.forall_mem_nil _⟩

theorem append (h : Row bound w i ps j) (hjk : j ≤ k) (hq : Row bound w k qs l) :
    Row bound w i (ps ++ qs) l where
  lined := h.lined.append hjk hq.lined
  sound := List.forall_mem_append.mpr ⟨h.sound, hq.sound⟩
  present := List.forall_mem_append.mpr ⟨h.present, hq.present⟩

theorem widen (h : Row bound w i ps j) (hki : k ≤ i) (hjl : j ≤ l) : Row bound w k ps l :=
  ⟨h.lined.widen hki hjl, h.sound, h.present⟩

theorem filter_eq (h : Row bound w i ps j) :
    (ps.map Spanned.expr).filter (fun c => !c.isAbsent) = ps.map Spanned.expr := by
  apply List.filter_eq_self.mpr
  intro c hc
  obtain ⟨p, hp, rfl⟩ := List.mem_map.mp hc
  rw [h.present p hp]
  rfl

theorem map_eq_present {e : Expr} (h : Row bound w i ps j)
    (he : e.children = ps.map Spanned.expr) : ps.map Spanned.expr = e.present := by
  rw [Expr.present, he, h.filter_eq]

end Row

namespace Took

variable {bound : Names} {w : List Token} {i j k : Nat} {p : Spanned} {e : Expr}

theorem lt (h : Took bound w i p e j) : i < j := lt_of_firstWord h.first

theorem row (h : Took bound w i p e j) (hp : p.Sound bound w) : Row bound w i [p] j where
  lined := .cons h.start_le hp.start_lt_stop (.nil h.stop_le)
  sound := List.forall_mem_singleton.mpr hp
  present := List.forall_mem_singleton.mpr (h.expr ▸ h.present)

theorem node {ps : List Spanned} (hj : j ≤ w.length) (present : e.isAbsent = false)
    (first : firstWord w i j = some e.token) (parts : ps.map Spanned.expr = e.present)
    (row : Row bound w i ps j) : Took bound w i ⟨e, i, j, ps⟩ e j where
  expr := rfl
  present := present
  sound_of hd := .node ⟨hd, first, hj, parts, row.lined⟩ row.sound
  start_le := Nat.le_refl i
  stop_le := Nat.le_refl j
  first := first

end Took

namespace Got

variable {bound : Names} {D : List Token → Expr → Prop} {w : List Token} {i j k : Nat}
  {p : Spanned} {e : Expr}

theorem row (h : Got bound D w i p e j) : Row bound w i [p] j := h.toTook.row h.sound

theorem group {t : Token} {ts : List Token} (ht : t.kind = .lparen) (hi : w.drop i = t :: ts)
    (h : Got bound D w (i + 1) p e j) (hjk : j ≤ k) : Took bound w i p e k where
  expr := h.expr
  present := h.present
  sound_of _ := h.sound
  start_le := Nat.le_of_succ_le h.start_le
  stop_le := Nat.le_trans h.stop_le hjk
  first := by
    have hlt := h.toTook.lt
    rw [firstWord_of_opening hi ht (by omega)]
    exact firstWord_mono h.first hjk

end Got

end ExprShell
