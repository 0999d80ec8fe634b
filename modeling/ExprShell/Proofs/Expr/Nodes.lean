import ExprShell.Proofs.Expr.Built
import ExprShell.Proofs.Expr.Parts

/-!
# The nodes of a tree in the order of the sentence

Every node of a tree that was read has a word of its own: the number or the name itself, the sign
of an operator, the word that a condition, a loop or a function begins with, the parenthesis of a
call.  Taken in the order of the sentence these words stand in it one behind the other, so no word
belongs to two nodes.

* `Expr.mark`        the word of a node;
* `Expr.nodes`       the nodes, each where its word stands;
* `Expr.plains`      the assignments among them that no word declares;
* `marks_sublist`    the words of the nodes are words of the sentence, in its order.
-/

namespace ExprShell

namespace Expr

def mark : Expr → Token
  | .absent => Token.missing
  | .number t | .var t _ | .assign t _ _ | .binary _ t _ | .unary t _ => t
  | .cond t _ _ | .count t _ _ _ _ _ | .loop t _ _ | .func t _ _ _ | .call t _ _ => t

mutual

/-- the nodes of a tree, each where its word stands in the sentence -/
def nodes : Expr → List Expr
  | .absent => []
  | .number t => [.number t]
  | .var t x => [.var t x]
  | .assign t x e => .assign t x e :: e.nodes
  | .binary l o r => l.nodes ++ .binary l o r :: r.nodes
  | .unary o e => .unary o e :: e.nodes
  | .cond t bs e => .cond t bs e :: (nodesOfBranches bs ++ e.nodes)
  | .count t x a b s e =>
    .count t x a b s e :: (a.nodes ++ (b.nodes ++ (s.nodes ++ e.nodes)))
  | .loop t c e => .loop t c e :: (c.nodes ++ e.nodes)
  | .func t x ps e => .func t x ps e :: e.nodes
  | .call t f as => f.nodes ++ .call t f as :: nodesOfArgs as

def nodesOfBranches : List (Expr × Expr) → List Expr
  | [] => []
  | (c, e) :: bs => c.nodes ++ (e.nodes ++ nodesOfBranches bs)

def nodesOfArgs : List Expr → List Expr
  | [] => []
  | a :: as => a.nodes ++ nodesOfArgs as

end

theorem nodesOfBranches_eq (bs : List (Expr × Expr)) :
    nodesOfBranches bs = bs.flatMap fun b => b.1.nodes ++ b.2.nodes :=
  eq_flatMap rfl (fun b bs => by rw [nodesOfBranches, List.append_assoc]) bs

theorem nodesOfArgs_eq (as : List Expr) : nodesOfArgs as = as.flatMap nodes :=
  eq_flatMap rfl (fun a as => by rw [nodesOfArgs]) as

def marks (e : Expr) : List Token := e.nodes.map mark

theorem marks_call (t : Token) (f : Expr) (as : List Expr) :
    (call t f as).marks = f.marks ++ t :: (nodesOfArgs as).map mark := List.map_append

theorem marks_cond (t : Token) (bs : List (Expr × Expr)) (e : Expr) :
    (cond t bs e).marks = t :: ((nodesOfBranches bs).map mark ++ e.marks) :=
  congrArg (t :: ·) List.map_append

theorem marks_count (t : Token) (x : String) (a b s e : Expr) :
    (count t x a b s e).marks = t :: (a.marks ++ (b.marks ++ (s.marks ++ e.marks))) := by
  simp [marks, nodes, mark]

theorem marks_loop (t : Token) (c e : Expr) : (loop t c e).marks = t :: (c.marks ++ e.marks) :=
  congrArg (t :: ·) List.map_append

/-- the name of an assignment whose own word is the name -/
def plain? : Expr → Option (Token × String)
  | .assign t x _ => if t.kind = .identifier then some (t, x) else none
  | _ => none

/-- the assignments of a tree, at any depth, that no word declares: word and name -/
def plains (e : Expr) : List (Token × String) := e.nodes.filterMap plain?

/-! ## Nodes and what stands inside -/

/-- induction on a tree, with the hypothesis for its children -/
theorem induct_children {motive : Expr → Prop}
    (step : ∀ e, (∀ c ∈ e.children, motive c) → motive e) (e : Expr) : motive e := by
  induction e using induct with
  | absent => exact step _ nofun
  | number t => exact step _ nofun
  | var t x => exact step _ nofun
  | assign t x e ih => exact step _ (List.forall_mem_singleton.mpr ih)
  | unary o e ih => exact step _ (List.forall_mem_singleton.mpr ih)
  | func t x ps e ih => exact step _ (List.forall_mem_singleton.mpr ih)
  | binary l o r ihl ihr => exact step _ (by simp [children, ihl, ihr])
  | loop t c e ihc ih => exact step _ (by simp [children, ihc, ih])
  | count t x a b s e iha ihb ihs ih => exact step _ (by simp [children, iha, ihb, ihs, ih])
  | cond t bs e ihbs ih =>
    refine step _ fun c hc => ?_
    rcases List.mem_append.mp hc with hc | hc
    · obtain ⟨b, hb, hc⟩ := List.mem_flatMap.mp hc
      rcases List.mem_pair.mp hc with rfl | rfl
      · exact (ihbs b hb).1
      · exact (ihbs b hb).2
    · exact List.mem_singleton.mp hc ▸ ih
  | call t f as ihf ihas => exact step _ (List.forall_mem_cons.mpr ⟨ihf, ihas⟩)

/-- what stands inside a tree is the tree itself, or stands inside one of its children -/
theorem inside_iff_child {a e : Expr} :
    a.Inside e ↔ a = e ∨ ∃ c ∈ e.children, a.Inside c := by
  constructor
  · intro h
    induction h with
    | self => exact .inl rfl
    | child _ hb ih =>
      rcases ih with rfl | ⟨c, hc, hac⟩
      · exact .inr ⟨_, hb, .self⟩
      · exact .inr ⟨c, hc, .child hac hb⟩
  · rintro (rfl | ⟨c, hc, hac⟩)
    · exact .self
    · induction hac with
      | self => exact .child .self hc
      | child _ hb ih => exact .child (ih hc) hb

/-- a node is the tree itself, or a node of one of its children -/
theorem mem_nodes_iff_child {a e : Expr} :
    a ∈ e.nodes ↔ (a = e ∧ e ≠ .absent) ∨ ∃ c ∈ e.children, a ∈ c.nodes := by
  cases e with
  | absent => simp [nodes, children]
  | number | var | assign | unary | loop | func | count => simp [nodes, children]
  | binary l o r => simp [nodes, children, or_left_comm]
  | cond t bs e =>
    simp only [nodes, children, nodesOfBranches_eq, List.mem_cons, List.mem_append,
      List.mem_flatMap]
    grind
  | call t f as =>
    simp only [nodes, children, nodesOfArgs_eq, List.mem_cons, List.mem_append, List.mem_flatMap]
    grind

theorem mem_nodes_iff {a e : Expr} : a ∈ e.nodes ↔ a.Inside e ∧ a ≠ .absent := by
  induction e using induct_children with
  | step e ih =>
    rw [mem_nodes_iff_child, inside_iff_child]
    grind

/-- the plain assignments are the assignments inside the tree whose word is a name -/
theorem mem_plains_iff {t : Token} {x : String} {e : Expr} :
    (t, x) ∈ e.plains ↔ ∃ v, (assign t x v).Inside e ∧ t.kind = .identifier := by
  rw [plains, List.mem_filterMap]
  constructor
  · rintro ⟨a, ha, hplain⟩
    cases a with
    | assign t' x' v =>
      rw [plain?] at hplain
      split at hplain
      · next hk =>
        cases hplain
        exact ⟨v, (mem_nodes_iff.mp ha).1, hk⟩
      · cases hplain
    | _ => cases hplain
  · rintro ⟨v, hv, hk⟩
    exact ⟨assign t x v, mem_nodes_iff.mpr ⟨hv, nofun⟩, if_pos hk⟩

/-- the words of the plain assignments are among the words of the nodes, in their order -/
theorem plains_sublist (e : Expr) : List.Sublist (e.plains.map Prod.fst) e.marks := by
  have h : ∀ as : List Expr, List.Sublist ((as.filterMap plain?).map Prod.fst) (as.map mark) := by
    intro as
    induction as with
    | nil => exact .slnil
    | cons a as ih =>
      cases ha : plain? a with
      | none =>
        rw [List.filterMap_cons_none ha]
        exact ih.cons _
      | some b =>
        have hb : b.1 = a.mark := by
          cases a with
          | assign t x v =>
            rw [plain?] at ha
            split at ha
            · cases ha
              rfl
            · cases ha
          | _ => cases ha
        rw [List.filterMap_cons_some ha, List.map_cons, List.map_cons, hb]
        exact ih.cons_cons _
  exact h e.nodes

end Expr

/-! ## The order of the sentence -/

namespace Grammar

open List (Sublist)

/-- the words of the nodes of what a part is read as stand among `w`, in this order; a chain adds
its words behind those of the operand to its left -/
def Marked (w : List Token) : (p : Part) → p.Tree → Prop
  | .expr, e | .application, e | .operand _, e | .clause _, e => Sublist (Expr.marks e) w
  | .conditional, e | .counted, e | .looping, e | .function, e => Sublist (Expr.marks e) w
  | .chain _, f => ∃ v, Sublist v w ∧ ∀ e : Expr, (f e).marks = e.marks ++ v
  | .args, as | .exprs, as => Sublist ((Expr.nodesOfArgs as).map Expr.mark) w
  | .branches, bs => Sublist ((Expr.nodesOfBranches bs).map Expr.mark) w
  | .title, _ | .params, _ | .names, _ => True

theorem marked_of_derives {bound : Names} {p : Part} {w : List Token} {e : p.Tree}
    (h : Derives bound p w e) : Marked w p e := by
  induction h with
  | declare ht hx hq hw ih => exact ((ih.cons _).cons _).cons_cons _
  | assign _ hb _ _ ih => exact (ih.cons _).cons_cons _
  | logic _ _ ihw ihv | comparison _ _ ihw ihv | sum _ _ ihw ihv | product _ _ ihw ihv =>
    obtain ⟨u, hu, hf⟩ := ihv
    show Sublist (Expr.marks _) _
    rw [hf]
    exact ihw.append hu
  | negation ht _ ih => exact ih.cons_cons _
  | stop => exact ⟨[], .slnil, fun e => (List.append_nil _).symm⟩
  | @next l t w v e f ht _ _ ihw ihv =>
    obtain ⟨u, hu, hf⟩ := ihv
    refine ⟨t :: (e.marks ++ u), (ihw.append hu).cons_cons t, fun a => ?_⟩
    rw [hf]
    simp [Expr.marks, Expr.nodes, Expr.mark]
  | plain _ ih | someArgs _ ih => exact ih
  | conditional _ ih | counted _ ih | looping _ ih | function _ ih => exact ih
  | call _ _ _ _ ihw ihv =>
    show Sublist (Expr.marks _) _
    rw [Expr.marks_call]
    exact ihw.append ((ihv.trans (List.sublist_append_left _ _)).cons_cons _)
  | noArgs => exact .slnil
  | @lastExpr w e _ ih =>
    show Sublist ((e.nodes ++ []).map Expr.mark) w
    rw [List.append_nil]
    exact ih
  | @nextExpr t w v e as _ _ _ ihw ihv =>
    show Sublist ((e.nodes ++ Expr.nodesOfArgs as).map Expr.mark) _
    rw [List.map_append]
    exact ihw.append (ihv.cons t)
  | signed ht _ ih => exact ih.cons_cons _
  | number ht => exact .refl _
  | name _ => exact .refl _
  | group _ _ _ ih => exact (ih.trans (List.sublist_append_left _ _)).cons _
  | cond _ _ _ ihw ihv =>
    show Sublist (Expr.marks _) _
    rw [Expr.marks_cond]
    exact (ihw.append ihv).cons_cons _
  | @lastBranch t w v c e _ _ _ ihw ihv =>
    show Sublist ((c.nodes ++ (e.nodes ++ [])).map Expr.mark) _
    rw [List.append_nil, List.map_append]
    exact ihw.append (ihv.cons t)
  | @nextBranch t s w v u c e bs _ _ _ _ _ ihw ihv ihu =>
    show Sublist ((c.nodes ++ (e.nodes ++ Expr.nodesOfBranches bs)).map Expr.mark) _
    rw [List.map_append, List.map_append]
    exact ihw.append ((ihv.append (ihu.cons s)).cons t)
  | noClause => exact .slnil
  | someClause _ _ ih => exact ih.cons _
  | count _ _ _ _ _ _ _ _ _ ihu ihv ihz ihw =>
    show Sublist (Expr.marks _) _
    rw [Expr.marks_count]
    exact (((ihu.append ((ihv.append (ihz.append (ihw.cons _))).cons _)).cons _).cons _).cons_cons _
  | loop _ _ _ _ ihw ihv =>
    show Sublist (Expr.marks _) _
    rw [Expr.marks_loop]
    exact (ihw.append (ihv.cons _)).cons_cons _
  | @func t p q r u v w x ps e _ _ _ _ _ _ _ _ _ ihw =>
    have hbody : Sublist e.marks (p :: (v ++ q :: r :: w)) :=
      (((ihw.cons r).cons q).trans (List.sublist_append_right v _)).cons p
    exact (hbody.trans (List.sublist_append_right u _)).cons_cons t
  | noTitle | someTitle _ | noParams | someParams _ | lastName _ | nextName _ _ _ => trivial

end Grammar

/-- the words of the nodes of a tree that was read are words of the sentence, in its order -/
theorem marks_sublist {bound : Names} {ts : List Token} {e : Expr} (h : parse bound ts = .ok e) :
    List.Sublist e.marks (Sentence.ofTokens ts).words :=
  Grammar.marked_of_derives (Sentence.derives_of_parse h)

end ExprShell
