import ExprShell.Eval.Operators

/-!
# What operators see and give

Of a function an operator sees only that it is one.  What it gives is a number; what it reports is
never the fault of the limit of calls, which operators do not know.  If the operator is known, what
it reports is the fault of its operands.
-/

namespace ExprShell

/-! ## What they see -/

/-- the same number, or functions that are shown and called alike -/
inductive Value.Alike : Value → Value → Prop
  | int (v : Integer) : Alike (.int v) (.int v)
  | double (x : Float) : Alike (.double x) (.double x)
  | absent : Alike .absent .absent
  | function {f g : Function} (name : f.name = g.name) (params : f.params = g.params) :
    Alike (.function f) (.function g)

namespace Value.Alike

variable {v w : Value}

theorem kind_eq (h : v.Alike w) : v.kind = w.kind := by
  cases h <;> rfl

theorem truth?_eq (h : v.Alike w) : v.truth? = w.truth? := by
  cases h <;> rfl

theorem toFloat?_eq (h : v.Alike w) : v.toFloat? = w.toFloat? := by
  cases h <;> rfl

theorem text_eq (h : v.Alike w) : v.text = w.text := by
  cases h with
  | function name params => rw [text, text, Function.text, Function.text, name]
  | _ => rfl

end Value.Alike

namespace Operators

open EvalError (Cause)

section
variable {v w v' w' : Value}

theorem floats?_alike (h : v.Alike v') (h₂ : w.Alike w') : floats? v w = floats? v' w' := by
  rw [floats?, floats?, h.toFloat?_eq, h₂.toFloat?_eq]

theorem arithmetic_alike (f : Arithmetic) (op : String) (h : v.Alike v') (h₂ : w.Alike w') :
    arithmetic f op v w = arithmetic f op v' w' := by
  cases h <;> cases h₂ <;> rfl

theorem compare_alike (holds : Ordering → Bool) (op : String) (h : v.Alike v')
    (h₂ : w.Alike w') : compare holds op v w = compare holds op v' w' := by
  rw [compare, compare, floats?_alike h h₂, h.kind_eq, h₂.kind_eq]

theorem logic_alike (join : Bool → Bool → Bool) (op : String) (h : v.Alike v')
    (h₂ : w.Alike w') : logic join op v w = logic join op v' w' := by
  rw [logic, logic, h.truth?_eq, h₂.truth?_eq, h.kind_eq, h₂.kind_eq]

theorem binary_alike (op : Token) (h : v.Alike v') (h₂ : w.Alike w') :
    binary op v w = binary op v' w' := by
  unfold binary
  simp only [arithmetic_alike _ _ h h₂, compare_alike _ _ h h₂, logic_alike _ _ h h₂]

theorem unary_alike (op : Token) (h : v.Alike v') : unary op v = unary op v' := by
  cases h <;> rfl

end

/-! ## What they give -/

/-- a number, or an error that is not the fault of the limit -/
inductive Settled : Except Cause Value → Prop
  | int (v : Integer) : Settled (.ok (.int v))
  | double (x : Float) : Settled (.ok (.double x))
  | error {c : Cause} (h : c.kind ≠ .callDepth) : Settled (.error c)

/-- a number, or an error of the operands -/
inductive Usual : Except Cause Value → Prop
  | int (v : Integer) : Usual (.ok (.int v))
  | double (x : Float) : Usual (.ok (.double x))
  | error {c : Cause} (limit : c.kind ≠ .callDepth) (known : c.kind ≠ .unknownNode) :
    Usual (.error c)

theorem Usual.ofBool (b : Bool) : Usual (.ok (.ofBool b)) := .int _

theorem Usual.settled {x : Except Cause Value} (h : Usual x) : Settled x := by
  cases h with
  | int v => exact .int v
  | double x => exact .double x
  | error limit _ => exact .error limit

theorem literal_settled (t : Token) : Settled (literal t) := by
  unfold literal
  split
  · split
    · exact .int _
    · exact .error nofun
  · split
    · exact .double _
    · exact .error nofun
  · exact .error nofun

theorem arithmetic_usual (f : Arithmetic) (op : String) (v w : Value) :
    Usual (arithmetic f op v w) := by
  unfold arithmetic
  split
  · split
    · exact .error nofun nofun
    · split
      · exact .int _
      · exact .error nofun nofun
  · split
    · exact .double _
    · exact .error nofun nofun

theorem compare_usual (holds : Ordering → Bool) (op : String) (v w : Value) :
    Usual (compare holds op v w) := by
  unfold compare
  split
  · exact .ofBool _
  · exact .error nofun nofun

theorem logic_usual (join : Bool → Bool → Bool) (op : String) (v w : Value) :
    Usual (logic join op v w) := by
  unfold logic
  split
  · exact .ofBool _
  · exact .error nofun nofun

theorem negate_usual (op : String) (v : Value) : Usual (negate op v) := by
  cases v with
  | int x =>
    rw [negate]
    split
    · exact .int _
    · exact .error nofun nofun
  | double x => exact .double _
  | function f => exact .error nofun nofun
  | absent => exact .error nofun nofun

theorem posit_usual (op : String) (v : Value) : Usual (posit op v) := by
  cases v with
  | int x => exact .int x
  | double x => exact .double x
  | function f => exact .error nofun nofun
  | absent => exact .error nofun nofun

theorem complement_usual (op : String) (v : Value) : Usual (complement op v) := by
  unfold complement
  split
  · exact .ofBool _
  · exact .error nofun nofun

theorem binary_settled (op : Token) (v w : Value) : Settled (binary op v w) := by
  unfold binary
  split
  · exact (arithmetic_usual _ _ v w).settled
  · split
    · exact (compare_usual _ _ v w).settled
    · split
      · exact (logic_usual _ _ v w).settled
      · split
        · exact (logic_usual _ _ v w).settled
        · exact .error nofun

theorem unary_settled (op : Token) (v : Value) : Settled (unary op v) := by
  unfold unary
  split
  · exact (negate_usual _ v).settled
  · split
    · exact (posit_usual _ v).settled
    · split
      · exact (complement_usual _ v).settled
      · exact .error nofun

end Operators

end ExprShell
