import ExprShell.Value

/-!
# Scopes

The store holds every scope that was ever made: its bindings, and the scope around it.  A name is
looked up from a scope outward; it is bound in the scope itself, which hides the bindings around
it.  The bindings of one scope can be copied and put back.

* `Bindings.get?_set_self`, `Bindings.get?_set_of_ne`   what binding a name does to the names;
* `Store.lookup`    the innermost binding;
* `Store.child`     a new scope; its parent is older, so looking up ends.
-/

namespace ExprShell

abbrev Bindings := List (String × Value)

namespace Bindings

def get? : Bindings → String → Option Value
  | [], _ => none
  | (y, v) :: bs, x => if y = x then some v else get? bs x

/-- binds a name; a binding of the same name is replaced -/
def set : Bindings → String → Value → Bindings
  | [], x, v => [(x, v)]
  | (y, w) :: bs, x, v => if y = x then (x, v) :: bs else (y, w) :: set bs x v

def setAll : Bindings → List String → List Value → Bindings
  | bs, x :: xs, v :: vs => setAll (set bs x v) xs vs
  | bs, _, _ => bs

/-- the bindings by name, in the order of code points -/
def sorted (bs : Bindings) : Bindings := bs.mergeSort fun a b => a.1 ≤ b.1

@[simp] theorem get?_nil (x : String) : get? [] x = none := rfl

theorem get?_cons (y x : String) (v : Value) (bs : Bindings) :
    get? ((y, v) :: bs) x = if y = x then some v else get? bs x := rfl

theorem get?_set_self (bs : Bindings) (x : String) (v : Value) : (set bs x v).get? x = some v := by
  induction bs with
  | nil => simp [set, get?]
  | cons b bs ih =>
    obtain ⟨y, w⟩ := b
    by_cases h : y = x
    · simp [set, get?, h]
    · simp [set, get?, h, ih]

theorem get?_set_of_ne (bs : Bindings) {x z : String} (v : Value) (h : x ≠ z) :
    (set bs x v).get? z = bs.get? z := by
  induction bs with
  | nil => simp [set, get?, h]
  | cons b bs ih =>
    obtain ⟨y, w⟩ := b
    by_cases hy : y = x
    · subst hy
      simp [set, get?, h]
    · simp [set, get?, hy, ih]

end Bindings

/-- a scope: what it binds, and the scope around it -/
structure Frame where
  bindings : Bindings
  parent : Option ScopeId

/-- all scopes, by number -/
structure Store where
  frames : Array Frame

namespace Store

def empty : Store := ⟨#[]⟩

def next (st : Store) : ScopeId := st.frames.size

def add (st : Store) (parent : Option ScopeId) (bs : Bindings) : Store :=
  ⟨st.frames.push ⟨bs, parent⟩⟩

def child (st : Store) (parent : Option ScopeId) : ScopeId × Store :=
  (st.next, st.add parent [])

def parent (st : Store) (s : ScopeId) : Option ScopeId := (st.frames[s]?).bind (·.parent)

def bindings (st : Store) (s : ScopeId) : Bindings :=
  match st.frames[s]? with
  | some f => f.bindings
  | none => []

def set (st : Store) (s : ScopeId) (x : String) (v : Value) : Store :=
  ⟨st.frames.modify s fun f => ⟨f.bindings.set x v, f.parent⟩⟩

def restore (st : Store) (s : ScopeId) (bs : Bindings) : Store :=
  ⟨st.frames.modify s fun f => ⟨bs, f.parent⟩⟩

/-- the innermost binding of a name, from a scope outward; only older scopes lie around a scope -/
def lookup (st : Store) (s : ScopeId) (x : String) : Option Value :=
  match (st.bindings s).get? x with
  | some v => some v
  | none =>
    match st.parent s with
    | none => none
    | some p => if p < s then lookup st p x else none
termination_by s

/-- is the name bound here or around? -/
def has (st : Store) (s : ScopeId) (x : String) : Bool := (st.lookup s x).isSome

/-! ## What the operations do to one scope -/

theorem bindings_set_self (st : Store) {s : ScopeId} (x : String) (v : Value)
    (h : s < st.frames.size) : (st.set s x v).bindings s = (st.bindings s).set x v := by
  simp [bindings, set, Array.getElem?_modify, Array.getElem?_eq_getElem h]

theorem bindings_set_of_ne (st : Store) {s r : ScopeId} (x : String) (v : Value) (h : s ≠ r) :
    (st.set s x v).bindings r = st.bindings r := by
  simp [bindings, set, Array.getElem?_modify, h]

theorem parent_set (st : Store) (s r : ScopeId) (x : String) (v : Value) :
    (st.set s x v).parent r = st.parent r := by
  by_cases h : s = r
  · subst h
    cases hf : st.frames[s]? <;> simp [parent, set, Array.getElem?_modify, hf]
  · simp [parent, set, Array.getElem?_modify, h]

end Store

end ExprShell
