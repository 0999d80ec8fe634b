import ExprShell.Text.Letter

/-!
# Whole numbers in decimal

Writing a number and reading a run of digits.  `value_digits` says that the written digits read
back; leading zeros are read as well, so reading has more texts than writing gives.
-/

namespace ExprShell.Decimal
open Text

def digitChar (d : Nat) : Char := Char.ofNat (48 + d % 10)

def digitValue (c : Char) : Nat := c.toNat - 48

/-- the digits of a number, most significant first; zero has one digit -/
def digits (n : Nat) : List Char :=
  if n < 10 then [digitChar n] else digits (n / 10) ++ [digitChar n]
termination_by n
decreasing_by omega

def value (ds : List Char) : Nat := ds.foldl (fun a c => a * 10 + digitValue c) 0

def ofInt : Int → String
  | .ofNat n => String.ofList (digits n)
  | .negSucc n => String.ofList ('-' :: digits (n + 1))

def ofIntSigned : Int → String
  | .ofNat n => String.ofList ('+' :: digits n)
  | .negSucc n => String.ofList ('-' :: digits (n + 1))

def ofNat (n : Nat) : String := String.ofList (digits n)

/-- a non-empty run of digits and nothing else -/
def readNat? (cs : List Char) : Option Nat :=
  if cs ≠ [] ∧ cs.all isDigit then some (value cs) else none

/-- digits after at most one sign -/
def readInt? : List Char → Option Int
  | '+' :: cs => (readNat? cs).map fun n => (n : Int)
  | '-' :: cs => (readNat? cs).map fun n => -(n : Int)
  | cs => (readNat? cs).map fun n => (n : Int)

/-! ## Reading back -/

theorem toNat_digitChar (d : Nat) : (digitChar d).toNat = 48 + d % 10 := by
  have h : d % 10 < 10 := Nat.mod_lt d (by decide)
  unfold digitChar
  generalize d % 10 = k at h
  match k, h with
  | 0, _ | 1, _ | 2, _ | 3, _ | 4, _ | 5, _ | 6, _ | 7, _ | 8, _ | 9, _ => decide

theorem digitValue_digitChar (d : Nat) : digitValue (digitChar d) = d % 10 := by
  unfold digitValue
  rw [toNat_digitChar]
  omega

theorem isDigit_digitChar (d : Nat) : isDigit (digitChar d) = true := by
  unfold isDigit
  rw [toNat_digitChar]
  simp only [Bool.and_eq_true, decide_eq_true_eq]
  omega

theorem digits_ne_nil (n : Nat) : digits n ≠ [] := by
  rw [digits]
  split <;> simp

theorem isDigit_of_mem_digits (n : Nat) : ∀ c ∈ digits n, isDigit c = true := by
  intro c hc
  rw [digits] at hc
  split at hc
  · rw [List.mem_singleton.mp hc]
    exact isDigit_digitChar n
  · rcases List.mem_append.mp hc with h | h
    · exact isDigit_of_mem_digits (n / 10) c h
    · rw [List.mem_singleton.mp h]
      exact isDigit_digitChar n
termination_by n
decreasing_by omega

theorem value_append_singleton (ds : List Char) (c : Char) :
    value (ds ++ [c]) = value ds * 10 + digitValue c := by
  unfold value
  rw [List.foldl_append]
  rfl

theorem value_digits (n : Nat) : value (digits n) = n := by
  rw [digits]
  split
  · next h =>
    show 0 * 10 + digitValue (digitChar n) = n
    rw [digitValue_digitChar]
    omega
  · next h =>
    rw [value_append_singleton, value_digits (n / 10), digitValue_digitChar]
    omega
termination_by n
decreasing_by omega

end ExprShell.Decimal
