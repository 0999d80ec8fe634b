import ExprShell.Proofs.Eval.Budget
import ExprShell.Proofs.Number.Overflow

/-!
# Integer arithmetic is exact or an error

An operator between two integers, or a minus before one, has the value that it has on the whole
numbers, or reports that this does not fit.  Nothing is said of how the operands were come by: they
may be any expressions, and may bind names and call functions on the way.

* `Operators.whole?`    the operators on whole numbers;
* `Eval.ComesTo`        how an evaluation ends, once it has enough fuel;
* `Eval.integers_exact`  the statement for all operands.
-/

namespace ExprShell

namespace Operators

open EvalError (Cause)

/-- the result of an operator on whole numbers, if there is one; a quotient goes toward zero -/
def whole? : Token.Kind → Int → Int → Option Int
  | .plus, x, y => some (x + y)
  | .minus, x, y => some (x - y)
  | .mul, x, y => some (x * y)
  | .div, x, y => if y = 0 then none else some (x.tdiv y)
  | _, _, _ => none

theorem whole?_eq_none_iff {k : Token.Kind} (hk : k ∈ [.plus, .minus, .mul, .div]) (x y : Int) :
    whole? k x y = none ↔ k = .div ∧ y = 0 := by
  simp only [List.mem_cons, List.not_mem_nil, or_false] at hk
  rcases hk with rfl | rfl | rfl | rfl <;> simp [whole?]

section
variable {op : Token} {a b x : Integer}

theorem binary_of_whole? {z : Int} (h : whole? op.kind a.toInt b.toInt = some z) :
    binary op (.int a) (.int b) =
      match Integer.fit? z with
      | some v => .ok (.int v)
      | none => .error (.overflow a op.lexeme b) := by
  cases hk : op.kind with
  | plus =>
    obtain rfl : a.toInt + b.toInt = z := by simpa [hk, whole?] using h
    rw [← Integer.add?_eq_fit?]
    simp only [binary, hk]
    rfl
  | minus =>
    obtain rfl : a.toInt - b.toInt = z := by simpa [hk, whole?] using h
    rw [← Integer.sub?_eq_fit?]
    simp only [binary, hk]
    rfl
  | mul =>
    obtain rfl : a.toInt * b.toInt = z := by simpa [hk, whole?] using h
    rw [← Integer.mul?_eq_fit?]
    simp only [binary, hk]
    rfl
  | div =>
    obtain ⟨hb, rfl⟩ : ¬ b.toInt = 0 ∧ a.toInt.tdiv b.toInt = z := by simpa [hk, whole?] using h
    rw [← Integer.quot?_eq_fit?]
    simp only [binary, hk]
    exact if_neg fun h0 => hb (Integer.toInt_eq_zero_iff.mp h0.2)
  | _ => simp [hk, whole?] at h

theorem binary_of_div (h : op.kind = .div) :
    binary op (.int a) (.int 0) = .error .divisionByZero := by
  simp only [binary, h]
  rfl

theorem unary_minus_integer (hop : op.kind = .minus) :
    unary op (.int x) =
      match Integer.fit? (-x.toInt) with
      | some v => .ok (.int v)
      | none => .error (.negation x) := by
  rw [unary, if_pos hop, ← Integer.neg?_eq_fit?]
  rfl

end

end Operators

namespace Eval

open EvalError (Cause)
open Operators (whole?)

/-- with enough fuel, and then with any more, the evaluation ends in this way -/
def ComesTo (r : CallRule) (d : Nat) (s : ScopeId) (e : Expr) (σ : State) (o : Outcome Value) :
    Prop :=
  ∃ n, ∀ k, n ≤ k → eval r k d s e σ = o

section
variable {r : CallRule} {d : Nat} {s : ScopeId} {l e : Expr} {op : Token} {σ τ υ : State}
  {o o' : Outcome Value} {v w : Value}

/-- an evaluation that has ended comes to this end -/
theorem comesTo_of_ended {n : Nat} (h : eval r n d s e σ = o) (ho : o ≠ .unfinished) :
    ComesTo r d s e σ o := by
  refine ⟨n, fun k hk => ?_⟩
  have hne : Task.run r n d s (.tree e) σ ≠ .unfinished := by
    show eval r n d s e σ ≠ .unfinished
    rw [h]
    exact ho
  exact (run_of_le hk hne).trans h

theorem comesTo_of_done {n : Nat} (h : eval r n d s e σ = .done v τ) :
    ComesTo r d s e σ (.done v τ) := comesTo_of_ended h nofun

theorem ComesTo.unique (h : ComesTo r d s e σ o) (h' : ComesTo r d s e σ o') : o = o' := by
  obtain ⟨n, hn⟩ := h
  obtain ⟨m, hm⟩ := h'
  exact (hn (max n m) (Nat.le_max_left n m)).symm.trans (hm (max n m) (Nat.le_max_right n m))

theorem ComesTo.binary (hl : ComesTo r d s l σ (.done v τ)) (he : ComesTo r d s e τ (.done w υ))
    (op : Token) :
    ComesTo r d s (.binary l op e) σ (settle (binaryPlace l e) (Operators.binary op v w) υ) := by
  obtain ⟨n, hn⟩ := hl
  obtain ⟨m, hm⟩ := he
  refine ⟨max n m + 1, fun k hk => ?_⟩
  obtain ⟨k, rfl⟩ : ∃ j, k = j + 1 := ⟨k - 1, by omega⟩
  have hleft : eval r k d s l σ = .done v τ := hn k (by omega)
  have hright : eval r k d s e τ = .done w υ := hm k (by omega)
  show ((eval r k d s l) >>= _) σ = _
  rw [Run.bind_done hleft, Run.bind_done hright]

theorem ComesTo.unary (he : ComesTo r d s e σ (.done v τ)) (op : Token) :
    ComesTo r d s (.unary op e) σ (settle (fun _ => op.pos) (Operators.unary op v) τ) := by
  obtain ⟨n, hn⟩ := he
  refine ⟨n + 1, fun k hk => ?_⟩
  obtain ⟨k, rfl⟩ : ∃ j, k = j + 1 := ⟨k - 1, by omega⟩
  have hoperand : eval r k d s e σ = .done v τ := hn k (by omega)
  show ((eval r k d s e) >>= _) σ = _
  rw [Run.bind_done hoperand]

section
variable {a b : Integer} {z : Int} (hl : ComesTo r d s l σ (.done (.int a) τ))
  (he : ComesTo r d s e τ (.done (.int b) υ)) (hz : whole? op.kind a.toInt b.toInt = some z)
include hl he hz

theorem ComesTo.binary_of_fits {v : Integer} (hv : Integer.fit? z = some v) :
    ComesTo r d s (.binary l op e) σ (.done (.int v) υ) := by
  have h := hl.binary he op
  rw [Operators.binary_of_whole? hz, hv] at h
  exact h

theorem ComesTo.binary_of_not_fits (hv : Integer.fit? z = none) :
    ComesTo r d s (.binary l op e) σ (.failed ⟨l.pos, .overflow a op.lexeme b⟩ υ) := by
  have h := hl.binary he op
  rw [Operators.binary_of_whole? hz, hv] at h
  exact h

theorem ComesTo.binary_ne_divisionByZero {p : Position} {c : Cause} {ω : State}
    (h : ComesTo r d s (.binary l op e) σ (.failed ⟨p, c⟩ ω)) : c.kind ≠ .divisionByZero := by
  intro hc
  cases hv : Integer.fit? z with
  | some v => cases h.unique (hl.binary_of_fits he hz hv)
  | none =>
    cases h.unique (hl.binary_of_not_fits he hz hv)
    cases hc

end

theorem ComesTo.minus {x : Integer} (he : ComesTo r d s e σ (.done (.int x) τ))
    (hop : op.kind = .minus) :
    (x.toInt ≠ -2 ^ 63 → ∃ v : Integer, v.toInt = -x.toInt ∧
      ComesTo r d s (.unary op e) σ (.done (.int v) τ)) ∧
    (x.toInt = -2 ^ 63 → ComesTo r d s (.unary op e) σ (.failed ⟨op.pos, .negation x⟩ τ)) := by
  have h := he.unary op
  rw [Operators.unary_minus_integer hop] at h
  have hlow := x.le_toInt
  have hhigh := x.toInt_lt
  constructor
  · intro hx
    obtain ⟨v, hv, hfit⟩ := Integer.exists_toInt_eq (z := -x.toInt) (by omega)
    rw [hfit] at h
    exact ⟨v, hv, h⟩
  · intro hx
    rw [Integer.fit?_eq_none_of_not (z := -x.toInt) (by omega)] at h
    exact h

end

/-- **Integer arithmetic is exact or an error.**  Whatever operands come to two integers, the sum,
difference, product or quotient toward zero comes to the result of the whole numbers if that lies
between the least and the greatest integer, and to an overflow if it does not; a division by zero is
reported where the divisor of a quotient is zero, and only there.  A minus before an integer turns
its sign, but for the least integer, where it is an overflow. -/
theorem integers_exact (r : CallRule) (d : Nat) (s : ScopeId) :
    (∀ (l e : Expr) (op : Token) (a b : Integer) (σ τ υ : State),
      op.kind ∈ [.plus, .minus, .mul, .div] →
      (∃ n, eval r n d s l σ = .done (.int a) τ) → (∃ n, eval r n d s e τ = .done (.int b) υ) →
        (∀ z, whole? op.kind a.toInt b.toInt = some z → -2 ^ 63 ≤ z → z ≤ 2 ^ 63 - 1 →
          ∃ v : Integer, v.toInt = z ∧ ComesTo r d s (.binary l op e) σ (.done (.int v) υ)) ∧
        (∀ z, whole? op.kind a.toInt b.toInt = some z → ¬ (-2 ^ 63 ≤ z ∧ z ≤ 2 ^ 63 - 1) →
          ∃ p c, ComesTo r d s (.binary l op e) σ (.failed ⟨p, c⟩ υ) ∧ c.kind = .overflow) ∧
        ((∃ p c ω, ComesTo r d s (.binary l op e) σ (.failed ⟨p, c⟩ ω) ∧
            c.kind = .divisionByZero) ↔ op.kind = .div ∧ b = 0)) ∧
    ∀ (op : Token) (e : Expr) (x : Integer) (σ τ : State), op.kind = .minus →
      (∃ n, eval r n d s e σ = .done (.int x) τ) →
        (x.toInt ≠ -2 ^ 63 → ∃ v : Integer, v.toInt = -x.toInt ∧
          ComesTo r d s (.unary op e) σ (.done (.int v) τ)) ∧
        (x.toInt = -2 ^ 63 → ∃ p c,
          ComesTo r d s (.unary op e) σ (.failed ⟨p, c⟩ τ) ∧ c.kind = .overflow) := by
  constructor
  · rintro l e op a b σ τ υ hop ⟨n, hl⟩ ⟨m, he⟩
    have hl := comesTo_of_done hl
    have he := comesTo_of_done he
    refine ⟨?_, ?_, ?_, ?_⟩
    · intro z hz hlow hhigh
      obtain ⟨v, hv, hfit⟩ := Integer.exists_toInt_eq ⟨hlow, hhigh⟩
      exact ⟨v, hv, hl.binary_of_fits he hz hfit⟩
    · intro z hz hout
      exact ⟨_, _, hl.binary_of_not_fits he hz (Integer.fit?_eq_none_of_not hout), rfl⟩
    · rintro ⟨p, c, ω, hfail, hc⟩
      rw [Integer.toInt_eq_zero_iff, ← Operators.whole?_eq_none_iff hop a.toInt]
      cases hz : whole? op.kind a.toInt b.toInt with
      | none => rfl
      | some z => exact absurd hc (hl.binary_ne_divisionByZero he hz hfail)
    · rintro ⟨hdiv, rfl⟩
      have h := hl.binary he op
      rw [Operators.binary_of_div hdiv] at h
      exact ⟨_, _, υ, h, rfl⟩
  · rintro op e x σ τ hop ⟨n, he⟩
    obtain ⟨hfits, hover⟩ := (comesTo_of_done he).minus hop
    exact ⟨hfits, fun hx => ⟨_, _, hover hx, rfl⟩⟩

/-- the square of 3037000500 does not fit; the quotient of -7 by 2 is -3, and that of 7 by 0 is an
error -/
theorem integers_exact_square :
    let number (x : String) : Expr := .number ⟨.int, x, x, ⟨1, 1⟩⟩
    let sign (k : Token.Kind) (x : String) : Token := ⟨k, x, "", ⟨1, 1⟩⟩
    let σ : State := ⟨⟨#[⟨[], none⟩]⟩, #[]⟩
    let rule : CallRule := ⟨.dynamic, 1⟩
    (∃ p c, ComesTo rule 0 0 (.binary (number "3037000500") (sign .mul "*") (number "3037000500")) σ
        (.failed ⟨p, c⟩ σ) ∧ c.kind = .overflow) ∧
      (∃ v : Integer, v.toInt = -3 ∧
        ComesTo rule 0 0 (.binary (.unary (sign .minus "-") (number "7")) (sign .div "/")
          (number "2")) σ (.done (.int v) σ)) ∧
      (∃ p c ω, ComesTo rule 0 0 (.binary (number "7") (sign .div "/") (number "0")) σ
        (.failed ⟨p, c⟩ ω) ∧ c.kind = .divisionByZero) ∧
      ∃ v : Integer, v.toInt = -7 ∧
        ComesTo rule 0 0 (.unary (sign .minus "-") (number "7")) σ (.done (.int v) σ) := by
  intro number sign σ rule
  have hmain := integers_exact rule 0 0
  have hnumber (x : String) (v : Integer) (h : Integer.read? x = some v) :
      ∃ n, eval rule n 0 0 (number x) σ = .done (.int v) σ := by
    refine ⟨1, ?_⟩
    show settle _ (Operators.literal ⟨.int, x, x, ⟨1, 1⟩⟩) σ = _
    simp only [Operators.literal, h]
    rfl
  have hseven := hnumber "7" 7 (by decide)
  have hroot := hnumber "3037000500" 3037000500 (by decide)
  obtain ⟨v, hv, hminus⟩ := (hmain.2 (sign .minus "-") (number "7") 7 σ σ rfl hseven).1 (by decide)
  obtain ⟨n, hn⟩ := hminus
  obtain rfl : v = -7 := Int64.toInt_inj.mp hv
  refine ⟨?_, ?_, ?_, -7, rfl, n, hn⟩
  · exact (hmain.1 _ _ (sign .mul "*") _ _ σ σ σ (by decide) hroot hroot).2.1 _ rfl (by decide)
  · exact (hmain.1 _ _ (sign .div "/") (-7) 2 σ σ σ (by decide) ⟨n, hn n (Nat.le_refl n)⟩
      (hnumber "2" 2 (by decide))).1 (-3) rfl (by decide) (by decide)
  · exact (hmain.1 _ _ (sign .div "/") 7 0 σ σ σ (by decide) hseven
      (hnumber "0" 0 (by decide))).2.2.2 (by decide)

end Eval

end ExprShell
