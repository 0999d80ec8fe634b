import ExprShell.Text.Utf8

/-!
# What bytes stand for

Bytes are read from the front: the encoding of a character stands for that character, and a byte at
which no encoding begins stands for one replacement character.

* `Decoded`            the characters that bytes stand for, said with the encoding of a character;
* `decoded_decodeUtf8`  `decodeUtf8` finds them.
-/

namespace ExprShell.Text

/-- the bytes stand for the characters -/
inductive Decoded : List UInt8 → List Char → Prop
  | nil : Decoded [] []
  | char {bs : List UInt8} {cs : List Char} (c : Char) (rest : Decoded bs cs) :
    Decoded (String.utf8EncodeChar c ++ bs) (c :: cs)
  | invalid {bs : List UInt8} {cs : List Char} (b : UInt8)
    (none : ∀ c, ¬ String.utf8EncodeChar c <+: b :: bs) (rest : Decoded bs cs) :
    Decoded (b :: bs) (replacement :: cs)

theorem continuation?_eq_some {b : UInt8} {x : Nat} :
    continuation? b = some x ↔ x < 64 ∧ b.toNat = 128 + x := by
  unfold continuation?
  split
  · simp only [Option.some.injEq]
    omega
  · simp only [reduceCtorEq, false_iff]
    omega

theorem toNat_ofNat {n : Nat} (h : n.isValidChar) : (Char.ofNat n).toNat = n := by
  rw [Char.ofNat, dif_pos h]
  rfl

theorem character?_eq_some {least n : Nat} {c : Char} :
    character? least n = some c ↔ least ≤ n ∧ c.toNat = n := by
  unfold character?
  split
  · next h =>
    rw [Option.some.injEq]
    constructor
    · rintro rfl
      exact ⟨h.1, toNat_ofNat h.2⟩
    · rintro ⟨-, rfl⟩
      exact Char.ofNat_toNat c
  · next h =>
    simp only [reduceCtorEq, false_iff]
    rintro ⟨hle, rfl⟩
    exact h ⟨hle, c.valid⟩

theorem toNat_lt (c : Char) : c.toNat < 0x110000 := by
  rcases c.valid with h | h
  · exact Nat.lt_trans h (by decide)
  · exact h.2

theorem ofNat_eq_iff {n : Nat} {b : UInt8} (h : n < 256) : UInt8.ofNat n = b ↔ b.toNat = n := by
  rw [← UInt8.toNat_inj, UInt8.toNat_ofNat', Nat.mod_eq_of_lt h]
  exact eq_comm

/-! ## The encoding of a character -/

theorem encode_one {c : Char} (h : c.toNat < 0x80) :
    String.utf8EncodeChar c = [UInt8.ofNat c.toNat] := by
  rw [String.utf8EncodeChar, if_pos]
  · rfl
  · exact Nat.le_of_lt_succ h

theorem encode_two {c : Char} (h : 0x80 ≤ c.toNat) (h' : c.toNat < 0x800) :
    String.utf8EncodeChar c =
      [UInt8.ofNat (c.toNat / 64 + 192), UInt8.ofNat (c.toNat % 64 + 128)] := by
  have hdiv : c.toNat / 64 % 32 = c.toNat / 64 := Nat.mod_eq_of_lt (by omega)
  rw [← hdiv, String.utf8EncodeChar, if_neg, if_pos]
  · rfl
  · exact Nat.le_of_lt_succ h'
  · exact Nat.not_le_of_lt h

theorem encode_three {c : Char} (h : 0x800 ≤ c.toNat) (h' : c.toNat < 0x10000) :
    String.utf8EncodeChar c =
      [UInt8.ofNat (c.toNat / 4096 + 224), UInt8.ofNat (c.toNat / 64 % 64 + 128),
        UInt8.ofNat (c.toNat % 64 + 128)] := by
  have hdiv : c.toNat / 4096 % 16 = c.toNat / 4096 := Nat.mod_eq_of_lt (by omega)
  rw [← hdiv, String.utf8EncodeChar, if_neg, if_neg, if_pos]
  · rfl
  · exact Nat.le_of_lt_succ h'
  · exact Nat.not_le_of_lt h
  · exact Nat.not_le_of_lt (Nat.lt_of_lt_of_le (by decide) h)

theorem encode_four {c : Char} (h : 0x10000 ≤ c.toNat) :
    String.utf8EncodeChar c =
      [UInt8.ofNat (c.toNat / 262144 + 240), UInt8.ofNat (c.toNat / 4096 % 64 + 128),
        UInt8.ofNat (c.toNat / 64 % 64 + 128), UInt8.ofNat (c.toNat % 64 + 128)] := by
  have hmax := toNat_lt c
  have hdiv : c.toNat / 262144 % 8 = c.toNat / 262144 := Nat.mod_eq_of_lt (by omega)
  rw [← hdiv, String.utf8EncodeChar, if_neg, if_neg, if_neg]
  · rfl
  · exact Nat.not_le_of_lt h
  · exact Nat.not_le_of_lt (Nat.lt_of_lt_of_le (by decide) h)
  · exact Nat.not_le_of_lt (Nat.lt_of_lt_of_le (by decide) h)

theorem encode_of_sequence? {a : UInt8} {rest : List UInt8} {c : Char} {n : Nat}
    (h : sequence? a rest = some (c, n)) :
    a :: rest = String.utf8EncodeChar c ++ rest.drop n := by
  simp only [sequence?] at h
  split at h
  · cases h
  split at h
  · simp only [bind, Option.bind_eq_some_iff, continuation?_eq_some, character?_eq_some, pure,
      Option.some.injEq, Prod.mk.injEq] at h
    obtain ⟨b, hb, x, hx, c, hc, rfl, rfl⟩ := h
    obtain ⟨rest, rfl⟩ : ∃ r, rest = b :: r := by
      cases rest with
      | nil => cases hb
      | cons b r =>
        cases hb
        exact ⟨r, rfl⟩
    have ha : UInt8.ofNat (c.toNat / 64 + 192) = a := (ofNat_eq_iff (by omega)).mpr (by omega)
    have hb : UInt8.ofNat (c.toNat % 64 + 128) = b := (ofNat_eq_iff (by omega)).mpr (by omega)
    rw [encode_two (by omega) (by omega), ha, hb]
    rfl
  split at h
  · simp only [bind, Option.bind_eq_some_iff, continuation?_eq_some, character?_eq_some, pure,
      Option.some.injEq, Prod.mk.injEq] at h
    obtain ⟨b, hb, x, hx, d, hd, y, hy, c, hc, rfl, rfl⟩ := h
    obtain ⟨rest, rfl⟩ : ∃ r, rest = b :: d :: r := by
      rcases rest with _ | ⟨b', _ | ⟨d', r⟩⟩
      · cases hb
      · cases hd
      · cases hb
        cases hd
        exact ⟨r, rfl⟩
    have ha : UInt8.ofNat (c.toNat / 4096 + 224) = a := (ofNat_eq_iff (by omega)).mpr (by omega)
    have hb : UInt8.ofNat (c.toNat / 64 % 64 + 128) = b :=
      (ofNat_eq_iff (by omega)).mpr (by omega)
    have hd : UInt8.ofNat (c.toNat % 64 + 128) = d := (ofNat_eq_iff (by omega)).mpr (by omega)
    rw [encode_three (by omega) (by omega), ha, hb, hd]
    rfl
  split at h
  · simp only [bind, Option.bind_eq_some_iff, continuation?_eq_some, character?_eq_some, pure,
      Option.some.injEq, Prod.mk.injEq] at h
    obtain ⟨b, hb, x, hx, d, hd, y, hy, e, he, z, hz, c, hc, rfl, rfl⟩ := h
    obtain ⟨rest, rfl⟩ : ∃ r, rest = b :: d :: e :: r := by
      rcases rest with _ | ⟨b', _ | ⟨d', _ | ⟨e', r⟩⟩⟩
      · cases hb
      · cases hd
      · cases he
      · cases hb
        cases hd
        cases he
        exact ⟨r, rfl⟩
    have ha : UInt8.ofNat (c.toNat / 262144 + 240) = a := (ofNat_eq_iff (by omega)).mpr (by omega)
    have hb : UInt8.ofNat (c.toNat / 4096 % 64 + 128) = b :=
      (ofNat_eq_iff (by omega)).mpr (by omega)
    have hd : UInt8.ofNat (c.toNat / 64 % 64 + 128) = d :=
      (ofNat_eq_iff (by omega)).mpr (by omega)
    have he : UInt8.ofNat (c.toNat % 64 + 128) = e := (ofNat_eq_iff (by omega)).mpr (by omega)
    rw [encode_four (by omega), ha, hb, hd, he]
    rfl
  · cases h

theorem sequence?_of_encode {a : UInt8} {rest : List UInt8} {c : Char} (ha : 0x80 ≤ a.toNat)
    (h : String.utf8EncodeChar c <+: a :: rest) : sequence? a rest ≠ none := by
  have hmax := toNat_lt c
  have hchar (least : Nat) (h : least ≤ c.toNat) : character? least c.toNat = some c :=
    character?_eq_some.mpr ⟨h, rfl⟩
  have hcont (n : Nat) : continuation? (UInt8.ofNat (n % 64 + 128)) = some (n % 64) := by
    rw [continuation?_eq_some, UInt8.toNat_ofNat']
    omega
  obtain ⟨r, hr⟩ := h
  rcases Nat.lt_or_ge c.toNat 0x80 with h₁ | h₁
  · rw [encode_one h₁] at hr
    have hlead : a.toNat = c.toNat := (ofNat_eq_iff (by omega)).mp (List.cons.inj hr).1
    omega
  rcases Nat.lt_or_ge c.toNat 0x800 with h₂ | h₂
  · rw [encode_two h₁ h₂, List.cons_append] at hr
    have hlead : a.toNat = c.toNat / 64 + 192 := (ofNat_eq_iff (by omega)).mp (List.cons.inj hr).1
    have hsum : (a.toNat - 192) * 64 + c.toNat % 64 = c.toNat := by omega
    rw [← (List.cons.inj hr).2, sequence?, if_neg (by omega), if_pos (by omega)]
    simp only [List.cons_append, List.getElem?_cons_zero, bind, Option.bind_some, hcont, hsum,
      hchar _ h₁]
    exact Option.some_ne_none _
  rcases Nat.lt_or_ge c.toNat 0x10000 with h₃ | h₃
  · rw [encode_three h₂ h₃, List.cons_append] at hr
    have hlead : a.toNat = c.toNat / 4096 + 224 :=
      (ofNat_eq_iff (by omega)).mp (List.cons.inj hr).1
    have hsum : ((a.toNat - 224) * 64 + c.toNat / 64 % 64) * 64 + c.toNat % 64 = c.toNat := by
      omega
    rw [← (List.cons.inj hr).2, sequence?, if_neg (by omega), if_neg (by omega), if_pos (by omega)]
    simp only [List.cons_append, List.getElem?_cons_zero, List.getElem?_cons_succ, bind,
      Option.bind_some, hcont, hsum, hchar _ h₂]
    exact Option.some_ne_none _
  · rw [encode_four h₃, List.cons_append] at hr
    have hlead : a.toNat = c.toNat / 262144 + 240 :=
      (ofNat_eq_iff (by omega)).mp (List.cons.inj hr).1
    have hsum : (((a.toNat - 240) * 64 + c.toNat / 4096 % 64) * 64 + c.toNat / 64 % 64) * 64 +
        c.toNat % 64 = c.toNat := by omega
    rw [← (List.cons.inj hr).2, sequence?, if_neg (by omega), if_neg (by omega), if_neg (by omega),
      if_pos (by omega)]
    simp only [List.cons_append, List.getElem?_cons_zero, List.getElem?_cons_succ, bind,
      Option.bind_some, hcont, hsum, hchar _ h₃]
    exact Option.some_ne_none _

/-! ## Reading -/

theorem decoded_decodeUtf8 (bs : List UInt8) : Decoded bs (decodeUtf8 bs) := by
  fun_induction decodeUtf8 bs with
  | case1 => exact .nil
  | case2 a rest ha ih =>
    have hc : (Char.ofNat a.toNat).toNat = a.toNat := toNat_ofNat (.inl (by omega))
    have hencode : String.utf8EncodeChar (Char.ofNat a.toNat) = [a] := by
      rw [encode_one (hc.symm ▸ ha), hc, UInt8.ofNat_toNat]
    have h := Decoded.char (Char.ofNat a.toNat) ih
    rwa [hencode] at h
  | case3 a rest ha c n hs ih =>
    rw [encode_of_sequence? hs]
    exact .char c ih
  | case4 a rest ha hs ih =>
    refine .invalid a (fun c hc => ?_) ih
    exact sequence?_of_encode (Nat.le_of_not_lt ha) hc hs

end ExprShell.Text
