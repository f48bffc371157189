import SolanaWallet.ShortVec

/-!
# Lengths on the wire have one form

`Form value bytes` says, without the encoder and the decoder, which one to
three bytes are the form of a length: all bytes but the last have their high
bit set, the last of several is not zero, and the groups of seven bits add up
to the value.

* `form_encode`, `eq_encode_of_form`: the encoder writes the only form;
* `decode_append_of_form`, `exists_form_of_decode`: the decoder reads a form
  and nothing else, and does not look past its end.

Together they give `decode_eq_ok_iff_append`, which is how lengths enter every
other proof about the wire.
-/

namespace SolanaWallet.ShortVec

/-- `bytes` is the form of the length `value`. -/
inductive Form (value : Nat) : (bytes : List UInt8) → Prop
  | one (a : UInt8) (hlast : a.toNat < 128) (hvalue : value = a.toNat) : Form value [a]
  | two (a b : UInt8) (hmore : 128 ≤ a.toNat) (hshort : b ≠ 0) (hlast : b.toNat < 128)
      (hvalue : value = a.toNat % 128 + 128 * b.toNat) : Form value [a, b]
  | three (a b c : UInt8) (hmore : 128 ≤ a.toNat) (hmore' : 128 ≤ b.toNat) (hshort : c ≠ 0)
      (hvalue : value = a.toNat % 128 + 128 * (b.toNat % 128) + 16384 * c.toNat) :
      Form value [a, b, c]

/-! ## Writing -/

private theorem toNat_ofNat_lt {n : Nat} (h : n < 256) : (UInt8.ofNat n).toNat = n :=
  UInt8.toNat_ofNat_of_lt' h

theorem ne_zero_of_toNat_pos {b : UInt8} (h : 0 < b.toNat) : b ≠ 0 := by
  rintro rfl
  exact absurd h (by decide)

theorem toNat_pos_of_ne_zero {b : UInt8} (h : b ≠ 0) : 0 < b.toNat := by
  refine Nat.pos_of_ne_zero fun hzero => h ?_
  exact UInt8.toNat_inj.mp hzero

theorem form_encode (value : UInt16) : Form value.toNat (encode value) := by
  have hvalue : value.toNat < 65536 := value.toNat_lt
  unfold encode
  by_cases hone : value.toNat < 128
  · rw [if_pos hone]
    have ha := toNat_ofNat_lt (n := value.toNat) (by omega)
    exact .one _ (by omega) ha.symm
  rw [if_neg hone]
  have ha := toNat_ofNat_lt (n := value.toNat % 128 + 128) (by omega)
  by_cases htwo : value.toNat < 16384
  · rw [if_pos htwo]
    have hb := toNat_ofNat_lt (n := value.toNat / 128) (by omega)
    exact .two _ _ (by omega) (ne_zero_of_toNat_pos (by omega)) (by omega) (by omega)
  · rw [if_neg htwo]
    have hb := toNat_ofNat_lt (n := value.toNat / 128 % 128 + 128) (by omega)
    have hc := toNat_ofNat_lt (n := value.toNat / 16384) (by omega)
    exact .three _ _ _ (by omega) (by omega) (ne_zero_of_toNat_pos (by omega)) (by omega)

theorem eq_encode_of_form {value : UInt16} {bytes : List UInt8} (h : Form value.toNat bytes) :
    bytes = encode value := by
  unfold encode
  cases h with
  | one a hlast hvalue =>
    rw [if_pos (by omega), hvalue, UInt8.ofNat_toNat]
  | two a b hmore hshort hlast hvalue =>
    have hpos := toNat_pos_of_ne_zero hshort
    have ha : value.toNat % 128 + 128 = a.toNat := by have := a.toNat_lt; omega
    have hb : value.toNat / 128 = b.toNat := by omega
    rw [if_neg (by omega), if_pos (by omega), ha, hb, UInt8.ofNat_toNat, UInt8.ofNat_toNat]
  | three a b c hmore hmore' hshort hvalue =>
    have hpos := toNat_pos_of_ne_zero hshort
    have ha : value.toNat % 128 + 128 = a.toNat := by have := a.toNat_lt; omega
    have hb : value.toNat / 128 % 128 + 128 = b.toNat := by have := b.toNat_lt; omega
    have hc : value.toNat / 16384 = c.toNat := by omega
    rw [if_neg (by omega), if_neg (by omega), ha, hb, hc, UInt8.ofNat_toNat, UInt8.ofNat_toNat,
      UInt8.ofNat_toNat]

/-- The form of a length is a single byte if its first byte has no high bit. -/
theorem toNat_eq_of_encode_append {value : UInt16} {b : UInt8} {rest rest' : List UInt8}
    (h : encode value ++ rest = b :: rest') (hlast : b.toNat < 128) : value.toNat = b.toNat := by
  have hform : Form value.toNat (encode value) := form_encode value
  generalize encode value = bytes at h hform
  cases hform with
  | one a _ hvalue =>
    obtain rfl : a = b := (List.cons.inj h).1
    exact hvalue
  | two a _ hmore =>
    obtain rfl : a = b := (List.cons.inj h).1
    exact absurd hlast (Nat.not_lt.mpr hmore)
  | three a _ _ hmore =>
    obtain rfl : a = b := (List.cons.inj h).1
    exact absurd hlast (Nat.not_lt.mpr hmore)

/-- A length of two groups has a form of two bytes. -/
theorem exists_two_of_encode {value : UInt16} (hmin : 128 ≤ value.toNat)
    (hmax : value.toNat < 16384) :
    ∃ a b, encode value = [a, b] ∧ 128 ≤ a.toNat ∧ b.toNat < 128 := by
  have hform : Form value.toNat (encode value) := form_encode value
  generalize encode value = bytes at hform ⊢
  cases hform with
  | one a hlast hvalue => omega
  | two a b hmore hshort hlast hvalue => exact ⟨a, b, rfl, hmore, hlast⟩
  | three a b c hmore hmore' hshort hvalue =>
    have hpositive := toNat_pos_of_ne_zero hshort
    omega

/-! ## Reading -/

theorem decode_append_of_form {value : UInt16} {bytes : List UInt8} (h : Form value.toNat bytes)
    (rest : List UInt8) : decode (bytes ++ rest) = .ok (value, bytes.length) := by
  have hfits : value.toNat ≤ maxLength := Nat.le_of_lt_succ value.toNat_lt
  cases h with
  | one a hlast hvalue =>
    simp only [List.cons_append, decode]
    rw [if_pos hlast, ← hvalue, UInt16.ofNat_toNat]
    rfl
  | two a b hmore hshort hlast hvalue =>
    simp only [List.cons_append, decode]
    rw [if_neg (by omega), if_neg hshort, if_pos hlast, ← hvalue, UInt16.ofNat_toNat]
    rfl
  | three a b c hmore hmore' hshort hvalue =>
    simp only [List.cons_append, decode]
    rw [if_neg (by omega), if_neg (ne_zero_of_toNat_pos (by omega)), if_neg (by omega),
      if_neg hshort, ← hvalue, if_pos hfits, UInt16.ofNat_toNat]
    rfl

theorem exists_form_of_decode {bytes : List UInt8} {value : UInt16} {count : Nat}
    (h : decode bytes = .ok (value, count)) :
    ∃ form rest, bytes = form ++ rest ∧ Form value.toNat form ∧ count = form.length := by
  cases bytes with
  | nil => simp [decode] at h
  | cons a rest =>
    have halt := a.toNat_lt
    simp only [decode] at h
    split at h
    · obtain ⟨rfl, rfl⟩ := Prod.mk.inj (Except.ok.inj h)
      refine ⟨[a], rest, rfl, .one a ‹_› ?_, rfl⟩
      exact UInt16.toNat_ofNat_of_lt' (by simp only [UInt16.size]; omega)
    rename_i hmore
    cases rest with
    | nil => simp at h
    | cons b rest =>
      have hblt := b.toNat_lt
      simp only at h
      split at h
      · cases h
      rename_i hb
      split at h
      · obtain ⟨rfl, rfl⟩ := Prod.mk.inj (Except.ok.inj h)
        refine ⟨[a, b], rest, rfl, .two a b (by omega) hb ‹_› ?_, rfl⟩
        exact UInt16.toNat_ofNat_of_lt' (by simp only [UInt16.size]; omega)
      rename_i hmore'
      cases rest with
      | nil => simp at h
      | cons c rest =>
        simp only at h
        split at h
        · cases h
        rename_i hc
        split at h
        · rename_i hfits
          obtain ⟨rfl, rfl⟩ := Prod.mk.inj (Except.ok.inj h)
          refine ⟨[a, b, c], rest, rfl, .three a b c (by omega) (by omega) hc ?_, rfl⟩
          exact UInt16.toNat_ofNat_of_lt' (Nat.lt_succ_of_le hfits)
        · cases h

/-- A length is read from the front of `bytes` exactly if they start with what
is written for it. -/
theorem decode_eq_ok_iff_append {bytes : List UInt8} {value : UInt16} {count : Nat} :
    decode bytes = .ok (value, count) ↔
      ∃ rest, bytes = encode value ++ rest ∧ count = (encode value).length := by
  constructor
  · intro h
    obtain ⟨form, rest, rfl, hform, rfl⟩ := exists_form_of_decode h
    rw [eq_encode_of_form hform]
    exact ⟨rest, rfl, rfl⟩
  · intro hparts
    obtain ⟨rest, rfl, rfl⟩ := hparts
    exact decode_append_of_form (form_encode value) rest

/-- A length that is cut off is not taken for a shorter one. -/
theorem decode_of_prefix {value : Nat} {bytes front : List UInt8}
    (hform : Form value bytes) (hfront : front <+: bytes) (hproper : front ≠ bytes) :
    decode front = .error .truncated := by
  -- all bytes before the last one announce another
  cases hform with
  | one a hlast hvalue =>
    obtain rfl | rfl : front = [] ∨ front = [a] := by
      simpa [List.prefix_cons_iff] using hfront
    · rfl
    · exact absurd rfl hproper
  | two a b hmore hshort hlast hvalue =>
    have hnotlast : ¬ a.toNat < 128 := Nat.not_lt.mpr hmore
    obtain rfl | rfl | rfl : front = [] ∨ front = [a] ∨ front = [a, b] := by
      simpa [List.prefix_cons_iff, and_or_left, exists_or] using hfront
    · rfl
    · exact if_neg hnotlast
    · exact absurd rfl hproper
  | three a b c hmore hmore' hshort hvalue =>
    have hnotlast : ¬ a.toNat < 128 := Nat.not_lt.mpr hmore
    have hnotlast' : ¬ b.toNat < 128 := Nat.not_lt.mpr hmore'
    have hnonzero : b ≠ 0 := by
      rintro rfl
      exact absurd hmore' (by decide)
    obtain rfl | rfl | rfl | rfl :
        front = [] ∨ front = [a] ∨ front = [a, b] ∨ front = [a, b, c] := by
      simpa [List.prefix_cons_iff, and_or_left, exists_or] using hfront
    · rfl
    · exact if_neg hnotlast
    · simp [decode, hnotlast, hnotlast', hnonzero]
    · exact absurd rfl hproper

end SolanaWallet.ShortVec
