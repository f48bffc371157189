import SolanaWallet.Proofs.Text.Base58

/-!
# What a Base58 text looks like

`IsForm text bytes` says which texts are Base58 forms of which bytes without
the codec: the characters are digits, there is a `1` in front for every zero
byte in front, and both are numerals of one number, in base 58 and in base 256.

* `isForm_iff_eq_encode`: there is one form, and it is the text that is written.
  Leading digits of value zero and the number fix a numeral
  (`Radix.eq_recode_iff`), so no text can be padded or cut without naming other bytes.
* `length_le_length_encode`: the form has at least as many characters as there
  are bytes.  A byte in front that is zero costs one character, and behind it a
  number has no fewer digits in base 58 than in base 256.
-/

namespace SolanaWallet

namespace Radix

variable {source target : Nat} {numeral : List Nat}

/-! ## Lengths -/

/-- A number has at least as many digits in the smaller base. -/
theorem length_digits_le (htarget : 2 ≤ target) (hle : target ≤ source) (n : Nat) :
    (digits source n).length ≤ (digits target n).length := by
  rw [digits_eq_reverse (htarget.trans hle), digits_eq_reverse htarget, List.length_reverse,
    List.length_reverse]
  by_cases hn : n = 0
  · simp [hn]
  · rw [Nat.length_digits source n (by omega) hn, Nat.length_digits target n (by omega) hn]
    exact Nat.succ_le_succ (Nat.log_anti_left htarget hle)

theorem length_le_length_recode (htarget : 2 ≤ target) (hle : target ≤ source)
    (hdigits : ∀ digit ∈ numeral, digit < source) :
    numeral.length ≤ (recode source target numeral).length := by
  have hback : numeral = recode source source numeral :=
    (eq_recode_iff (htarget.trans hle) hdigits).mpr ⟨rfl, rfl⟩
  calc numeral.length
      = leadingZeros numeral + (digits source (value source numeral)).length := by
        conv_lhs => rw [hback]
        rw [recode, List.length_append, List.length_replicate]
    _ ≤ leadingZeros numeral + (digits target (value source numeral)).length :=
        Nat.add_le_add_left (length_digits_le htarget hle _) _
    _ = (recode source target numeral).length := by
        rw [recode, List.length_append, List.length_replicate]

end Radix

namespace Base58

variable {text : String} {bytes : List UInt8}

/-- The text is a Base58 form of the bytes. -/
structure IsForm (text : String) (bytes : List UInt8) : Prop where
  /-- Every character is a digit. -/
  mem_alphabet : ∀ c ∈ text.toList, c ∈ alphabet
  /-- Leading zero bytes match leading ones. -/
  leading_eq : (text.toList.takeWhile (· = '1')).length = (bytes.takeWhile (· = 0)).length
  /-- The text in base 58 and the bytes in base 256 are one number. -/
  number_eq : Nat.ofDigits 58 (text.toList.map alphabet.idxOf).reverse =
    Nat.ofDigits 256 (bytes.map (·.toNat)).reverse

/-! ## Places and characters -/

theorem symbol_eq_getElem {v : Nat} (hv : v < alphabet.length) : symbol v = alphabet[v] := by
  rw [symbol, List.getD_eq_getElem?_getD, List.getElem?_eq_getElem hv, Option.getD_some]

theorem symbol_idxOf {c : Char} (hc : c ∈ alphabet) : symbol (alphabet.idxOf c) = c := by
  rw [symbol_eq_getElem (List.idxOf_lt_length_of_mem hc), List.getElem_idxOf]

theorem idxOf_symbol {v : Nat} (hv : v < 58) : alphabet.idxOf (symbol v) = v := by
  rw [symbol_eq_getElem hv, nodup_alphabet.idxOf_getElem v hv]

theorem symbol_mem_alphabet {v : Nat} (hv : v < 58) : symbol v ∈ alphabet := by
  rw [symbol_eq_getElem hv]
  exact List.getElem_mem hv

theorem eq_map_symbol_iff {chars : List Char} {values : List Nat} (hvalues : ∀ v ∈ values, v < 58) :
    chars = values.map symbol ↔
      (∀ c ∈ chars, c ∈ alphabet) ∧ chars.map alphabet.idxOf = values := by
  constructor
  · rintro rfl
    constructor
    · intro c hc
      obtain ⟨v, hv, rfl⟩ := List.mem_map.mp hc
      exact symbol_mem_alphabet (hvalues v hv)
    · rw [List.map_map]
      exact (List.map_congr_left fun v hv => idxOf_symbol (hvalues v hv)).trans (List.map_id _)
  · rintro ⟨hmem, rfl⟩
    rw [List.map_map]
    exact ((List.map_congr_left fun c hc => symbol_idxOf (hmem c hc)).trans (List.map_id _)).symm

theorem idxOf_eq_zero_iff {c : Char} : alphabet.idxOf c = 0 ↔ c = '1' := by
  constructor
  · intro hzero
    have hmem : c ∈ alphabet := List.idxOf_lt_length_iff.mp (by rw [hzero]; decide)
    rw [← symbol_idxOf hmem, hzero]
    rfl
  · rintro rfl
    exact idxOf_symbol (v := 0) (by decide)

theorem leadingZeros_map_idxOf (chars : List Char) :
    Radix.leadingZeros (chars.map alphabet.idxOf) = (chars.takeWhile (· = '1')).length := by
  rw [Radix.leadingZeros, List.takeWhile_map, List.length_map]
  simp only [Function.comp_def, idxOf_eq_zero_iff]

theorem leadingZeros_map_toNat (bytes : List UInt8) :
    Radix.leadingZeros (bytes.map (·.toNat)) = (bytes.takeWhile (· = 0)).length := by
  have hzero : ∀ byte : UInt8, byte.toNat = 0 ↔ byte = 0 := fun byte => by
    rw [← UInt8.toNat_inj]
    rfl
  rw [Radix.leadingZeros, List.takeWhile_map, List.length_map]
  simp only [Function.comp_def, hzero]

/-! ## The form of a byte string -/

/-- **One form.** The text that is written for some bytes is their only Base58
form. -/
theorem isForm_iff_eq_encode : IsForm text bytes ↔ text = encode bytes := by
  have hless : ∀ v ∈ Radix.recode 256 58 (bytes.map (·.toNat)), v < 58 :=
    fun v hv => Radix.lt_of_mem_recode (by decide) hv
  have hnumber : Radix.value 58 (text.toList.map alphabet.idxOf) =
      Radix.value 256 (bytes.map (·.toNat)) ↔
        Nat.ofDigits 58 (text.toList.map alphabet.idxOf).reverse =
          Nat.ofDigits 256 (bytes.map (·.toNat)).reverse := by
    rw [Radix.value_eq_ofDigits, Radix.value_eq_ofDigits]
  have hencode : text = encode bytes ↔ (∀ c ∈ text.toList, c ∈ alphabet) ∧
      text.toList.map alphabet.idxOf = Radix.recode 256 58 (bytes.map (·.toNat)) := by
    rw [← eq_map_symbol_iff hless, encode, String.ext_iff, String.toList_ofList]
  rw [hencode]
  constructor
  · rintro ⟨hmem, hleading, hsame⟩
    refine ⟨hmem, (Radix.eq_recode_iff (by decide) ?_).mpr ⟨?_, hnumber.mpr hsame⟩⟩
    · intro v hv
      obtain ⟨c, hc, rfl⟩ := List.mem_map.mp hv
      exact List.idxOf_lt_length_of_mem (hmem c hc)
    · rw [leadingZeros_map_idxOf, leadingZeros_map_toNat, hleading]
  · rintro ⟨hmem, hvalues⟩
    obtain ⟨hleading, hsame⟩ := (Radix.eq_recode_iff (by decide) (hvalues ▸ hless)).mp hvalues
    rw [leadingZeros_map_idxOf, leadingZeros_map_toNat] at hleading
    exact ⟨hmem, hleading, hnumber.mp hsame⟩

/-- The form of bytes is at least as long as the bytes. -/
theorem length_le_length_encode (bytes : List UInt8) :
    bytes.length ≤ (encode bytes).toList.length := by
  have hless : ∀ v ∈ bytes.map (·.toNat), v < 256 := fun v hv => toNat_lt_of_mem hv
  calc bytes.length
      = (bytes.map (·.toNat)).length := (List.length_map _).symm
    _ ≤ (Radix.recode 256 58 (bytes.map (·.toNat))).length :=
        Radix.length_le_length_recode (by decide) (by decide) hless
    _ = (encode bytes).toList.length := by
        rw [encode, String.toList_ofList, List.length_map]

theorem toNat_lt_of_mem_encode {c : Char} (hc : c ∈ (encode bytes).toList) : c.toNat < 128 :=
  toNat_lt_of_mem_alphabet ((isForm_iff_eq_encode.mpr rfl).mem_alphabet c hc)

end Base58

end SolanaWallet
