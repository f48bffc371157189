/-!
# Characters, bytes and digit values

What the text codecs share: the value of a digit is its place in an alphabet,
and a text of characters below 128 has one byte for each of them.
-/

namespace SolanaWallet

/-! ## Alphabets -/

theorem idxOf?_eq_some_iff_getD {alphabet : List Char} (hnodup : alphabet.Nodup) (default : Char)
    {c : Char} {v : Nat} :
    alphabet.idxOf? c = some v ↔ c = alphabet.getD v default ∧ v < alphabet.length := by
  have hvalue : ∀ hlt : v < alphabet.length, alphabet.getD v default = alphabet[v] := by
    intro hlt
    rw [List.getD_eq_getElem?_getD, List.getElem?_eq_getElem hlt, Option.getD_some]
  rw [List.idxOf?_eq_some_iff]
  constructor
  · rintro ⟨hlt, hc, -⟩
    exact ⟨hc.symm.trans (hvalue hlt).symm, hlt⟩
  · rintro ⟨rfl, hlt⟩
    refine ⟨hlt, (hvalue hlt).symm, ?_⟩
    intro place hbefore hsame
    rw [hvalue hlt, List.getElem_inj hnodup] at hsame
    omega

/-! ## Bytes as numbers -/

theorem map_ofNat_toNat (bytes : List UInt8) :
    (bytes.map (·.toNat)).map UInt8.ofNat = bytes := by
  calc (bytes.map (·.toNat)).map UInt8.ofNat
      = bytes.map id := by
        rw [List.map_map]
        exact List.map_congr_left fun _ _ => UInt8.ofNat_toNat
    _ = bytes := List.map_id bytes

theorem map_toNat_ofNat {values : List Nat} (h : ∀ v ∈ values, v < 256) :
    (values.map UInt8.ofNat).map (·.toNat) = values := by
  calc (values.map UInt8.ofNat).map (·.toNat)
      = values.map id := by
        rw [List.map_map]
        exact List.map_congr_left fun v hv => UInt8.toNat_ofNat_of_lt' (h v hv)
    _ = values := List.map_id values

theorem ofNat_toNat_eq_iff {byte : UInt8} {c : Char} (hc : c.toNat < 256) :
    Char.ofNat byte.toNat = c ↔ byte = UInt8.ofNat c.toNat := by
  constructor
  · rintro rfl
    have hvalid : byte.toNat.isValidChar := .inl (Nat.lt_trans byte.toNat_lt (by decide))
    have hcode : (Char.ofNat byte.toNat).toNat = byte.toNat := by
      rw [Char.ofNat, dif_pos hvalid]
      rfl
    rw [hcode, UInt8.ofNat_toNat]
  · rintro rfl
    rw [UInt8.toNat_ofNat_of_lt' hc, Char.ofNat_toNat]

/-! ## The bytes of a text -/

private theorem toList_loop_eq (bytes : ByteArray) (i : Nat) (front : List UInt8) :
    ByteArray.toList.loop bytes i front = front.reverse ++ bytes.data.toList.drop i := by
  fun_induction ByteArray.toList.loop bytes i front with
  | case1 i front hlt ih =>
    have hlt' : i < bytes.data.toList.length := by simpa using hlt
    have hget : bytes.get! i = bytes.data.toList[i] := by
      show bytes.data[i]! = _
      rw [getElem!_pos bytes.data i hlt, Array.getElem_toList]
    rw [ih, hget, List.drop_eq_getElem_cons hlt', List.reverse_cons, List.append_assoc,
      List.singleton_append]
  | case2 i front hge =>
    have hend : bytes.data.toList.length ≤ i := by simpa using Nat.le_of_not_lt hge
    rw [List.drop_eq_nil_of_le hend, List.append_nil]

private theorem toList_eq_data (bytes : ByteArray) : bytes.toList = bytes.data.toList := by
  rw [ByteArray.toList, toList_loop_eq]
  simp

/-- Different texts have different bytes. -/
theorem eq_of_utf8_eq {text text' : String} (h : text.toUTF8.toList = text'.toUTF8.toList) :
    text = text' := by
  rw [toList_eq_data, toList_eq_data, Array.toList_inj] at h
  exact String.toByteArray_inj.mp (ByteArray.ext h)

/-- One byte for each character. -/
def asciiBytes (chars : List Char) : List UInt8 := chars.map fun c => UInt8.ofNat c.toNat

theorem utf8_ofList {chars : List Char} (h : ∀ c ∈ chars, c.toNat < 128) :
    (String.ofList chars).toUTF8.toList = asciiBytes chars := by
  have hbytes : (String.ofList chars).toUTF8.toList = chars.flatMap String.utf8EncodeChar := by
    rw [toList_eq_data]
    show (String.ofList chars).toByteArray.data.toList = _
    rw [String.toByteArray_ofList, List.utf8Encode, List.toList_data_toByteArray]
  rw [hbytes]
  clear hbytes
  induction chars with
  | nil => rfl
  | cons c rest ih =>
    obtain ⟨hc, hrest⟩ := List.forall_mem_cons.mp h
    have hsize : c.utf8Size = 1 :=
      Char.utf8Size_eq_one_iff.mpr (UInt32.le_iff_toNat_le.mpr (Nat.le_of_lt_succ hc))
    have hbyte : c.val.toUInt8 = UInt8.ofNat c.toNat := by
      rw [← UInt8.toNat_inj, UInt32.toNat_toUInt8, UInt8.toNat_ofNat']
      rfl
    rw [List.flatMap_cons, ih hrest, String.utf8EncodeChar_eq_singleton hsize, hbyte]
    rfl

end SolanaWallet
