import SolanaWallet.Proofs.Outcome
import SolanaWallet.Proofs.Text.Characters
import SolanaWallet.Text.Base64

/-!
# Base64 text has one form

Reading undoes writing and nothing else is read (`decode_eq_ok_iff`), although
the reader looks at bytes and at two kinds of groups.

* Three bytes and four values below 64 are the same number of 24 bits
  (`pack`), so a group in the middle of a text has one form.
* One to three bytes are left for the last group.  `closing?` takes two to four
  values and refuses bits that belong to no byte, so the values are those that
  are written (`written_of_closing?`), and the checks of `readLast` leave no
  choice for the padding.
* Every symbol is an ASCII character, so the bytes of a text that was written
  are its characters, and different texts have different bytes.
-/

namespace SolanaWallet.Base64

/-! ## Symbols and their values -/

/-- The byte of the symbol for a value. -/
def code (v : Nat) : UInt8 := UInt8.ofNat (symbol v).toNat

/-- The bytes of what is written for a byte string. -/
def written (bytes : List UInt8) : List UInt8 := asciiBytes (symbols bytes)

theorem nodup_alphabet : alphabet.Nodup := by decide +kernel

theorem toNat_symbol_lt (v : Nat) : (symbol v).toNat < 128 := by
  have hascii : alphabet.all (fun c => decide (c.toNat < 128)) = true := by decide
  unfold symbol
  rw [List.getD_eq_getElem?_getD]
  cases hplace : alphabet[v]? with
  | none => decide
  | some c => exact of_decide_eq_true (List.all_eq_true.mp hascii c (List.mem_of_getElem? hplace))

theorem value?_eq_some_iff {byte : UInt8} {v : Nat} :
    value? byte = some v ↔ byte = code v ∧ v < 64 := by
  have hplace : value? byte = some v ↔ Char.ofNat byte.toNat = symbol v ∧ v < 64 :=
    idxOf?_eq_some_iff_getD nodup_alphabet 'A'
  rw [hplace, ofNat_toNat_eq_iff (Nat.lt_trans (toNat_symbol_lt v) (by decide)), code]

theorem code_ne_pad {v : Nat} (hv : v < 64) : code v ≠ pad := by
  intro hpad
  have hnone : value? pad = none := by decide
  have hsome : value? (code v) = some v := value?_eq_some_iff.mpr ⟨rfl, hv⟩
  rw [hpad, hnone] at hsome
  cases hsome

theorem valueAt_eq_ok_iff {offset : Nat} {byte : UInt8} {v : Nat} :
    valueAt offset byte = .ok v ↔ byte = code v ∧ v < 64 := by
  rw [← value?_eq_some_iff, valueAt]
  cases value? byte with
  | none => simp
  | some value => simp

theorem valuesAt_eq_ok_iff {offset : Nat} {bytes : List UInt8} {values : List Nat} :
    valuesAt offset bytes = .ok values ↔ bytes = values.map code ∧ ∀ v ∈ values, v < 64 := by
  induction bytes generalizing offset values with
  | nil =>
    rw [valuesAt]
    constructor
    · intro h
      cases h
      simp
    · rintro ⟨hnil, -⟩
      rw [List.map_eq_nil_iff.mp hnil.symm]
  | cons byte bytes ih =>
    rw [valuesAt, exceptBind_eq_ok_iff]
    constructor
    · rintro ⟨v, hv, h⟩
      obtain ⟨rest, hrest, h⟩ := exceptBind_eq_ok_iff.mp h
      obtain rfl := exceptPure_eq_ok_iff.mp h
      obtain ⟨rfl, hlt⟩ := valueAt_eq_ok_iff.mp hv
      obtain ⟨rfl, hless⟩ := ih.mp hrest
      exact ⟨rfl, List.forall_mem_cons.mpr ⟨hlt, hless⟩⟩
    · rintro ⟨hbytes, hless⟩
      cases values with
      | nil => cases hbytes
      | cons v rest =>
        obtain ⟨rfl, hrest⟩ := List.cons.inj hbytes
        obtain ⟨hlt, hless⟩ := List.forall_mem_cons.mp hless
        refine ⟨v, valueAt_eq_ok_iff.mpr ⟨rfl, hlt⟩, exceptBind_eq_ok_iff.mpr ⟨rest, ?_, rfl⟩⟩
        exact ih.mpr ⟨hrest, hless⟩

/-! ## Three bytes and four values -/

/-- The number of four values. -/
def pack (w x y z : Nat) : Nat := w * 262144 + x * 4096 + y * 64 + z

theorem written_of_pack {w x y z : Nat} (hw : w < 64) (hx : x < 64) (hy : y < 64) (hz : z < 64)
    (rest : List UInt8) :
    written (.ofNat (pack w x y z / 65536) :: .ofNat (pack w x y z / 256) ::
        .ofNat (pack w x y z) :: rest) =
      code w :: code x :: code y :: code z :: written rest := by
  have hsum : pack w x y z / 65536 % 256 * 65536 + pack w x y z / 256 % 256 * 256 +
      pack w x y z % 256 = pack w x y z := by
    unfold pack
    omega
  have hw' : pack w x y z / 262144 = w := by unfold pack; omega
  have hx' : pack w x y z / 4096 % 64 = x := by unfold pack; omega
  have hy' : pack w x y z / 64 % 64 = y := by unfold pack; omega
  have hz' : pack w x y z % 64 = z := by unfold pack; omega
  simp only [written, symbols, asciiBytes, UInt8.toNat_ofNat', Nat.reducePow, hsum, hw', hx', hy',
    hz']
  rfl

theorem exists_pack (a b c : UInt8) :
    ∃ w x y z, w < 64 ∧ x < 64 ∧ y < 64 ∧ z < 64 ∧ .ofNat (pack w x y z / 65536) = a ∧
      .ofNat (pack w x y z / 256) = b ∧ .ofNat (pack w x y z) = c := by
  have ha := a.toNat_lt
  have hb := b.toNat_lt
  have hc := c.toNat_lt
  let n := a.toNat * 65536 + b.toNat * 256 + c.toNat
  have hn : pack (n / 262144) (n / 4096 % 64) (n / 64 % 64) (n % 64) = n := by
    unfold pack
    omega
  refine ⟨n / 262144, n / 4096 % 64, n / 64 % 64, n % 64, by omega, by omega, by omega, by omega, ?_⟩
  rw [hn, ← UInt8.toNat_inj, ← UInt8.toNat_inj, ← UInt8.toNat_inj, UInt8.toNat_ofNat',
    UInt8.toNat_ofNat', UInt8.toNat_ofNat']
  omega

/-! ## The last group -/

theorem written_of_two_values {w x : Nat} (hw : w < 64) (hx : x < 64)
    (hunused : (w * 64 + x) % 16 = 0) :
    written [.ofNat ((w * 64 + x) / 16)] = [code w, code x, pad, pad] := by
  have hsum : (w * 64 + x) / 16 % 256 * 16 = w * 64 + x := by omega
  have hw' : (w * 64 + x) / 64 = w := by omega
  have hx' : (w * 64 + x) % 64 = x := by omega
  simp only [written, symbols, asciiBytes, UInt8.toNat_ofNat', Nat.reducePow, hsum, hw', hx']
  rfl

theorem written_of_three_values {w x y : Nat} (hw : w < 64) (hx : x < 64) (hy : y < 64)
    (hunused : (w * 4096 + x * 64 + y) % 4 = 0) :
    written [.ofNat ((w * 4096 + x * 64 + y) / 1024), .ofNat ((w * 4096 + x * 64 + y) / 4)] =
      [code w, code x, code y, pad] := by
  have hsum : (w * 4096 + x * 64 + y) / 1024 % 256 * 1024 +
      (w * 4096 + x * 64 + y) / 4 % 256 * 4 = w * 4096 + x * 64 + y := by omega
  have hw' : (w * 4096 + x * 64 + y) / 4096 = w := by omega
  have hx' : (w * 4096 + x * 64 + y) / 64 % 64 = x := by omega
  have hy' : (w * 4096 + x * 64 + y) % 64 = y := by omega
  simp only [written, symbols, asciiBytes, UInt8.toNat_ofNat', Nat.reducePow, hsum, hw', hx', hy']
  rfl

theorem written_of_closing? {values : List Nat} {bytes : List UInt8} (hless : ∀ v ∈ values, v < 64)
    (h : closing? values = some bytes) :
    written bytes = values.map code ++ List.replicate (4 - values.length) pad := by
  rcases values with _ | ⟨w, _ | ⟨x, _ | ⟨y, _ | ⟨z, _ | ⟨_, _⟩⟩⟩⟩⟩
  · cases h
  · cases h
  · simp only [closing?] at h
    split at h
    · rename_i hunused
      cases h
      exact written_of_two_values (hless w (by simp)) (hless x (by simp)) hunused
    · cases h
  · simp only [closing?] at h
    split at h
    · rename_i hunused
      cases h
      exact written_of_three_values (hless w (by simp)) (hless x (by simp)) (hless y (by simp))
        hunused
    · cases h
  · cases h
    exact written_of_pack (hless w (by simp)) (hless x (by simp)) (hless y (by simp))
      (hless z (by simp)) []
  · cases h

theorem length_of_closing? {values : List Nat} {bytes : List UInt8}
    (h : closing? values = some bytes) : values.length ≤ 4 ∧ bytes ≠ [] := by
  unfold closing? at h
  split at h
  · dsimp only at h
    split at h <;> cases h
    simp
  · dsimp only at h
    split at h <;> cases h
    simp
  · cases h
    simp
  · cases h

/-- Up to three bytes make a last group. -/
theorem exists_closing? {bytes : List UInt8} (hne : bytes ≠ []) (hlength : bytes.length ≤ 3) :
    ∃ values, (∀ v ∈ values, v < 64) ∧ 2 ≤ values.length ∧ closing? values = some bytes := by
  rcases bytes with _ | ⟨a, _ | ⟨b, _ | ⟨c, _ | ⟨_, _⟩⟩⟩⟩
  · exact absurd rfl hne
  · have ha := a.toNat_lt
    refine ⟨[a.toNat * 16 / 64, a.toNat * 16 % 64], by simp; omega, by simp, ?_⟩
    have hn : a.toNat * 16 / 64 * 64 + a.toNat * 16 % 64 = a.toNat * 16 := by omega
    simp [closing?, hn]
  · have ha := a.toNat_lt
    have hb := b.toNat_lt
    let n := a.toNat * 1024 + b.toNat * 4
    have hn : n / 4096 * 4096 + n / 64 % 64 * 64 + n % 64 = n := by omega
    have ha' : UInt8.ofNat (n / 1024) = a := by
      rw [← UInt8.toNat_inj, UInt8.toNat_ofNat']
      omega
    have hb' : UInt8.ofNat (n / 4) = b := by
      rw [← UInt8.toNat_inj, UInt8.toNat_ofNat']
      omega
    have hfour : n % 4 = 0 := by omega
    refine ⟨[n / 4096, n / 64 % 64, n % 64], by simp; omega, by simp, ?_⟩
    simp [closing?, hn, ha', hb', hfour]
  · obtain ⟨w, x, y, z, hw, hx, hy, hz, rfl, rfl, rfl⟩ := exists_pack a b c
    refine ⟨[w, x, y, z], by simp [hw, hx, hy, hz], by simp, rfl⟩
  · simp only [List.length_cons] at hlength
    omega

theorem readLast_eq_ok_iff {offset : Nat} {group bytes : List UInt8} :
    readLast offset group = .ok bytes ↔
      ∃ values, valuesAt offset (group.takeWhile (· ≠ pad)) = .ok values ∧
        ¬ (group.dropWhile (· ≠ pad) ≠ [] ∧ ((group.takeWhile (· ≠ pad)).length < 2 ∨
          (group.dropWhile (· ≠ pad)).any (· ≠ pad) = true)) ∧
        ¬ (group.takeWhile (· ≠ pad)).length < 2 ∧
        ((group.takeWhile (· ≠ pad)).length + (group.dropWhile (· ≠ pad)).length) % 4 = 0 ∧
        closing? values = some bytes := by
  rw [readLast, exceptBind_eq_ok_iff]
  refine exists_congr fun values => and_congr_right fun _ => ?_
  dsimp only
  -- the four checks in turn
  split
  · rename_i hpadding
    refine iff_of_false (fun h => ?_) fun h => h.1 hpadding
    cases h
  rename_i hpadding
  split
  · rename_i hshort
    refine iff_of_false (fun h => ?_) fun h => h.2.1 hshort
    cases h
  rename_i hshort
  split
  · rename_i hfull
    refine iff_of_false (fun h => ?_) fun h => hfull h.2.2.1
    cases h
  rename_i hfull
  split
  · rename_i bytes' hclosing
    rw [hclosing, Option.some.injEq, exceptPure_eq_ok_iff]
    exact ⟨fun h => ⟨hpadding, hshort, Decidable.not_not.mp hfull, h⟩, fun h => h.2.2.2⟩
  · rename_i hclosing
    rw [hclosing]
    refine iff_of_false (fun h => ?_) fun h => ?_
    · cases h
    · cases h.2.2.2

theorem takeWhile_codes {values : List Nat} (hless : ∀ v ∈ values, v < 64) (count : Nat) :
    (values.map code ++ List.replicate count pad).takeWhile (· ≠ pad) = values.map code ∧
      (values.map code ++ List.replicate count pad).dropWhile (· ≠ pad) =
        List.replicate count pad := by
  have hcodes : ∀ byte ∈ values.map code, decide (byte ≠ pad) = true := by
    intro byte hbyte
    obtain ⟨v, hv, rfl⟩ := List.mem_map.mp hbyte
    exact decide_eq_true (code_ne_pad (hless v hv))
  rw [List.takeWhile_append_of_pos hcodes, List.dropWhile_append_of_pos hcodes]
  cases count with
  | zero => simp
  | succ count => simp [List.replicate_succ]

theorem eq_written_of_readLast {offset : Nat} {group bytes : List UInt8} (hlength : group.length ≤ 4)
    (h : readLast offset group = .ok bytes) : group = written bytes ∧ bytes ≠ [] := by
  obtain ⟨values, hvalues, hpadding, hshort, hfull, hclosing⟩ := readLast_eq_ok_iff.mp h
  obtain ⟨hbody, hless⟩ := valuesAt_eq_ok_iff.mp hvalues
  have hgroup : group = values.map code ++ group.dropWhile (· ≠ pad) := by
    rw [← hbody, List.takeWhile_append_dropWhile]
  rw [hbody, List.length_map] at hpadding hshort hfull
  generalize group.dropWhile (· ≠ pad) = padding at hgroup hpadding hfull
  have htotal : values.length + padding.length = 4 := by
    rw [hgroup, List.length_append, List.length_map] at hlength
    omega
  have hpads : padding = List.replicate (4 - values.length) pad := by
    rw [List.eq_replicate_iff]
    refine ⟨by omega, fun byte hbyte => ?_⟩
    by_contra hother
    have hne : padding ≠ [] := List.ne_nil_of_mem hbyte
    exact hpadding ⟨hne, .inr (List.any_eq_true.mpr ⟨byte, hbyte, decide_eq_true hother⟩)⟩
  rw [written_of_closing? hless hclosing, ← hpads]
  exact ⟨hgroup, (length_of_closing? hclosing).2⟩

theorem readLast_written (offset : Nat) {bytes : List UInt8} (hne : bytes ≠ [])
    (hlength : bytes.length ≤ 3) : readLast offset (written bytes) = .ok bytes := by
  obtain ⟨values, hless, hshort, hclosing⟩ := exists_closing? hne hlength
  have hfour : values.length ≤ 4 := (length_of_closing? hclosing).1
  obtain ⟨hbody, hpadding⟩ := takeWhile_codes hless (4 - values.length)
  rw [readLast_eq_ok_iff, written_of_closing? hless hclosing, hbody, hpadding]
  refine ⟨values, valuesAt_eq_ok_iff.mpr ⟨rfl, hless⟩, ?_, ?_, ?_, hclosing⟩
  · rw [List.length_map]
    rintro ⟨-, hbad | hbad⟩
    · omega
    · simp at hbad
  · rw [List.length_map]
    omega
  · rw [List.length_map, List.length_replicate]
    omega

/-! ## All groups -/

theorem eq_written_of_readGroups {offset : Nat} {text bytes : List UInt8}
    (h : readGroups offset text = .ok bytes) : text = written bytes ∧ bytes ≠ [] := by
  induction offset, text using readGroups.induct generalizing bytes with
  | case1 offset a b c d next rest ih =>
    rw [readGroups] at h
    obtain ⟨w, hw, h⟩ := exceptBind_eq_ok_iff.mp h
    obtain ⟨x, hx, h⟩ := exceptBind_eq_ok_iff.mp h
    obtain ⟨y, hy, h⟩ := exceptBind_eq_ok_iff.mp h
    obtain ⟨z, hz, h⟩ := exceptBind_eq_ok_iff.mp h
    obtain ⟨tail, htail, h⟩ := exceptBind_eq_ok_iff.mp h
    obtain rfl := exceptPure_eq_ok_iff.mp h
    obtain ⟨rfl, hwless⟩ := valueAt_eq_ok_iff.mp hw
    obtain ⟨rfl, hxless⟩ := valueAt_eq_ok_iff.mp hx
    obtain ⟨rfl, hyless⟩ := valueAt_eq_ok_iff.mp hy
    obtain ⟨rfl, hzless⟩ := valueAt_eq_ok_iff.mp hz
    obtain ⟨hrest, -⟩ := ih htail
    refine ⟨?_, List.cons_ne_nil _ _⟩
    rw [hrest]
    exact (written_of_pack hwless hxless hyless hzless tail).symm
  | case2 offset group hsmall =>
    have hlength : group.length ≤ 4 := by
      rcases group with _ | ⟨a, _ | ⟨b, _ | ⟨c, _ | ⟨d, _ | ⟨next, rest⟩⟩⟩⟩⟩
      · simp
      · simp
      · simp
      · simp
      · simp
      · exact (hsmall a b c d next rest rfl).elim
    rw [readGroups.eq_2 _ _ hsmall] at h
    exact eq_written_of_readLast hlength h

theorem written_ne_nil {bytes : List UInt8} (hne : bytes ≠ []) : written bytes ≠ [] := by
  rcases bytes with _ | ⟨a, _ | ⟨b, _ | ⟨c, rest⟩⟩⟩
  · exact absurd rfl hne
  · simp [written, symbols, asciiBytes]
  · simp [written, symbols, asciiBytes]
  · simp [written, symbols, asciiBytes]

theorem readGroups_written (offset : Nat) {bytes : List UInt8} (hne : bytes ≠ []) :
    readGroups offset (written bytes) = .ok bytes := by
  induction bytes using symbols.induct generalizing offset with
  | case1 a b c rest ih =>
    cases rest with
    | nil => exact readLast_written offset hne (by simp)
    | cons d rest =>
      obtain ⟨w, x, y, z, hw, hx, hy, hz, rfl, rfl, rfl⟩ := exists_pack a b c
      obtain ⟨next, tail, hnext⟩ :=
        List.exists_cons_of_ne_nil (written_ne_nil (List.cons_ne_nil d rest))
      have htail := ih (offset + 4) (List.cons_ne_nil d rest)
      rw [written_of_pack hw hx hy hz, hnext, readGroups, ← hnext, htail]
      simp only [valueAt_eq_ok_iff.mpr ⟨rfl, hw⟩, valueAt_eq_ok_iff.mpr ⟨rfl, hx⟩,
        valueAt_eq_ok_iff.mpr ⟨rfl, hy⟩, valueAt_eq_ok_iff.mpr ⟨rfl, hz⟩]
      rfl
  | case2 a b => exact readLast_written offset hne (by simp)
  | case3 a => exact readLast_written offset hne (by simp)
  | case4 => exact absurd rfl hne

theorem length_written_mod (bytes : List UInt8) : (written bytes).length % 4 = 0 := by
  unfold written asciiBytes
  rw [List.length_map]
  induction bytes using symbols.induct with
  | case1 a b c rest ih =>
    simp only [symbols, List.length_cons]
    omega
  | case2 a b => simp [symbols]
  | case3 a => simp [symbols]
  | case4 => rfl

theorem decodeBytes_eq_ok_iff {text bytes : List UInt8} :
    decodeBytes text = .ok bytes ↔ text = written bytes := by
  unfold decodeBytes
  constructor
  · intro h
    split at h
    · rename_i hlast
      cases h
      exact List.getLast?_eq_none_iff.mp hlast
    split at h
    · cases h
    · exact (eq_written_of_readGroups h).1
  · rintro rfl
    by_cases hne : bytes = []
    · subst hne
      rfl
    -- a text that was written has no character left over
    have hfour := length_written_mod bytes
    split
    · rename_i hlast
      exact absurd (List.getLast?_eq_none_iff.mp hlast) (written_ne_nil hne)
    · rw [if_neg (by omega)]
      exact readGroups_written 0 hne

/-! ## Texts -/

theorem toNat_lt_of_mem_symbols {bytes : List UInt8} : ∀ c ∈ symbols bytes, c.toNat < 128 := by
  induction bytes using symbols.induct with
  | case1 a b c rest ih =>
    rw [symbols]
    simpa [toNat_symbol_lt] using ih
  | case2 a b => simp [symbols, toNat_symbol_lt]
  | case3 a => simp [symbols, toNat_symbol_lt]
  | case4 => simp [symbols]

/-- **One form.** A text is read as some bytes exactly if it is the text that
is written for them. -/
theorem decode_eq_ok_iff {text : String} {bytes : List UInt8} :
    decode text = .ok bytes ↔ text = encode bytes := by
  have hbytes : (encode bytes).toUTF8.toList = written bytes :=
    utf8_ofList toNat_lt_of_mem_symbols
  rw [decode, decodeBytes_eq_ok_iff, ← hbytes]
  constructor
  · exact eq_of_utf8_eq
  · rintro rfl
    rfl

end SolanaWallet.Base64
