import SolanaWallet.Proofs.Outcome

/-!
# What compilation guarantees

A compiled message has the key table that its instructions ask for, in order,
with the sizes of its parts as counts, and refers to no account outside it.
`compile_eq_ok_iff` opens the compiler into its three results; the lemmas on
`KeyTable.header` and `keyIndex` say what each of them can be.
-/

namespace SolanaWallet

/-! ## The header of a key table -/

theorem KeyTable.header_eq_ok_iff {t : KeyTable} {h : Header} :
    t.header = .ok h ↔
      t.keys.length ≤ 256 ∧ t.signers.length = h.required.toNat ∧
        h.readonlySigners = 0 ∧ t.readonly.length = h.readonlyOthers.toNat := by
  unfold KeyTable.header maxKeys
  -- the sizes are checked in turn, and a byte can hold those that pass
  by_cases hkeys : 256 < t.keys.length
  · rw [if_pos hkeys]
    refine ⟨fun heq => ?_, fun heq => absurd heq.1 (by omega)⟩
    cases heq
  rw [if_neg hkeys]
  by_cases hsigners : 255 < t.signers.length
  · rw [if_pos hsigners]
    have hbyte := h.required.toNat_lt
    refine ⟨fun heq => ?_, fun heq => absurd heq.2.1 (by omega)⟩
    cases heq
  rw [if_neg hsigners]
  by_cases hreadonly : 255 < t.readonly.length
  · rw [if_pos hreadonly]
    have hbyte := h.readonlyOthers.toNat_lt
    refine ⟨fun heq => ?_, fun heq => absurd heq.2.2.2 (by omega)⟩
    cases heq
  rw [if_neg hreadonly]
  constructor
  · intro heq
    obtain rfl := Except.ok.inj heq
    refine ⟨by omega, ?_, rfl, ?_⟩
    · exact (UInt8.toNat_ofNat_of_lt' (by simp only [UInt8.size]; omega)).symm
    · exact (UInt8.toNat_ofNat_of_lt' (by simp only [UInt8.size]; omega)).symm
  · intro hparts
    obtain ⟨-, hrequired, hzero, hothers⟩ := hparts
    obtain ⟨required, readonlySigners, readonlyOthers⟩ := h
    simp only at hrequired hzero hothers
    subst hzero
    rw [hrequired, hothers, UInt8.ofNat_toNat, UInt8.ofNat_toNat]

theorem KeyTable.length_keys (t : KeyTable) :
    t.keys.length = t.signers.length + t.writable.length + t.readonly.length := by
  rw [keys, List.length_append, List.length_append]

theorem compileKeys_eq_ok_iff {instructions : List Instruction} {payer : Option Address}
    {header : Header} {keys : List Address} :
    compileKeys instructions payer = .ok (header, keys) ↔
      (KeyTable.ofInstructions instructions payer).header = .ok header ∧
        (KeyTable.ofInstructions instructions payer).keys = keys := by
  unfold compileKeys
  rw [exceptBind_eq_ok_iff]
  constructor
  · intro hparts
    obtain ⟨counts, hcounts, h⟩ := hparts
    obtain ⟨rfl, rfl⟩ := Prod.mk.inj (exceptPure_eq_ok_iff.mp h)
    exact ⟨hcounts, rfl⟩
  · intro hparts
    obtain ⟨hheader, rfl⟩ := hparts
    exact ⟨header, hheader, rfl⟩

/-! ## The keys of a table -/

namespace KeyTable

variable {t : KeyTable} {a : Address}

theorem mem_keys : a ∈ t.keys ↔ a ∈ t.signers ∨ a ∈ t.writable ∨ a ∈ t.readonly := by
  rw [keys, List.mem_append, List.mem_append, or_assoc]

/-- A mention moves keys between the parts and adds the one it names. -/
theorem mem_keys_mention {account : AccountMeta} :
    a ∈ (t.mention account).keys ↔ a ∈ t.keys ∨ a = account.address := by
  rw [mem_keys, mem_keys]
  by_cases ha : a = account.address
  · -- the key that is named stands in one of the parts afterwards
    subst ha
    refine iff_of_true ?_ (.inr rfl)
    unfold mention
    cases account.signer <;> cases account.writable <;>
      simp only [Bool.false_eq_true, if_true, if_false] <;> split <;> simp_all
  · unfold mention
    cases account.signer <;> cases account.writable <;>
      simp only [Bool.false_eq_true, if_true, if_false] <;> split <;> simp [ha]

theorem mem_keys_foldl_mention {accounts : List AccountMeta} :
    a ∈ (accounts.foldl mention t).keys ↔ a ∈ t.keys ∨ a ∈ accounts.map (·.address) := by
  induction accounts generalizing t with
  | nil => simp
  | cons account rest ih =>
    rw [List.foldl_cons, ih, mem_keys_mention, List.map_cons, List.mem_cons, or_assoc]

theorem mem_keys_ofInstructions {instructions : List Instruction} {payer : Option Address} :
    a ∈ (ofInstructions instructions payer).keys ↔
      a ∈ (mentions instructions payer).map (·.address) := by
  have hempty : a ∉ empty.keys := List.not_mem_nil
  rw [ofInstructions, mem_keys_foldl_mention]
  exact or_iff_right hempty

/-- Signers that have not been mentioned before are listed in order. -/
theorem foldl_mention_signers {signers addresses : List Address}
    (hdistinct : (signers ++ addresses).Nodup) :
    (addresses.map .writeSigned).foldl mention ⟨signers, [], []⟩ =
      ⟨signers ++ addresses, [], []⟩ := by
  induction addresses generalizing signers with
  | nil => rw [List.append_nil, List.map_nil, List.foldl_nil]
  | cons address rest ih =>
    have hfresh : address ∉ signers := fun hmem =>
      (List.nodup_append.mp hdistinct).2.2 _ hmem _ List.mem_cons_self rfl
    have hmention : mention ⟨signers, [], []⟩ (.writeSigned address) =
        ⟨signers ++ [address], [], []⟩ := by
      simp [mention, AccountMeta.writeSigned, hfresh]
    rw [List.map_cons, List.foldl_cons, hmention, ih]
    · rw [List.append_assoc, List.singleton_append]
    · rwa [List.append_assoc, List.singleton_append]

end KeyTable

/-! ## Indices -/

theorem byteIndex_eq_ok_iff {index : Nat} {byte : UInt8} :
    byteIndex index = .ok byte ↔ index = byte.toNat := by
  unfold byteIndex
  by_cases hindex : index < 256
  · rw [if_pos hindex]
    constructor
    · intro h
      rw [← Except.ok.inj h, UInt8.toNat_ofNat_of_lt' hindex]
    · rintro rfl
      rw [UInt8.ofNat_toNat]
  · rw [if_neg hindex]
    constructor
    · intro h
      cases h
    · rintro rfl
      exact absurd byte.toNat_lt hindex

theorem keyIndex_eq_ok_iff {keys : List Address} {address : Address} {index : UInt8} :
    keyIndex keys address = .ok index ↔ keys.idxOf? address = some index.toNat := by
  unfold keyIndex
  cases keys.idxOf? address with
  | none => simp
  | some place => simp [byteIndex_eq_ok_iff]

/-- In a table whose places are bytes every key has an index. -/
theorem exists_keyIndex_of_mem {keys : List Address} {address : Address}
    (hlength : keys.length ≤ 256) (hmem : address ∈ keys) :
    ∃ index, keyIndex keys address = .ok index := by
  cases hplace : keys.idxOf? address with
  | none => exact absurd hmem (List.idxOf?_eq_none_iff.mp hplace)
  | some place =>
    have hlt : place < keys.length := (List.idxOf?_eq_some_iff.mp hplace).1
    have hbyte : place < 256 := Nat.lt_of_lt_of_le hlt hlength
    refine ⟨UInt8.ofNat place, ?_⟩
    rw [keyIndex_eq_ok_iff, UInt8.toNat_ofNat_of_lt' hbyte, hplace]

theorem lt_length_of_keyIndex {keys : List Address} {address : Address} {index : UInt8}
    (h : keyIndex keys address = .ok index) : index.toNat < keys.length :=
  (List.idxOf?_eq_some_iff.mp (keyIndex_eq_ok_iff.mp h)).1

theorem Instruction.compile_eq_ok_iff {keys : List Address} {ix : Instruction}
    {compiled : CompiledInstruction} :
    ix.compile keys = .ok compiled ↔
      List.Forall₂ (fun account index => keyIndex keys account.address = .ok index)
          ix.accounts compiled.accounts ∧
        keyIndex keys ix.program = .ok compiled.program ∧ compiled.data = ix.data := by
  unfold compile
  rw [exceptBind_eq_ok_iff]
  constructor
  · intro hparts
    obtain ⟨accounts, haccounts, h⟩ := hparts
    obtain ⟨program, hprogram, h⟩ := exceptBind_eq_ok_iff.mp h
    obtain rfl := exceptPure_eq_ok_iff.mp h
    exact ⟨mapM_eq_ok_iff_forall₂.mp haccounts, hprogram, rfl⟩
  · intro hparts
    obtain ⟨haccounts, hprogram, hdata⟩ := hparts
    refine ⟨compiled.accounts, mapM_eq_ok_iff_forall₂.mpr haccounts, ?_⟩
    refine exceptBind_eq_ok_iff.mpr ⟨compiled.program, hprogram, ?_⟩
    rw [exceptPure_eq_ok_iff, ← hdata]

theorem Instruction.inRange_of_compile {keys : List Address} {ix : Instruction}
    {compiled : CompiledInstruction} (h : ix.compile keys = .ok compiled) :
    compiled.InRange keys.length := by
  obtain ⟨haccounts, hprogram, -⟩ := Instruction.compile_eq_ok_iff.mp h
  intro index hindex
  rcases List.mem_cons.mp hindex with rfl | hindex
  · exact lt_length_of_keyIndex hprogram
  · obtain ⟨account, -, haccount⟩ := exists_of_mem_results haccounts hindex
    exact lt_length_of_keyIndex haccount

/-! ## Messages -/

namespace Message

variable {instructions : List Instruction} {payer : Option Address} {blockhash : Blockhash}
  {v0 : Bool} {m : Message}

theorem compile_eq_ok_iff :
    compile instructions payer blockhash v0 = .ok m ↔
      compileKeys instructions payer = .ok (m.header, m.keys) ∧
        List.Forall₂ (fun ix compiled => ix.compile m.keys = .ok compiled)
          instructions m.instructions ∧
        m.blockhash = blockhash ∧ m.format = if v0 then .v0 [] else .legacy := by
  unfold compile
  rw [exceptBind_eq_ok_iff]
  constructor
  · intro hparts
    obtain ⟨⟨header, keys⟩, hkeys, h⟩ := hparts
    obtain ⟨compiled, hcompiled, h⟩ := exceptBind_eq_ok_iff.mp h
    obtain rfl := exceptPure_eq_ok_iff.mp h
    exact ⟨hkeys, mapM_eq_ok_iff_forall₂.mp hcompiled, rfl, rfl⟩
  · intro hparts
    obtain ⟨hkeys, hcompiled, rfl, hformat⟩ := hparts
    refine ⟨(m.header, m.keys), hkeys, ?_⟩
    refine exceptBind_eq_ok_iff.mpr ⟨m.instructions, mapM_eq_ok_iff_forall₂.mpr hcompiled, ?_⟩
    rw [exceptPure_eq_ok_iff, ← hformat]

variable (blockhash v0) in
/-- Compilation fails only if there is no key table. -/
theorem exists_compile_of_compileKeys {header : Header} {keys : List Address}
    (h : compileKeys instructions payer = .ok (header, keys)) :
    ∃ m, compile instructions payer blockhash v0 = .ok m ∧ m.header = header ∧ m.keys = keys := by
  obtain ⟨hheader, hkeys⟩ := compileKeys_eq_ok_iff.mp h
  have hlength : keys.length ≤ 256 := hkeys ▸ (KeyTable.header_eq_ok_iff.mp hheader).1
  have hindex : ∀ account ∈ KeyTable.mentions instructions payer,
      ∃ index, keyIndex keys account.address = .ok index := by
    intro account haccount
    apply exists_keyIndex_of_mem hlength
    rw [← hkeys, KeyTable.mem_keys_ofInstructions]
    exact List.mem_map_of_mem haccount
  have hcompiles : ∀ ix ∈ instructions, ∃ compiled, ix.compile keys = .ok compiled := by
    intro ix hix
    obtain ⟨accounts, haccounts⟩ :
        ∃ accounts, ix.accounts.mapM (fun account => keyIndex keys account.address) =
          .ok accounts := by
      apply exists_mapM_eq_ok
      intro account haccount
      apply hindex
      exact List.mem_append_left _ (List.mem_append_right _
        (List.mem_flatMap.mpr ⟨ix, hix, haccount⟩))
    obtain ⟨program, hprogram⟩ := hindex (.read ix.program)
      (List.mem_append_right _ (List.mem_map.mpr ⟨ix, hix, rfl⟩))
    refine ⟨{ program, accounts, data := ix.data }, Instruction.compile_eq_ok_iff.mpr ?_⟩
    exact ⟨mapM_eq_ok_iff_forall₂.mp haccounts, hprogram, rfl⟩
  -- every index exists, so every instruction compiles, and so does the message
  obtain ⟨compiled, hcompiled⟩ := exists_mapM_eq_ok hcompiles
  let m : Message :=
    { header, keys, blockhash, instructions := compiled
      format := if v0 then .v0 [] else .legacy }
  have hm : compile instructions payer blockhash v0 = .ok m :=
    compile_eq_ok_iff.mpr ⟨h, mapM_eq_ok_iff_forall₂.mp hcompiled, rfl, rfl⟩
  exact ⟨m, hm, rfl, rfl⟩

/-- A compiled message refers to keys of its table only. -/
theorem lt_length_of_compile (h : compile instructions payer blockhash v0 = .ok m)
    {compiled : CompiledInstruction} (hmem : compiled ∈ m.instructions) {index : UInt8}
    (hindex : index ∈ compiled.indices) : index.toNat < m.keys.length := by
  obtain ⟨-, hcompiled, -, -⟩ := compile_eq_ok_iff.mp h
  obtain ⟨ix, -, hix⟩ := exists_of_mem_results hcompiled hmem
  exact Instruction.inRange_of_compile hix index hindex

/-- What is compiled can be read back, as far as its shape goes. -/
theorem wellFormed_of_compile (h : compile instructions payer blockhash v0 = .ok m) :
    m.WellFormed := by
  obtain ⟨hkeys, -⟩ := compile_eq_ok_iff.mp h
  obtain ⟨hheader, hkeys⟩ := compileKeys_eq_ok_iff.mp hkeys
  obtain ⟨-, hrequired, hzero, hothers⟩ := KeyTable.header_eq_ok_iff.mp hheader
  have hlength := KeyTable.length_keys (KeyTable.ofInstructions instructions payer)
  rw [hkeys] at hlength
  constructor
  · unfold Header.Fits
    have hnone : m.header.readonlySigners.toNat = 0 := by rw [hzero]; rfl
    omega
  · intro compiled hmem index hindex
    exact Nat.lt_add_right _ (lt_length_of_compile h hmem hindex)

theorem length_keys_le_of_compile (h : compile instructions payer blockhash v0 = .ok m) :
    m.keys.length ≤ 256 := by
  obtain ⟨hkeys, -⟩ := compile_eq_ok_iff.mp h
  obtain ⟨hheader, hkeys⟩ := compileKeys_eq_ok_iff.mp hkeys
  exact hkeys ▸ (KeyTable.header_eq_ok_iff.mp hheader).1

end Message

end SolanaWallet
