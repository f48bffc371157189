import Mathlib.Data.List.Nodup
import SolanaWallet.Proofs.Edit.Invariant

/-!
# Reading back what was written

A message that was compiled and edited here is read back from its bytes, with
one exception: the first byte of a legacy message is its number of signers,
and from 128 on a reader takes it for the mark of a version.  Neither the
compiler nor an edit stops at 127 signers.

* `not_deserialize_of_not_clear`: the bytes of such a message are rejected, and
  never read as another message;
* `exists_rejected`: the exception is reached by compilation alone, with any
  number of signers from 128 to 255.

With 129 signers or more the version is unknown.  With 128 it is version 0,
and everything is read one byte off: the first byte of the number of keys is
taken for a count of keys that are only read, and exceeds the number of keys
that its second byte announces.  `HasFewWritable` is needed here, as it keeps
that number to two bytes.
-/

namespace SolanaWallet

namespace Message

variable {m : Message} {bytes : List UInt8}

/-! ## Messages without a clear format -/

/-- A message without a clear format is legacy and has a first byte that looks
like the mark of a version. -/
theorem le_required_of_not_clear (hclear : ¬ m.HasClearFormat) :
    m.format = .legacy ∧ 128 ≤ m.header.required.toNat := by
  have hsigners : ¬ m.header.signerCount < 128 := fun h => hclear (.inr h)
  have hlegacy : ¬ m.isV0 = true := fun h => hclear (.inl h)
  refine ⟨?_, Nat.le_of_not_lt hsigners⟩
  cases hformat : m.format with
  | legacy => rfl
  | v0 lookups => simp [isV0, hformat] at hlegacy

/-- Read one byte too late, a number of keys announces fewer keys than the
byte before it. -/
theorem lt_of_encode_append {keys keys' : Nat} {count : UInt8} {tail tail' : List UInt8}
    (hmin : 128 ≤ keys) (hmax : keys < 16384) (hshort : keys' ≤ ShortVec.maxLength)
    (h : ShortVec.encode (.ofNat keys) ++ tail = count :: (ShortVec.encode (.ofNat keys') ++ tail')) :
    keys' < count.toNat := by
  have hkeys : (UInt16.ofNat keys).toNat = keys :=
    UInt16.toNat_ofNat_of_lt' (Nat.lt_trans hmax (by decide))
  have hkeys' : (UInt16.ofNat keys').toNat = keys' :=
    UInt16.toNat_ofNat_of_lt' (Nat.lt_succ_of_le hshort)
  obtain ⟨first, second, hencode, hfirst, hsecond⟩ :=
    ShortVec.exists_two_of_encode (hkeys.symm ▸ hmin) (hkeys.symm ▸ hmax)
  rw [hencode] at h
  obtain ⟨rfl, hrest⟩ := List.cons.inj h
  have hlength : (UInt16.ofNat keys').toNat = second.toNat :=
    ShortVec.toNat_eq_of_encode_append hrest.symm hsecond
  calc keys' = second.toNat := by rw [← hkeys', hlength]
    _ < 128 := hsecond
    _ ≤ first.toNat := hfirst

/-- Such a message is not read back, and no other message is read from its
bytes either. -/
theorem not_deserialize_of_not_clear (hm : m.WellFormed) (hfew : m.HasFewWritable)
    (hclear : ¬ m.HasClearFormat) (hbytes : m.serialize = .ok bytes) (other : Message) :
    deserialize bytes ≠ .ok other := by
  intro hread
  obtain ⟨hother, hclear', hbytes'⟩ := deserialize_eq_ok_iff_serialize.mp hread
  obtain ⟨hlegacy, hmany⟩ := le_required_of_not_clear hclear
  rw [serialize_of_legacy hlegacy] at hbytes
  obtain ⟨-, tail, rfl⟩ := exists_tail_of_bodyBytes hbytes
  cases hformat : other.format with
  | legacy =>
    -- both messages start with their number of signers
    rw [serialize_of_legacy hformat] at hbytes'
    obtain ⟨-, tail', heq⟩ := exists_tail_of_bodyBytes hbytes'
    have hrequired : m.header.required = other.header.required := (List.cons.inj heq).1
    rcases hclear' with hv0 | hsigners
    · simp [isV0, hformat] at hv0
    · rw [hrequired] at hmany
      exact absurd hsigners (Nat.not_lt.mpr hmany)
  | v0 lookups =>
    obtain ⟨body, _, hbody, -, heq⟩ := (serialize_eq_ok_iff_of_v0 hformat).mp hbytes'
    obtain ⟨hshort', tail', rfl⟩ := exists_tail_of_bodyBytes hbody
    simp only [List.cons_append, List.append_assoc, List.cons.injEq] at heq
    obtain ⟨-, -, -, hkeys⟩ := heq
    -- the number of keys takes two bytes, and the first is read as a count
    have hmin : 128 ≤ m.keys.length := Nat.le_trans hmany hm.1.1
    have hmax : m.keys.length < 16384 := by
      have hrequired := m.header.required.toNat_lt
      have hothers := m.header.readonlyOthers.toNat_lt
      unfold HasFewWritable at hfew
      omega
    have hfew' : other.keys.length < other.header.readonlyOthers.toNat :=
      lt_of_encode_append hmin hmax hshort' hkeys
    have hfits : other.header.readonlyOthers.toNat ≤ other.keys.length - other.header.required.toNat :=
      hother.1.2.2
    omega

/-! ## Messages that were built here -/

/-- The table of a compiled message is short. -/
theorem hasFewWritable_of_compile {instructions : List Instruction} {payer : Option Address}
    {blockhash : Blockhash} {v0 : Bool}
    (h : compile instructions payer blockhash v0 = .ok m) : m.HasFewWritable :=
  Nat.le_add_left_of_le (length_keys_le_of_compile h)

/-- **Reading back what was built here.**  What is written for a message that
was compiled and edited is read back as the same message exactly if it has
version 0 or fewer than 128 signers, and is rejected otherwise. -/
theorem deserialize_serialize_of_edits {instructions : List Instruction} {payer : Option Address}
    {blockhash : Blockhash} {v0 : Bool} {m₀ : Message} {commands : List EditCommand}
    (hcompile : compile instructions payer blockhash v0 = .ok m₀)
    (hrun : EditCommand.runAll commands m₀ = .ok () m) (hbytes : m.serialize = .ok bytes) :
    (m.isV0 = true ∨ m.header.signerCount < 128 → deserialize bytes = .ok m) ∧
      (¬ (m.isV0 = true ∨ m.header.signerCount < 128) →
        ∃ reason, deserialize bytes = .error reason) := by
  have hm₀ : m₀.WellFormed := wellFormed_of_compile hcompile
  have hfew₀ : m₀.HasFewWritable := hasFewWritable_of_compile hcompile
  obtain ⟨hm, hfew⟩ := EditCommand.of_runAll
    (fun hm hP heffect => EditCommand.Effect.hasFewWritable heffect hm hP) hm₀ hfew₀ hrun
  constructor
  · intro hclear
    exact deserialize_eq_ok_iff_serialize.mpr ⟨hm, hclear, hbytes⟩
  · intro hclear
    cases hread : deserialize bytes with
    | error reason => exact ⟨reason, rfl⟩
    | ok other => exact absurd hread (not_deserialize_of_not_clear hm hfew hclear hbytes other)

theorem reread_of_sampleEdits :
    ∃ m₀ m bytes,
      compile [⟨.numbered 1, [.writeSigned (.numbered 2)], [3]⟩] none ⟨Block.zero 32⟩ false =
          .ok m₀ ∧
        EditCommand.runAll sampleEdits m₀ = .ok () m ∧ m.serialize = .ok bytes ∧
        deserialize bytes = .ok m := by
  let m₀ : Message :=
    { header := { required := 1, readonlySigners := 0, readonlyOthers := 1 }
      keys := [.numbered 2, .numbered 1]
      blockhash := ⟨Block.zero 32⟩
      instructions := [{ program := 1, accounts := [0], data := [3] }]
      format := .legacy }
  have hcompile : compile [⟨.numbered 1, [.writeSigned (.numbered 2)], [3]⟩] none
      ⟨Block.zero 32⟩ false = .ok m₀ := rfl
  have hsucceeds : (EditCommand.result? sampleEdits m₀).any
      (fun m => m.serialize.isOk && decide (m.header.signerCount < 128)) = true := by
    decide +kernel
  obtain ⟨m, hresult, hm⟩ := (Option.any_eq_true _ _).mp hsucceeds
  have hrun := EditCommand.result?_eq_some_iff.mp hresult
  obtain ⟨hok, hfew⟩ := Bool.and_eq_true_iff.mp hm
  obtain ⟨bytes, hbytes⟩ := exists_eq_ok_of_isOk hok
  have hclear : m.isV0 = true ∨ m.header.signerCount < 128 := .inr (of_decide_eq_true hfew)
  have hread := (deserialize_serialize_of_edits hcompile hrun hbytes).1 hclear
  exact ⟨m₀, m, bytes, hcompile, hrun, hbytes, hread⟩

/-! ## The exception is reached -/

/-- An instruction that all of `signers` have to sign. -/
def signedBy (program : Address) (signers : List Address) : Instruction where
  program
  accounts := signers.map .writeSigned
  data := []

theorem compileKeys_signedBy {program : Address} {signers : List Address}
    (hdistinct : (program :: signers).Nodup) (hlength : signers.length ≤ 255) :
    compileKeys [signedBy program signers] none =
      .ok (⟨.ofNat signers.length, 0, 1⟩, signers ++ [program]) := by
  obtain ⟨hfresh, hnodup⟩ := List.nodup_cons.mp hdistinct
  have hsigners : (signers.map .writeSigned).foldl KeyTable.mention .empty = ⟨signers, [], []⟩ :=
    KeyTable.foldl_mention_signers hnodup
  have htable : KeyTable.ofInstructions [signedBy program signers] none =
      ⟨signers, [], [program]⟩ := by
    simp [KeyTable.ofInstructions, KeyTable.mentions, signedBy, hsigners, KeyTable.mention,
      AccountMeta.read, hfresh]
  have hrequired : (UInt8.ofNat signers.length).toNat = signers.length :=
    UInt8.toNat_ofNat_of_lt' (Nat.lt_succ_of_le hlength)
  rw [compileKeys_eq_ok_iff, htable, KeyTable.header_eq_ok_iff]
  refine ⟨⟨?_, hrequired.symm, rfl, rfl⟩, by simp [KeyTable.keys]⟩
  rw [KeyTable.length_keys]
  exact Nat.succ_le_succ hlength

/-- Compilation alone makes legacy messages that are written and then rejected,
with any number of signers from 128 to 255. -/
theorem exists_rejected {program : Address} {signers : List Address} (blockhash : Blockhash)
    (hdistinct : (program :: signers).Nodup) (hmany : 128 ≤ signers.length)
    (hlength : signers.length ≤ 255) :
    ∃ m bytes, compile [signedBy program signers] none blockhash false = .ok m ∧
      m.serialize = .ok bytes ∧ ∀ other, deserialize bytes ≠ .ok other := by
  obtain ⟨m, hcompile, hheader, hkeys⟩ :=
    exists_compile_of_compileKeys blockhash false (compileKeys_signedBy hdistinct hlength)
  obtain ⟨-, hinstructions, -, hformat⟩ := compile_eq_ok_iff.mp hcompile
  have hshort : ∀ ix ∈ m.instructions, ix.accounts.length ≤ ShortVec.maxLength ∧
      ix.data.length ≤ ShortVec.maxLength := by
    intro ix hix
    obtain ⟨source, hsource, hix⟩ := exists_of_mem_results hinstructions hix
    obtain rfl := List.mem_singleton.mp hsource
    obtain ⟨haccounts, -, hdata⟩ := Instruction.compile_eq_ok_iff.mp hix
    have hcount : ix.accounts.length = signers.length := by
      rw [← haccounts.length_eq, signedBy, List.length_map]
    rw [hcount, hdata]
    exact ⟨Nat.le_trans hlength (by decide), Nat.zero_le _⟩
  obtain ⟨bytes, hbytes⟩ : ∃ bytes, m.bodyBytes = .ok bytes := by
    apply exists_bodyBytes _ _ hshort
    · exact Nat.le_trans (length_keys_le_of_compile hcompile) (by decide)
    · rw [← hinstructions.length_eq, List.length_singleton]
      decide
  rw [← serialize_of_legacy hformat] at hbytes
  have hsigners : m.header.signerCount = signers.length := by
    rw [hheader]
    exact UInt8.toNat_ofNat_of_lt' (Nat.lt_succ_of_le hlength)
  have hclear : ¬ m.HasClearFormat := by
    rintro (hv0 | hfew)
    · simp [isV0, hformat] at hv0
    · omega
  exact ⟨m, bytes, hcompile, hbytes, not_deserialize_of_not_clear (wellFormed_of_compile hcompile)
    (hasFewWritable_of_compile hcompile) hclear hbytes⟩

/-- The first `count` numbered addresses. -/
def numberedKeys (count : Nat) : List Address :=
  (List.range count).map fun n => .numbered (.ofNat n)

theorem nodup_numberedKeys {count : Nat} (h : count ≤ 256) : (numberedKeys count).Nodup := by
  apply List.Nodup.map_on _ List.nodup_range
  intro n hn n' hn' heq
  have hfirst : UInt8.ofNat n = UInt8.ofNat n' :=
    (List.cons.inj (congrArg (·.bytes) heq)).1
  have hn : n < 256 := Nat.lt_of_lt_of_le (List.mem_range.mp hn) h
  have hn' : n' < 256 := Nat.lt_of_lt_of_le (List.mem_range.mp hn') h
  rw [← UInt8.toNat_ofNat_of_lt' hn, hfirst, UInt8.toNat_ofNat_of_lt' hn']

/-- With 128 signers, the fewest with which it happens, and no edit at all. -/
theorem rejected_of_128_signers :
    ∃ m bytes,
      compile [signedBy (.numbered 128) (numberedKeys 128)] none ⟨Block.zero 32⟩ false = .ok m ∧
        EditCommand.runAll [] m = .ok () m ∧ m.serialize = .ok bytes ∧
        deserialize bytes ≠ .ok m := by
  have hdistinct : (Address.numbered 128 :: numberedKeys 128).Nodup := by
    have hkeys : numberedKeys 129 = numberedKeys 128 ++ [.numbered 128] := rfl
    have hnodup : (numberedKeys 129).Nodup := nodup_numberedKeys (by decide)
    rw [hkeys] at hnodup
    exact (List.perm_append_singleton _ _).nodup_iff.mp hnodup
  have hlength : (numberedKeys 128).length = 128 := by
    rw [numberedKeys, List.length_map, List.length_range]
  obtain ⟨m, bytes, hcompile, hbytes, hrejected⟩ :=
    exists_rejected ⟨Block.zero 32⟩ hdistinct (by omega) (by omega)
  exact ⟨m, bytes, hcompile, rfl, hbytes, hrejected m⟩

end Message

end SolanaWallet
