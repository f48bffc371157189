import SolanaWallet.Message.Wire
import SolanaWallet.Proofs.Wire.Codec

/-!
# The wire form of a message

The reader of messages undoes the writer: `run_message_eq_ok_iff` says that a
message is taken off the front of some bytes exactly if it is well formed, it
is not a legacy message whose first byte would mark a versioned one, and the
bytes start with what is written for it.

The two formats are told apart by the first byte alone.  A legacy message
starts with its number of signers (`exists_tail_of_bodyBytes`), so the reader
takes the legacy branch exactly if fewer than 128 keys sign; version 0 starts
with the mark itself.
-/

namespace SolanaWallet

namespace Reader

/-! ## The parts of a message -/

theorem address_reads (part : Part) : (address part).Reads fun key => .ok key.bytes := by
  intro input key rest
  constructor
  · intro h
    rw [address, (block_reads 32 part).run_bind_eq_ok_iff] at h
    obtain ⟨taken, bytes, mid, hbytes, rfl, h⟩ := h
    obtain ⟨rfl, rfl⟩ := run_pure_eq_ok_iff.mp h
    exact ⟨bytes, hbytes, rfl⟩
  · intro hparts
    obtain ⟨bytes, hbytes, rfl⟩ := hparts
    exact (block_reads 32 part).run_bind_eq_ok_iff.mpr ⟨key.toBlock, bytes, rest, hbytes, rfl, rfl⟩

theorem instruction_reads : instruction.Reads Writer.instruction := by
  intro input ix rest
  constructor
  · intro h
    rw [instruction, byte_reads.run_bind_eq_ok_iff] at h
    obtain ⟨program, _, _, hprogram, rfl, h⟩ := h
    rw [(bytes_reads _).run_bind_eq_ok_iff] at h
    obtain ⟨accounts, listed, _, hlisted, rfl, h⟩ := h
    rw [(bytes_reads _).run_bind_eq_ok_iff] at h
    obtain ⟨data, payload, _, hpayload, rfl, h⟩ := h
    obtain ⟨rfl, rfl⟩ := run_pure_eq_ok_iff.mp h
    cases hprogram
    refine ⟨program :: listed ++ payload, ?_, by simp⟩
    exact exceptBind_eq_ok_iff.mpr
      ⟨listed, hlisted, exceptBind_eq_ok_iff.mpr ⟨payload, hpayload, rfl⟩⟩
  · intro hparts
    obtain ⟨bytes, hbytes, rfl⟩ := hparts
    obtain ⟨listed, hlisted, h⟩ := exceptBind_eq_ok_iff.mp hbytes
    obtain ⟨payload, hpayload, h⟩ := exceptBind_eq_ok_iff.mp h
    cases h
    refine byte_reads.run_bind_eq_ok_iff.mpr
      ⟨ix.program, [ix.program], listed ++ (payload ++ rest), rfl, by simp, ?_⟩
    refine (bytes_reads _).run_bind_eq_ok_iff.mpr
      ⟨ix.accounts, listed, payload ++ rest, hlisted, rfl, ?_⟩
    exact (bytes_reads _).run_bind_eq_ok_iff.mpr ⟨ix.data, payload, rest, hpayload, rfl, rfl⟩

theorem lookup_reads : lookup.Reads Writer.lookup := by
  intro input l rest
  constructor
  · intro h
    rw [lookup, (address_reads _).run_bind_eq_ok_iff] at h
    obtain ⟨table, _, _, htable, rfl, h⟩ := h
    rw [(bytes_reads _).run_bind_eq_ok_iff] at h
    obtain ⟨writable, first, _, hfirst, rfl, h⟩ := h
    rw [(bytes_reads _).run_bind_eq_ok_iff] at h
    obtain ⟨readonly, second, _, hsecond, rfl, h⟩ := h
    obtain ⟨rfl, rfl⟩ := run_pure_eq_ok_iff.mp h
    cases htable
    refine ⟨table.bytes ++ first ++ second, ?_, by simp⟩
    exact exceptBind_eq_ok_iff.mpr
      ⟨first, hfirst, exceptBind_eq_ok_iff.mpr ⟨second, hsecond, rfl⟩⟩
  · intro hparts
    obtain ⟨bytes, hbytes, rfl⟩ := hparts
    obtain ⟨first, hfirst, h⟩ := exceptBind_eq_ok_iff.mp hbytes
    obtain ⟨second, hsecond, h⟩ := exceptBind_eq_ok_iff.mp h
    cases h
    refine (address_reads _).run_bind_eq_ok_iff.mpr
      ⟨l.table, l.table.bytes, first ++ (second ++ rest), rfl, by simp, ?_⟩
    refine (bytes_reads _).run_bind_eq_ok_iff.mpr
      ⟨l.writable, first, second ++ rest, hfirst, rfl, ?_⟩
    exact (bytes_reads _).run_bind_eq_ok_iff.mpr ⟨l.readonly, second, rest, hsecond, rfl, rfl⟩

/-! ## What both formats have in common -/

theorem keys_reads :
    (list (address .accountKey)).Reads (Writer.list fun key => .ok key.bytes) :=
  (address_reads .accountKey).list

theorem run_body_eq_ok_iff {input rest : List UInt8} {m : Message} :
    body.run input = .ok (m, rest) ↔
      m.format = .legacy ∧ ∃ bytes, m.bodyBytes = .ok bytes ∧ input = bytes ++ rest := by
  constructor
  · intro h
    rw [body, byte_reads.run_bind_eq_ok_iff] at h
    obtain ⟨required, _, _, hrequired, rfl, h⟩ := h
    rw [byte_reads.run_bind_eq_ok_iff] at h
    obtain ⟨readonlySigners, _, _, hsigners, rfl, h⟩ := h
    rw [byte_reads.run_bind_eq_ok_iff] at h
    obtain ⟨readonlyOthers, _, _, hothers, rfl, h⟩ := h
    rw [keys_reads.run_bind_eq_ok_iff] at h
    obtain ⟨keys, table, _, htable, rfl, h⟩ := h
    rw [(block_reads _ _).run_bind_eq_ok_iff] at h
    obtain ⟨blockhash, _, _, hblockhash, rfl, h⟩ := h
    rw [instruction_reads.list.run_bind_eq_ok_iff] at h
    obtain ⟨instructions, calls, _, hcalls, rfl, h⟩ := h
    obtain ⟨rfl, rfl⟩ := run_pure_eq_ok_iff.mp h
    cases hrequired
    cases hsigners
    cases hothers
    cases hblockhash
    refine ⟨rfl, [required, readonlySigners, readonlyOthers] ++ table ++ blockhash.bytes ++ calls,
      ?_, by simp⟩
    exact exceptBind_eq_ok_iff.mpr
      ⟨table, htable, exceptBind_eq_ok_iff.mpr ⟨calls, hcalls, rfl⟩⟩
  · intro hparts
    obtain ⟨hformat, bytes, hbytes, rfl⟩ := hparts
    obtain ⟨table, htable, h⟩ := exceptBind_eq_ok_iff.mp hbytes
    obtain ⟨calls, hcalls, h⟩ := exceptBind_eq_ok_iff.mp h
    cases h
    obtain ⟨⟨required, readonlySigners, readonlyOthers⟩, keys, blockhash, instructions, format⟩ := m
    cases hformat
    refine byte_reads.run_bind_eq_ok_iff.mpr ⟨required, _, _, rfl, rfl, ?_⟩
    refine byte_reads.run_bind_eq_ok_iff.mpr ⟨readonlySigners, _, _, rfl, rfl, ?_⟩
    refine byte_reads.run_bind_eq_ok_iff.mpr
      ⟨readonlyOthers, _, table ++ (blockhash.bytes ++ (calls ++ rest)), rfl, by simp, ?_⟩
    refine keys_reads.run_bind_eq_ok_iff.mpr ⟨keys, table, _, htable, rfl, ?_⟩
    refine (block_reads _ _).run_bind_eq_ok_iff.mpr ⟨blockhash.toBlock, _, _, rfl, rfl, ?_⟩
    exact instruction_reads.list.run_bind_eq_ok_iff.mpr
      ⟨instructions, calls, rest, hcalls, rfl, rfl⟩

theorem run_wellFormed_eq_ok_iff {m m' : Message} {input rest : List UInt8} :
    (wellFormed m).run input = .ok (m', rest) ↔ m.WellFormed ∧ m = m' ∧ input = rest := by
  unfold wellFormed
  by_cases hfits : m.header.Fits m.keys.length
  · rw [if_pos hfits]
    by_cases hwell : m.WellFormed
    · rw [if_pos hwell, run_pure_eq_ok_iff]
      exact ⟨fun h => ⟨hwell, h⟩, fun h => h.2⟩
    · rw [if_neg hwell]
      refine ⟨fun h => ?_, fun h => absurd h.1 hwell⟩
      cases h
  · rw [if_neg hfits]
    refine ⟨fun h => ?_, fun h => absurd h.1.1 hfits⟩
    cases h

end Reader

/-! ## The two formats -/

namespace Message

variable {m : Message} {bytes : List UInt8}

/-- What both formats have in common starts with the counts of the header and
the number of keys. -/
theorem exists_tail_of_bodyBytes (h : m.bodyBytes = .ok bytes) :
    m.keys.length ≤ ShortVec.maxLength ∧
      ∃ tail, bytes = m.header.required :: m.header.readonlySigners :: m.header.readonlyOthers ::
        (ShortVec.encode (.ofNat m.keys.length) ++ tail) := by
  obtain ⟨table, htable, h⟩ := exceptBind_eq_ok_iff.mp h
  obtain ⟨calls, -, h⟩ := exceptBind_eq_ok_iff.mp h
  obtain ⟨hshort, tail, rfl⟩ := Writer.exists_tail_of_list htable
  refine ⟨hshort, tail ++ m.blockhash.bytes ++ calls, ?_⟩
  rw [← exceptPure_eq_ok_iff.mp h]
  simp

theorem exists_bodyBytes (hkeys : m.keys.length ≤ ShortVec.maxLength)
    (hinstructions : m.instructions.length ≤ ShortVec.maxLength)
    (h : ∀ ix ∈ m.instructions,
      ix.accounts.length ≤ ShortVec.maxLength ∧ ix.data.length ≤ ShortVec.maxLength) :
    ∃ bytes, m.bodyBytes = .ok bytes := by
  have hcalls : ∀ ix ∈ m.instructions, ∃ written, Writer.instruction ix = .ok written := by
    intro ix hix
    obtain ⟨accounts, haccounts⟩ := Writer.exists_bytes (h ix hix).1
    obtain ⟨data, hdata⟩ := Writer.exists_bytes (h ix hix).2
    exact ⟨_, exceptBind_eq_ok_iff.mpr
      ⟨accounts, haccounts, exceptBind_eq_ok_iff.mpr ⟨data, hdata, rfl⟩⟩⟩
  obtain ⟨calls, hcalls⟩ := Writer.exists_list hinstructions hcalls
  obtain ⟨table, htable⟩ := Writer.exists_list hkeys
    (fun (key : Address) _ => (⟨key.bytes, rfl⟩ : ∃ written, Except.ok key.bytes = .ok written))
  exact ⟨_, exceptBind_eq_ok_iff.mpr
    ⟨table, htable, exceptBind_eq_ok_iff.mpr ⟨calls, hcalls, rfl⟩⟩⟩

theorem serialize_of_legacy (h : m.format = .legacy) : m.serialize = m.bodyBytes := by
  unfold serialize
  cases m.bodyBytes with
  | error reason => rfl
  | ok body => rw [h]; rfl

theorem serialize_eq_ok_iff_of_v0 {lookups : List Lookup} (h : m.format = .v0 lookups) :
    m.serialize = .ok bytes ↔
      ∃ body tail, m.bodyBytes = .ok body ∧ Writer.list Writer.lookup lookups = .ok tail ∧
        bytes = versionMark :: body ++ tail := by
  unfold serialize
  rw [exceptBind_eq_ok_iff, h]
  constructor
  · intro hparts
    obtain ⟨body, hbody, hrest⟩ := hparts
    obtain ⟨tail, htail, hrest⟩ := exceptBind_eq_ok_iff.mp hrest
    exact ⟨body, tail, hbody, htail, (exceptPure_eq_ok_iff.mp hrest).symm⟩
  · intro hparts
    obtain ⟨body, tail, hbody, htail, rfl⟩ := hparts
    exact ⟨body, hbody, exceptBind_eq_ok_iff.mpr ⟨tail, htail, rfl⟩⟩

/-- The byte by which a reader tells the format of a message. -/
def firstByte (m : Message) : UInt8 :=
  if m.isV0 then versionMark else m.header.required

theorem exists_tail_of_serialize (h : m.serialize = .ok bytes) :
    ∃ tail, bytes = m.firstByte :: tail := by
  cases hformat : m.format with
  | legacy =>
    rw [serialize_of_legacy hformat] at h
    obtain ⟨-, tail, rfl⟩ := exists_tail_of_bodyBytes h
    simp [firstByte, isV0, hformat]
  | v0 lookups =>
    obtain ⟨body, tail, -, -, rfl⟩ := (serialize_eq_ok_iff_of_v0 hformat).mp h
    simp [firstByte, isV0, hformat]

/-- The number of signers of a legacy message does not look like a version. -/
def HasClearFormat (m : Message) : Prop := m.isV0 = true ∨ m.header.signerCount < 128

instance (m : Message) : Decidable m.HasClearFormat :=
  inferInstanceAs (Decidable (_ ∨ _))

/-- With a clear format the first byte lies below the mark for legacy messages
and is the mark for all others. -/
theorem hasClearFormat_iff :
    m.HasClearFormat ↔ (m.format = .legacy ∧ m.firstByte < versionMark) ∨
      (m.isV0 = true ∧ m.firstByte = versionMark) := by
  unfold HasClearFormat firstByte
  cases hformat : m.format with
  | legacy =>
    simp only [isV0, hformat, UInt8.lt_iff_toNat_lt, Header.signerCount]
    simp [versionMark]
  | v0 lookups => simp [isV0, hformat]

end Message

/-! ## The reader of messages -/

namespace Reader

variable {input rest : List UInt8} {m : Message}

/-- A first byte without the mark of a version starts a legacy message. -/
theorem run_message_of_lt {first : UInt8} (hfirst : first < Message.versionMark)
    (input : List UInt8) :
    message.run (first :: input) = (body >>= wellFormed).run (first :: input) :=
  if_pos hfirst

/-- The mark of version 0 is followed by the body and the lookups. -/
theorem run_message_versionMark (input : List UInt8) :
    message.run (Message.versionMark :: input) =
      (do
        let m ← body
        let lookups ← list lookup
        wellFormed { m with format := .v0 lookups } : Reader Message).run input := rfl

/-- The mark of any other version starts nothing that can be read. -/
theorem run_message_of_ne {first : UInt8} (hlegacy : ¬ first < Message.versionMark)
    (hversion : first ≠ Message.versionMark) (input : List UInt8) :
    message.run (first :: input) = .error (.version (first.toNat - 128)) :=
  (if_neg hlegacy).trans (if_pos hversion)

theorem run_legacy_eq_ok_iff :
    (body >>= wellFormed).run input = .ok (m, rest) ↔
      m.WellFormed ∧ m.format = .legacy ∧
        ∃ bytes, m.serialize = .ok bytes ∧ input = bytes ++ rest := by
  rw [run_bind_eq_ok_iff]
  constructor
  · intro hparts
    obtain ⟨m', mid, hbody, hwell⟩ := hparts
    obtain ⟨hm, rfl, rfl⟩ := run_wellFormed_eq_ok_iff.mp hwell
    obtain ⟨hformat, hbytes⟩ := run_body_eq_ok_iff.mp hbody
    rw [Message.serialize_of_legacy hformat]
    exact ⟨hm, hformat, hbytes⟩
  · intro hparts
    obtain ⟨hwell, hformat, hbytes⟩ := hparts
    rw [Message.serialize_of_legacy hformat] at hbytes
    exact ⟨m, rest, run_body_eq_ok_iff.mpr ⟨hformat, hbytes⟩,
      run_wellFormed_eq_ok_iff.mpr ⟨hwell, rfl, rfl⟩⟩

theorem run_versioned_eq_ok_iff :
    message.run (Message.versionMark :: input) = .ok (m, rest) ↔
      m.WellFormed ∧ m.isV0 = true ∧
        ∃ bytes, m.serialize = .ok bytes ∧ Message.versionMark :: input = bytes ++ rest := by
  rw [run_message_versionMark]
  constructor
  · intro h
    obtain ⟨m', mid, hbody, h⟩ := run_bind_eq_ok_iff.mp h
    obtain ⟨lookups, mid', hlookups, h⟩ := run_bind_eq_ok_iff.mp h
    obtain ⟨hwell, rfl, rfl⟩ := run_wellFormed_eq_ok_iff.mp h
    obtain ⟨-, written, hwritten, rfl⟩ := run_body_eq_ok_iff.mp hbody
    obtain ⟨tail, htail, rfl⟩ := (lookup_reads.list _ _ _).mp hlookups
    refine ⟨hwell, rfl, Message.versionMark :: written ++ tail, ?_, by simp⟩
    exact (Message.serialize_eq_ok_iff_of_v0 rfl).mpr ⟨written, tail, hwritten, htail, rfl⟩
  · intro hparts
    obtain ⟨hwell, hv0, bytes, hbytes, hinput⟩ := hparts
    cases hformat : m.format with
    | legacy => simp [Message.isV0, hformat] at hv0
    | v0 lookups =>
      obtain ⟨written, tail, hwritten, htail, rfl⟩ :=
        (Message.serialize_eq_ok_iff_of_v0 hformat).mp hbytes
      obtain rfl : input = written ++ (tail ++ rest) := by simpa using hinput
      -- the reader assembles the message without its lookups first
      refine run_bind_eq_ok_iff.mpr ⟨{ m with format := .legacy }, tail ++ rest, ?_, ?_⟩
      · exact run_body_eq_ok_iff.mpr ⟨rfl, written, hwritten, rfl⟩
      refine run_bind_eq_ok_iff.mpr ⟨lookups, rest, ?_, ?_⟩
      · exact (lookup_reads.list _ _ _).mpr ⟨tail, htail, rfl⟩
      · refine run_wellFormed_eq_ok_iff.mpr ⟨?_, ?_, rfl⟩ <;> rw [← hformat]
        exact hwell

/-- **Messages on the wire.**  A message is taken off the front of the input
exactly if it is well formed, its format is clear from its first byte, and the
input starts with what is written for it. -/
theorem run_message_eq_ok_iff :
    message.run input = .ok (m, rest) ↔
      m.WellFormed ∧ m.HasClearFormat ∧
        ∃ bytes, m.serialize = .ok bytes ∧ input = bytes ++ rest := by
  -- either side fixes the first byte, which decides the branch of the reader
  cases input with
  | nil =>
    constructor
    · intro h
      cases h
    · intro hparts
      obtain ⟨-, -, bytes, hbytes, hinput⟩ := hparts
      obtain ⟨tail, rfl⟩ := Message.exists_tail_of_serialize hbytes
      simp at hinput
  | cons first input =>
    have hfirst : ∀ {bytes}, m.serialize = .ok bytes → first :: input = bytes ++ rest →
        first = m.firstByte := by
      intro bytes hbytes hinput
      obtain ⟨tail, rfl⟩ := Message.exists_tail_of_serialize hbytes
      exact (List.cons.inj hinput).1
    rw [Message.hasClearFormat_iff]
    by_cases hlegacy : first < Message.versionMark
    · rw [run_message_of_lt hlegacy, run_legacy_eq_ok_iff]
      constructor
      · intro hparts
        obtain ⟨hm, hformat, bytes, hbytes, hinput⟩ := hparts
        have := hfirst hbytes hinput
        exact ⟨hm, .inl ⟨hformat, this ▸ hlegacy⟩, bytes, hbytes, hinput⟩
      · intro hparts
        obtain ⟨hm, hclear, bytes, hbytes, hinput⟩ := hparts
        rcases hclear with ⟨hformat, -⟩ | ⟨-, hmark⟩
        · exact ⟨hm, hformat, bytes, hbytes, hinput⟩
        · rw [hfirst hbytes hinput, hmark] at hlegacy
          exact absurd hlegacy (by decide)
    by_cases hversion : first = Message.versionMark
    · subst hversion
      rw [run_versioned_eq_ok_iff]
      constructor
      · intro hparts
        obtain ⟨hm, hv0, bytes, hbytes, hinput⟩ := hparts
        exact ⟨hm, .inr ⟨hv0, (hfirst hbytes hinput).symm⟩, bytes, hbytes, hinput⟩
      · intro hparts
        obtain ⟨hm, hclear, bytes, hbytes, hinput⟩ := hparts
        rcases hclear with ⟨-, hlt⟩ | ⟨hv0, -⟩
        · exact absurd (hfirst hbytes hinput ▸ hlt) hlegacy
        · exact ⟨hm, hv0, bytes, hbytes, hinput⟩
    · constructor
      · intro h
        rw [run_message_of_ne hlegacy hversion] at h
        cases h
      · intro hparts
        obtain ⟨-, hclear, bytes, hbytes, hinput⟩ := hparts
        rcases hclear with ⟨-, hlt⟩ | ⟨-, hmark⟩
        · exact absurd (hfirst hbytes hinput ▸ hlt) hlegacy
        · exact absurd ((hfirst hbytes hinput).trans hmark) hversion

end Reader

namespace Message

theorem deserialize_eq_ok_iff_run {bytes : List UInt8} {m : Message} :
    deserialize bytes = .ok m ↔ Reader.message.run bytes = .ok (m, []) := by
  rw [← Reader.runAll_eq_ok_iff .message, deserialize]
  cases Reader.runAll Reader.message .message bytes with
  | ok result => simp
  | error fault => simp

/-- **Reading undoes writing.**  The accepted bytes are those that are written
for a well-formed message with a clear format, so a message has one form. -/
theorem deserialize_eq_ok_iff_serialize {bytes : List UInt8} {m : Message} :
    deserialize bytes = .ok m ↔
      m.WellFormed ∧ m.HasClearFormat ∧ m.serialize = .ok bytes := by
  rw [deserialize_eq_ok_iff_run, Reader.run_message_eq_ok_iff]
  constructor
  · intro hparts
    obtain ⟨hm, hclear, written, hwritten, rfl⟩ := hparts
    rw [List.append_nil]
    exact ⟨hm, hclear, hwritten⟩
  · intro hparts
    obtain ⟨hm, hclear, hbytes⟩ := hparts
    exact ⟨hm, hclear, bytes, hbytes, (List.append_nil bytes).symm⟩

/-- **The only form of a message.**  Bytes are accepted as a message exactly if
the message is well formed, has version 0 or fewer than 128 signers, and is
written as these bytes; no other bytes are accepted as it. -/
theorem deserialize_canonical (bytes : List UInt8) (m : Message) :
    (deserialize bytes = .ok m ↔
      m.WellFormed ∧ (m.isV0 = true ∨ m.header.signerCount < 128) ∧ m.serialize = .ok bytes) ∧
    (deserialize bytes = .ok m → ∀ other, deserialize other = .ok m → other = bytes) := by
  refine ⟨deserialize_eq_ok_iff_serialize, ?_⟩
  intro hbytes other hother
  have hwritten : m.serialize = .ok bytes := (deserialize_eq_ok_iff_serialize.mp hbytes).2.2
  have hwritten' : m.serialize = .ok other := (deserialize_eq_ok_iff_serialize.mp hother).2.2
  exact Except.ok.inj (hwritten'.symm.trans hwritten)

end Message

end SolanaWallet
