import SolanaWallet.Proofs.Transaction.Filling
import SolanaWallet.Proofs.Transaction.Wire

/-!
# Two ways to the same signed bytes

A message can be signed as the bytes it is written as: the signatures stand in
front of them in the order of the keys, and nobody looks at the message.  Or it
is put into a transaction, where each key looks its slot up in the key table,
and the transaction is written.

If the keys are the signers of the message in their order, then the signatures
of the first way are the slots of the second (`signedInOrder`): position and slot
agree because no address occurs twice, whatever else the key table holds.  The
bytes agree because both ways write a list of blocks behind its length
(`Writer.list_map`).
-/

namespace SolanaWallet

namespace Message

/-- The message with the signatures of these keys, in their order. -/
def signedInOrder (suite : CryptoSuite) (keys : List Keypair) (bytes : List UInt8) (m : Message) :
    Transaction :=
  { signatures := keys.map (·.sign suite bytes), message := m }

end Message

namespace Signing

open Transaction

variable {suite : CryptoSuite} {m : Message} {keys : List Keypair} {bytes : List UInt8}

section Signers

variable (hfits : m.header.Fits m.keys.length)
  (hkeys : keys.map (·.address suite) = m.signerKeys)

include hkeys

/-- The keys make what the slots hold. -/
theorem made_eq_signerSignatures (bytes : List UInt8) :
    made suite bytes keys = (m.signedInOrder suite keys bytes).signerSignatures := by
  rw [signerSignatures, Message.signedInOrder, ← hkeys, List.zip_map', made]

include hfits

theorem length_signatures_signedInOrder (bytes : List UInt8) :
    (m.signedInOrder suite keys bytes).signatures.length = m.header.signerCount :=
  calc (m.signedInOrder suite keys bytes).signatures.length
      = (keys.map (·.address suite)).length := by simp [Message.signedInOrder]
    _ = m.signerKeys.length := by rw [hkeys]
    _ = m.header.signerCount := Message.length_signerKeys hfits

/-- Each key finds the slot at its own position. -/
theorem sign_ofMessage_eq_signedInOrder (hdistinct : m.signerKeys.Nodup)
    (hbytes : m.serialize = .ok bytes) :
    (sign suite keys).apply (ofMessage m) = .ok (m.signedInOrder suite keys bytes) := by
  have hslots : ∀ key ∈ keys, ∃ slot, (ofMessage m).slotOf (key.address suite) = .ok slot := by
    intro key hkey
    have hsigner : key.address suite ∈ m.signerKeys := hkeys ▸ List.mem_map_of_mem hkey
    exact (exists_slotOf_iff (length_signatures_ofMessage m)).mpr hsigner
  have hfilled : (m.signedInOrder suite keys bytes).signerSignatures.foldl put (ofMessage m) =
      m.signedInOrder suite keys bytes :=
    foldl_put_eq_of_perm hfits (length_signatures_signedInOrder hfits hkeys bytes) hdistinct
      (List.Perm.refl _)
  refine sign_apply_eq_ok_iff.mpr ⟨bytes, hbytes, fillSlots_eq_ok_iff.mpr ⟨hslots, ?_⟩⟩
  rw [made_eq_signerSignatures hkeys, hfilled]

end Signers

/-- What is signed as bytes is what is written for the signed transaction. -/
theorem signRaw_eq_ok_iff_serialize (hbytes : m.serialize = .ok bytes) {wire : List UInt8} :
    signRaw suite keys bytes = .ok wire ↔
      (m.signedInOrder suite keys bytes).serialize = .ok wire := by
  rw [serialize_eq_ok_iff, Message.signedInOrder, Writer.list_map, signRaw, exceptBind_eq_ok_iff]
  constructor
  · rintro ⟨slots, hslots, h⟩
    exact ⟨slots, bytes, hslots, hbytes, (exceptPure_eq_ok_iff.mp h).symm⟩
  · rintro ⟨slots, written, hslots, hwritten, rfl⟩
    obtain rfl : bytes = written := Except.ok.inj (hbytes.symm.trans hwritten)
    exact ⟨slots, hslots, rfl⟩

theorem exists_signRaw (hshort : keys.length ≤ ShortVec.maxLength) (bytes : List UInt8) :
    ∃ wire, signRaw suite keys bytes = .ok wire := by
  obtain ⟨slots, hslots⟩ := Writer.exists_list hshort
    fun (key : Keypair) _ => ⟨(key.sign suite bytes).bytes, rfl⟩
  exact ⟨slots ++ bytes, exceptBind_eq_ok_iff.mpr ⟨slots, hslots, rfl⟩⟩

/-- **Two ways to the same bytes.**  Let the keys be the signers of a
well-formed message in their order, no two of them the same.  Signing what the
message is written as gives the bytes of the transaction that the keys sign slot
by slot, and neither way fails.  These bytes are read back as that transaction
exactly if the format of the message is clear from them. -/
theorem signRaw_eq_serialize_sign (hm : m.WellFormed) (hbytes : m.serialize = .ok bytes)
    (hkeys : keys.map (·.address suite) = m.signerKeys) (hdistinct : m.signerKeys.Nodup) :
    ∃ tx wire, (sign suite keys).apply (ofMessage m) = .ok tx ∧ tx.serialize = .ok wire ∧
      signRaw suite keys bytes = .ok wire ∧
      (ofBytes wire = .ok tx ↔ m.isV0 = true ∨ m.header.signerCount < 128) := by
  have hlength : keys.length = m.header.signerCount := by
    simpa [Message.signedInOrder] using length_signatures_signedInOrder hm.1 hkeys bytes
  have hshort : keys.length ≤ ShortVec.maxLength := by
    rw [hlength]
    exact Nat.le_trans (Nat.le_of_lt m.header.required.toNat_lt) (by decide)
  obtain ⟨wire, hwire⟩ : ∃ wire, signRaw suite keys bytes = .ok wire := exists_signRaw hshort bytes
  have hwritten : (m.signedInOrder suite keys bytes).serialize = .ok wire :=
    (signRaw_eq_ok_iff_serialize hbytes).mp hwire
  have hsign : (sign suite keys).apply (ofMessage m) = .ok (m.signedInOrder suite keys bytes) :=
    sign_ofMessage_eq_signedInOrder hm.1 hkeys hdistinct hbytes
  refine ⟨m.signedInOrder suite keys bytes, wire, hsign, hwritten, hwire, ?_⟩
  rw [ofBytes_eq_ok_iff]
  constructor
  · rintro ⟨hreadable, -⟩
    exact hreadable.hasClearFormat
  · intro hclear
    exact ⟨⟨hm, hclear, length_signatures_signedInOrder hm.1 hkeys bytes⟩, hwritten⟩

/-- The payer and the second signer of the sample. -/
theorem signRaw_samplePair :
    ∃ bytes tx wire, samplePair.message.serialize = .ok bytes ∧
      (sign .ledger [samplePayer, sampleSecond]).apply samplePair = .ok tx ∧
      tx.serialize = .ok wire ∧ signRaw .ledger [samplePayer, sampleSecond] bytes = .ok wire ∧
      ofBytes wire = .ok tx := by
  obtain ⟨bytes, hbytes⟩ : ∃ bytes, samplePair.message.serialize = .ok bytes := ⟨_, rfl⟩
  have hkeys : [samplePayer, sampleSecond].map (·.address .ledger) =
      samplePair.message.signerKeys := rfl
  have hdistinct : samplePair.message.signerKeys.Nodup := by
    change [samplePayer.address .ledger, sampleSecond.address .ledger].Nodup
    simpa using sampleAddresses_ne.1
  obtain ⟨tx, wire, hsign, hwritten, hwire, hread⟩ :=
    signRaw_eq_serialize_sign (by decide) hbytes hkeys hdistinct
  exact ⟨bytes, tx, wire, hbytes, hsign, hwritten, hwire, hread.mpr (.inr (by decide))⟩

end Signing

end SolanaWallet
