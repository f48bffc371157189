import SolanaWallet.Proofs.Request.Signers
import SolanaWallet.Proofs.Transaction.Verification

/-!
# The transaction to sign

A request is for a message that is built from it, or it brings a transaction
with it, whose signatures may be anything.  The signatures that verify are
counted: if they are all there are then the transaction is taken as it is,
otherwise they are put into the slots of an unsigned one.

Either way the transaction to sign is sound, and its message can be told apart
from those of the other format (`buildTransaction_sound`).  A built message has
three signers at most, and of a given one this is known because it was read.
-/

namespace SolanaWallet.Request

variable {suite : CryptoSuite} {r : Request} {tx given : Transaction} {bytes : List UInt8}
  {raw : String}

/-! ## Counting the signatures that verify -/

theorem isOk_verifySignature_iff {a : Address} {signature : Signature} :
    (verifySignature suite a bytes signature).isOk = true ↔
      verifySignature suite a bytes signature = .ok () := by
  cases verifySignature suite a bytes signature <;> simp [Except.isOk, Except.toBool]

theorem mem_validSignatures_iff {entry : Address × Signature} :
    entry ∈ validSignatures suite given bytes ↔
      entry ∈ given.signerSignatures ∧ entry.2.isPlaceholder = false ∧
        verifySignature suite entry.1 bytes entry.2 = .ok () := by
  rw [validSignatures, List.mem_filter, Bool.and_eq_true, Bool.not_eq_true',
    isOk_verifySignature_iff]

theorem length_validSignatures_eq_iff
    (hfits : given.message.header.Fits given.message.keys.length)
    (hslots : given.signatures.length = given.message.header.signerCount) :
    (validSignatures suite given bytes).length = given.signatures.countP (!·.isPlaceholder) ↔
      ∀ entry ∈ given.signerSignatures,
        entry.2.isPlaceholder = true ∨ verifySignature suite entry.1 bytes entry.2 = .ok () := by
  -- the signatures that verify are found among those that are there, so the two counts
  -- agree only if none of these is left out
  let signed (entry : Address × Signature) : Bool := !entry.2.isPlaceholder
  let verified (entry : Address × Signature) : Bool :=
    (verifySignature suite entry.1 bytes entry.2).isOk
  have hvalid : validSignatures suite given bytes =
      (given.signerSignatures.filter signed).filter verified := by
    rw [List.filter_filter]
    exact List.filter_congr fun entry _ => Bool.and_comm _ _
  have hcount : given.signatures.countP (!·.isPlaceholder) =
      (given.signerSignatures.filter signed).length := by
    rw [← Transaction.map_snd_signerSignatures hfits hslots, List.countP_map,
      List.countP_eq_length_filter]
    rfl
  have hverified : ∀ entry, verified entry = true ↔
      verifySignature suite entry.1 bytes entry.2 = .ok () := fun _ => isOk_verifySignature_iff
  rw [hvalid, hcount, List.length_filter_eq_length_iff, List.forall_mem_filter]
  refine forall₂_congr fun entry _ => ?_
  rw [hverified]
  cases hplaceholder : entry.2.isPlaceholder <;> simp [signed, hplaceholder]

/-! ## Given transactions -/

/-- What becomes of a transaction that is given. -/
theorem rawTransaction_cases (h : r.rawTransaction suite raw = .ok tx) :
    ∃ given, Transaction.ofBase64 raw = .ok given ∧
      ((∃ bytes, given.messageBytes = .ok bytes ∧ tx = given ∧
          (validSignatures suite given bytes).length = given.signatures.countP (!·.isPlaceholder)) ∨
        (∃ bytes, (Signing.addExternal suite (validSignatures suite given bytes)).apply
          (Transaction.ofMessage given.message) = .ok tx) ∨
        ∃ blockhash, tx = given.withBlockhash blockhash) := by
  obtain ⟨given, hgiven, h⟩ := exceptBind_eq_ok_iff.mp h
  refine ⟨given, Attempt.inField_eq_ok_iff.mp hgiven, ?_⟩
  split at h
  · obtain ⟨bytes, hbytes, h⟩ := exceptBind_eq_ok_iff.mp h
    dsimp only at h
    split at h
    · rename_i hall
      obtain rfl := exceptPure_eq_ok_iff.mp h
      exact .inl ⟨bytes, Attempt.plain_eq_ok_iff.mp hbytes, rfl, hall⟩
    · exact .inr (.inl ⟨bytes, Attempt.plain_eq_ok_iff.mp h⟩)
  · obtain ⟨blockhash, -, h⟩ := exceptBind_eq_ok_iff.mp h
    obtain rfl := exceptPure_eq_ok_iff.mp h
    exact .inr (.inr ⟨blockhash, rfl⟩)

theorem rawTransaction_sound (h : r.rawTransaction suite raw = .ok tx) :
    tx.Sound suite ∧ tx.message.HasClearFormat := by
  obtain ⟨given, hgiven, hcases⟩ := rawTransaction_cases h
  obtain ⟨hreadable, -⟩ := Transaction.ofBase64_eq_ok_iff.mp hgiven
  have hm : given.message.WellFormed := hreadable.wellFormed
  have hslots := hreadable.length_signatures
  rcases hcases with ⟨bytes, hbytes, rfl, hall⟩ | ⟨bytes, hadded⟩ | ⟨blockhash, rfl⟩
  · refine ⟨(Transaction.sound_iff hm hslots hbytes).mpr ?_, hreadable.hasClearFormat⟩
    exact (length_validSignatures_eq_iff hm.1 hslots).mp hall
  · refine ⟨Signing.sound_of_addExternal (Transaction.sound_ofMessage hm) hadded, ?_⟩
    rw [Signing.message_of_addExternal hadded]
    exact hreadable.hasClearFormat
  · rw [Transaction.withBlockhash_eq_ofMessage hslots]
    exact ⟨Transaction.sound_ofMessage hm, hreadable.hasClearFormat⟩

/-! ## Either way -/

theorem length_signerKeys_of_build {m : Message} (h : r.build suite = .ok m) :
    m.signerKeys.length ≤ 3 := by
  obtain ⟨kind, payer, signer, nonce, -, -, -, -, hkeys⟩ := signerKeys_eq_of_build h
  have hsubset : m.signerKeys ⊆
      [payer] ++ (if r.IsIdle then [] else [signer]) ++ nonce.toList := by
    intro a ha
    rwa [hkeys, List.mem_eraseDups] at ha
  calc m.signerKeys.length
      ≤ ([payer] ++ (if r.IsIdle then [] else [signer]) ++ nonce.toList).length :=
        ((nodup_signerKeys_of_build h).subperm hsubset).length_le
    _ ≤ 3 := by by_cases hidle : r.IsIdle <;> cases nonce <;> simp [hidle]

theorem buildTransaction_sound (h : r.buildTransaction suite = .ok tx) :
    tx.Sound suite ∧ tx.message.HasClearFormat := by
  unfold buildTransaction at h
  cases hraw : r.rawMessage with
  | some raw =>
    rw [hraw] at h
    exact rawTransaction_sound h
  | none =>
    rw [hraw] at h
    obtain ⟨m, hm, rfl⟩ := exceptMap_eq_ok_iff.mp h
    obtain ⟨instructions, payer, blockhash, -, -, -, hcompile⟩ := build_eq_ok_iff.mp hm
    have hwell : m.WellFormed := Message.wellFormed_of_compile hcompile
    have hfew : m.header.signerCount ≤ 3 := by
      rw [← Message.length_signerKeys hwell.1]
      exact length_signerKeys_of_build hm
    exact ⟨Transaction.sound_ofMessage hwell, .inr (Nat.lt_of_le_of_lt hfew (by decide))⟩

theorem nodup_signerKeys_of_buildTransaction (hraw : r.rawMessage = none)
    (h : r.buildTransaction suite = .ok tx) : tx.message.signerKeys.Nodup := by
  rw [buildTransaction, hraw] at h
  obtain ⟨m, hm, rfl⟩ := exceptMap_eq_ok_iff.mp h
  exact nodup_signerKeys_of_build hm

end SolanaWallet.Request
