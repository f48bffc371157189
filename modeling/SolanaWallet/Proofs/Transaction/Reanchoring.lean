import SolanaWallet.EncodedTransaction
import SolanaWallet.Proofs.Request.Coverage
import SolanaWallet.Proofs.Transaction.Filling
import SolanaWallet.Proofs.Transaction.Settings

/-!
# No signature survives another blockhash

A transaction in a text is moved to another blockhash and signed again, with
any keys.  What comes out are the texts of a transaction with the old message
at the new moment, in which nobody but the given keys has signed
(`Transaction.Reanchored`).

Moving empties all slots, so the signing that follows starts from the unsigned
transaction of the new message (`withBlockhash_eq_ofMessage`) and never sees a
signature that the text held.  That makes the result, be it texts or a failure,
a function of the message in the text alone (`signWith_eq`); two texts that
differ in their signatures cannot be told apart by it.
-/

namespace SolanaWallet

variable {suite : CryptoSuite}

/-! ## The message at another moment -/

namespace Message

variable {m : Message}

/-- The message with its blockhash replaced. -/
def withBlockhash (m : Message) (blockhash : Blockhash) : Message := { m with blockhash }

/-- Whether a message can be written does not depend on its blockhash. -/
theorem exists_serialize_of_blockhash {bytes : List UInt8} (h : m.serialize = .ok bytes)
    (blockhash : Blockhash) : ∃ written, (m.withBlockhash blockhash).serialize = .ok written := by
  have hbody : ∀ {body}, m.bodyBytes = .ok body →
      ∃ written, (m.withBlockhash blockhash).bodyBytes = .ok written := by
    intro body hbody
    obtain ⟨table, htable, hrest⟩ := exceptBind_eq_ok_iff.mp hbody
    obtain ⟨calls, hcalls, -⟩ := exceptBind_eq_ok_iff.mp hrest
    exact ⟨_, exceptBind_eq_ok_iff.mpr
      ⟨table, htable, exceptBind_eq_ok_iff.mpr ⟨calls, hcalls, rfl⟩⟩⟩
  cases hformat : m.format with
  | legacy =>
    rw [serialize_of_legacy hformat] at h
    have hformat' : (m.withBlockhash blockhash).format = .legacy := hformat
    rw [serialize_of_legacy hformat']
    exact hbody h
  | v0 lookups =>
    obtain ⟨body, tail, hold, htail, -⟩ := (serialize_eq_ok_iff_of_v0 hformat).mp h
    have hformat' : (m.withBlockhash blockhash).format = .v0 lookups := hformat
    obtain ⟨written, hwritten⟩ := hbody hold
    exact ⟨_, (serialize_eq_ok_iff_of_v0 hformat').mpr ⟨written, tail, hwritten, htail, rfl⟩⟩

end Message

/-! ## Signing from empty slots -/

namespace Transaction

/-- `after` has the message of `before` at the given moment, and nobody but the
given keys has signed it. -/
structure Reanchored (suite : CryptoSuite) (keys : List Keypair) (moment : Blockhash)
    (before after : Transaction) : Prop where
  message_eq : after.message = before.message.withBlockhash moment
  length_eq : after.signatures.length = before.signatures.length
  /-- A slot is only filled for a key whose address first occurs there. -/
  filled : ∀ (slot : Nat) (signature : Signature), after.signatures[slot]? = some signature →
    signature ≠ .placeholder →
    ∃ key ∈ keys, before.message.keys.idxOf? (key.address suite) = some slot
  /-- What fills a slot is a signature of the new message by the owner of the slot. -/
  verifies : ∀ (slot : Nat) (signature : Signature), after.signatures[slot]? = some signature →
    signature ≠ .placeholder →
    ∃ a, after.message.keys[slot]? = some a ∧ after.message.SignedBy suite a signature

variable {m : Message} {keys : List Keypair} {tx after : Transaction} {moment : Blockhash}

theorem hasSlot_ofMessage_iff {a : Address} : (ofMessage m).HasSlot a ↔ a ∈ m.signerKeys :=
  hasSlot_iff.trans (exists_slotOf_iff (length_signatures_ofMessage m))

/-- Keys can sign a message in empty slots exactly if all of them are signers. -/
theorem exists_sign_ofMessage_iff {bytes : List UInt8} (hbytes : m.serialize = .ok bytes) :
    (∃ after, (Signing.sign suite keys).apply (ofMessage m) = .ok after) ↔
      ∀ key ∈ keys, key.address suite ∈ m.signerKeys := by
  have hwritten : (ofMessage m).messageBytes = .ok bytes := hbytes
  simp only [Signing.apply_eq_ok_iff, Signing.sign_eq_ok_iff hwritten, exists_and_left,
    hasSlot_ofMessage_iff]
  exact and_iff_left ⟨_, signedWith_foldl_put bytes keys (ofMessage m)⟩

/-- In empty slots, every signature is that of the last key with the place. -/
theorem exists_key_of_filled {bytes : List UInt8} (hbytes : m.serialize = .ok bytes)
    (hsign : (Signing.sign suite keys).apply (ofMessage m) = .ok after) {slot : Nat}
    {signature : Signature} (hheld : after.signatures[slot]? = some signature)
    (hfilled : signature ≠ .placeholder) :
    ∃ key ∈ keys, m.keys.idxOf? (key.address suite) = some slot ∧
      signature = key.sign suite bytes := by
  have hwritten : (ofMessage m).messageBytes = .ok bytes := hbytes
  obtain ⟨hslots, hsigned⟩ :=
    (Signing.sign_eq_ok_iff hwritten).mp (Signing.apply_eq_ok_iff.mp hsign)
  have hlt : slot < (ofMessage m).signatures.length := by
    rw [← hsigned.length_eq]
    exact (List.getElem?_eq_some_iff.mp hheld).1
  have hempty : (ofMessage m).signatures[slot]? = some .placeholder :=
    List.getElem?_replicate_of_lt (length_signatures_ofMessage m ▸ hlt)
  rw [hsigned.getElem?_signatures slot hlt, slotted_eq_self hslots, hempty] at hheld
  cases hlast : (ofMessage m).message.lastKeyAt? suite keys slot with
  | none =>
    rw [hlast] at hheld
    exact absurd (Option.some.inj hheld).symm hfilled
  | some key =>
    rw [hlast] at hheld
    obtain ⟨hkey, hplace⟩ := Message.of_lastKeyAt? hlast
    exact ⟨key, hkey, hplace, (Option.some.inj hheld).symm⟩

theorem reanchored_of_sign (hsuite : suite.SignsVerifiably)
    (hslots : tx.signatures.length = tx.message.header.signerCount) {bytes : List UInt8}
    (hbytes : (tx.message.withBlockhash moment).serialize = .ok bytes)
    (hsign : (Signing.sign suite keys).apply (ofMessage (tx.message.withBlockhash moment)) =
      .ok after) :
    Reanchored suite keys moment tx after := by
  have hmessage : after.message = tx.message.withBlockhash moment := Signing.message_of_sign hsign
  have hwritten : (ofMessage (tx.message.withBlockhash moment)).messageBytes = .ok bytes := hbytes
  have hsigned := ((Signing.sign_eq_ok_iff hwritten).mp (Signing.apply_eq_ok_iff.mp hsign)).2
  refine ⟨hmessage, ?_, ?_, ?_⟩
  · calc after.signatures.length
        = (ofMessage (tx.message.withBlockhash moment)).signatures.length := hsigned.length_eq
      _ = tx.message.header.signerCount := length_signatures_ofMessage _
      _ = tx.signatures.length := hslots.symm
  · intro slot signature hheld hfilled
    obtain ⟨key, hkey, hplace, -⟩ := exists_key_of_filled hbytes hsign hheld hfilled
    exact ⟨key, hkey, hplace⟩
  · intro slot signature hheld hfilled
    obtain ⟨key, -, hplace, rfl⟩ := exists_key_of_filled hbytes hsign hheld hfilled
    rw [hmessage]
    exact ⟨key.address suite, getElem?_of_idxOf? hplace, key.signedBy_sign hsuite hbytes⟩

theorem Reanchored.isReadable (h : Reanchored suite keys moment tx after)
    (htx : tx.IsReadable) : after.IsReadable := by
  refine ⟨?_, ?_, ?_⟩
  · rw [h.message_eq]
    exact htx.wellFormed
  · rw [h.message_eq]
    exact htx.hasClearFormat
  · rw [h.length_eq, h.message_eq]
    exact htx.length_signatures

/-! ## Texts -/

/-- A transaction that can be read has few enough slots to be put out. -/
theorem IsReadable.exists_output (htx : tx.IsReadable) {bytes : List UInt8}
    (hbytes : tx.messageBytes = .ok bytes) (encoding : Encoding) :
    ∃ output, tx.output encoding = .ok output := by
  refine Transaction.exists_output ?_ hbytes encoding
  rw [htx.length_signatures]
  exact tx.message.header.required.toNat_lt

end Transaction

namespace EncodedTransaction

open Transaction

variable {text hash : String} {tx : Transaction} {moment : Blockhash} {output : SignedOutput}
  {keys : List Keypair}

/-- The text of a transaction that can be read is read back. -/
theorem decode_of_output (htx : tx.IsReadable) (h : tx.output .base64 = .ok output) :
    decode output.transaction = .ok tx := by
  obtain ⟨wire, bytes, hwire, -, rfl⟩ := output_eq_ok_iff.mp h
  refine decode_eq_ok_iff.mpr ⟨htx, ?_⟩
  rw [toBase64, hwire]
  rfl

/-- The message of a text can be written at any moment. -/
theorem exists_serialize_of_decode (htx : decode text = .ok tx) (moment : Blockhash) :
    ∃ bytes, (tx.message.withBlockhash moment).serialize = .ok bytes := by
  obtain ⟨wire, hwire, -⟩ := exceptBind_eq_ok_iff.mp (decode_eq_ok_iff.mp htx).2
  obtain ⟨-, written, -, hwritten, -⟩ := serialize_eq_ok_iff.mp hwire
  exact Message.exists_serialize_of_blockhash hwritten moment

/-- The result depends on the text through its message alone. -/
theorem signWith_eq (htx : decode text = .ok tx) (hmoment : Blockhash.ofText hash = .ok moment)
    (keys : List Keypair) :
    signWith suite text hash keys = (do
      let after ← Attempt.plain ((Signing.sign suite keys).apply
        (ofMessage (tx.message.withBlockhash moment)))
      Attempt.plain (after.output .base64)) := by
  have hslots := (decode_eq_ok_iff.mp htx).1.length_signatures
  have hanchor : Attempt.inField "recentBlockhash" (Blockhash.ofText hash) = .ok moment :=
    Attempt.inField_eq_ok_iff.mpr hmoment
  have hempty : (Signing.signAt suite keys moment).apply tx =
      (Signing.sign suite keys).apply (ofMessage (tx.message.withBlockhash moment)) := by
    rw [Message.withBlockhash, ← withBlockhash_eq_ofMessage hslots]
    rfl
  rw [signWith, htx, exceptOk_bind, hanchor, exceptOk_bind, hempty]

theorem signWith_eq_ok_iff (htx : decode text = .ok tx)
    (hmoment : Blockhash.ofText hash = .ok moment) :
    signWith suite text hash keys = .ok output ↔
      ∃ after, (Signing.sign suite keys).apply (ofMessage (tx.message.withBlockhash moment)) =
        .ok after ∧ after.output .base64 = .ok output := by
  rw [signWith_eq htx hmoment]
  simp only [exceptBind_eq_ok_iff, Attempt.plain_eq_ok_iff]

/-- Nothing but a key that is no signer can go wrong. -/
theorem exists_signWith_iff (hsuite : suite.SignsVerifiably) (htx : decode text = .ok tx)
    (hmoment : Blockhash.ofText hash = .ok moment) :
    (∃ output, signWith suite text hash keys = .ok output) ↔
      ∀ key ∈ keys, key.address suite ∈ tx.message.signerKeys := by
  have hreadable : tx.IsReadable := (decode_eq_ok_iff.mp htx).1
  obtain ⟨bytes, hbytes⟩ := exists_serialize_of_decode htx moment
  change _ ↔ ∀ key ∈ keys, key.address suite ∈ (tx.message.withBlockhash moment).signerKeys
  rw [← exists_sign_ofMessage_iff hbytes]
  simp only [signWith_eq_ok_iff htx hmoment]
  constructor
  · rintro ⟨output, after, hsign, -⟩
    exact ⟨after, hsign⟩
  · rintro ⟨after, hsign⟩
    have hafter : Reanchored suite keys moment tx after :=
      reanchored_of_sign hsuite hreadable.length_signatures hbytes hsign
    have hwritten : after.messageBytes = .ok bytes := by
      rw [messageBytes, hafter.message_eq, hbytes]
    obtain ⟨output, houtput⟩ := (hafter.isReadable hreadable).exists_output hwritten .base64
    exact ⟨output, after, hsign, houtput⟩

/-- **No signature survives another blockhash.**  Take a text of a transaction, a
text of a blockhash and any keys.  There is a result exactly if every key
belongs to a signer.  It is read back as the transaction at the new moment, in
which a slot is filled only for a given key whose address first occurs there, and
with a signature of the new message by the owner of the slot.  And any text with
the same message has the same result or the same failure, whatever signatures
it holds. -/
theorem reanchored_of_signWith (hsuite : suite.SignsVerifiably) (htx : decode text = .ok tx)
    (hmoment : Blockhash.ofText hash = .ok moment) (keys : List Keypair) :
    ((∃ output, signWith suite text hash keys = .ok output) ↔
      ∀ key ∈ keys, key.address suite ∈ tx.message.signerKeys) ∧
    (∀ output, signWith suite text hash keys = .ok output →
      ∃ after, decode output.transaction = .ok after ∧ Reanchored suite keys moment tx after) ∧
    (∀ other tx', decode other = .ok tx' → tx'.message = tx.message →
      signWith suite other hash keys = signWith suite text hash keys) := by
  refine ⟨exists_signWith_iff hsuite htx hmoment, ?_, ?_⟩
  · intro output h
    have hreadable : tx.IsReadable := (decode_eq_ok_iff.mp htx).1
    obtain ⟨bytes, hbytes⟩ := exists_serialize_of_decode htx moment
    obtain ⟨after, hsign, houtput⟩ := (signWith_eq_ok_iff htx hmoment).mp h
    have hafter : Reanchored suite keys moment tx after :=
      reanchored_of_sign hsuite hreadable.length_signatures hbytes hsign
    exact ⟨after, decode_of_output (hafter.isReadable hreadable) houtput, hafter⟩
  · intro other tx' htx' hmessage
    rw [signWith_eq htx' hmoment, signWith_eq htx hmoment, hmessage]

/-- What can be read and written has a text. -/
theorem exists_text (htx : tx.IsReadable) {bytes : List UInt8}
    (hbytes : tx.messageBytes = .ok bytes) : ∃ text, decode text = .ok tx := by
  obtain ⟨output, houtput⟩ := htx.exists_output hbytes .base64
  exact ⟨output.transaction, decode_of_output htx houtput⟩

/-- The completed suite has the same keys. -/
theorem address_lawful (suite : CryptoSuite) (key : Keypair) :
    key.address suite.lawful = key.address suite := rfl

/-- Someone else's signature in the slot of the first of two signers. -/
def sampleForged : Transaction := Signing.samplePair.fill 0 ⟨Block.fit 64 [1]⟩

/-- The second of two signers moves the transaction; the signature in the slot of
the first makes no difference. -/
theorem reanchored_samplePair :
    ∃ text forged hash output after,
      decode text = .ok Signing.samplePair ∧ decode forged = .ok sampleForged ∧
      signWith CryptoSuite.ledger.lawful text hash [Signing.sampleSecond] = .ok output ∧
      decode output.transaction = .ok after ∧
      Reanchored CryptoSuite.ledger.lawful [Signing.sampleSecond] ⟨Block.fit 32 [8]⟩
        Signing.samplePair after ∧
      signWith CryptoSuite.ledger.lawful forged hash [Signing.sampleSecond] = .ok output := by
  have hbytes : Signing.samplePair.messageBytes = .ok _ := rfl
  obtain ⟨text, htext⟩ : ∃ text, decode text = .ok Signing.samplePair :=
    exists_text ⟨by decide, by decide, rfl⟩ hbytes
  obtain ⟨forged, hforged⟩ : ∃ forged, decode forged = .ok sampleForged :=
    exists_text ⟨by decide, by decide, rfl⟩ hbytes
  have hmoment : Blockhash.ofText (Blockhash.text ⟨Block.fit 32 [8]⟩) =
      .ok ⟨Block.fit 32 [8]⟩ := by
    decide +kernel
  obtain ⟨hsucceeds, hresult, hsame⟩ := reanchored_of_signWith
    CryptoSuite.ledger.signsVerifiably_lawful htext hmoment [Signing.sampleSecond]
  have hsigner : ∀ key ∈ [Signing.sampleSecond],
      key.address CryptoSuite.ledger.lawful ∈ Signing.samplePair.message.signerKeys := by
    rw [List.forall_mem_singleton, address_lawful]
    exact .tail _ (.head _)
  obtain ⟨output, houtput⟩ := hsucceeds.mpr hsigner
  obtain ⟨after, hafter, hreanchored⟩ := hresult output houtput
  exact ⟨text, forged, _, output, after, htext, hforged, houtput, hafter, hreanchored,
    (hsame forged _ hforged rfl).trans houtput⟩

end EncodedTransaction

end SolanaWallet
