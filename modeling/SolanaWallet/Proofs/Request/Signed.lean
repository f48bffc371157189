import SolanaWallet.Proofs.Request.Raw
import SolanaWallet.Request.Sign

/-!
# What comes out of signing

Signing goes from the transaction to sign to the one with the local signatures,
and on to the one with those made elsewhere.  The message stays the same on the
way and the last transaction is as sound as the first, so if no slot is left
over then every signature verifies.  `Completes` is all that is known about the
transaction that is put out, and what a reader of the output gets follows from
it alone.
-/

namespace SolanaWallet

variable {suite : CryptoSuite}

/-! ## Texts -/

namespace Encoding

variable {encoding : Encoding} {text : String} {bytes : List UInt8}

/-- The bytes that a text stands for. -/
def decode? : Encoding → String → Option (List UInt8)
  | .base58, text => (Base58.decode text).toOption
  | .base64, text => (Base64.decode text).toOption

theorem decode?_eq_some_iff : encoding.decode? text = some bytes ↔ text = encoding.encode bytes := by
  cases encoding with
  | base58 =>
    rw [encode, ← Base58.decode_eq_ok_iff, decode?]
    cases Base58.decode text <;> simp [Except.toOption]
  | base64 =>
    rw [encode, ← Base64.decode_eq_ok_iff, decode?]
    cases Base64.decode text <;> simp [Except.toOption]

end Encoding

/-- A signature and its signer as they are put out. -/
def SignatureEntry.ofPair (pair : Address × Signature) : SignatureEntry :=
  { signer := pair.1.text, signature := pair.2.text }

theorem Transaction.output_eq_ok_iff {encoding : Encoding} {tx : Transaction}
    {output : SignedOutput} :
    tx.output encoding = .ok output ↔
      ∃ wire bytes, tx.serialize = .ok wire ∧ tx.messageBytes = .ok bytes ∧
        output = { transaction := encoding.encode wire, message := encoding.encode bytes,
                   signatures := tx.signerSignatures.map SignatureEntry.ofPair } := by
  unfold Transaction.output
  constructor
  · intro h
    obtain ⟨wire, hwire, h⟩ := exceptBind_eq_ok_iff.mp h
    obtain ⟨bytes, hbytes, h⟩ := exceptBind_eq_ok_iff.mp h
    exact ⟨wire, bytes, hwire, hbytes, (exceptPure_eq_ok_iff.mp h).symm⟩
  · rintro ⟨wire, bytes, hwire, hbytes, rfl⟩
    rw [hwire, hbytes]
    rfl

namespace Request

variable {r : Request} {built tx : Transaction} {output : SignedOutput}

/-! ## The way to the output -/

theorem sign_eq_ok_iff :
    r.sign suite = .ok output ↔
      ∃ keys built signed external tx,
        r.signingKeys suite = .ok keys ∧ r.buildTransaction suite = .ok built ∧
        (Signing.sign suite keys).apply built = .ok signed ∧
        r.externalSignatures.mapM SignatureEntry.read = .ok external ∧
        (Signing.addExternal suite external).apply signed = .ok tx ∧
        (∀ entry ∈ tx.signerSignatures, entry.2.isPlaceholder = false) ∧
        tx.output r.encoding = .ok output := by
  unfold sign
  simp only [exceptBind_eq_ok_iff, Attempt.plain_eq_ok_iff]
  constructor
  · rintro ⟨keys, hkeys, built, hbuilt, signed, hsigned, external, hexternal, tx, htx, h⟩
    split at h
    · cases h
    · rename_i hnone
      have hfilled : ∀ entry ∈ tx.signerSignatures, entry.2.isPlaceholder = false :=
        fun entry hentry => Bool.eq_false_iff.mpr (List.find?_eq_none.mp hnone entry hentry)
      exact ⟨keys, built, signed, external, tx, hkeys, hbuilt, hsigned, hexternal, htx, hfilled,
        Attempt.plain_eq_ok_iff.mp h⟩
  · rintro ⟨keys, built, signed, external, tx, hkeys, hbuilt, hsigned, hexternal, htx, hfilled,
      houtput⟩
    refine ⟨keys, hkeys, built, hbuilt, signed, hsigned, external, hexternal, tx, htx, ?_⟩
    have hnone : tx.signerSignatures.find? (fun entry => entry.2.isPlaceholder) = none := by
      simpa using hfilled
    rw [hnone]
    exact Attempt.plain_eq_ok_iff.mpr houtput

/-- What is put out is the transaction to sign, with signatures put into its
slots. -/
theorem exists_foldl_put_of_sign (h : r.sign suite = .ok output) :
    ∃ (built : Transaction) (entries : List (Address × Signature)),
      r.buildTransaction suite = .ok built ∧
      (entries.foldl Transaction.put built).output r.encoding = .ok output := by
  obtain ⟨keys, built, signed, external, tx, -, hbuilt, hsigned, -, htx, -, houtput⟩ :=
    sign_eq_ok_iff.mp h
  obtain ⟨bytes, -, rfl⟩ := Signing.eq_foldl_put_of_sign hsigned
  obtain rfl := Signing.eq_foldl_put_of_addExternal htx
  refine ⟨built, Signing.made suite bytes keys ++ external, hbuilt, ?_⟩
  rwa [List.foldl_append]

/-- A transaction that can be put out, for the message of another one. -/
structure Completes (suite : CryptoSuite) (built tx : Transaction) : Prop where
  message : tx.message = built.message
  sound : tx.Sound suite
  hasClearFormat : tx.message.HasClearFormat
  filled : ∀ entry ∈ tx.signerSignatures, entry.2.isPlaceholder = false

theorem exists_completes_of_sign (hsuite : suite.SignsVerifiably)
    (h : r.sign suite = .ok output) :
    ∃ built tx, r.buildTransaction suite = .ok built ∧ Completes suite built tx ∧
      tx.output r.encoding = .ok output := by
  obtain ⟨keys, built, signed, external, tx, -, hbuilt, hsigned, -, htx, hfilled, houtput⟩ :=
    sign_eq_ok_iff.mp h
  obtain ⟨hsound, hclear⟩ := buildTransaction_sound hbuilt
  have hmessage : tx.message = built.message :=
    (Signing.message_of_addExternal htx).trans (Signing.message_of_sign hsigned)
  have hsound' : tx.Sound suite :=
    Signing.sound_of_addExternal (Signing.sound_of_sign hsuite hsound hsigned) htx
  exact ⟨built, tx, hbuilt, ⟨hmessage, hsound', hmessage ▸ hclear, hfilled⟩, houtput⟩

/-! ## Reading the output -/

/-- **Nothing is put out that does not verify.**  Whatever a request asks for,
wherever its message and its signatures come from: if it is signed then the
text of the output is that of a transaction, every signature of this
transaction verifies, the other text is the message that was signed, and the
signatures are listed with their signers, slot by slot. -/
theorem readable_of_sign (hsuite : suite.SignsVerifiably) (h : r.sign suite = .ok output) :
    ∃ wire bytes tx,
      r.encoding.decode? output.transaction = some wire ∧ Transaction.ofBytes wire = .ok tx ∧
      tx.verify suite = .ok () ∧
      r.encoding.decode? output.message = some bytes ∧ tx.messageBytes = .ok bytes ∧
      output.signatures.length = tx.message.header.signerCount ∧
      ∀ slot < tx.message.header.signerCount, ∃ address signature,
        tx.message.keys[slot]? = some address ∧ tx.signatures[slot]? = some signature ∧
        output.signatures[slot]? = some { signer := address.text, signature := signature.text } := by
  obtain ⟨built, tx, -, hcompletes, houtput⟩ := exists_completes_of_sign hsuite h
  obtain ⟨wire, bytes, hwire, hbytes, rfl⟩ := Transaction.output_eq_ok_iff.mp houtput
  have hsound := hcompletes.sound
  have hlength : tx.signerSignatures.length = tx.message.header.signerCount :=
    (Transaction.length_signerSignatures hsound.wellFormed.1 hsound.slots).trans hsound.slots
  refine ⟨wire, bytes, tx, Encoding.decode?_eq_some_iff.mpr rfl,
    hsound.ofBytes_eq_ok hcompletes.hasClearFormat hwire,
    hsound.verify_eq_ok hbytes hcompletes.filled, Encoding.decode?_eq_some_iff.mpr rfl, hbytes,
    (List.length_map _).trans hlength, ?_⟩
  intro slot hslot
  have hentry := List.getElem?_eq_getElem (hlength ▸ hslot)
  obtain ⟨hkey, hsignature⟩ := (Transaction.getElem?_signerSignatures hsound.slots).mp hentry
  refine ⟨_, _, hkey, hsignature, ?_⟩
  rw [List.getElem?_map, hentry]
  rfl

/-- A transfer of seven lamports whose fee is paid by someone else. -/
def sampleTransfer : Request where
  privateKey := { bytes := List.replicate 32 1 }
  feePayerPrivateKey := { bytes := List.replicate 32 2 }
  recentBlockhash := Blockhash.text ⟨Block.fit 32 [9]⟩
  encoding := .base64
  kind := some (.transfer { recipient := Address.text ⟨Block.fit 32 [5]⟩, value := 7 })

theorem exists_output_of_sampleTransfer :
    ∃ output, sampleTransfer.sign CryptoSuite.ledger.lawful = .ok output :=
  exists_eq_ok_of_isOk (by decide +kernel)

theorem readable_of_sampleTransfer :
    ∃ output wire tx, sampleTransfer.sign CryptoSuite.ledger.lawful = .ok output ∧
      Encoding.base64.decode? output.transaction = some wire ∧
      Transaction.ofBytes wire = .ok tx ∧ tx.verify CryptoSuite.ledger.lawful = .ok () := by
  obtain ⟨output, houtput⟩ := exists_output_of_sampleTransfer
  obtain ⟨wire, bytes, tx, hwire, htx, hverify, -⟩ :=
    readable_of_sign CryptoSuite.ledger.signsVerifiably_lawful houtput
  exact ⟨output, wire, tx, houtput, hwire, htx, hverify⟩

end Request

end SolanaWallet
