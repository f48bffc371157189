import SolanaWallet.Proofs.Request.Agreement
import SolanaWallet.Proofs.Request.WatchOnly
import SolanaWallet.Proofs.Transaction.ZeroSignature

/-!
# When a request can be signed

The signatures of a built message come from two sides: the keys of the request
sign, and other signatures are given with it.  Each of them goes into the slot
of its signer, over whatever is there.  What may go wrong on the way is that a
key or a signature belongs to no signer, or that a signature does not verify
(`Supplies`); and what is left in the end is a slot that nobody has filled.

No signature that verifies is zero.  So a slot of the last transaction is empty
exactly if its signer is covered neither by a key nor by a signature
(`isPlaceholder_iff_of_foldl_put`), however often and in whatever order signers
are covered, and the first empty slot is that of the first signer who is not.
-/

namespace SolanaWallet

variable {suite : CryptoSuite}

/-! ## Empty slots -/

namespace Transaction

variable {tx : Transaction} {m : Message} {entries : List (Address × Signature)}

/-- After signatures were put into an unsigned transaction, the slots of those
signers are empty who made none of them. -/
theorem isPlaceholder_iff_of_foldl_put (hdistinct : m.signerKeys.Nodup)
    (hsigned : ∀ entry ∈ entries, entry.2.isPlaceholder = false) {held : Address × Signature}
    (hheld : held ∈ (entries.foldl put (ofMessage m)).signerSignatures) :
    held.2.isPlaceholder = true ↔ ∀ entry ∈ entries, entry.1 ≠ held.1 := by
  obtain ⟨slot, hslot⟩ := List.mem_iff_getElem?.mp hheld
  obtain ⟨hkey, hsignature⟩ := List.getElem?_zip_eq_some.mp hslot
  have hsigner : m.signerKeys[slot]? = some held.1 := by
    rwa [message_foldl_put] at hkey
  rw [getElem?_foldl_put_ofMessage hsigner,
    if_pos (idxOf?_of_getElem?_signerKeys hdistinct hsigner), Option.some_inj] at hsignature
  rw [← hsignature, ← lastSignature?_eq_none_iff]
  cases hlast : lastSignature? entries held.1 with
  | none => exact iff_of_true rfl rfl
  | some signature =>
    have hfilled : signature.isPlaceholder = false := hsigned _ (mem_of_lastSignature? hlast)
    simp [hfilled]

/-! Which slots are empty is known from the signers. -/

section Covered

variable {Covered : Address → Prop}
  (hslots : tx.signatures.length = tx.message.header.signerCount)
  (hempty : ∀ held ∈ tx.signerSignatures, held.2.isPlaceholder = true ↔ ¬ Covered held.1)

include hslots hempty

theorem forall_filled_iff :
    (∀ held ∈ tx.signerSignatures, held.2.isPlaceholder = false) ↔
      ∀ a ∈ tx.message.signerKeys, Covered a := by
  rw [← map_fst_signerSignatures hslots, List.forall_mem_map]
  refine forall₂_congr fun held hheld => ?_
  rw [← Bool.not_eq_true, hempty held hheld, not_not]

/-- The first empty slot is that of the first signer who is not covered. -/
theorem exists_find?_eq_some {front rest : List Address} {a : Address}
    (hsigners : tx.message.signerKeys = front ++ a :: rest) (hfront : ∀ b ∈ front, Covered b)
    (ha : ¬ Covered a) :
    ∃ signature, tx.signerSignatures.find? (fun (_, signature) => signature.isPlaceholder) =
      some (a, signature) := by
  rw [← map_fst_signerSignatures hslots] at hsigners
  obtain ⟨earlier, later, hsplit, rfl, hlater⟩ := List.map_eq_append_iff.mp hsigners
  obtain ⟨⟨a, signature⟩, others, rfl, rfl, -⟩ := List.map_eq_cons_iff.mp hlater
  rw [hsplit] at hempty
  refine ⟨signature, List.find?_eq_some_iff_append.mpr ⟨?_, earlier, others, hsplit, ?_⟩⟩
  · exact (hempty (a, signature) (by simp)).mpr ha
  · intro entry hentry
    rw [Bool.not_eq_true', ← Bool.not_eq_true, hempty entry (List.mem_append_left _ hentry), not_not]
    exact hfront entry.1 (List.mem_map_of_mem hentry)

end Covered

/-- A transaction with few slots is put out if its message can be written. -/
theorem exists_output (hslots : tx.signatures.length < 256) {bytes : List UInt8}
    (hbytes : tx.messageBytes = .ok bytes) (encoding : Encoding) :
    ∃ output, tx.output encoding = .ok output := by
  obtain ⟨slots, hwritten⟩ : ∃ slots,
      Writer.list (fun signature : Signature => .ok signature.bytes) tx.signatures = .ok slots :=
    Writer.exists_list (Nat.le_trans (Nat.le_of_lt hslots) (by decide)) fun _ _ => ⟨_, rfl⟩
  exact ⟨_, output_eq_ok_iff.mpr
    ⟨_, bytes, serialize_eq_ok_iff.mpr ⟨slots, bytes, hwritten, hbytes, rfl⟩, hbytes, rfl⟩⟩

end Transaction

/-! ## Signatures from two sides -/

namespace Signing

variable {bytes : List UInt8} {keys : List Keypair} {tx tx' : Transaction}
  {external : List (Address × Signature)}

theorem isPlaceholder_of_mem_made (hsuite : suite.SignsVerifiably) (hzero : suite.RejectsZero)
    {entry : Address × Signature} (hentry : entry ∈ made suite bytes keys) :
    entry.2.isPlaceholder = false := by
  obtain ⟨key, -, rfl⟩ := List.mem_map.mp hentry
  exact hzero.isPlaceholder_eq_false (key.verifySignature_sign hsuite bytes)

/-- Keys and other signatures are put into their slots if all of them belong to
signers and the signatures verify, and for no other reason. -/
theorem exists_apply_iff (hslots : tx.signatures.length = tx.message.header.signerCount)
    (hbytes : tx.messageBytes = .ok bytes) :
    (∃ signed, (sign suite keys).apply tx = .ok signed ∧
        (addExternal suite external).apply signed = .ok tx') ↔
      (∀ key ∈ keys, key.address suite ∈ tx.message.signerKeys) ∧
        (∀ entry ∈ external, entry.1 ∈ tx.message.signerKeys ∧
          verifySignature suite entry.1 bytes entry.2 = .ok ()) ∧
        tx' = (made suite bytes keys ++ external).foldl Transaction.put tx := by
  have hsign : ∀ signed, (sign suite keys).apply tx = .ok signed ↔
      (∀ key ∈ keys, key.address suite ∈ tx.message.signerKeys) ∧
        signed = (made suite bytes keys).foldl Transaction.put tx := by
    intro signed
    simp only [sign_apply_eq_ok_iff, hbytes, Except.ok.injEq, exists_eq_left', fillSlots_eq_ok_iff,
      Transaction.exists_slotOf_iff hslots]
  -- the message and the number of slots stay as they are
  let signed : Transaction := (made suite bytes keys).foldl Transaction.put tx
  have hmessage : signed.message = tx.message := Transaction.message_foldl_put _ tx
  have hslots' : signed.signatures.length = signed.message.header.signerCount :=
    Transaction.slots_foldl_put hslots _
  have hbytes' : signed.messageBytes = .ok bytes := by
    rwa [Transaction.messageBytes, hmessage]
  have hadd : (addExternal suite external).apply signed = .ok tx' ↔
      (∀ entry ∈ external, entry.1 ∈ tx.message.signerKeys ∧
        verifySignature suite entry.1 bytes entry.2 = .ok ()) ∧
        tx' = external.foldl Transaction.put signed := by
    rw [Transaction.addExternal_eq_ok_iff_signers hslots' hbytes', hmessage]
  rw [List.foldl_append, ← hadd]
  constructor
  · intro hparts
    obtain ⟨_, hsigned, hadded⟩ := hparts
    obtain ⟨hkeys, rfl⟩ := (hsign _).mp hsigned
    exact ⟨hkeys, hadded⟩
  · intro hparts
    obtain ⟨hkeys, hadded⟩ := hparts
    exact ⟨signed, (hsign signed).mpr ⟨hkeys, rfl⟩, hadded⟩

end Signing

/-! ## The keys of a request -/

namespace Secret

variable {secret : Secret}

theorem IsValid.exists_keypair (h : secret.IsValid suite) (field : String) :
    ∃ key?, secret.keypair suite field = .ok key? ∧
      key?.map (·.address suite) = secret.address? suite := by
  by_cases hset : secret.isSet
  · obtain ⟨key, hkey⟩ := h hset
    refine ⟨some key, ?_, ?_⟩
    · rw [keypair, if_pos hset, hkey]
      rfl
    · rw [address?, if_pos hset, hkey]
      rfl
  · exact ⟨none, if_neg hset, (if_neg hset).symm⟩

end Secret

namespace Request

variable {r : Request}

/-- The request has the key of an address. -/
def HasKey (suite : CryptoSuite) (r : Request) (a : Address) : Prop :=
  ∃ secret ∈ r.secrets, secret.address? suite = some a

theorem HasValidSecrets.exists_nonceKeypair (h : r.HasValidSecrets suite) :
    ∃ key?, r.nonceKeypair suite = .ok key? ∧
      key?.map (·.address suite) = (r.kind.bind Kind.secret?).bind (Secret.address? suite) := by
  unfold nonceKeypair
  split
  · rename_i arguments hkind
    obtain ⟨key?, hkey, haddress⟩ := (h.nonce hkind).exists_keypair "nonceAccountPrivateKey"
    refine ⟨key?, hkey, ?_⟩
    rw [haddress, hkind]
    rfl
  · rename_i hkind
    refine ⟨none, rfl, ?_⟩
    cases hgiven : r.kind with
    | none => rfl
    | some kind =>
      cases kind with
      | createNonce arguments => exact absurd hgiven (hkind arguments)
      | _ => rfl

/-- The keys that sign are those of the secrets that are set. -/
theorem HasValidSecrets.exists_signingKeys (h : r.HasValidSecrets suite) :
    ∃ keys, r.signingKeys suite = .ok keys ∧
      ∀ a, (∃ key ∈ keys, key.address suite = a) ↔ r.HasKey suite a := by
  obtain ⟨feePayer, hfeePayer, hfeePayerAddress⟩ := h.feePayer.exists_keypair "feePayerPrivateKey"
  obtain ⟨signer, hsigner, hsignerAddress⟩ := h.signer.exists_keypair "privateKey"
  obtain ⟨nonce, hnonce, hnonceAddress⟩ := h.exists_nonceKeypair
  refine ⟨feePayer.toList ++ signer.toList ++ nonce.toList, ?_, ?_⟩
  · rw [signingKeys, hfeePayer, hsigner, hnonce]
    rfl
  · intro a
    have hkey : ∀ {key? : Option Keypair} {address? : Option Address},
        key?.map (·.address suite) = address? →
        ((∃ key ∈ key?.toList, key.address suite = a) ↔ address? = some a) := by
      rintro key? _ rfl
      simp only [Option.mem_toList, Option.map_eq_some_iff]
    have hnonceKey : (∃ key ∈ nonce.toList, key.address suite = a) ↔
        ∃ secret ∈ (r.kind.bind Kind.secret?).toList, secret.address? suite = some a := by
      rw [hkey hnonceAddress, Option.bind_eq_some_iff]
      simp only [Option.mem_toList]
    simp only [HasKey, secrets, List.mem_append, or_and_right, exists_or, hkey hfeePayerAddress,
      hkey hsignerAddress, hnonceKey, List.exists_mem_cons_iff, List.not_mem_nil, false_and,
      exists_false, or_false]
    rw [or_comm (a := r.privateKey.address? suite = some a)]

/-! ## Who is covered -/

/-- The keys of the request are those of signers, and the signatures that are
given with it are read as `external` and verify under signers. -/
structure Supplies (suite : CryptoSuite) (r : Request) (m : Message) (bytes : List UInt8)
    (external : List (Address × Signature)) : Prop where
  read : r.externalSignatures.mapM SignatureEntry.read = .ok external
  keys : ∀ a, r.HasKey suite a → a ∈ m.signerKeys
  signers : ∀ entry ∈ external, entry.1 ∈ m.signerKeys
  verified : ∀ entry ∈ external, verifySignature suite entry.1 bytes entry.2 = .ok ()

/-- A key of the request or one of the signatures is that of the signer. -/
def Covers (suite : CryptoSuite) (r : Request) (external : List (Address × Signature))
    (a : Address) : Prop :=
  r.HasKey suite a ∨ ∃ entry ∈ external, entry.1 = a

/-- All signatures of the request are in their slots in `tx`. -/
def Reaches (suite : CryptoSuite) (r : Request) (external : List (Address × Signature))
    (tx : Transaction) : Prop :=
  ∃ keys built signed, r.signingKeys suite = .ok keys ∧ r.buildTransaction suite = .ok built ∧
    (Signing.sign suite keys).apply built = .ok signed ∧
    r.externalSignatures.mapM SignatureEntry.read = .ok external ∧
    (Signing.addExternal suite external).apply signed = .ok tx

variable {m : Message} {bytes : List UInt8} {external : List (Address × Signature)}
  {tx : Transaction}

/-- From there on only the slots decide. -/
theorem Reaches.sign_eq (h : r.Reaches suite external tx) :
    r.sign suite =
      match tx.signerSignatures.find? fun (_, signature) => signature.isPlaceholder with
      | some (address, _) => .error (.unsigned (.noKey address))
      | none => Attempt.plain (tx.output r.encoding) := by
  obtain ⟨keys, built, signed, hkeys, hbuilt, hsigned, hexternal, htx⟩ := h
  rw [← Attempt.plain_eq_ok_iff] at hsigned htx
  simp only [sign, hkeys, hbuilt, hexternal, hsigned, htx, exceptOk_bind]
  cases tx.signerSignatures.find? _ <;> rfl

/-- The secrets of the request are keys, and the message that is to be signed is
built from its other fields and can be written. -/
structure Builds (suite : CryptoSuite) (r : Request) (m : Message) (bytes : List UInt8) :
    Prop where
  rawMessage : r.rawMessage = none
  secrets : r.HasValidSecrets suite
  build : r.build suite = .ok m
  serialize : m.serialize = .ok bytes

namespace Builds

variable (h : r.Builds suite m bytes)

include h

theorem reaches_iff :
    r.Reaches suite external tx ↔
      r.Supplies suite m bytes external ∧ ∃ keys, r.signingKeys suite = .ok keys ∧
        tx = (Signing.made suite bytes keys ++ external).foldl Transaction.put (.ofMessage m) := by
  obtain ⟨keys, hkeys, hhas⟩ := h.secrets.exists_signingKeys
  have hbuilt : r.buildTransaction suite = .ok (.ofMessage m) := by
    rw [buildTransaction, h.rawMessage]
    exact exceptMap_eq_ok_iff.mpr ⟨m, h.build, rfl⟩
  have hslots : (Transaction.ofMessage m).signatures.length = m.header.signerCount :=
    List.length_replicate
  constructor
  · intro hparts
    obtain ⟨keys', built, signed, hkeys', hbuilt', hsign, hread, hadd⟩ := hparts
    obtain rfl : keys = keys' := Except.ok.inj (hkeys.symm.trans hkeys')
    obtain rfl : .ofMessage m = built := Except.ok.inj (hbuilt.symm.trans hbuilt')
    obtain ⟨hsigners, hexternal, heq⟩ :=
      (Signing.exists_apply_iff hslots h.serialize).mp ⟨signed, hsign, hadd⟩
    have hkeysOf : ∀ a, r.HasKey suite a → a ∈ m.signerKeys := by
      intro a ha
      obtain ⟨key, hkey, rfl⟩ := (hhas a).mpr ha
      exact hsigners key hkey
    exact ⟨⟨hread, hkeysOf, fun entry hentry => (hexternal entry hentry).1,
      fun entry hentry => (hexternal entry hentry).2⟩, keys, hkeys, heq⟩
  · intro hparts
    obtain ⟨hsupplies, keys', hkeys', heq⟩ := hparts
    obtain rfl : keys = keys' := Except.ok.inj (hkeys.symm.trans hkeys')
    have hsigners : ∀ key ∈ keys, key.address suite ∈ m.signerKeys :=
      fun key hkey => hsupplies.keys _ ((hhas _).mp ⟨key, hkey, rfl⟩)
    obtain ⟨signed, hsign, hadd⟩ := (Signing.exists_apply_iff hslots h.serialize).mpr
      ⟨hsigners, fun entry hentry =>
        ⟨hsupplies.signers entry hentry, hsupplies.verified entry hentry⟩, heq⟩
    exact ⟨keys, _, signed, hkeys, hbuilt, hsign, hsupplies.read, hadd⟩

theorem exists_reaches (hsupplies : r.Supplies suite m bytes external) :
    ∃ tx, r.Reaches suite external tx := by
  obtain ⟨keys, hkeys, -⟩ := h.secrets.exists_signingKeys
  exact ⟨_, h.reaches_iff.mpr ⟨hsupplies, keys, hkeys, rfl⟩⟩

/-- The slots are those of the signers of the message, and exactly those of
signers who are not covered are empty in the end. -/
theorem slots_of_reaches (hsuite : suite.SignsVerifiably) (hzero : suite.RejectsZero)
    (hreaches : r.Reaches suite external tx) :
    tx.message = m ∧ tx.signatures.length = m.header.signerCount ∧
      ∀ held ∈ tx.signerSignatures,
        (held.2.isPlaceholder = true ↔ ¬ r.Covers suite external held.1) := by
  obtain ⟨hsupplies, keys, hkeys, rfl⟩ := h.reaches_iff.mp hreaches
  obtain ⟨keys', hkeys', hhas⟩ := h.secrets.exists_signingKeys
  obtain rfl : keys = keys' := Except.ok.inj (hkeys.symm.trans hkeys')
  have hsigned : ∀ entry ∈ Signing.made suite bytes keys ++ external,
      entry.2.isPlaceholder = false := by
    intro entry hentry
    rcases List.mem_append.mp hentry with hmade | hexternal
    · exact Signing.isPlaceholder_of_mem_made hsuite hzero hmade
    · exact hzero.isPlaceholder_eq_false (hsupplies.verified entry hexternal)
  refine ⟨Transaction.message_foldl_put _ _, ?_, fun held hheld => ?_⟩
  · rw [Transaction.length_signatures_foldl_put]
    exact List.length_replicate
  · rw [Transaction.isPlaceholder_iff_of_foldl_put (nodup_signerKeys_of_build h.build) hsigned
      hheld, List.forall_mem_append, Covers, not_or, ← hhas]
    simp only [Signing.made, List.forall_mem_map, not_exists, not_and, ne_eq]

theorem exists_output_of_reaches (hsuite : suite.SignsVerifiably) (hzero : suite.RejectsZero)
    (hreaches : r.Reaches suite external tx)
    (hfilled : ∀ held ∈ tx.signerSignatures, held.2.isPlaceholder = false) :
    ∃ output, r.sign suite = .ok output := by
  obtain ⟨hmessage, hslots, -⟩ := h.slots_of_reaches hsuite hzero hreaches
  obtain ⟨output, houtput⟩ := tx.exists_output (hslots ▸ m.header.required.toNat_lt)
    (hmessage ▸ h.serialize) r.encoding
  obtain ⟨keys, built, signed, hkeys, hbuilt, hsigned, hread, hadd⟩ := hreaches
  exact ⟨output, sign_eq_ok_iff.mpr
    ⟨keys, built, signed, external, tx, hkeys, hbuilt, hsigned, hread, hadd, hfilled, houtput⟩⟩

end Builds

/-- **When a request can be signed.**  A request from which a message can be
built is signed exactly if its keys belong to signers of the message, its
signatures can be read and verify under signers, and every signer is covered by
a key or a signature.  If only the last is missing then the first signer who is
not covered is reported. -/
theorem sign_iff_covered (hsuite : suite.SignsVerifiably) (hzero : suite.RejectsZero)
    (hraw : r.rawMessage = none) (hvalid : r.HasValidSecrets suite)
    (hbuild : r.build suite = .ok m) (hbytes : m.serialize = .ok bytes) :
    ((∃ output, r.sign suite = .ok output) ↔
      ∃ external, r.Supplies suite m bytes external ∧
        ∀ a ∈ m.signerKeys, r.Covers suite external a) ∧
    ∀ external, r.Supplies suite m bytes external →
      ∀ front a rest, m.signerKeys = front ++ a :: rest →
        (∀ b ∈ front, r.Covers suite external b) → ¬ r.Covers suite external a →
          r.sign suite = .error (.unsigned (.noKey a)) := by
  have h : r.Builds suite m bytes := ⟨hraw, hvalid, hbuild, hbytes⟩
  refine ⟨⟨?_, ?_⟩, ?_⟩
  · intro hparts
    obtain ⟨output, hsign⟩ := hparts
    obtain ⟨keys, built, signed, external, tx, hkeys, hbuilt, hsigned, hread, hadd, hfilled, -⟩ :=
      sign_eq_ok_iff.mp hsign
    have hreaches : r.Reaches suite external tx :=
      ⟨keys, built, signed, hkeys, hbuilt, hsigned, hread, hadd⟩
    obtain ⟨rfl, hslots, hempty⟩ := h.slots_of_reaches hsuite hzero hreaches
    exact ⟨external, (h.reaches_iff.mp hreaches).1,
      (Transaction.forall_filled_iff hslots hempty).mp hfilled⟩
  · intro hparts
    obtain ⟨external, hsupplies, hcovers⟩ := hparts
    obtain ⟨tx, hreaches⟩ := h.exists_reaches hsupplies
    obtain ⟨rfl, hslots, hempty⟩ := h.slots_of_reaches hsuite hzero hreaches
    exact h.exists_output_of_reaches hsuite hzero hreaches
      ((Transaction.forall_filled_iff hslots hempty).mpr hcovers)
  · intro external hsupplies front a rest hsigners hfront ha
    obtain ⟨tx, hreaches⟩ := h.exists_reaches hsupplies
    obtain ⟨rfl, hslots, hempty⟩ := h.slots_of_reaches hsuite hzero hreaches
    obtain ⟨signature, hfirst⟩ :=
      Transaction.exists_find?_eq_some hslots hempty hsigners hfront ha
    rw [hreaches.sign_eq, hfirst]

/-- The suite of the network, completed to one that obeys its laws. -/
noncomputable def sampleSuite : CryptoSuite := CryptoSuite.ledger.nonzero.lawful

/-- The key of someone else who pays the fee. -/
def sharedPayer : Keypair := ⟨Block.fit 32 [2]⟩

def sharedSender : Keypair := ⟨Block.fit 32 (List.replicate 32 1)⟩

/-- A transfer whose fee is paid by someone whose key is not given. -/
noncomputable def sampleShared : Request where
  privateKey := { bytes := List.replicate 32 1 }
  feePayer := some (sharedPayer.address sampleSuite).text
  recentBlockhash := Blockhash.text ⟨Block.fit 32 [9]⟩
  kind := some (.transfer { recipient := Address.text ⟨Block.fit 32 [5]⟩, value := 7 })

noncomputable def sampleSharedMessage : Message where
  header := { required := 2, readonlySigners := 0, readonlyOthers := 1 }
  keys := [sharedPayer.address sampleSuite, sharedSender.address sampleSuite,
    ⟨Block.fit 32 [5]⟩, Known.system]
  blockhash := ⟨Block.fit 32 [9]⟩
  instructions := [⟨3, [1, 2], bytes32 2 ++ bytes64 7⟩]
  format := .legacy

/-- The signatures that are given have no part in the message. -/
theorem build_withExternal (r : Request) (externalSignatures : List SignatureEntry) :
    ({ r with externalSignatures } : Request).build suite = r.build suite := rfl

section Sample

variable (externalSignatures : List SignatureEntry)

theorem build_sampleShared :
    ({ sampleShared with externalSignatures } : Request).build sampleSuite =
      .ok sampleSharedMessage := by
  rw [build_withExternal]
  decide +kernel

theorem secrets_sampleShared :
    ({ sampleShared with externalSignatures } : Request).secrets =
      [{ bytes := List.replicate 32 1 }, {}] := rfl

theorem hasValidSecrets_sampleShared :
    ({ sampleShared with externalSignatures } : Request).HasValidSecrets sampleSuite := by
  rw [HasValidSecrets, secrets_sampleShared]
  simp only [List.forall_mem_cons]
  exact ⟨Secret.isValid_of_length rfl, Secret.isValid_empty, List.forall_mem_nil _⟩

theorem hasKey_sampleShared (a : Address) :
    ({ sampleShared with externalSignatures } : Request).HasKey sampleSuite a ↔
      a = sharedSender.address sampleSuite := by
  have haddress : Secret.address? sampleSuite { bytes := List.replicate 32 1 } =
      some (sharedSender.address sampleSuite) := rfl
  rw [HasKey, secrets_sampleShared]
  simp only [List.exists_mem_cons_iff, haddress, Secret.address?_empty, Option.some.injEq,
    reduceCtorEq, List.not_mem_nil, false_and, exists_false, or_false, eq_comm]

end Sample

theorem signerKeys_sampleSharedMessage :
    sampleSharedMessage.signerKeys =
      [sharedPayer.address sampleSuite, sharedSender.address sampleSuite] := rfl

/-- Without the signature of the payer the request fails, and with it the
request is signed. -/
theorem sign_iff_covered_of_sampleShared :
    sampleShared.sign sampleSuite =
        .error (.unsigned (.noKey (sharedPayer.address sampleSuite))) ∧
      ∃ bytes output, sampleSharedMessage.serialize = .ok bytes ∧
        ({ sampleShared with
          externalSignatures := [.ofPair (sharedPayer.address sampleSuite,
            sharedPayer.sign sampleSuite bytes)] } : Request).sign sampleSuite = .ok output := by
  have hsuite : sampleSuite.SignsVerifiably := CryptoSuite.signsVerifiably_lawful _
  have hzero : sampleSuite.RejectsZero :=
    CryptoSuite.rejectsZero_lawful_nonzero CryptoSuite.rejectsZero_ledger
  obtain ⟨bytes, hbytes⟩ : ∃ bytes, sampleSharedMessage.serialize = .ok bytes := ⟨_, rfl⟩
  have hkeys : ∀ externalSignatures a,
      ({ sampleShared with externalSignatures } : Request).HasKey sampleSuite a →
      a ∈ sampleSharedMessage.signerKeys := by
    intro externalSignatures a ha
    rw [(hasKey_sampleShared externalSignatures a).mp ha, signerKeys_sampleSharedMessage]
    exact List.mem_cons_of_mem _ List.mem_cons_self
  constructor
  · have hdistinct : sharedPayer.address sampleSuite ≠ sharedSender.address sampleSuite := by
      have hnodup := nodup_signerKeys_of_build (build_sampleShared [])
      rw [signerKeys_sampleSharedMessage, List.nodup_cons, List.mem_singleton] at hnodup
      exact hnodup.1
    have hsupplies : sampleShared.Supplies sampleSuite sampleSharedMessage bytes [] :=
      ⟨rfl, hkeys [], List.forall_mem_nil _, List.forall_mem_nil _⟩
    refine (sign_iff_covered hsuite hzero rfl (hasValidSecrets_sampleShared [])
      (build_sampleShared []) hbytes).2 [] hsupplies [] _ _ signerKeys_sampleSharedMessage
      (List.forall_mem_nil _) ?_
    rintro (hkey | ⟨entry, hentry, -⟩)
    · exact hdistinct ((hasKey_sampleShared [] _).mp hkey)
    · cases hentry
  · let entry : Address × Signature :=
      (sharedPayer.address sampleSuite, sharedPayer.sign sampleSuite bytes)
    have hsupplies : Supplies sampleSuite
        { sampleShared with externalSignatures := [.ofPair entry] } sampleSharedMessage bytes
        [entry] := by
      refine ⟨SignatureEntry.mapM_read_ofPair [entry], hkeys _, ?_, ?_⟩
      · rw [List.forall_mem_singleton, signerKeys_sampleSharedMessage]
        exact List.mem_cons_self
      · rw [List.forall_mem_singleton]
        exact sharedPayer.verifySignature_sign hsuite bytes
    have hcovers : ∀ a ∈ sampleSharedMessage.signerKeys, Covers sampleSuite
        { sampleShared with externalSignatures := [.ofPair entry] } [entry] a := by
      intro a ha
      rw [signerKeys_sampleSharedMessage] at ha
      rcases List.mem_cons.mp ha with rfl | ha
      · exact .inr ⟨entry, List.mem_singleton_self _, rfl⟩
      · exact .inl ((hasKey_sampleShared _ a).mpr (List.mem_singleton.mp ha))
    obtain ⟨output, houtput⟩ := (sign_iff_covered hsuite hzero rfl
      (hasValidSecrets_sampleShared _) (build_sampleShared _) hbytes).1.mpr
      ⟨[entry], hsupplies, hcovers⟩
    exact ⟨bytes, output, hbytes, houtput⟩

end Request

end SolanaWallet
