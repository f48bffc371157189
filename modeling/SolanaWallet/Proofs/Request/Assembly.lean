import SolanaWallet.Proofs.Request.Coverage

/-!
# Signatures that are put together

Whoever collects signatures for a request gives them in one list and their
addresses in another.  A zero signature says that a signer has not signed yet,
an address may be given more than once, and the order is free.  What is checked
on the way comes down to four things (`Provides`), and nothing else can go wrong
once there is a message that can be written (`assemble_eq_ok_iff_provides`).

The transaction starts from the message alone.  So a slot holds in the end what
was given last for its key, and a signature that came with the message of the
request is lost.
-/

namespace SolanaWallet.Request

open Transaction (lastSignature?)

variable {suite : CryptoSuite} {r : Request} {m : Message} {bytes : List UInt8}
  {output : SignedOutput} {signatures : List Signature} {addresses : List Address}

theorem mem_nonzeroSignatures_iff {entries : List (Address × Signature)}
    {entry : Address × Signature} :
    entry ∈ nonzeroSignatures entries ↔ entry ∈ entries ∧ entry.2.isPlaceholder = false := by
  rw [nonzeroSignatures, List.mem_filter, Bool.not_eq_true']

/-! ## What has to be given -/

/-- There is an address for each signature, the addresses are those of the signers
of `m`, and the signatures that are not zero verify over the bytes of `m`. -/
structure Provides (suite : CryptoSuite) (m : Message) (bytes : List UInt8)
    (signatures : List Signature) (addresses : List Address) : Prop where
  count : signatures.length = addresses.length
  listed : ∀ a ∈ m.signerKeys, a ∈ addresses
  signers : ∀ a ∈ addresses, a ∈ m.signerKeys
  verified : ∀ entry ∈ addresses.zip signatures, entry.2.isPlaceholder = false →
    verifySignature suite entry.1 bytes entry.2 = .ok ()

/-- The message with the signatures that are given for it. -/
def assembled (m : Message) (signatures : List Signature) (addresses : List Address) :
    Transaction :=
  (nonzeroSignatures (addresses.zip signatures)).foldl Transaction.put (.ofMessage m)

theorem addExternal_nonzeroSignatures_eq_ok_iff {entries : List (Address × Signature)}
    {tx : Transaction} (hbytes : m.serialize = .ok bytes) :
    (Signing.addExternal suite (nonzeroSignatures entries)).apply (.ofMessage m) = .ok tx ↔
      (∀ entry ∈ entries, entry.2.isPlaceholder = false →
        entry.1 ∈ m.signerKeys ∧ verifySignature suite entry.1 bytes entry.2 = .ok ()) ∧
        tx = (nonzeroSignatures entries).foldl Transaction.put (.ofMessage m) := by
  rw [Transaction.addExternal_eq_ok_iff_signers (Transaction.length_signatures_ofMessage m) hbytes]
  simp only [mem_nonzeroSignatures_iff, and_imp]
  rfl

theorem assemble_eq_ok_iff_provides :
    r.assemble suite signatures addresses = .ok output ↔
      ∃ built bytes, r.buildTransaction suite = .ok built ∧
        built.message.serialize = .ok bytes ∧
        Provides suite built.message bytes signatures addresses ∧
        (assembled built.message signatures addresses).output r.encoding = .ok output := by
  rw [assemble_eq_ok_iff]
  constructor
  · rintro ⟨hcount, built, tx, hbuilt, hlisted, hzeros, hadded, houtput⟩
    obtain ⟨bytes, hbytes, -⟩ := Signing.addExternal_apply_eq_ok_iff.mp hadded
    obtain ⟨hentries, rfl⟩ := (addExternal_nonzeroSignatures_eq_ok_iff hbytes).mp hadded
    refine ⟨built, bytes, hbuilt, hbytes, ⟨hcount, hlisted, ?_, ?_⟩, houtput⟩
    · -- each address has a signature, and either kind of signature must be that of a signer
      rw [← List.map_fst_zip hcount.ge, List.forall_mem_map]
      intro entry hentry
      cases hfilled : entry.2.isPlaceholder with
      | true => exact hzeros entry hentry hfilled
      | false => exact (hentries entry hentry hfilled).1
    · exact fun entry hentry hfilled => (hentries entry hentry hfilled).2
  · rintro ⟨built, bytes, hbuilt, hbytes, hprovides, houtput⟩
    have hsigners : ∀ entry ∈ addresses.zip signatures, entry.1 ∈ built.message.signerKeys :=
      fun entry hentry => hprovides.signers entry.1 (List.of_mem_zip hentry).1
    refine ⟨hprovides.count, built, _, hbuilt, hprovides.listed,
      fun entry hentry _ => hsigners entry hentry,
      (addExternal_nonzeroSignatures_eq_ok_iff hbytes).mpr ⟨?_, rfl⟩, houtput⟩
    exact fun entry hentry hfilled =>
      ⟨hsigners entry hentry, hprovides.verified entry hentry hfilled⟩

/-! ## What comes out -/

@[simp] theorem message_assembled (m : Message) (signatures : List Signature)
    (addresses : List Address) : (assembled m signatures addresses).message = m :=
  Transaction.message_foldl_put _ _

theorem length_signatures_assembled :
    (assembled m signatures addresses).signatures.length = m.header.signerCount := by
  rw [assembled, Transaction.length_signatures_foldl_put]
  exact List.length_replicate

theorem exists_output_assembled (hbytes : m.serialize = .ok bytes) (encoding : Encoding) :
    ∃ output, (assembled m signatures addresses).output encoding = .ok output := by
  have hslots : (assembled m signatures addresses).signatures.length < 256 := by
    rw [length_signatures_assembled]
    exact m.header.required.toNat_lt
  have hwritten : (assembled m signatures addresses).messageBytes = .ok bytes := by
    rw [Transaction.messageBytes, message_assembled, hbytes]
  exact Transaction.exists_output hslots hwritten encoding

/-- The message of a request is read back with what is put together for it. -/
theorem ofBytes_assembled {built : Transaction} {wire : List UInt8}
    (hbuilt : r.buildTransaction suite = .ok built)
    (hwire : (assembled built.message signatures addresses).serialize = .ok wire) :
    Transaction.ofBytes wire = .ok (assembled built.message signatures addresses) := by
  obtain ⟨hsound, hclear⟩ := buildTransaction_sound hbuilt
  refine Transaction.ofBytes_eq_ok_iff.mpr ⟨⟨?_, ?_, ?_⟩, hwire⟩
  · rw [message_assembled]
    exact hsound.wellFormed
  · rw [message_assembled]
    exact hclear
  · rw [length_signatures_assembled, message_assembled]

/-- What is given last for a signer counts, and goes into the first of his slots. -/
theorem signatures_assembled {slot : Nat} {a : Address} (hsigner : m.signerKeys[slot]? = some a) :
    (assembled m signatures addresses).signatures[slot]? =
      some (if m.keys.idxOf? a = some slot then
        (lastSignature? (nonzeroSignatures (addresses.zip signatures)) a).getD .placeholder
        else .placeholder) :=
  Transaction.getElem?_foldl_put_ofMessage hsigner

/-- **When signatures can be put together.**  A request with signatures and their
addresses is answered exactly if a message comes from it that can be written,
there is an address for each signature, the addresses are those of the signers,
and every signature that is not zero verifies under the address at its place.
The text of the answer is read as the message with the signature that is given
last in the slot of each signer, or the zero signature if none is given; a key
that occurs again has an empty slot.  Nothing else of the transaction that a
request may bring is in the answer. -/
theorem assemble_iff_provides :
    ((∃ output, r.assemble suite signatures addresses = .ok output) ↔
      ∃ built bytes, r.buildTransaction suite = .ok built ∧
        built.message.serialize = .ok bytes ∧
        Provides suite built.message bytes signatures addresses) ∧
    ∀ output, r.assemble suite signatures addresses = .ok output →
      ∃ built wire tx, r.buildTransaction suite = .ok built ∧
        r.encoding.decode? output.transaction = some wire ∧ Transaction.ofBytes wire = .ok tx ∧
        tx.message = built.message ∧
        (∀ (slot : Nat) (a : Address), built.message.signerKeys[slot]? = some a →
          tx.signatures[slot]? = some (if built.message.keys.idxOf? a = some slot then
            (lastSignature? (nonzeroSignatures (addresses.zip signatures)) a).getD .placeholder
            else .placeholder)) ∧
        (built.message.signerKeys.Nodup →
          ∀ (slot : Nat) (a : Address), built.message.signerKeys[slot]? = some a →
            tx.signatures[slot]? = some ((lastSignature?
              (nonzeroSignatures (addresses.zip signatures)) a).getD .placeholder)) ∧
        ∀ (other : Request) (built' : Transaction),
          other.buildTransaction suite = .ok built' → built'.message = built.message →
            other.encoding = r.encoding →
              other.assemble suite signatures addresses = .ok output := by
  refine ⟨⟨?_, ?_⟩, ?_⟩
  · intro hparts
    obtain ⟨output, hassemble⟩ := hparts
    obtain ⟨built, bytes, hbuilt, hbytes, hprovides, -⟩ :=
      assemble_eq_ok_iff_provides.mp hassemble
    exact ⟨built, bytes, hbuilt, hbytes, hprovides⟩
  · rintro ⟨built, bytes, hbuilt, hbytes, hprovides⟩
    obtain ⟨output, houtput⟩ := exists_output_assembled hbytes r.encoding
    exact ⟨output, assemble_eq_ok_iff_provides.mpr
      ⟨built, bytes, hbuilt, hbytes, hprovides, houtput⟩⟩
  · intro output hassemble
    obtain ⟨built, bytes, hbuilt, hbytes, hprovides, houtput⟩ :=
      assemble_eq_ok_iff_provides.mp hassemble
    obtain ⟨wire, bytes', hwire, -, htext⟩ := Transaction.output_eq_ok_iff.mp houtput
    refine ⟨built, wire, _, hbuilt, ?_, ofBytes_assembled hbuilt hwire, message_assembled _ _ _,
      fun _ _ => signatures_assembled, ?_, ?_⟩
    · rw [htext]
      exact Encoding.decode?_eq_some_iff.mpr rfl
    · intro hdistinct slot a hsigner
      rw [signatures_assembled hsigner,
        if_pos (Transaction.idxOf?_of_getElem?_signerKeys hdistinct hsigner)]
    · intro other built' hbuilt' hmessage hencoding
      rw [← hmessage] at hbytes hprovides houtput
      rw [← hencoding] at houtput
      exact assemble_eq_ok_iff_provides.mpr
        ⟨built', bytes, hbuilt', hbytes, hprovides, houtput⟩

/-- The payer has signed, the sender has not, and the payer is listed twice. -/
theorem assemble_of_sampleShared :
    ∃ bytes output wire tx, sampleSharedMessage.serialize = .ok bytes ∧
      sampleShared.assemble sampleSuite
        [sharedPayer.sign sampleSuite bytes, .placeholder, .placeholder]
        [sharedPayer.address sampleSuite, sharedSender.address sampleSuite,
          sharedPayer.address sampleSuite] = .ok output ∧
      sampleShared.encoding.decode? output.transaction = some wire ∧
      Transaction.ofBytes wire = .ok tx ∧ tx.message = sampleSharedMessage ∧
      tx.signatures[0]? = some (sharedPayer.sign sampleSuite bytes) ∧
      tx.signatures[1]? = some .placeholder := by
  let payer := sharedPayer.address sampleSuite
  let sender := sharedSender.address sampleSuite
  obtain ⟨bytes, hbytes⟩ : ∃ bytes, sampleSharedMessage.serialize = .ok bytes := ⟨_, rfl⟩
  let signature := sharedPayer.sign sampleSuite bytes
  have hbuilt : sampleShared.buildTransaction sampleSuite = .ok (.ofMessage sampleSharedMessage) :=
    exceptMap_eq_ok_iff.mpr ⟨_, build_sampleShared [], rfl⟩
  have hvalid : verifySignature sampleSuite payer bytes signature = .ok () :=
    sharedPayer.verifySignature_sign (CryptoSuite.signsVerifiably_lawful _) bytes
  have hfilled : signature.isPlaceholder = false :=
    (CryptoSuite.rejectsZero_lawful_nonzero CryptoSuite.rejectsZero_ledger).isPlaceholder_eq_false
      hvalid
  have hempty : Signature.placeholder.isPlaceholder = true := rfl
  have hprovides : Provides sampleSuite sampleSharedMessage bytes
      [signature, .placeholder, .placeholder] [payer, sender, payer] := by
    refine ⟨rfl, ?_, ?_, ?_⟩
    · rw [signerKeys_sampleSharedMessage]
      simp [payer, sender]
    · rw [signerKeys_sampleSharedMessage]
      simp [payer, sender]
    · simp [hvalid, hempty]
  have hnonzero : nonzeroSignatures
      ([payer, sender, payer].zip [signature, .placeholder, .placeholder]) =
        [(payer, signature)] := by
    simp [nonzeroSignatures, hfilled, hempty]
  have hdistinct : sampleSharedMessage.signerKeys.Nodup :=
    nodup_signerKeys_of_build (build_sampleShared [])
  have hother : payer ≠ sender := by
    rw [signerKeys_sampleSharedMessage, List.nodup_cons, List.mem_singleton] at hdistinct
    exact hdistinct.1
  obtain ⟨output, houtput⟩ :=
    assemble_iff_provides.1.mpr ⟨_, bytes, hbuilt, hbytes, hprovides⟩
  obtain ⟨built, wire, tx, hbuilt', hwire, htx, hmessage, -, hslots, -⟩ :=
    assemble_iff_provides.2 output houtput
  obtain rfl : .ofMessage sampleSharedMessage = built := Except.ok.inj (hbuilt.symm.trans hbuilt')
  rw [hnonzero] at hslots
  refine ⟨bytes, output, wire, tx, hbytes, houtput, hwire, htx, hmessage, ?_, ?_⟩
  · rw [hslots hdistinct 0 payer rfl]
    simp [lastSignature?, signature]
  · rw [hslots hdistinct 1 sender rfl]
    simp [lastSignature?, hother]

end SolanaWallet.Request
