import SolanaWallet.Proofs.Request.Signed
import SolanaWallet.Proofs.Text.Identifiers

/-!
# Signing here or elsewhere

The three answers to a request all start from the same transaction.  What is
handed out for signing elsewhere is therefore the message of a signed output
with its signers.  The way back is longer: a signed output lists texts, these
are read as the entries that were written (`read_ofPair`), none of them is left
out because none is zero (`providedSignatures_eq_ok_iff`), all of them verify
because the transaction that they come from is sound, and in any order they fill
its slots again, provided that no signer occurs twice (`foldl_put_eq_of_perm`).
-/

namespace SolanaWallet

variable {suite : CryptoSuite}

/-! ## Reading what was put out -/

namespace SignatureEntry

theorem read_ofPair (pair : Address × Signature) : (ofPair pair).read = .ok pair := by
  have hsignature : Attempt.inField "externalSignatures.signature"
      (Signature.ofText pair.2.text) = .ok pair.2 :=
    Attempt.inField_eq_ok_iff.mpr (Signature.ofText_eq_ok_iff.mpr rfl)
  simp only [read, ofPair, addressField_text, hsignature]
  rfl

theorem mapM_read_ofPair (pairs : List (Address × Signature)) :
    (pairs.map ofPair).mapM read = .ok pairs := by
  rw [mapM_eq_ok_iff_forall₂, List.forall₂_map_left_iff, List.forall₂_same]
  exact fun pair _ => read_ofPair pair

end SignatureEntry

namespace Request

variable {r : Request} {built tx : Transaction} {output : SignedOutput} {bytes : List UInt8}
  {entries : List (Address × Signature)}

/-! ## Handing out -/

theorem preimage_eq_ok (hbuilt : r.buildTransaction suite = .ok built)
    (hbytes : built.messageBytes = .ok bytes) :
    r.preimage suite = .ok ⟨built.message.signerKeys.map Address.text, bytes⟩ := by
  rw [preimage, exceptBind_eq_ok_iff]
  refine ⟨built, hbuilt, exceptBind_eq_ok_iff.mpr ⟨bytes, ?_, rfl⟩⟩
  exact Attempt.plain_eq_ok_iff.mpr hbytes

/-- What is put out with the message of the transaction to sign is what is
handed out. -/
theorem preimage_of_output (hbuilt : r.buildTransaction suite = .ok built)
    (hmessage : tx.message = built.message)
    (hslots : tx.signatures.length = tx.message.header.signerCount)
    (houtput : tx.output r.encoding = .ok output) :
    ∃ asked, r.preimage suite = .ok asked ∧
      r.encoding.decode? output.message = some asked.bytes ∧
      asked.signers = output.signatures.map (·.signer) := by
  obtain ⟨wire, bytes, -, hbytes, rfl⟩ := Transaction.output_eq_ok_iff.mp houtput
  have hbytes' : built.messageBytes = .ok bytes := by
    rw [Transaction.messageBytes, ← hmessage]
    exact hbytes
  refine ⟨_, preimage_eq_ok hbuilt hbytes', Encoding.decode?_eq_some_iff.mpr rfl, ?_⟩
  rw [← hmessage, ← Transaction.map_fst_signerSignatures hslots, List.map_map, List.map_map]
  rfl

/-! ## Putting together -/

/-- The signatures that are to fill a slot. -/
def nonzeroSignatures (entries : List (Address × Signature)) : List (Address × Signature) :=
  entries.filter fun entry => !entry.2.isPlaceholder

theorem providedSignatures_eq_ok_iff {m : Message} {provided : List (Address × Signature)} :
    providedSignatures m entries = .ok provided ↔
      (∀ entry ∈ entries, entry.2.isPlaceholder = true → entry.1 ∈ m.signerKeys) ∧
        provided = nonzeroSignatures entries := by
  induction entries generalizing provided with
  | nil =>
    rw [providedSignatures, and_iff_right (List.forall_mem_nil _), Except.ok.injEq, eq_comm]
    rfl
  | cons entry rest ih =>
    rw [providedSignatures, List.forall_mem_cons]
    cases hfilled : entry.2.isPlaceholder with
    | true =>
      have hskip : nonzeroSignatures (entry :: rest) = nonzeroSignatures rest :=
        List.filter_cons_of_neg (by simp [hfilled])
      rw [if_pos rfl, hskip]
      by_cases hsigner : entry.1 ∈ m.signerKeys
      · rw [if_pos hsigner, ih, and_iff_right fun _ => hsigner]
      · rw [if_neg hsigner]
        exact iff_of_false nofun fun h => hsigner (h.1.1 rfl)
    | false =>
      have hkeep : nonzeroSignatures (entry :: rest) = entry :: nonzeroSignatures rest :=
        List.filter_cons_of_pos (by simp [hfilled])
      rw [if_neg Bool.false_ne_true, exceptBind_eq_ok_iff, hkeep]
      constructor
      · intro hparts
        obtain ⟨others, hothers, h⟩ := hparts
        obtain ⟨hrest, rfl⟩ := ih.mp hothers
        exact ⟨⟨nofun, hrest⟩, (exceptPure_eq_ok_iff.mp h).symm⟩
      · rintro ⟨⟨-, hrest⟩, rfl⟩
        exact ⟨_, ih.mpr ⟨hrest, rfl⟩, rfl⟩

theorem assemble_eq_ok_iff {signatures : List Signature} {addresses : List Address} :
    r.assemble suite signatures addresses = .ok output ↔
      signatures.length = addresses.length ∧ ∃ built tx, r.buildTransaction suite = .ok built ∧
        (∀ signer ∈ built.message.signerKeys, signer ∈ addresses) ∧
        (∀ entry ∈ addresses.zip signatures,
          entry.2.isPlaceholder = true → entry.1 ∈ built.message.signerKeys) ∧
        (Signing.addExternal suite (nonzeroSignatures (addresses.zip signatures))).apply
          (Transaction.ofMessage built.message) = .ok tx ∧
        tx.output r.encoding = .ok output := by
  unfold assemble
  by_cases hcount : signatures.length = addresses.length
  · rw [if_neg (not_not.mpr hcount), and_iff_right hcount]
    refine exceptBind_eq_ok_iff.trans (exists_congr fun built => ?_)
    dsimp only
    cases hmissing : built.message.signerKeys.find? (· ∉ addresses) with
    | some missing =>
      have hunlisted : missing ∉ addresses := by simpa using List.find?_some hmissing
      refine iff_of_false nofun fun h => ?_
      obtain ⟨tx, -, hlisted, -⟩ := h
      exact hunlisted (hlisted missing (List.mem_of_find?_eq_some hmissing))
    | none =>
      have hlisted : ∀ signer ∈ built.message.signerKeys, signer ∈ addresses := by
        simpa using hmissing
      simp only [exceptBind_eq_ok_iff, Attempt.plain_eq_ok_iff, providedSignatures_eq_ok_iff]
      constructor
      · rintro ⟨hbuilt, provided, ⟨hzeros, rfl⟩, tx, htx, houtput⟩
        exact ⟨tx, hbuilt, hlisted, hzeros, htx, houtput⟩
      · rintro ⟨tx, hbuilt, -, hzeros, htx, houtput⟩
        exact ⟨hbuilt, _, ⟨hzeros, rfl⟩, tx, htx, houtput⟩
  · rw [if_pos hcount]
    exact iff_of_false nofun fun h => hcount h.1

/-- The signatures that complete a message complete it again. -/
theorem addExternal_of_completes (hcompletes : Completes suite built tx)
    (hdistinct : built.message.signerKeys.Nodup) (hbytes : tx.messageBytes = .ok bytes)
    (hentries : entries.Perm tx.signerSignatures) :
    (Signing.addExternal suite entries).apply (Transaction.ofMessage built.message) = .ok tx := by
  obtain ⟨hmessage, hsound, -, hfilled⟩ := hcompletes
  rw [← hmessage] at hdistinct ⊢
  have hslots := Transaction.length_signatures_ofMessage tx.message
  refine (Transaction.addExternal_eq_ok_iff_signers hslots hbytes).mpr
    ⟨fun entry hentry => ?_, ?_⟩
  · have hentry := hentries.mem_iff.mp hentry
    exact ⟨(List.of_mem_zip hentry).1, hsound.verifies_of_mem hbytes hentry (hfilled entry hentry)⟩
  · exact (Transaction.foldl_put_eq_of_perm hsound.wellFormed.1 hsound.slots hdistinct
      hentries).symm

theorem assemble_of_completes (hbuilt : r.buildTransaction suite = .ok built)
    (hcompletes : Completes suite built tx) (hdistinct : built.message.signerKeys.Nodup)
    (houtput : tx.output r.encoding = .ok output) (hentries : entries.Perm tx.signerSignatures) :
    r.assemble suite (entries.map Prod.snd) (entries.map Prod.fst) = .ok output := by
  obtain ⟨wire, bytes, -, hbytes, -⟩ := Transaction.output_eq_ok_iff.mp houtput
  have hadded := addExternal_of_completes hcompletes hdistinct hbytes hentries
  have hsigners : (entries.map Prod.fst).Perm built.message.signerKeys := by
    rw [← hcompletes.message, ← Transaction.map_fst_signerSignatures hcompletes.sound.slots]
    exact hentries.map Prod.fst
  have hfilled : ∀ entry ∈ entries, entry.2.isPlaceholder = false :=
    fun entry hentry => hcompletes.filled entry (hentries.mem_iff.mp hentry)
  have hpaired : (entries.map Prod.fst).zip (entries.map Prod.snd) = entries :=
    (List.zip_of_prod rfl rfl).symm
  have hnonzero : nonzeroSignatures entries = entries :=
    List.filter_eq_self.mpr fun entry hentry => by simp [hfilled entry hentry]
  refine assemble_eq_ok_iff.mpr ⟨?_, built, tx, hbuilt, ?_, ?_, ?_, houtput⟩
  · rw [List.length_map, List.length_map]
  · exact fun signer hsigner => hsigners.mem_iff.mpr hsigner
  · intro entry hentry hzero
    rw [hpaired] at hentry
    exact absurd hzero (by simp [hfilled entry hentry])
  · rw [hpaired, hnonzero]
    exact hadded

/-! ## All three -/

/-- **It does not matter where a request is signed.**  If a request can be
signed here then the bytes that are handed out are those of the message in the
output, and the signers are those that the output lists.  The signatures that
the output lists, read back and given together with their signers in any order,
are put together to the same output.  Only a message that is given as a whole
can name a signer twice. -/
theorem agreement_of_sign (hsuite : suite.SignsVerifiably)
    (hdistinct : ∀ built, r.buildTransaction suite = .ok built →
      r.rawMessage = none ∨ built.message.signerKeys.Nodup)
    (h : r.sign suite = .ok output) :
    ∃ preimage entries,
      r.preimage suite = .ok preimage ∧
      r.encoding.decode? output.message = some preimage.bytes ∧
      preimage.signers = output.signatures.map (·.signer) ∧
      output.signatures.mapM SignatureEntry.read = .ok entries ∧
      ∀ entries' : List (Address × Signature), entries'.Perm entries →
        r.assemble suite (entries'.map Prod.snd) (entries'.map Prod.fst) = .ok output := by
  obtain ⟨built, tx, hbuilt, hcompletes, houtput⟩ := exists_completes_of_sign hsuite h
  have hnodup : built.message.signerKeys.Nodup := by
    rcases hdistinct built hbuilt with hraw | hnodup
    · exact nodup_signerKeys_of_buildTransaction hraw hbuilt
    · exact hnodup
  obtain ⟨preimage, hpreimage, hmessage, hsigners⟩ :=
    preimage_of_output hbuilt hcompletes.message hcompletes.sound.slots houtput
  obtain ⟨wire, bytes, -, -, hlisted⟩ := Transaction.output_eq_ok_iff.mp houtput
  refine ⟨preimage, tx.signerSignatures, hpreimage, hmessage, hsigners, ?_, ?_⟩
  · rw [hlisted]
    exact SignatureEntry.mapM_read_ofPair tx.signerSignatures
  · intro entries' hentries
    exact assemble_of_completes hbuilt hcompletes hnodup houtput hentries

/-- The signatures of the sample are put together from the last to the first. -/
theorem agreement_of_sampleTransfer :
    ∃ output entries, sampleTransfer.sign CryptoSuite.ledger.lawful = .ok output ∧
      output.signatures.mapM SignatureEntry.read = .ok entries ∧
      sampleTransfer.assemble CryptoSuite.ledger.lawful (entries.reverse.map Prod.snd)
        (entries.reverse.map Prod.fst) = .ok output := by
  obtain ⟨output, houtput⟩ := exists_output_of_sampleTransfer
  obtain ⟨preimage, entries, -, -, -, hentries, hassemble⟩ :=
    agreement_of_sign CryptoSuite.ledger.signsVerifiably_lawful (fun _ _ => .inl rfl) houtput
  exact ⟨output, entries, houtput, hentries, hassemble entries.reverse entries.reverse_perm⟩

end Request

end SolanaWallet
