import SolanaWallet.Proofs.Text.Base58
import SolanaWallet.Proofs.Text.Base64
import SolanaWallet.Proofs.Wire.Message
import SolanaWallet.Transaction.Wire

/-!
# A transaction has one form

The reader of transactions is the reader of a list of signatures followed by
that of a message, so it undoes the writer because its parts do.  The two parts
do not know of each other: the count that stands in front of the signatures is
compared with the header of the message when both have been read.

Base58 and Base64 add nothing to this, as a text is read as some bytes exactly
if it is what is written for them.
-/

namespace SolanaWallet

/-! ## Signatures -/

theorem Writer.list_map {α β : Type} (write : β → Except Failure (List UInt8)) (f : α → β)
    (values : List α) : list write (values.map f) = list (fun value => write (f value)) values := by
  have hitems : items write (values.map f) = items (fun value => write (f value)) values := by
    induction values with
    | nil => rfl
    | cons value rest ih => rw [List.map_cons, items, items, ih]
  rw [list, list, hitems, List.length_map]

theorem Reader.signatures_reads :
    (list (block 64 .signature)).Reads (Writer.list fun block => .ok block.bytes) :=
  (block_reads 64 .signature).list

/-! ## Transactions -/

namespace Transaction

variable {tx : Transaction} {bytes : List UInt8}

theorem serialize_eq_ok_iff :
    tx.serialize = .ok bytes ↔
      ∃ slots message, Writer.list (fun signature => .ok signature.bytes) tx.signatures = .ok slots ∧
        tx.message.serialize = .ok message ∧ bytes = slots ++ message := by
  rw [serialize, exceptBind_eq_ok_iff]
  constructor
  · rintro ⟨message, hmessage, h⟩
    obtain ⟨slots, hslots, h⟩ := exceptBind_eq_ok_iff.mp h
    exact ⟨slots, message, hslots, hmessage, (exceptPure_eq_ok_iff.mp h).symm⟩
  · rintro ⟨slots, message, hslots, hmessage, rfl⟩
    exact ⟨message, hmessage, exceptBind_eq_ok_iff.mpr ⟨slots, hslots, rfl⟩⟩

/-- The message can be read, and there is one slot for each signer. -/
structure IsReadable (tx : Transaction) : Prop where
  wellFormed : tx.message.WellFormed
  hasClearFormat : tx.message.isV0 = true ∨ tx.message.header.signerCount < 128
  length_signatures : tx.signatures.length = tx.message.header.signerCount

end Transaction

theorem Reader.run_transaction_eq_ok_iff {input rest : List UInt8} {tx : Transaction} :
    transaction.run input = .ok (tx, rest) ↔
      tx.message.WellFormed ∧ tx.message.HasClearFormat ∧
        ∃ bytes, tx.serialize = .ok bytes ∧ input = bytes ++ rest := by
  constructor
  · intro h
    rw [transaction, signatures_reads.run_bind_eq_ok_iff] at h
    obtain ⟨signatures, slots, mid, hslots, rfl, h⟩ := h
    obtain ⟨m, mid', hm, h⟩ := run_bind_eq_ok_iff.mp h
    obtain ⟨rfl, rfl⟩ := run_pure_eq_ok_iff.mp h
    obtain ⟨hwell, hclear, message, hmessage, rfl⟩ := run_message_eq_ok_iff.mp hm
    refine ⟨hwell, hclear, slots ++ message, ?_, by rw [List.append_assoc]⟩
    rw [Transaction.serialize_eq_ok_iff]
    refine ⟨slots, message, ?_, hmessage, rfl⟩
    rw [Writer.list_map]
    exact hslots
  · rintro ⟨hwell, hclear, bytes, hbytes, rfl⟩
    obtain ⟨slots, message, hslots, hmessage, rfl⟩ := Transaction.serialize_eq_ok_iff.mp hbytes
    -- a signature is a block under another name
    have hblocks : Writer.list (fun block => .ok block.bytes) (tx.signatures.map (·.toBlock)) =
        .ok slots := by
      rw [Writer.list_map]
      exact hslots
    have hnames : (tx.signatures.map (·.toBlock)).map Signature.mk = tx.signatures := by
      rw [List.map_map]
      exact List.map_id _
    rw [List.append_assoc]
    refine signatures_reads.run_bind_eq_ok_iff.mpr
      ⟨tx.signatures.map (·.toBlock), slots, message ++ rest, hblocks, rfl, ?_⟩
    refine run_bind_eq_ok_iff.mpr ⟨tx.message, rest, ?_, ?_⟩
    · exact run_message_eq_ok_iff.mpr ⟨hwell, hclear, message, hmessage, rfl⟩
    · rw [hnames]
      rfl

namespace Transaction

variable {tx : Transaction} {bytes : List UInt8} {text : String}

theorem ofBytes_eq_ok_iff : ofBytes bytes = .ok tx ↔ tx.IsReadable ∧ tx.serialize = .ok bytes := by
  have hrun : Reader.runAll Reader.transaction .transaction bytes = .ok tx ↔
      tx.message.WellFormed ∧ tx.message.HasClearFormat ∧ tx.serialize = .ok bytes := by
    rw [Reader.runAll_eq_ok_iff, Reader.run_transaction_eq_ok_iff]
    simp
  constructor
  · intro h
    unfold ofBytes at h
    split at h
    · cases h
    · rename_i read hread
      split at h
      · rename_i hslots
        cases h
        obtain ⟨hwell, hclear, hbytes⟩ := hrun.mp hread
        exact ⟨⟨hwell, hclear, hslots⟩, hbytes⟩
      · cases h
  · rintro ⟨hreadable, hbytes⟩
    have hread := hrun.mpr ⟨hreadable.wellFormed, hreadable.hasClearFormat, hbytes⟩
    rw [ofBytes, hread]
    exact if_pos hreadable.length_signatures

/-! ## Texts -/

/-- A text codec with one form for each byte string adds nothing to the form of
a transaction. -/
theorem ofBytes_decode_iff {Fault : Type} {decode : String → Except Fault (List UInt8)}
    {encode : List UInt8 → String}
    (hform : ∀ {text bytes}, decode text = .ok bytes ↔ text = encode bytes) :
    (∃ bytes, decode text = .ok bytes ∧ ofBytes bytes = .ok tx) ↔
      tx.IsReadable ∧ (tx.serialize >>= fun bytes => return encode bytes) = .ok text := by
  rw [exceptBind_eq_ok_iff]
  constructor
  · rintro ⟨bytes, hdecode, hread⟩
    obtain ⟨hreadable, hbytes⟩ := ofBytes_eq_ok_iff.mp hread
    rw [hform.mp hdecode]
    exact ⟨hreadable, bytes, hbytes, rfl⟩
  · rintro ⟨hreadable, bytes, hbytes, htext⟩
    obtain rfl := exceptPure_eq_ok_iff.mp htext
    exact ⟨bytes, hform.mpr rfl, ofBytes_eq_ok_iff.mpr ⟨hreadable, hbytes⟩⟩

theorem ofBase58_eq_ok_iff : ofBase58 text = .ok tx ↔ tx.IsReadable ∧ tx.toBase58 = .ok text := by
  have hdecode : ofBase58 text = .ok tx ↔
      ∃ bytes, Base58.decode text = .ok bytes ∧ ofBytes bytes = .ok tx := by
    unfold ofBase58
    cases Base58.decode text with
    | ok bytes => simp
    | error fault => simp
  rw [hdecode, ofBytes_decode_iff Base58.decode_eq_ok_iff, toBase58]

theorem ofBase64_eq_ok_iff : ofBase64 text = .ok tx ↔ tx.IsReadable ∧ tx.toBase64 = .ok text := by
  have hdecode : ofBase64 text = .ok tx ↔
      ∃ bytes, Base64.decode text = .ok bytes ∧ ofBytes bytes = .ok tx := by
    unfold ofBase64
    cases Base64.decode text with
    | ok bytes => simp
    | error fault => simp
  rw [hdecode, ofBytes_decode_iff Base64.decode_eq_ok_iff, toBase64]

/-- What can be read from bytes has a text in both codecs. -/
theorem exists_texts_of_ofBytes (h : ofBytes bytes = .ok tx) :
    (∃! text, ofBase58 text = .ok tx) ∧ ∃! text, ofBase64 text = .ok tx := by
  obtain ⟨hreadable, hbytes⟩ := ofBytes_eq_ok_iff.mp h
  have hbase58 : tx.toBase58 = .ok (Base58.encode bytes) := by
    rw [toBase58, hbytes]
    rfl
  have hbase64 : tx.toBase64 = .ok (Base64.encode bytes) := by
    rw [toBase64, hbytes]
    rfl
  refine ⟨⟨_, ofBase58_eq_ok_iff.mpr ⟨hreadable, hbase58⟩, ?_⟩,
    ⟨_, ofBase64_eq_ok_iff.mpr ⟨hreadable, hbase64⟩, ?_⟩⟩
  · intro text htext
    have hsame := (ofBase58_eq_ok_iff.mp htext).2
    exact Except.ok.inj (hsame.symm.trans hbase58)
  · intro text htext
    have hsame := (ofBase64_eq_ok_iff.mp htext).2
    exact Except.ok.inj (hsame.symm.trans hbase64)

/-- **The only form of a transaction.** Bytes or a text are accepted as a
transaction exactly if its message can be read, it has a slot for each signer,
and the bytes or the text are what is written for it; so a transaction that is
accepted at all has one spelling in bytes, in Base58 and in Base64. -/
theorem ofBytes_canonical (tx : Transaction) :
    (∀ bytes, ofBytes bytes = .ok tx ↔ tx.IsReadable ∧ tx.serialize = .ok bytes) ∧
    (∀ text, ofBase58 text = .ok tx ↔ tx.IsReadable ∧ tx.toBase58 = .ok text) ∧
    (∀ text, ofBase64 text = .ok tx ↔ tx.IsReadable ∧ tx.toBase64 = .ok text) ∧
    ((∃ bytes, ofBytes bytes = .ok tx) →
      (∃! text, ofBase58 text = .ok tx) ∧ ∃! text, ofBase64 text = .ok tx) := by
  refine ⟨fun _ => ofBytes_eq_ok_iff, fun _ => ofBase58_eq_ok_iff, fun _ => ofBase64_eq_ok_iff, ?_⟩
  rintro ⟨bytes, hbytes⟩
  exact exists_texts_of_ofBytes hbytes

/-- The transaction without signers, keys and instructions is all zeros. -/
example :
    ofBytes (List.replicate 38 0) =
      .ok (ofMessage ⟨⟨0, 0, 0⟩, [], ⟨Block.zero 32⟩, [], .legacy⟩) := by
  decide

end Transaction

end SolanaWallet
