import SolanaWallet.EncodedTransaction
import SolanaWallet.Proofs.Edit.Invariant

/-!
# Signatures are those of the current message

The operations on a transaction, with their arguments, are the commands of a
second small language.  A command that fails does not stop the ones after it:
they go on with the transaction that it leaves behind, in which some slots may
have been filled before the failure.

What can happen to a transaction is said once, in `Transaction.Move`: the slot
of a signer is filled with a signature of the message, the message is tied to
another moment, or everything starts over with an edited message.  Whatever a
command does up to its end or its failure is a sequence of moves
(`moves_of_run`).  So an invariant of transactions is shown for the three moves,
and `Transaction.Sound` is the one this module is about.
-/

namespace SolanaWallet

variable {suite : CryptoSuite}

/-! ## Commands -/

/-- An operation on a transaction with its arguments. -/
inductive TransactionCommand where
  | sign (keys : List Keypair)
  | signAt (keys : List Keypair) (blockhash : Blockhash)
  | setBlockhash (blockhash : Blockhash)
  | addExternal (signatures : List (Address × Signature))
  /-- Edits a copy of the message, and goes on with the copy if no edit fails. -/
  | edit (commands : List EditCommand)

/-- The transaction that a change leaves behind, whether it succeeds or fails. -/
def Signing.after (change : Signing Unit) (tx : Transaction) : Transaction :=
  match change tx with
  | .ok _ tx' => tx'
  | .error _ tx' => tx'

namespace TransactionCommand

/-- Carries out a command. -/
def run (suite : CryptoSuite) : TransactionCommand → Signing Unit
  | .sign keys => Signing.sign suite keys
  | .signAt keys blockhash => Signing.signAt suite keys blockhash
  | .setBlockhash blockhash => fun tx => .ok () (tx.withBlockhash blockhash)
  | .addExternal signatures => Signing.addExternal suite signatures
  | .edit commands => fun tx =>
    match EncodedTransaction.applyEdit (EditCommand.runAll commands) tx.message with
    | .ok m => .ok () (.ofMessage m)
    | .error reason => .error reason tx

/-- The transaction after all commands, some of which may have failed. -/
def runAll (suite : CryptoSuite) (commands : List TransactionCommand) (tx : Transaction) :
    Transaction :=
  commands.foldl (fun tx command => (command.run suite).after tx) tx

end TransactionCommand

/-! ## Moves -/

/-- `signature` is the signature of the message by the owner of `address`. -/
def Message.SignedBy (suite : CryptoSuite) (m : Message) (address : Address)
    (signature : Signature) : Prop :=
  ∃ bytes, m.serialize = .ok bytes ∧ verifySignature suite address bytes signature = .ok ()

theorem Keypair.verifySignature_sign (hsuite : suite.SignsVerifiably) (key : Keypair)
    (bytes : List UInt8) :
    verifySignature suite (key.address suite) bytes (key.sign suite bytes) = .ok () := by
  have hvalid : suite.verify (key.address suite).toBlock bytes (key.sign suite bytes).toBlock
      = .valid := hsuite key.seed bytes
  simp only [verifySignature, hvalid]

theorem Keypair.signedBy_sign (hsuite : suite.SignsVerifiably) {m : Message} {bytes : List UInt8}
    (hbytes : m.serialize = .ok bytes) (key : Keypair) :
    m.SignedBy suite (key.address suite) (key.sign suite bytes) :=
  ⟨bytes, hbytes, key.verifySignature_sign hsuite bytes⟩

namespace Transaction

variable {tx tx' : Transaction}

theorem accountIndex_eq_ok_iff {address : Address} {index : Nat} :
    tx.accountIndex address = .ok index ↔ tx.message.keys.idxOf? address = some index := by
  unfold accountIndex
  cases tx.message.keys.idxOf? address with
  | none => simp
  | some place => simp

theorem slotOf_eq_ok_iff {address : Address} {slot : Nat} :
    tx.slotOf address = .ok slot ↔
      tx.message.keys.idxOf? address = some slot ∧ slot < tx.signatures.length := by
  unfold slotOf
  rw [exceptBind_eq_ok_iff]
  constructor
  · rintro ⟨index, hindex, h⟩
    by_cases hlt : index < tx.signatures.length
    · rw [if_pos hlt, exceptPure_eq_ok_iff] at h
      subst h
      exact ⟨accountIndex_eq_ok_iff.mp hindex, hlt⟩
    · rw [if_neg hlt] at h
      cases h
  · rintro ⟨hplace, hlt⟩
    exact ⟨slot, accountIndex_eq_ok_iff.mpr hplace, if_pos hlt⟩

/-- What happens to a transaction between two points at which an operation on
it can fail. -/
inductive Move (suite : CryptoSuite) (tx : Transaction) : Transaction → Prop
  | fill {slot : Nat} {address : Address} {signature : Signature}
      (hslot : tx.slotOf address = .ok slot)
      (hsigned : tx.message.SignedBy suite address signature) :
      Move suite tx (tx.fill slot signature)
  | retie (blockhash : Blockhash) : Move suite tx (tx.withBlockhash blockhash)
  | restart {commands : List EditCommand} {m : Message}
      (hrun : EditCommand.runAll commands tx.message = .ok () m) : Move suite tx (.ofMessage m)

/-- Any number of moves. -/
def Moves (suite : CryptoSuite) : Transaction → Transaction → Prop :=
  Relation.ReflTransGen (Move suite)

/-! ## Operations in moves -/

theorem moves_of_fillSlots (hsuite : suite.SignsVerifiably) {bytes : List UInt8}
    (keys : List Keypair) (hbytes : tx.message.serialize = .ok bytes) :
    Moves suite tx ((Signing.fillSlots suite bytes keys).after tx) := by
  induction keys generalizing tx with
  | nil => exact .refl
  | cons key rest ih =>
    cases hslot : tx.slotOf (key.address suite) with
    | error reason =>
      simp only [Signing.after, Signing.fillSlots, hslot]
      exact .refl
    | ok slot =>
      simp only [Signing.after, Signing.fillSlots, hslot]
      -- filling a slot leaves the message, and so its bytes, as they are
      exact .head (.fill hslot (key.signedBy_sign hsuite hbytes)) (ih hbytes)

theorem moves_of_placeSignatures {bytes : List UInt8} (signatures : List (Address × Signature))
    (hbytes : tx.message.serialize = .ok bytes) :
    Moves suite tx ((Signing.placeSignatures suite bytes signatures).after tx) := by
  induction signatures generalizing tx with
  | nil => exact .refl
  | cons entry rest ih =>
    obtain ⟨address, signature⟩ := entry
    cases hslot : tx.slotOf address with
    | error reason =>
      simp only [Signing.after, Signing.placeSignatures, hslot]
      exact .refl
    | ok slot =>
      cases hverify : verifySignature suite address bytes signature with
      | error reason =>
        simp only [Signing.after, Signing.placeSignatures, hslot, hverify]
        exact .refl
      | ok _ =>
        simp only [Signing.after, Signing.placeSignatures, hslot, hverify]
        exact .head (.fill hslot ⟨bytes, hbytes, hverify⟩) (ih hbytes)

theorem moves_of_sign (hsuite : suite.SignsVerifiably) (keys : List Keypair) (tx : Transaction) :
    Moves suite tx ((Signing.sign suite keys).after tx) := by
  cases hbytes : tx.messageBytes with
  | error reason =>
    simp only [Signing.after, Signing.sign, hbytes]
    exact .refl
  | ok bytes =>
    simp only [Signing.after, Signing.sign, hbytes]
    exact moves_of_fillSlots hsuite keys hbytes

theorem moves_of_addExternal (signatures : List (Address × Signature)) (tx : Transaction) :
    Moves suite tx ((Signing.addExternal suite signatures).after tx) := by
  cases hbytes : tx.messageBytes with
  | error reason =>
    simp only [Signing.after, Signing.addExternal, hbytes]
    exact .refl
  | ok bytes =>
    simp only [Signing.after, Signing.addExternal, hbytes]
    exact moves_of_placeSignatures signatures hbytes

/-- A command makes moves, also when it fails. -/
theorem moves_of_run (hsuite : suite.SignsVerifiably) (command : TransactionCommand)
    (tx : Transaction) : Moves suite tx ((command.run suite).after tx) := by
  cases command with
  | sign keys => exact moves_of_sign hsuite keys tx
  | signAt keys blockhash =>
    exact .head (.retie blockhash) (moves_of_sign hsuite keys (tx.withBlockhash blockhash))
  | setBlockhash blockhash => exact .single (.retie blockhash)
  | addExternal signatures => exact moves_of_addExternal signatures tx
  | edit commands =>
    cases hrun : EditCommand.runAll commands tx.message with
    | error reason m =>
      simp only [Signing.after, TransactionCommand.run, EncodedTransaction.applyEdit, hrun]
      exact .refl
    | ok _ m =>
      simp only [Signing.after, TransactionCommand.run, EncodedTransaction.applyEdit, hrun]
      exact .single (.restart hrun)

theorem moves_of_runAll (hsuite : suite.SignsVerifiably) (commands : List TransactionCommand)
    (tx : Transaction) : Moves suite tx (TransactionCommand.runAll suite commands tx) := by
  induction commands generalizing tx with
  | nil => exact .refl
  | cons command rest ih =>
    exact (moves_of_run hsuite command tx).trans (ih ((command.run suite).after tx))

/-! ## The invariant -/

/-- Every required signer has a slot, and a slot holds either the placeholder
or the signature of the message by the owner of the key at the same place. -/
structure Sound (suite : CryptoSuite) (tx : Transaction) : Prop where
  wellFormed : tx.message.WellFormed
  slots : tx.signatures.length = tx.message.header.signerCount
  signed : ∀ (slot : Nat) (signature : Signature), tx.signatures[slot]? = some signature →
    ∃ address, tx.message.keys[slot]? = some address ∧
      (signature = Signature.placeholder ∨ tx.message.SignedBy suite address signature)

theorem sound_ofMessage {m : Message} (hm : m.WellFormed) : Sound suite (ofMessage m) := by
  refine ⟨hm, List.length_replicate, ?_⟩
  intro slot signature hsignature
  obtain ⟨hslot, -⟩ := List.getElem?_eq_some_iff.mp hsignature
  have hlt : slot < m.keys.length :=
    calc slot
        < (List.replicate m.header.signerCount Signature.placeholder).length := hslot
      _ = m.header.signerCount := List.length_replicate
      _ ≤ m.keys.length := hm.1.1
  have hplaceholder : signature = Signature.placeholder :=
    List.eq_of_mem_replicate (List.mem_of_getElem? hsignature)
  exact ⟨m.keys[slot], List.getElem?_eq_getElem hlt, .inl hplaceholder⟩

theorem withBlockhash_eq_ofMessage (hslots : tx.signatures.length = tx.message.header.signerCount)
    (blockhash : Blockhash) :
    tx.withBlockhash blockhash = ofMessage { tx.message with blockhash } := by
  unfold withBlockhash ofMessage
  rw [List.map_const', hslots]

theorem Sound.fill (htx : Sound suite tx) {slot : Nat} {address : Address} {signature : Signature}
    (hslot : tx.slotOf address = .ok slot) (hsigned : tx.message.SignedBy suite address signature) :
    Sound suite (tx.fill slot signature) := by
  obtain ⟨hplace, hlt⟩ := slotOf_eq_ok_iff.mp hslot
  obtain ⟨hltkeys, hkey, -⟩ := List.idxOf?_eq_some_iff.mp hplace
  refine ⟨htx.wellFormed, List.length_set.trans htx.slots, ?_⟩
  intro place held hheld
  rcases eq_or_ne slot place with rfl | hne
  · have hheld : some signature = some held := by
      rw [← hheld]
      exact (List.getElem?_set_self hlt).symm
    refine ⟨address, ?_, .inr (Option.some.inj hheld ▸ hsigned)⟩
    calc tx.message.keys[slot]?
        = some tx.message.keys[slot] := List.getElem?_eq_getElem hltkeys
      _ = some address := by rw [hkey]
  · have hheld : tx.signatures[place]? = some held := by
      rw [← hheld]
      exact (List.getElem?_set_ne hne).symm
    exact htx.signed place held hheld

theorem Move.sound (h : Move suite tx tx') (htx : Sound suite tx) : Sound suite tx' := by
  cases h with
  | fill hslot hsigned => exact htx.fill hslot hsigned
  | retie blockhash =>
    rw [withBlockhash_eq_ofMessage htx.slots]
    exact sound_ofMessage htx.wellFormed
  | restart hrun => exact sound_ofMessage (EditCommand.wellFormed_of_runAll htx.wellFormed hrun)

theorem Moves.sound (h : Moves suite tx tx') (htx : Sound suite tx) : Sound suite tx' := by
  induction h with
  | refl => exact htx
  | tail _ hmove ih => exact hmove.sound ih

/-- **No stale, misplaced or unverified signature.**  From the unsigned
transaction of a message that was read or compiled, whatever operations are
carried out, whether they succeed, fail or fail part way, there is one slot for
each required signer, and a slot that is not empty verifies under the key at its
place over the message as it is now. -/
theorem sound_of_runAll (hsuite : suite.SignsVerifiably) {m : Message} (horigin : m.Origin)
    (commands : List TransactionCommand) :
    Sound suite (TransactionCommand.runAll suite commands (ofMessage m)) := by
  have hstart : Sound suite (ofMessage m) := sound_ofMessage horigin.wellFormed
  exact (moves_of_runAll hsuite commands (ofMessage m)).sound hstart

end Transaction

/-! ## A run with the signatures of the network -/

namespace CryptoSuite

open Classical in
/-- The suite whose verification also accepts whatever its own seeds sign. -/
noncomputable def lawful (suite : CryptoSuite) : CryptoSuite :=
  { suite with
    verify := fun key message signature =>
      if ∃ seed, suite.publicKey seed = key ∧ suite.sign seed message = signature then .valid
      else suite.verify key message signature }

theorem signsVerifiably_lawful (suite : CryptoSuite) : suite.lawful.SignsVerifiably := by
  intro seed message
  exact if_pos ⟨seed, rfl, rfl⟩

end CryptoSuite

namespace Transaction

/-- The key pair that pays for the sample message and signs it. -/
def samplePayer : Keypair := ⟨Block.fit 32 [1]⟩

def sampleMessage : Message where
  header := { required := 1, readonlySigners := 0, readonlyOthers := 0 }
  keys := [samplePayer.address .ledger]
  blockhash := ⟨Block.fit 32 [9]⟩
  instructions := []
  format := .legacy

theorem sampleMessage_origin : sampleMessage.Origin :=
  .compiled [] (some (samplePayer.address .ledger)) ⟨Block.fit 32 [9]⟩ false rfl

/-- Operations that drop a signature twice.  The last of them fills a slot and
then fails, because its second key is not a signer. -/
def sampleRun : List TransactionCommand :=
  [.sign [samplePayer], .setBlockhash ⟨Block.fit 32 [8]⟩, .sign [samplePayer],
    .edit [.setUnitPrice 5], .sign [samplePayer, ⟨Block.fit 32 [2]⟩]]

/-- The verification of the network accepts what is left by the sample run, so
nothing in it depends on how that verification was completed to a lawful one. -/
theorem sound_of_sampleRun :
    Sound CryptoSuite.ledger.lawful
        (TransactionCommand.runAll CryptoSuite.ledger.lawful sampleRun (ofMessage sampleMessage)) ∧
      (TransactionCommand.runAll CryptoSuite.ledger.lawful sampleRun
        (ofMessage sampleMessage)).verify .ledger = .ok () := by
  have hsuite : CryptoSuite.ledger.lawful.SignsVerifiably :=
    CryptoSuite.ledger.signsVerifiably_lawful
  exact ⟨sound_of_runAll hsuite sampleMessage_origin sampleRun, by decide +kernel⟩

end Transaction

end SolanaWallet
