import SolanaWallet.Proofs.Request.Raw
import SolanaWallet.Proofs.Transaction.ZeroSignature

/-!
# The signatures that a given transaction keeps

A transaction that is given without a new blockhash is to keep the signatures
that verify and to lose the others.  If there are no others it is taken as it
is.  Otherwise it is made anew from its message, and the signatures that verify
are put into the slots of their addresses (`retained`).

Nobody checks that the keys of a given message are distinct, and an address has
one slot, which is the first of its key.  So if a key occurs twice, a signature
in the later slot goes to the earlier one, over whatever was kept there, and
the later slot is left empty.  Each signature stays where it is exactly if the
ones that verify stand in the first slots of their keys
(`keepsVerified_retained_iff`).
-/

namespace SolanaWallet.Request

open Transaction (lastSignature? samplePayer)

variable {suite : CryptoSuite} {r : Request} {given tx : Transaction} {bytes : List UInt8}
  {raw : String}

/-! ## What should be kept -/

/-- `tx` has the signatures of `given` that verify, each in its own slot, and no
other ones. -/
structure KeepsVerified (suite : CryptoSuite) (bytes : List UInt8) (given tx : Transaction) :
    Prop where
  kept : ∀ (slot : Nat) (a : Address) (signature : Signature),
    given.message.keys[slot]? = some a → given.signatures[slot]? = some signature →
      verifySignature suite a bytes signature = .ok () → tx.signatures[slot]? = some signature
  dropped : ∀ (slot : Nat) (a : Address) (signature : Signature),
    given.message.keys[slot]? = some a → given.signatures[slot]? = some signature →
      verifySignature suite a bytes signature ≠ .ok () → tx.signatures[slot]? = some .placeholder

/-- No signature that verifies stands behind the first slot of its key. -/
def VerifiedFirst (suite : CryptoSuite) (bytes : List UInt8) (given : Transaction) : Prop :=
  ∀ (slot : Nat) (a : Address) (signature : Signature),
    given.message.keys[slot]? = some a → given.signatures[slot]? = some signature →
      signature.isPlaceholder = false → verifySignature suite a bytes signature = .ok () →
        given.message.keys.idxOf? a = some slot

theorem keepsVerified_self (hbytes : given.messageBytes = .ok bytes) (hgiven : given.Sound suite) :
    KeepsVerified suite bytes given given := by
  refine ⟨fun slot a signature _ hsignature _ => hsignature, ?_⟩
  intro slot a signature hkey hsignature hinvalid
  have hentry : (a, signature) ∈ given.signerSignatures :=
    (Transaction.mem_signerSignatures_iff hgiven.slots).mpr ⟨slot, hkey, hsignature⟩
  rcases (Transaction.sound_iff hgiven.wellFormed hgiven.slots hbytes).mp hgiven _ hentry with
    hplaceholder | hvalid
  · rw [hsignature]
    exact congrArg some (Signature.isPlaceholder_iff.mp hplaceholder)
  · exact absurd hvalid hinvalid

theorem signerKeys_of_signatures
    (hslots : given.signatures.length = given.message.header.signerCount) {slot : Nat}
    {a : Address} {signature : Signature} (hkey : given.message.keys[slot]? = some a)
    (hsignature : given.signatures[slot]? = some signature) :
    given.message.signerKeys[slot]? = some a := by
  have hentry : given.signerSignatures[slot]? = some (a, signature) :=
    (Transaction.getElem?_signerSignatures hslots).mpr ⟨hkey, hsignature⟩
  exact (List.getElem?_zip_eq_some.mp hentry).1

theorem verifiedFirst_of_nodup (hslots : given.signatures.length = given.message.header.signerCount)
    (hdistinct : given.message.signerKeys.Nodup) : VerifiedFirst suite bytes given :=
  fun _ _ _ hkey hsignature _ _ => Transaction.idxOf?_of_getElem?_signerKeys hdistinct
    (signerKeys_of_signatures hslots hkey hsignature)

/-! ## What is kept -/

/-- The message of a transaction with those of its signatures that verify. -/
def retained (suite : CryptoSuite) (bytes : List UInt8) (given : Transaction) : Transaction :=
  (validSignatures suite given bytes).foldl Transaction.put (.ofMessage given.message)

theorem addExternal_validSignatures (hbytes : given.messageBytes = .ok bytes) :
    (Signing.addExternal suite (validSignatures suite given bytes)).apply
      (.ofMessage given.message) = .ok (retained suite bytes given) := by
  have hslots := Transaction.length_signatures_ofMessage given.message
  refine (Transaction.addExternal_eq_ok_iff_signers hslots hbytes).mpr
    ⟨fun entry hentry => ?_, rfl⟩
  obtain ⟨hlisted, -, hvalid⟩ := mem_validSignatures_iff.mp hentry
  exact ⟨(List.of_mem_zip hlisted).1, hvalid⟩

theorem signatures_retained {slot : Nat} {a : Address}
    (hsigner : given.message.signerKeys[slot]? = some a) :
    (retained suite bytes given).signatures[slot]? =
      some (if given.message.keys.idxOf? a = some slot then
        (lastSignature? (validSignatures suite given bytes) a).getD .placeholder
        else .placeholder) :=
  Transaction.getElem?_foldl_put_ofMessage hsigner

/-- In its first slot a key keeps what it has there, if it has nothing that
verifies in a later one. -/
theorem lastSignature?_validSignatures
    (hslots : given.signatures.length = given.message.header.signerCount)
    (hfirst : VerifiedFirst suite bytes given) {slot : Nat} {a : Address} {signature : Signature}
    (hplace : given.message.keys.idxOf? a = some slot)
    (hsignature : given.signatures[slot]? = some signature) :
    (lastSignature? (validSignatures suite given bytes) a).getD .placeholder =
      if verifySignature suite a bytes signature = .ok () then signature else .placeholder := by
  have hkey : given.message.keys[slot]? = some a := getElem?_of_idxOf? hplace
  have honly : ∀ other, (a, other) ∈ validSignatures suite given bytes → other = signature := by
    intro other hother
    obtain ⟨hlisted, hfilled, hvalid⟩ := mem_validSignatures_iff.mp hother
    obtain ⟨place, hkey', hheld⟩ := (Transaction.mem_signerSignatures_iff hslots).mp hlisted
    obtain rfl : slot = place :=
      Option.some.inj (hplace.symm.trans (hfirst place a other hkey' hheld hfilled hvalid))
    exact Option.some.inj (hheld.symm.trans hsignature)
  by_cases hlisted : (a, signature) ∈ validSignatures suite given bytes
  · rw [Transaction.lastSignature?_eq_some_of_unique hlisted honly,
      if_pos (mem_validSignatures_iff.mp hlisted).2.2, Option.getD_some]
  · have hnone : lastSignature? (validSignatures suite given bytes) a = none := by
      refine Transaction.lastSignature?_eq_none_iff.mpr ?_
      rintro ⟨b, other⟩ hother rfl
      exact hlisted (honly other hother ▸ hother)
    rw [hnone, Option.getD_none]
    split
    · rename_i hvalid
      -- a signature that verifies and is not listed is zero
      by_contra hne
      have hfilled : signature.isPlaceholder = false := by
        rw [Bool.eq_false_iff, Ne, Signature.isPlaceholder_iff]
        exact fun hplaceholder => hne hplaceholder.symm
      have hentry : (a, signature) ∈ given.signerSignatures :=
        (Transaction.mem_signerSignatures_iff hslots).mpr ⟨slot, hkey, hsignature⟩
      exact hlisted (mem_validSignatures_iff.mpr ⟨hentry, hfilled, hvalid⟩)
    · rfl

theorem keepsVerified_retained_iff
    (hslots : given.signatures.length = given.message.header.signerCount) :
    KeepsVerified suite bytes given (retained suite bytes given) ↔
      VerifiedFirst suite bytes given := by
  constructor
  · intro hkeeps slot a signature hkey hsignature hfilled hvalid
    have hkept := hkeeps.kept slot a signature hkey hsignature hvalid
    rw [signatures_retained (signerKeys_of_signatures hslots hkey hsignature)] at hkept
    by_contra hlater
    rw [if_neg hlater, Option.some_inj] at hkept
    rw [← hkept] at hfilled
    exact absurd hfilled (by decide)
  · intro hfirst
    have hslot : ∀ (slot : Nat) (a : Address) (signature : Signature),
        given.message.keys[slot]? = some a → given.signatures[slot]? = some signature →
          (retained suite bytes given).signatures[slot]? =
            some (if verifySignature suite a bytes signature = .ok () then signature
              else .placeholder) := by
      intro slot a signature hkey hsignature
      rw [signatures_retained (signerKeys_of_signatures hslots hkey hsignature)]
      by_cases hplace : given.message.keys.idxOf? a = some slot
      · rw [if_pos hplace, lastSignature?_validSignatures hslots hfirst hplace hsignature]
      · rw [if_neg hplace]
        split
        · rename_i hvalid
          cases hfilled : signature.isPlaceholder with
          | true => rw [Signature.isPlaceholder_iff.mp hfilled]
          | false => exact absurd (hfirst slot a signature hkey hsignature hfilled hvalid) hplace
        · rfl
    constructor
    · intro slot a signature hkey hsignature hvalid
      rw [hslot slot a signature hkey hsignature, if_pos hvalid]
    · intro slot a signature hkey hsignature hinvalid
      rw [hslot slot a signature hkey hsignature, if_neg hinvalid]

/-! ## Requests with a transaction -/

theorem rawTransaction_eq_ok (hblockhash : r.recentBlockhash = "")
    (hgiven : Transaction.ofBase64 raw = .ok given) (hbytes : given.messageBytes = .ok bytes) :
    r.rawTransaction suite raw =
      .ok (if (validSignatures suite given bytes).length =
          given.signatures.countP (!·.isPlaceholder) then given
        else retained suite bytes given) := by
  have hempty : r.recentBlockhash.isEmpty = true := by rw [hblockhash]; rfl
  refine exceptBind_eq_ok_iff.mpr ⟨given, Attempt.inField_eq_ok_iff.mpr hgiven, ?_⟩
  rw [if_pos hempty]
  refine exceptBind_eq_ok_iff.mpr ⟨bytes, Attempt.plain_eq_ok_iff.mpr hbytes, ?_⟩
  dsimp only
  split
  · rfl
  · exact Attempt.plain_eq_ok_iff.mpr (addExternal_validSignatures hbytes)

/-- The transaction is taken as it is if all its signatures verify, and made anew
from those that do otherwise. -/
theorem exists_rawTransaction (hblockhash : r.recentBlockhash = "")
    (hgiven : Transaction.ofBase64 raw = .ok given) :
    ∃ bytes tx, given.messageBytes = .ok bytes ∧ r.rawTransaction suite raw = .ok tx ∧
      (given.Sound suite → tx = given) ∧
      (¬ given.Sound suite → tx = retained suite bytes given) := by
  obtain ⟨hreadable, htext⟩ := Transaction.ofBase64_eq_ok_iff.mp hgiven
  obtain ⟨wire, hwire, -⟩ := exceptBind_eq_ok_iff.mp htext
  obtain ⟨slots, bytes, -, hbytes, -⟩ := Transaction.serialize_eq_ok_iff.mp hwire
  have hslots := hreadable.length_signatures
  have hsound : (validSignatures suite given bytes).length =
      given.signatures.countP (!·.isPlaceholder) ↔ given.Sound suite :=
    (length_validSignatures_eq_iff hreadable.wellFormed.1 hslots).trans
      (Transaction.sound_iff hreadable.wellFormed hslots hbytes).symm
  refine ⟨bytes, _, hbytes, rawTransaction_eq_ok hblockhash hgiven hbytes, ?_, ?_⟩
  · exact fun h => if_pos (hsound.mpr h)
  · exact fun h => if_neg (mt hsound.mp h)

/-- **What a given transaction keeps.**  A transaction that is given without a new
blockhash keeps its message and its number of slots.  If all its signatures
verify it stays as it is; otherwise the first slot of each key gets the last
signature of the key that verifies, and all other slots are empty.  So every
signature stays in its own slot exactly if one of two things holds: all of them
verify, or those that do stand in first slots, as they must if no signer occurs
twice. -/
theorem buildTransaction_retains (hraw : r.rawMessage = some raw)
    (hblockhash : r.recentBlockhash = "") (hgiven : Transaction.ofBase64 raw = .ok given) :
    ∃ bytes tx, given.messageBytes = .ok bytes ∧ r.buildTransaction suite = .ok tx ∧
      tx.message = given.message ∧ tx.signatures.length = given.signatures.length ∧
      (given.Sound suite → tx = given) ∧
      (¬ given.Sound suite →
        ∀ (slot : Nat) (a : Address), given.message.signerKeys[slot]? = some a →
          tx.signatures[slot]? = some (if given.message.keys.idxOf? a = some slot then
            (lastSignature? (validSignatures suite given bytes) a).getD .placeholder
            else .placeholder)) ∧
      (KeepsVerified suite bytes given tx ↔
        given.Sound suite ∨ VerifiedFirst suite bytes given) ∧
      (given.message.signerKeys.Nodup → KeepsVerified suite bytes given tx) := by
  have hslots := (Transaction.ofBase64_eq_ok_iff.mp hgiven).1.length_signatures
  have hbuild : r.buildTransaction suite = r.rawTransaction suite raw := by
    rw [buildTransaction, hraw]
  obtain ⟨bytes, tx, hbytes, hbuilt, hkept, hmade⟩ := exists_rawTransaction hblockhash hgiven
  rw [← hbuild] at hbuilt
  have hdistinct : given.message.signerKeys.Nodup → VerifiedFirst suite bytes given :=
    verifiedFirst_of_nodup hslots
  by_cases hsound : given.Sound suite
  · obtain rfl := hkept hsound
    have hkeeps := keepsVerified_self hbytes hsound
    exact ⟨bytes, tx, hbytes, hbuilt, rfl, rfl, hkept, fun hnot => absurd hsound hnot,
      iff_of_true hkeeps (.inl hsound), fun _ => hkeeps⟩
  · obtain rfl := hmade hsound
    have hkeeps : KeepsVerified suite bytes given (retained suite bytes given) ↔
        VerifiedFirst suite bytes given := keepsVerified_retained_iff hslots
    refine ⟨bytes, _, hbytes, hbuilt, Transaction.message_foldl_put _ _, ?_, hkept,
      fun _ _ _ hsigner => signatures_retained hsigner, ?_, hkeeps.mpr ∘ hdistinct⟩
    · rw [retained, Transaction.length_signatures_foldl_put, hslots]
      exact List.length_replicate
    · rw [hkeeps, or_iff_right hsound]

/-! ## A key that occurs twice -/

/-- A message that names its only signer twice. -/
def sampleTwice : Message :=
  { Transaction.sampleMessage with
    header := { required := 2, readonlySigners := 0, readonlyOthers := 0 }
    keys := [samplePayer.address .ledger, samplePayer.address .ledger] }

def sampleTwiceBytes : List UInt8 :=
  sampleTwice.serialize.toOption.getD []

/-- The second slot holds the signature of the signer, the first one something
else. -/
def sampleGiven : Transaction :=
  { signatures := [⟨Block.fit 64 [1]⟩, samplePayer.sign .ledger sampleTwiceBytes]
    message := sampleTwice }

theorem messageBytes_sampleGiven : sampleGiven.messageBytes = .ok sampleTwiceBytes := rfl

theorem exists_text_sampleGiven : ∃ text, Transaction.ofBase64 text = .ok sampleGiven :=
  ⟨_, Transaction.ofBase64_eq_ok_iff.mpr ⟨⟨by decide, by decide, rfl⟩, rfl⟩⟩

theorem verifySignature_sampleGiven :
    verifySignature .ledger (samplePayer.address .ledger) sampleTwiceBytes
        ⟨Block.fit 64 [1]⟩ ≠ .ok () ∧
      verifySignature .ledger (samplePayer.address .ledger) sampleTwiceBytes
        (samplePayer.sign .ledger sampleTwiceBytes) = .ok () := by
  decide +kernel

theorem not_sound_sampleGiven : ¬ sampleGiven.Sound .ledger := by
  intro hsound
  have hfirst : (samplePayer.address .ledger, (⟨Block.fit 64 [1]⟩ : Signature)) ∈
      sampleGiven.signerSignatures := List.mem_cons_self
  have hfilled : (⟨Block.fit 64 [1]⟩ : Signature).isPlaceholder = false := by decide +kernel
  have hvalid := hsound.verifies_of_mem messageBytes_sampleGiven hfirst hfilled
  exact verifySignature_sampleGiven.1 hvalid

theorem isPlaceholder_sampleGiven :
    (samplePayer.sign .ledger sampleTwiceBytes).isPlaceholder = false :=
  CryptoSuite.rejectsZero_ledger.isPlaceholder_eq_false verifySignature_sampleGiven.2

theorem idxOf?_sampleGiven :
    sampleGiven.message.keys.idxOf? (samplePayer.address .ledger) = some 0 :=
  idxOf?_eq_some_iff_getElem?.mpr ⟨rfl, fun _ h => absurd h (Nat.not_lt_zero _)⟩

theorem not_verifiedFirst_sampleGiven : ¬ VerifiedFirst .ledger sampleTwiceBytes sampleGiven := by
  intro hfirst
  have hplace := hfirst 1 _ _ rfl rfl isPlaceholder_sampleGiven verifySignature_sampleGiven.2
  cases idxOf?_sampleGiven.symm.trans hplace

theorem validSignatures_sampleGiven :
    validSignatures .ledger sampleGiven sampleTwiceBytes =
      [(samplePayer.address .ledger,
        samplePayer.sign .ledger sampleTwiceBytes)] := by
  have hlisted : sampleGiven.signerSignatures =
      [(samplePayer.address .ledger, ⟨Block.fit 64 [1]⟩),
        (samplePayer.address .ledger,
          samplePayer.sign .ledger sampleTwiceBytes)] := rfl
  rw [validSignatures, hlisted, List.filter_cons_of_neg, List.filter_cons_of_pos, List.filter_nil]
  · simp only [isPlaceholder_sampleGiven, isOk_verifySignature_iff.mpr verifySignature_sampleGiven.2]
    rfl
  · simp only [Bool.and_eq_true, isOk_verifySignature_iff, verifySignature_sampleGiven.1, and_false,
      not_false_iff]

/-- The signature that verifies leaves its slot. -/
theorem buildTransaction_moves_sampleGiven :
    ∃ text tx, Transaction.ofBase64 text = .ok sampleGiven ∧
      ({ rawMessage := some text } : Request).buildTransaction .ledger = .ok tx ∧
      tx.signatures[0]? = some (samplePayer.sign .ledger sampleTwiceBytes) ∧
      tx.signatures[1]? = some .placeholder := by
  obtain ⟨text, htext⟩ := exists_text_sampleGiven
  obtain ⟨bytes, tx, hbytes, hbuilt, -, -, -, hslots, -, -⟩ :=
    buildTransaction_retains (r := { rawMessage := some text }) rfl rfl htext
  obtain rfl : bytes = sampleTwiceBytes := Except.ok.inj (hbytes.symm.trans messageBytes_sampleGiven)
  refine ⟨text, tx, htext, hbuilt, ?_, ?_⟩
  · rw [hslots not_sound_sampleGiven 0 (samplePayer.address .ledger) rfl,
      if_pos idxOf?_sampleGiven, validSignatures_sampleGiven]
    simp [lastSignature?]
  · rw [hslots not_sound_sampleGiven 1 (samplePayer.address .ledger) rfl, if_neg]
    intro hplace
    cases idxOf?_sampleGiven.symm.trans hplace

/-- Not every signature that verifies is kept in its own slot. -/
theorem not_forall_keepsVerified :
    ¬ ∀ (r : Request) (raw : String) (given : Transaction) (bytes : List UInt8),
      r.rawMessage = some raw → r.recentBlockhash = "" → Transaction.ofBase64 raw = .ok given →
        given.messageBytes = .ok bytes →
          ∃ tx, r.buildTransaction .ledger = .ok tx ∧ KeepsVerified .ledger bytes given tx := by
  intro hall
  obtain ⟨text, htext⟩ := exists_text_sampleGiven
  have hblockhash : ({ rawMessage := some text } : Request).recentBlockhash = "" := rfl
  obtain ⟨tx, hbuilt, hkeeps⟩ := hall { rawMessage := some text } text sampleGiven
    sampleTwiceBytes rfl rfl htext messageBytes_sampleGiven
  obtain ⟨bytes, made, hbytes, hmade, -, hretained⟩ := exists_rawTransaction hblockhash htext
  obtain rfl : bytes = sampleTwiceBytes := Except.ok.inj (hbytes.symm.trans messageBytes_sampleGiven)
  obtain rfl : tx = retained .ledger sampleTwiceBytes sampleGiven := by
    rw [← hretained not_sound_sampleGiven]
    exact Except.ok.inj (hbuilt.symm.trans hmade)
  exact not_verifiedFirst_sampleGiven ((keepsVerified_retained_iff rfl).mp hkeeps)

end SolanaWallet.Request
