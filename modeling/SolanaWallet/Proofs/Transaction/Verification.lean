import SolanaWallet.Proofs.Transaction.Slots
import SolanaWallet.Proofs.Transaction.Wire

/-!
# What a sound transaction is worth

A transaction that is sound lacks only two things to be sent: a signature in
every slot, and a message that can be told apart from the messages of the other
format.  If it has both then every signature of it verifies
(`Sound.verify_eq_ok`), and it is read back from what is written for it
(`Sound.ofBytes_eq_ok`).
-/

namespace SolanaWallet.Transaction

variable {suite : CryptoSuite} {tx : Transaction} {bytes : List UInt8}

/-! ## Slots and their signers -/

theorem getElem?_signerSignatures (hslots : tx.signatures.length = tx.message.header.signerCount)
    {slot : Nat} {entry : Address × Signature} :
    tx.signerSignatures[slot]? = some entry ↔
      tx.message.keys[slot]? = some entry.1 ∧ tx.signatures[slot]? = some entry.2 := by
  rw [signerSignatures, List.getElem?_zip_eq_some]
  refine and_congr_left fun hsignature => ?_
  have hslot : slot < tx.message.header.signerCount := by
    rw [← hslots]
    exact (List.getElem?_eq_some_iff.mp hsignature).1
  rw [Message.signerKeys, List.getElem?_take_of_lt hslot]

theorem mem_signerSignatures_iff (hslots : tx.signatures.length = tx.message.header.signerCount)
    {entry : Address × Signature} :
    entry ∈ tx.signerSignatures ↔
      ∃ slot : Nat, tx.message.keys[slot]? = some entry.1 ∧ tx.signatures[slot]? = some entry.2 := by
  rw [List.mem_iff_getElem?]
  exact exists_congr fun _ => getElem?_signerSignatures hslots

theorem map_fst_signerSignatures (hslots : tx.signatures.length = tx.message.header.signerCount) :
    tx.signerSignatures.map Prod.fst = tx.message.signerKeys :=
  List.map_fst_zip ((List.length_take_le _ _).trans hslots.ge)

theorem map_snd_signerSignatures (hfits : tx.message.header.Fits tx.message.keys.length)
    (hslots : tx.signatures.length = tx.message.header.signerCount) :
    tx.signerSignatures.map Prod.snd = tx.signatures := by
  apply List.map_snd_zip
  rw [hslots]
  exact (Message.length_signerKeys hfits).ge

/-! ## Verification -/

theorem verifyAll_eq_ok_iff {entries : List (Address × Signature)} :
    verifyAll suite bytes entries = .ok () ↔
      ∀ entry ∈ entries, verifySignature suite entry.1 bytes entry.2 = .ok () := by
  induction entries with
  | nil => simp [verifyAll]
  | cons entry rest ih =>
    rw [verifyAll, exceptBind_eq_ok_iff, List.forall_mem_cons, ← ih]
    constructor
    · rintro ⟨_, hfirst, hrest⟩
      exact ⟨hfirst, hrest⟩
    · rintro ⟨hfirst, hrest⟩
      exact ⟨(), hfirst, hrest⟩

/-- Soundness is a matter of the signatures that are not placeholders. -/
theorem sound_iff (hm : tx.message.WellFormed)
    (hslots : tx.signatures.length = tx.message.header.signerCount)
    (hbytes : tx.messageBytes = .ok bytes) :
    Sound suite tx ↔ ∀ entry ∈ tx.signerSignatures,
      entry.2.isPlaceholder = true ∨ verifySignature suite entry.1 bytes entry.2 = .ok () := by
  have hsigned : ∀ entry : Address × Signature, tx.message.SignedBy suite entry.1 entry.2 ↔
      verifySignature suite entry.1 bytes entry.2 = .ok () := by
    intro entry
    constructor
    · rintro ⟨bytes', hbytes', hverify⟩
      obtain rfl : bytes' = bytes := Except.ok.inj (hbytes'.symm.trans hbytes)
      exact hverify
    · intro hverify
      exact ⟨bytes, hbytes, hverify⟩
  constructor
  · intro htx entry hentry
    obtain ⟨slot, hkey, hsignature⟩ := (mem_signerSignatures_iff hslots).mp hentry
    obtain ⟨address, haddress, hheld⟩ := htx.signed slot entry.2 hsignature
    obtain rfl : entry.1 = address := Option.some.inj (hkey.symm.trans haddress)
    rw [Signature.isPlaceholder_iff, ← hsigned]
    exact hheld
  · intro hentries
    refine ⟨hm, hslots, fun slot signature hsignature => ?_⟩
    have hlt : slot < tx.message.keys.length :=
      calc slot
          < tx.signatures.length := (List.getElem?_eq_some_iff.mp hsignature).1
        _ = tx.message.header.signerCount := hslots
        _ ≤ tx.message.keys.length := hm.1.1
    have hkey : tx.message.keys[slot]? = some tx.message.keys[slot] := List.getElem?_eq_getElem hlt
    have hentry : (tx.message.keys[slot], signature) ∈ tx.signerSignatures :=
      (mem_signerSignatures_iff hslots).mpr ⟨slot, hkey, hsignature⟩
    refine ⟨_, hkey, ?_⟩
    rw [← Signature.isPlaceholder_iff, hsigned (_, signature)]
    exact hentries _ hentry

namespace Sound

theorem verifies_of_mem (htx : Sound suite tx) (hbytes : tx.messageBytes = .ok bytes)
    {entry : Address × Signature} (hentry : entry ∈ tx.signerSignatures)
    (hsigned : entry.2.isPlaceholder = false) :
    verifySignature suite entry.1 bytes entry.2 = .ok () := by
  have hheld := (sound_iff htx.wellFormed htx.slots hbytes).mp htx entry hentry
  exact hheld.resolve_left (by simp [hsigned])

theorem verify_eq_ok (htx : Sound suite tx) (hbytes : tx.messageBytes = .ok bytes)
    (hfilled : ∀ entry ∈ tx.signerSignatures, entry.2.isPlaceholder = false) :
    tx.verify suite = .ok () := by
  rw [verify, exceptBind_eq_ok_iff]
  refine ⟨bytes, hbytes, verifyAll_eq_ok_iff.mpr fun entry hentry => ?_⟩
  exact htx.verifies_of_mem hbytes hentry (hfilled entry hentry)

theorem ofBytes_eq_ok (htx : Sound suite tx) (hclear : tx.message.HasClearFormat)
    {wire : List UInt8} (hwire : tx.serialize = .ok wire) : ofBytes wire = .ok tx :=
  ofBytes_eq_ok_iff.mpr ⟨⟨htx.wellFormed, hclear, htx.slots⟩, hwire⟩

end Sound

end SolanaWallet.Transaction
