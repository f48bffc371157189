import SolanaWallet.Failure
import SolanaWallet.Proofs.Text.Base58Form

/-!
# An identifier has one text

Addresses, blockhashes and signatures are read from texts of any kind and written
in one way only, so nothing is lost when one is passed on as text.  In particular
the empty text, which stands for a field that is not given, is the text of no
address.

All three are blocks with their own failures, so `OneText` is proved once, of
any kind of value that is a block of bytes and is read and shown as one.
-/

namespace SolanaWallet

/-! ## Blocks -/

namespace Block

variable {n : Nat} {b : Block n}

theorem ofBytes_eq_ok_iff {bytes : List UInt8} : ofBytes n bytes = .ok b ↔ bytes = b.bytes := by
  rw [← ofBytes?_eq_some_iff]
  unfold ofBytes
  cases ofBytes? n bytes with
  | none => simp
  | some block => simp

theorem ofText_eq_ok_iff {text : String} : ofText n text = .ok b ↔ text = b.toText := by
  have hdecode : ofText n text = .ok b ↔
      ∃ bytes, Base58.decode text = .ok bytes ∧ ofBytes n bytes = .ok b := by
    unfold ofText
    cases Base58.decode text with
    | ok bytes => simp
    | error fault => simp
  rw [hdecode]
  constructor
  · rintro ⟨bytes, htext, hbytes⟩
    rw [Base58.decode_eq_ok_iff.mp htext, ofBytes_eq_ok_iff.mp hbytes]
    rfl
  · rintro rfl
    exact ⟨b.bytes, Base58.decode_eq_ok_iff.mpr rfl, ofBytes_eq_ok_iff.mpr rfl⟩

theorem toText_ne_empty (hn : n ≠ 0) (b : Block n) : b.toText ≠ "" := by
  intro hempty
  have hbytes : b.bytes = [] := by
    have hdecode : Base58.decode "" = .ok b.bytes := Base58.decode_eq_ok_iff.mpr hempty.symm
    have hnothing : Base58.decode "" = .ok [] := by decide +kernel
    exact Except.ok.inj (hdecode.symm.trans hnothing)
  apply hn
  rw [← b.length_bytes, hbytes]
  rfl

end Block

/-! ## Addresses and signatures -/

theorem Address.ofText_eq_ok_iff {text : String} {a : Address} :
    ofText text = .ok a ↔ text = a.text := by
  rw [Address.text, ← Block.ofText_eq_ok_iff]
  unfold ofText
  cases Block.ofText 32 text with
  | ok block =>
    cases a
    simp
  | error fault => simp

theorem Address.text_ne_empty (a : Address) : a.text ≠ "" :=
  a.toBlock.toText_ne_empty (by decide)

theorem Signature.ofText_eq_ok_iff {text : String} {s : Signature} :
    ofText text = .ok s ↔ text = s.text := by
  rw [Signature.text, ← Block.ofText_eq_ok_iff]
  unfold ofText
  cases Block.ofText 64 text with
  | ok block =>
    cases s
    simp
  | error fault => simp

theorem Blockhash.ofText_eq_ok_iff {text : String} {h : Blockhash} :
    ofText text = .ok h ↔ text = h.text := by
  rw [Blockhash.text, ← Block.ofText_eq_ok_iff]
  unfold ofText
  cases Block.ofText 32 text with
  | ok block =>
    cases h
    simp
  | error fault => simp

/-! ## Which texts are read -/

/-- Every value has one text.  It is the Base58 form of its bytes, and the texts
that are read are the Base58 forms of `n` bytes. -/
structure OneText {α : Type} (n : Nat) (ofText : String → Except Failure α) (text : α → String)
    (bytes : α → List UInt8) : Prop where
  ofText_text : ∀ a, ofText (text a) = .ok a
  text_of_ofText : ∀ t a, ofText t = .ok a → text a = t
  isForm_text : ∀ a, Base58.IsForm (text a) (bytes a)
  isRead_iff : ∀ t, (∃ a, ofText t = .ok a) ↔
    ∃ given : List UInt8, given.length = n ∧ Base58.IsForm t given

theorem oneText_of_block {α : Type} {n : Nat} {ofText : String → Except Failure α}
    (toBlock : α → Block n) (ofBlock : Block n → α) (hblock : ∀ b, toBlock (ofBlock b) = b)
    (hread : ∀ t a, ofText t = .ok a ↔ t = (toBlock a).toText) :
    OneText n ofText (fun a => (toBlock a).toText) (fun a => (toBlock a).bytes) where
  ofText_text a := (hread _ a).mpr rfl
  text_of_ofText t a h := ((hread t a).mp h).symm
  isForm_text _ := Base58.isForm_iff_eq_encode.mpr rfl
  isRead_iff t := by
    constructor
    · rintro ⟨a, ha⟩
      obtain rfl := (hread t a).mp ha
      exact ⟨(toBlock a).bytes, (toBlock a).length_bytes, Base58.isForm_iff_eq_encode.mpr rfl⟩
    · rintro ⟨given, hlength, hform⟩
      refine ⟨ofBlock ⟨given, hlength⟩, (hread t _).mpr ?_⟩
      rw [hblock]
      exact Base58.isForm_iff_eq_encode.mp hform

theorem Address.isValid_iff {text : String} :
    isValid text = true ↔ ∃ a, ofText text = .ok a := by
  unfold isValid ofText
  cases Block.ofText 32 text with
  | ok block => exact iff_of_true rfl ⟨_, rfl⟩
  | error fault => exact iff_of_false Bool.false_ne_true fun ⟨_, h⟩ => by cases h

/-- **Identifiers and texts.** Addresses and blockhashes of 32 bytes and
signatures of 64 have one text each, and a text is a valid address exactly if it
is the Base58 form of 32 bytes. -/
theorem oneText_identifiers :
    OneText 32 Address.ofText Address.text (·.bytes) ∧
    OneText 32 Blockhash.ofText Blockhash.text (·.bytes) ∧
    OneText 64 Signature.ofText Signature.text (·.bytes) ∧
    ∀ t, Address.isValid t = true ↔
      ∃ bytes : List UInt8, bytes.length = 32 ∧ Base58.IsForm t bytes := by
  have haddress : OneText 32 Address.ofText Address.text (·.bytes) :=
    oneText_of_block Address.toBlock Address.mk (fun _ => rfl) fun _ _ =>
      Address.ofText_eq_ok_iff
  have hblockhash : OneText 32 Blockhash.ofText Blockhash.text (·.bytes) :=
    oneText_of_block Blockhash.toBlock Blockhash.mk (fun _ => rfl) fun _ _ =>
      Blockhash.ofText_eq_ok_iff
  have hsignature : OneText 64 Signature.ofText Signature.text (·.bytes) :=
    oneText_of_block Signature.toBlock Signature.mk (fun _ => rfl) fun _ _ =>
      Signature.ofText_eq_ok_iff
  exact ⟨haddress, hblockhash, hsignature,
    fun t => Address.isValid_iff.trans (haddress.isRead_iff t)⟩

end SolanaWallet
