import SolanaWallet.Proofs.Outcome
import SolanaWallet.Proofs.Text.Identifiers
import SolanaWallet.Request.Build

/-!
# Opening a request

A message is built from a request in steps of which each reads some fields.
The equivalences of this file say what a built message comes from: the kind
with its addresses, the instructions in front, the instructions of the kind,
the fee payer and the blockhash.
-/

namespace SolanaWallet

variable {suite : CryptoSuite}

/-! ## Passing failures on -/

namespace Attempt

variable {α : Type} {result : Except Failure α} {a : α}

theorem plain_eq_ok_iff : plain result = .ok a ↔ result = .ok a :=
  exceptMapError_eq_ok_iff

theorem inField_eq_ok_iff {name : String} : inField name result = .ok a ↔ result = .ok a :=
  exceptMapError_eq_ok_iff

end Attempt

/-! ## Addresses in fields -/

theorem addressField_text (name : String) (a : Address) : addressField name a.text = .ok a :=
  Attempt.inField_eq_ok_iff.mpr (Address.ofText_eq_ok_iff.mpr rfl)

/-- The text of an address never counts as a field that is not given. -/
theorem isEmpty_text (a : Address) : a.text.isEmpty = false := by
  simpa using a.text_ne_empty

theorem filled_text (a : Address) : filled (some a.text) = some a.text := by
  rw [filled, isEmpty_text]
  rfl

/-! ## Instructions -/

namespace Request

variable {r : Request} {kind : Kind} {m : Message} {instructions : List Instruction}

theorem instructions_eq_ok_iff :
    r.instructions suite = .ok instructions ↔
      ∃ kind signer nonce rest, r.kind = some kind ∧ r.signerAddress suite = .ok signer ∧
        r.nonceAddress kind = .ok nonce ∧ r.kindInstructions suite signer kind = .ok rest ∧
        instructions = r.opening nonce signer ++ rest := by
  unfold Request.instructions
  cases r.kind with
  | none =>
    constructor
    · intro h
      cases h
    · rintro ⟨kind, signer, nonce, rest, hkind, -⟩
      cases hkind
  | some kind =>
    simp only [exceptBind_eq_ok_iff]
    constructor
    · rintro ⟨signer, hsigner, nonce, hnonce, rest, hrest, h⟩
      obtain rfl := exceptPure_eq_ok_iff.mp h
      exact ⟨kind, signer, nonce, rest, rfl, hsigner, hnonce, hrest, rfl⟩
    · rintro ⟨_, signer, nonce, rest, hkind, hsigner, hnonce, hrest, rfl⟩
      cases hkind
      exact ⟨signer, hsigner, nonce, hnonce, rest, hrest, rfl⟩

theorem build_eq_ok_iff :
    r.build suite = .ok m ↔
      ∃ instructions payer blockhash, r.instructions suite = .ok instructions ∧
        r.feePayerAddress suite = .ok payer ∧ r.blockhash = .ok blockhash ∧
        Message.compile instructions (some payer) blockhash r.v0 = .ok m := by
  unfold build
  simp only [exceptBind_eq_ok_iff, Attempt.plain_eq_ok_iff]
  constructor
  · rintro ⟨instructions, hinstructions, payer, hpayer, blockhash, hblockhash, h⟩
    exact ⟨instructions, payer, blockhash, hinstructions, hpayer, hblockhash, h⟩
  · rintro ⟨instructions, payer, blockhash, hinstructions, hpayer, hblockhash, h⟩
    exact ⟨instructions, hinstructions, payer, hpayer, blockhash, hblockhash, h⟩

/-- A nonce is advanced first exactly if that is what the kind is for, or the
request names one. -/
theorem nonceAddress_eq_ok_none_iff :
    r.nonceAddress kind = .ok none ↔
      (∀ account, kind ≠ .advanceNonce account) ∧ filled r.nonceAccount = none := by
  unfold nonceAddress
  split
  · rename_i account
    rw [exceptMap_eq_ok_iff]
    simp
  · rename_i hkind
    cases hfilled : filled r.nonceAccount with
    | none =>
      rw [exceptPure_eq_ok_iff]
      simpa using hkind
    | some text => simp [exceptMap_eq_ok_iff]

end Request

end SolanaWallet
