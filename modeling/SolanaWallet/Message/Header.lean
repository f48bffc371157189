/-!
# The header of a message

Three counts cut the key table of a message into four regions:

  writable signers, read-only signers, writable others, read-only others.

The counts are single bytes, so each of them can be full.
-/

namespace SolanaWallet

/-- How many keys sign, and how many of the signers and of the others may only
be read. -/
structure Header where
  required : UInt8
  readonlySigners : UInt8
  readonlyOthers : UInt8
deriving DecidableEq

namespace Header

/-- The number of keys that must sign. -/
def signerCount (h : Header) : Nat := h.required.toNat

/-- The four regions have room in a table of `keys` keys. -/
def Fits (h : Header) (keys : Nat) : Prop :=
  h.required.toNat ≤ keys ∧
    h.readonlySigners.toNat ≤ h.required.toNat ∧
    h.readonlyOthers.toNat ≤ keys - h.required.toNat

instance (h : Header) (keys : Nat) : Decidable (h.Fits keys) :=
  inferInstanceAs (Decidable (_ ∧ _ ∧ _))

/-- Whether the key at `index` in a table of `keys` keys lies in one of the two
writable regions. -/
def writableAt (h : Header) (keys index : Nat) : Bool :=
  if index < h.required.toNat then
    decide (index < h.required.toNat - h.readonlySigners.toNat)
  else decide (index < keys - h.readonlyOthers.toNat)

/-- The text in which a header is shown. -/
def describe (h : Header) : String :=
  s!"MessageHeader \x7b num_required_signatures: {h.required.toNat}, " ++
    s!"num_readonly_signed_accounts: {h.readonlySigners.toNat}, " ++
    s!"num_readonly_unsigned_accounts: {h.readonlyOthers.toNat} \x7d"

end Header

end SolanaWallet
