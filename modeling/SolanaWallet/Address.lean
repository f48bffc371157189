import SolanaWallet.Bytes
import SolanaWallet.Text.Base58

/-!
# Addresses, blockhashes and signatures

All three are bytes of fixed length shown as Base58 text, with no checksum.
An address is usually a public key, but derived addresses and well-known
constants are addresses too, so no curve test is made here.
-/

namespace SolanaWallet

/-! ## Blocks as text -/

/-- Why a text or a byte string is not a block of the expected length. -/
inductive BlockFault where
  | text (fault : Base58.Fault)
  | length (actual : Nat)
deriving DecidableEq

namespace Block

variable {n : Nat}

/-- The Base58 form of a block. -/
def toText (b : Block n) : String :=
  Base58.encode b.bytes

/-- The block with exactly these bytes. -/
def ofBytes (n : Nat) (bytes : List UInt8) : Except BlockFault (Block n) :=
  match ofBytes? n bytes with
  | some b => .ok b
  | none => .error (.length bytes.length)

/-- The block with the given Base58 form. -/
def ofText (n : Nat) (text : String) : Except BlockFault (Block n) :=
  match Base58.decode text with
  | .ok bytes => ofBytes n bytes
  | .error fault => .error (.text fault)

end Block

/-! ## The three kinds -/

/-- The name of an account. -/
structure Address extends Block 32
deriving DecidableEq

/-- A recent blockhash, or the value of a durable nonce: what ties a message
to a moment. -/
structure Blockhash extends Block 32
deriving DecidableEq

/-- A signature.  The zero signature marks a slot that nobody has signed. -/
structure Signature extends Block 64
deriving DecidableEq

namespace Address

/-- The text in which an address is shown. -/
def text (a : Address) : String := a.toBlock.toText

/-- The text in which an address is shown with its kind. -/
def describe (a : Address) : String := s!"Address({a.text})"

/-- Whether a text is the Base58 form of 32 bytes. -/
def isValid (text : String) : Bool := (Block.ofText 32 text).isOk

/-- The order of addresses by their bytes. -/
def le (a b : Address) : Bool := decide (a.bytes ≤ b.bytes)

end Address

namespace Blockhash

/-- The text in which a blockhash is shown. -/
def text (h : Blockhash) : String := h.toBlock.toText

/-- The text in which a blockhash is shown with its kind. -/
def describe (h : Blockhash) : String := s!"Hash({h.text})"

end Blockhash

namespace Signature

/-- The text in which a signature is shown. -/
def text (s : Signature) : String := s.toBlock.toText

/-- The text in which a signature is shown with its kind. -/
def describe (s : Signature) : String := s!"Signature({s.text})"

/-- The signature of an unsigned slot. -/
def placeholder : Signature := ⟨Block.zero 64⟩

/-- Whether the signature marks an unsigned slot. -/
def isPlaceholder (s : Signature) : Bool := s.bytes.all (· == 0)

theorem isPlaceholder_iff {s : Signature} : s.isPlaceholder = true ↔ s = placeholder := by
  constructor
  · intro h
    have hzero : s.bytes = List.replicate 64 0 := by
      rw [List.eq_replicate_iff]
      exact ⟨s.length_bytes, by simpa [isPlaceholder] using h⟩
    obtain ⟨⟨bytes, hlength⟩⟩ := s
    cases hzero
    rfl
  · rintro rfl
    decide

end Signature

end SolanaWallet
