import SolanaWallet.Failure

/-!
# Messages

A message is what gets signed: a table of account keys, the moment it is tied
to, and instructions that refer to accounts by their place in the table.  A
message of version 0 may also pull accounts from lookup tables kept on the
ledger; those have no key in the message, and their indices follow the keys.
-/

namespace SolanaWallet

/-- An instruction whose program and accounts are indices. -/
structure CompiledInstruction where
  program : UInt8
  accounts : List UInt8
  data : List UInt8
deriving DecidableEq

namespace CompiledInstruction

/-- All indices of the instruction: the program first, then the accounts. -/
def indices (ix : CompiledInstruction) : List UInt8 := ix.program :: ix.accounts

/-- Every index is below `limit`. -/
def InRange (limit : Nat) (ix : CompiledInstruction) : Prop :=
  ∀ index ∈ ix.indices, index.toNat < limit

instance (limit : Nat) (ix : CompiledInstruction) : Decidable (ix.InRange limit) :=
  inferInstanceAs (Decidable (∀ index ∈ ix.indices, index.toNat < limit))

end CompiledInstruction

/-- Accounts loaded from a lookup table. -/
structure Lookup where
  table : Address
  writable : List UInt8
  readonly : List UInt8
deriving DecidableEq

/-- How many accounts a lookup loads. -/
def Lookup.count (l : Lookup) : Nat := l.writable.length + l.readonly.length

/-- The two formats of messages. -/
inductive Format where
  | legacy
  | v0 (lookups : List Lookup)
deriving DecidableEq

/-- The lookups of a message in this format. -/
def Format.lookups : Format → List Lookup
  | .legacy => []
  | .v0 lookups => lookups

/-- A compiled message. -/
structure Message where
  header : Header
  keys : List Address
  blockhash : Blockhash
  instructions : List CompiledInstruction
  format : Format
deriving DecidableEq

namespace Message

/-- How many accounts the message loads from lookup tables. -/
def loaded (m : Message) : Nat := (m.format.lookups.map Lookup.count).foldr (· + ·) 0

/-- Whether the message has version 0. -/
def isV0 (m : Message) : Bool :=
  match m.format with
  | .legacy => false
  | .v0 _ => true

/-- The keys that must sign, in the order of their signatures. -/
def signerKeys (m : Message) : List Address := m.keys.take m.header.signerCount

theorem length_signerKeys {m : Message} (hfits : m.header.Fits m.keys.length) :
    m.signerKeys.length = m.header.signerCount :=
  List.length_take_of_le hfits.1

/-- Whether the header puts the key at `index` into a writable region. -/
def isWritable (m : Message) (index : Nat) : Bool := m.header.writableAt m.keys.length index

/-- The header fits the key table, and every index of an instruction refers to
a key or a loaded account. -/
def WellFormed (m : Message) : Prop :=
  m.header.Fits m.keys.length ∧
    ∀ ix ∈ m.instructions, ix.InRange (m.keys.length + m.loaded)

instance (m : Message) : Decidable m.WellFormed :=
  inferInstanceAs (Decidable (_ ∧ ∀ ix ∈ m.instructions, ix.InRange (m.keys.length + m.loaded)))

end Message

end SolanaWallet
