import SolanaWallet.Instruction
import SolanaWallet.Message.Basic

/-!
# The key table of a list of instructions

Every account that the instructions mention gets one place in the table:
signers come first, then the others that are written, then those that are
only read, among them the programs.  An account mentioned several times stands
where the strongest mention puts it, in the order of first mentions of that
strength.
-/

namespace SolanaWallet

/-- The three parts of a key table under construction. -/
structure KeyTable where
  signers : List Address
  writable : List Address
  readonly : List Address
deriving DecidableEq

namespace KeyTable

/-- The most keys of which each has a one-byte index. -/
def maxKeys : Nat := 256

/-- The table without keys. -/
def empty : KeyTable := ⟨[], [], []⟩

/-- Mentions an account.  It goes to the end of the part that the mention asks
for, unless it is in that part or a stronger one already, and leaves the weaker
parts. -/
def mention (t : KeyTable) (account : AccountMeta) : KeyTable :=
  let a := account.address
  if account.signer then
    { signers := if a ∈ t.signers then t.signers else t.signers ++ [a]
      writable := t.writable.filter (· ≠ a)
      readonly := t.readonly.filter (· ≠ a) }
  else if account.writable then
    { t with
      writable := if a ∈ t.signers ∨ a ∈ t.writable then t.writable else t.writable ++ [a]
      readonly := t.readonly.filter (· ≠ a) }
  else
    { t with
      readonly :=
        if a ∈ t.signers ∨ a ∈ t.writable ∨ a ∈ t.readonly then t.readonly
        else t.readonly ++ [a] }

/-- Everything the instructions mention, in the order in which it counts: the
fee payer as a writable signer, the accounts of all instructions, and then
the programs. -/
def mentions (instructions : List Instruction) (feePayer : Option Address) : List AccountMeta :=
  feePayer.toList.map AccountMeta.writeSigned ++
    instructions.flatMap (·.accounts) ++
    instructions.map (AccountMeta.read ·.program)

/-- The table for a list of instructions. -/
def ofInstructions (instructions : List Instruction) (feePayer : Option Address) : KeyTable :=
  (mentions instructions feePayer).foldl mention empty

/-- All keys in the order of the table. -/
def keys (t : KeyTable) : List Address := t.signers ++ t.writable ++ t.readonly

/-- The header for the table, in which every signer is writable, if the table
and its counts are not too large. -/
def header (t : KeyTable) : Except Failure Header :=
  if maxKeys < t.keys.length then .error (.tooLarge (.accounts t.keys.length))
  else if 255 < t.signers.length then .error (.tooLarge .signers)
  else if 255 < t.readonly.length then .error (.tooLarge .readonly)
  else .ok {
    required := UInt8.ofNat t.signers.length
    readonlySigners := 0
    readonlyOthers := UInt8.ofNat t.readonly.length }

end KeyTable

/-- The header and the keys for a list of instructions. -/
def compileKeys (instructions : List Instruction) (feePayer : Option Address) :
    Except Failure (Header × List Address) := do
  let table := KeyTable.ofInstructions instructions feePayer
  let header ← table.header
  return (header, table.keys)

end SolanaWallet
