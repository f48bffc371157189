import SolanaWallet.Address

/-!
# Instructions

An instruction asks one program to do something: it names the program and the
accounts the program may touch, says how it may touch each of them, and
carries data that only the program understands.
-/

namespace SolanaWallet

/-- An account named by an instruction, and what the instruction needs of it. -/
structure AccountMeta where
  address : Address
  signer : Bool
  writable : Bool
deriving DecidableEq

namespace AccountMeta

/-- An account that may be written and need not sign. -/
def write (address : Address) : AccountMeta := ⟨address, false, true⟩

/-- An account that may be written and signs. -/
def writeSigned (address : Address) : AccountMeta := ⟨address, true, true⟩

/-- An account that is only read and need not sign. -/
def read (address : Address) : AccountMeta := ⟨address, false, false⟩

/-- An account that is only read and signs. -/
def readSigned (address : Address) : AccountMeta := ⟨address, true, false⟩

end AccountMeta

/-- A call of a program. -/
structure Instruction where
  program : Address
  accounts : List AccountMeta
  data : List UInt8
deriving DecidableEq

/-- The instruction with further accounts that are only read and do not sign.
The program does not use them: they let a transaction be found by address. -/
def Instruction.withReferences (ix : Instruction) (references : List Address) : Instruction :=
  { ix with accounts := ix.accounts ++ references.map AccountMeta.read }

end SolanaWallet
