import SolanaWallet.Instruction
import SolanaWallet.Program.Known

/-!
# The system program

Transfers, account creation and durable nonces.  The data of each instruction
starts with its number in four bytes, and amounts take eight.
-/

namespace SolanaWallet.SystemProgram

open AccountMeta

/-- The space of a nonce account. -/
def nonceSpace : UInt64 := 80

/-- An instruction of the system program: its number, arguments and accounts. -/
def call (number : UInt32) (arguments : List UInt8) (accounts : List AccountMeta) : Instruction :=
  { program := Known.system, accounts, data := bytes32 number ++ arguments }

/-- Creates `account`, which signs, and funds it. -/
def createAccount (source account : Address) (lamports space : UInt64) (owner : Address) :
    Instruction :=
  call 0 (bytes64 lamports ++ bytes64 space ++ owner.bytes)
    [writeSigned source, writeSigned account]

/-- Moves lamports. -/
def transfer (source target : Address) (lamports : UInt64) : Instruction :=
  call 2 (bytes64 lamports) [writeSigned source, write target]

/-- Creates `account`, an address derived from `base` and `seed`, and funds it.
The seed is preceded by its length in eight bytes. -/
def createAccountWithSeed (source account base : Address) (seed : List UInt8)
    (lamports space : UInt64) (owner : Address) : Instruction :=
  call 3
    (base.bytes ++ littleEndian 8 seed.length ++ seed ++ bytes64 lamports ++ bytes64 space ++
      owner.bytes)
    [writeSigned source, write account, readSigned base]

/-- The data of an instruction that advances a nonce. -/
def advanceNonceData : List UInt8 := bytes32 4

/-- Moves a nonce account to its next value. -/
def advanceNonce (nonce authority : Address) : Instruction :=
  { program := Known.system
    accounts := [write nonce, read Known.recentBlockhashes, readSigned authority]
    data := advanceNonceData }

/-- Whether `data` asks to advance a nonce. -/
def isAdvanceNonce (data : List UInt8) : Bool := data == advanceNonceData

/-- Makes a nonce account usable under `authority`. -/
def initializeNonce (nonce authority : Address) : Instruction :=
  call 6 authority.bytes [write nonce, read Known.recentBlockhashes, read Known.rent]

/-- Moves lamports out of a nonce account. -/
def withdrawNonce (nonce authority target : Address) (lamports : UInt64) : Instruction :=
  call 5 (bytes64 lamports)
    [write nonce, write target, read Known.recentBlockhashes, read Known.rent,
      readSigned authority]

/-- Creates a nonce account owned by the system program and makes it usable. -/
def createNonce (source nonce authority : Address) (lamports : UInt64) : List Instruction :=
  [createAccount source nonce lamports nonceSpace Known.system, initializeNonce nonce authority]

end SolanaWallet.SystemProgram
