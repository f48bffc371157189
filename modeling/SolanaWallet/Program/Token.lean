import SolanaWallet.Instruction
import SolanaWallet.Program.Known

/-!
# The token programs

Both token programs understand the same instructions; only the address
differs.
-/

namespace SolanaWallet

/-- The program that owns a mint. -/
inductive TokenProgram where
  | token
  | token2022
deriving DecidableEq

namespace TokenProgram

open AccountMeta

/-- The address of the program. -/
def address : TokenProgram → Address
  | .token => Known.token
  | .token2022 => Known.token2022

/-- Creates the token account of `wallet` for `mint`, which must be the
associated one.  The instruction carries no data. -/
def createAssociatedAccount (program : TokenProgram)
    (funding wallet mint tokenAccount : Address) : Instruction :=
  { program := Known.associatedToken
    accounts :=
      [writeSigned funding, write tokenAccount, read wallet, read mint, read Known.system,
        read program.address, read Known.rent]
    data := [] }

/-- Moves tokens; the program checks that the mint has this many decimals. -/
def transferChecked (program : TokenProgram) (source mint target owner : Address)
    (amount : UInt64) (decimals : UInt8) : Instruction :=
  { program := program.address
    accounts := [write source, read mint, write target, readSigned owner]
    data := 12 :: bytes64 amount ++ [decimals] }

end TokenProgram

end SolanaWallet
