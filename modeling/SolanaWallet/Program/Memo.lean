import SolanaWallet.Instruction
import SolanaWallet.Program.Known

/-!
# The memo program

A memo puts a text on the ledger.
-/

namespace SolanaWallet.MemoProgram

/-- The text as data, and no accounts. -/
def memo (text : String) : Instruction :=
  { program := Known.memo, accounts := [], data := text.toUTF8.toList }

end SolanaWallet.MemoProgram
