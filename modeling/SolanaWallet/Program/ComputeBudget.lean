import SolanaWallet.Instruction
import SolanaWallet.Program.Known

/-!
# The compute budget program

A transaction may limit the compute units it uses and offer a price for each.
-/

namespace SolanaWallet

/-- The settings of the compute budget that are read and written here. -/
inductive ComputeBudget where
  /-- The most compute units the transaction may use. -/
  | unitLimit (units : UInt32)
  /-- The price of a compute unit in millionths of a lamport. -/
  | unitPrice (microLamports : UInt64)
deriving DecidableEq

namespace ComputeBudget

/-- The instruction data of a setting: its number and its value. -/
def data : ComputeBudget → List UInt8
  | .unitLimit units => 2 :: bytes32 units
  | .unitPrice price => 3 :: bytes64 price

/-- The setting with the given instruction data; the length must be exact. -/
def ofData? : List UInt8 → Option ComputeBudget
  | [] => none
  | number :: value =>
    if number = 2 ∧ value.length = 4 then
      some (.unitLimit (UInt32.ofNat (ofLittleEndian value)))
    else if number = 3 ∧ value.length = 8 then
      some (.unitPrice (UInt64.ofNat (ofLittleEndian value)))
    else none

/-- The instruction that makes a setting. -/
def instruction (setting : ComputeBudget) : Instruction :=
  { program := Known.computeBudget, accounts := [], data := setting.data }

/-- The price, if that is what is set. -/
def price? : ComputeBudget → Option UInt64
  | .unitPrice price => some price
  | .unitLimit _ => none

/-- The limit, if that is what is set. -/
def limit? : ComputeBudget → Option UInt32
  | .unitLimit units => some units
  | .unitPrice _ => none

end ComputeBudget

end SolanaWallet
