import SolanaWallet.Message.KeyTable

/-!
# Compiling instructions to a message

The accounts of all instructions are laid out in one key table, and each
address is replaced by its first place in it.
-/

namespace SolanaWallet

/-- A place in the key table as a byte. -/
def byteIndex (index : Nat) : Except Failure UInt8 :=
  if index < 256 then .ok (UInt8.ofNat index) else .error (.tooLarge (.index index))

/-- The first place of an address in a key table. -/
def keyIndex (keys : List Address) (address : Address) : Except Failure UInt8 :=
  match keys.idxOf? address with
  | none => .error (.account (.notInTable address))
  | some index => byteIndex index

/-- The instruction with every address replaced by its place, the accounts
before the program. -/
def Instruction.compile (keys : List Address) (ix : Instruction) :
    Except Failure CompiledInstruction := do
  let accounts ← ix.accounts.mapM fun account => keyIndex keys account.address
  let program ← keyIndex keys ix.program
  return { program, accounts, data := ix.data }

/-- All instructions against one key table. -/
def compileInstructions (instructions : List Instruction) (keys : List Address) :
    Except Failure (List CompiledInstruction) :=
  instructions.mapM (Instruction.compile keys)

/-- The message that carries out the instructions in order.  A message of
version 0 is compiled without lookups. -/
def Message.compile (instructions : List Instruction) (feePayer : Option Address)
    (blockhash : Blockhash) (v0 : Bool) : Except Failure Message := do
  let (header, keys) ← compileKeys instructions feePayer
  let compiled ← compileInstructions instructions keys
  return {
    header, keys, blockhash
    instructions := compiled
    format := if v0 then .v0 [] else .legacy }

end SolanaWallet
