import SolanaWallet.Message.Basic
import SolanaWallet.Wire

/-!
# Messages on the wire

  legacy:     three header bytes, keys, blockhash, instructions
  version 0:  the byte 128, the same, lookups

A legacy message starts with its number of signers, so a first byte with the
high bit set marks a versioned one.  A message is only read if it is well
formed.
-/

namespace SolanaWallet

namespace Writer

/-- The bytes of a compiled instruction. -/
def instruction (ix : CompiledInstruction) : Except Failure (List UInt8) := do
  let accounts ← bytes ix.accounts
  let data ← bytes ix.data
  return ix.program :: accounts ++ data

/-- The bytes of a lookup. -/
def lookup (l : Lookup) : Except Failure (List UInt8) := do
  let writable ← bytes l.writable
  let readonly ← bytes l.readonly
  return l.table.bytes ++ writable ++ readonly

end Writer

namespace Message

/-- The byte that marks version 0. -/
def versionMark : UInt8 := 128

/-- What both formats have in common. -/
def bodyBytes (m : Message) : Except Failure (List UInt8) := do
  let keys ← Writer.list (fun key => .ok key.bytes) m.keys
  let instructions ← Writer.list Writer.instruction m.instructions
  return [m.header.required, m.header.readonlySigners, m.header.readonlyOthers] ++ keys ++
    m.blockhash.bytes ++ instructions

/-- The bytes that signers sign. -/
def serialize (m : Message) : Except Failure (List UInt8) := do
  let body ← m.bodyBytes
  match m.format with
  | .legacy => return body
  | .v0 lookups => do
    let tail ← Writer.list Writer.lookup lookups
    return versionMark :: body ++ tail

end Message

namespace Reader

/-- Takes an address, which is the given part. -/
def address (part : Part) : Reader Address := do
  let taken ← block 32 part
  return ⟨taken⟩

/-- Takes a compiled instruction. -/
def instruction : Reader CompiledInstruction := do
  let program ← byte
  let accounts ← bytes .instructionAccounts
  let data ← bytes .instructionData
  return { program, accounts, data }

/-- Takes a lookup. -/
def lookup : Reader Lookup := do
  let table ← address .lookupKey
  let writable ← bytes .writableIndexes
  let readonly ← bytes .readonlyIndexes
  return { table, writable, readonly }

/-- Takes what both formats have in common, as a legacy message. -/
def body : Reader Message := do
  let required ← byte
  let readonlySigners ← byte
  let readonlyOthers ← byte
  let keys ← list (address .accountKey)
  let blockhash ← block 32 .blockhash
  let instructions ← list instruction
  return {
    header := { required, readonlySigners, readonlyOthers }
    keys, blockhash := ⟨blockhash⟩, instructions, format := .legacy }

/-- Refuses a message that is not well formed. -/
def wellFormed (m : Message) : Reader Message :=
  if m.header.Fits m.keys.length then
    if m.WellFormed then return m else throw .index
  else throw (.header m.header m.keys.length)

/-- Takes a message. -/
def message : Reader Message := fun input =>
  match input with
  | [] => .error .emptyMessage
  | first :: rest =>
    if first < Message.versionMark then (body >>= wellFormed).run input
    else if first ≠ Message.versionMark then .error (.version (first.toNat - 128))
    else
      (do
        let m ← body
        let lookups ← list lookup
        wellFormed { m with format := .v0 lookups } : Reader Message).run rest

end Reader

/-- The message that makes up the whole of `input`. -/
def Message.deserialize (input : List UInt8) : Except Failure Message :=
  match Reader.runAll Reader.message .message input with
  | .ok m => .ok m
  | .error fault => .error (.wire fault)

end SolanaWallet
