import SolanaWallet.Instruction
import SolanaWallet.Message.Compile
import SolanaWallet.Program.ComputeBudget
import SolanaWallet.Program.System

/-!
# Edits of a compiled message

A message that was built elsewhere can be changed without its instructions
being known in full.  The key table keeps its four regions:

  writable signers, read-only signers, writable others, read-only others.

A new key goes to the end of its region, and every index at or past its place
moves up by one, so that the instructions refer to the same accounts as
before.

An edit that fails leaves the message as far as it had come: a count may have
been raised, and some of the indices moved.
-/

namespace SolanaWallet

/-- An edit of a message: it ends with a result or a failure, and either way
with a message. -/
abbrev Edit := EStateM Failure Message

/-! ## Moving indices -/

/-- Applies `f` to the items in turn, up to and including the first for which
it says that it failed; the second part says whether none did. -/
def mapUntilFailure {α : Type} (f : α → α × Bool) : List α → List α × Bool
  | [] => ([], true)
  | item :: rest =>
    let (changed, succeeded) := f item
    if succeeded then
      let (others, complete) := mapUntilFailure f rest
      (changed :: others, complete)
    else (changed :: rest, false)

/-- Moves an index at or past `start` up by one, unless it is 255. -/
def shiftIndex (start index : UInt8) : UInt8 × Bool :=
  if index < start then (index, true)
  else if index = 255 then (index, false)
  else (index + 1, true)

/-- Moves the program's index and then the accounts' indices, up to the first
that cannot be moved. -/
def CompiledInstruction.shift (start : UInt8) (ix : CompiledInstruction) :
    CompiledInstruction × Bool :=
  let (program, moved) := shiftIndex start ix.program
  if moved then
    let (accounts, complete) := mapUntilFailure (shiftIndex start) ix.accounts
    ({ ix with program, accounts }, complete)
  else (ix, false)

/-! ## Regions -/

/-- The four regions of a key table, in order. -/
inductive Region where
  | writableSigners
  | readonlySigners
  | writableOthers
  | readonlyOthers
deriving DecidableEq

/-- The region in which an account with these flags stands. -/
def AccountMeta.region (account : AccountMeta) : Region :=
  match account.signer, account.writable with
  | true, true => .writableSigners
  | true, false => .readonlySigners
  | false, true => .writableOthers
  | false, false => .readonlyOthers

/-- The place just past the last key of a region. -/
def Message.regionEnd (m : Message) : Region → Nat
  | .writableSigners => m.header.required.toNat - m.header.readonlySigners.toNat
  | .readonlySigners => m.header.required.toNat
  | .writableOthers => m.keys.length - m.header.readonlyOthers.toNat
  | .readonlyOthers => m.keys.length

namespace Edit

/-! ## Steps -/

/-- Fails for a reason. -/
def fail {α : Type} (reason : Failure) : Edit α := fun m => .error reason m

/-- Uses a result that does not depend on the message. -/
def ofExcept {α : Type} : Except Failure α → Edit α
  | .ok result => pure result
  | .error reason => fail reason

/-- Counts one more signer. -/
def raiseRequired (fault : SizeFault) : Edit Unit := fun m =>
  if m.header.required = 255 then .error (.tooLarge fault) m
  else .ok () { m with header := { m.header with required := m.header.required + 1 } }

/-- Counts one more read-only signer. -/
def raiseReadonlySigners (fault : SizeFault) : Edit Unit := fun m =>
  if m.header.readonlySigners = 255 then .error (.tooLarge fault) m
  else .ok () { m with header :=
    { m.header with readonlySigners := m.header.readonlySigners + 1 } }

/-- Counts one more read-only key that does not sign. -/
def raiseReadonlyOthers (fault : SizeFault) : Edit Unit := fun m =>
  if m.header.readonlyOthers = 255 then .error (.tooLarge fault) m
  else .ok () { m with header :=
    { m.header with readonlyOthers := m.header.readonlyOthers + 1 } }

/-- Counts one more key in a region. -/
def raise : Region → Edit Unit
  | .writableSigners => raiseRequired .region
  | .readonlySigners => do
    raiseRequired .region
    raiseReadonlySigners .region
  | .writableOthers => pure ()
  | .readonlyOthers => raiseReadonlyOthers .region

/-- Moves every index at or past `start` up by one. -/
def shift (start : UInt8) : Edit Unit := fun m =>
  let (instructions, complete) :=
    mapUntilFailure (CompiledInstruction.shift start) m.instructions
  if complete then .ok () { m with instructions }
  else .error (.tooLarge .shiftedIndex) { m with instructions }

/-- Puts a key into the table. -/
def insertKey (index : Nat) (address : Address) : Edit Unit := fun m =>
  .ok () { m with keys := m.keys.insertIdx index address }

/-- Puts an instruction into the list. -/
def insertCompiled (position : Nat) (ix : CompiledInstruction) : Edit Unit := fun m =>
  .ok () { m with instructions := m.instructions.insertIdx position ix }

/-! ## Accounts -/

/-- The place of an account that is in the table already, if it stands there
with the same flags. -/
def listedAccount (account : AccountMeta) (index : Nat) : Edit UInt8 := fun m =>
  if account.signer = decide (index < m.header.signerCount) ∧
      account.writable = m.isWritable index then
    ofExcept (byteIndex index) m
  else .error (.parameter (.flags account.address)) m

/-- Puts an account that is not in the table yet at the end of its region. -/
def newAccount (account : AccountMeta) : Edit UInt8 := do
  let m ← get
  let index ← ofExcept (byteIndex (m.regionEnd account.region))
  raise account.region
  shift index
  insertKey index.toNat account.address
  return index

/-- Finds an account in the table or puts it there. -/
def pushAccount (account : AccountMeta) : Edit UInt8 := fun m =>
  match m.keys.idxOf? account.address with
  | some index => listedAccount account index m
  | none => newAccount account m

/-- Finds accounts in the table or puts them there, one after the other. -/
def pushAccounts : List AccountMeta → Edit (List UInt8)
  | [] => pure []
  | account :: rest => do
    let index ← pushAccount account
    let indices ← pushAccounts rest
    return index :: indices

/-- Finds an address in the table, whatever its flags, or appends it as a
read-only key that does not sign.  Only indices of loaded accounts move. -/
def pushReadonly (address : Address) : Edit UInt8 := fun m =>
  match m.keys.idxOf? address with
  | some index =>
    if index < 256 then .ok (UInt8.ofNat index) m else .error (.tooLarge .shiftedIndex) m
  | none =>
    if m.keys.length < 256 then
      let index := UInt8.ofNat m.keys.length
      (do
        raiseReadonlyOthers .readonlyCount
        shift index
        modify fun m => { m with keys := m.keys ++ [address] }
        return index : Edit UInt8) m
    else .error (.tooLarge .tableFull) m

/-! ## Instructions and the fee payer -/

/-- Puts an instruction at `position`, with the accounts it needs. -/
def insertInstruction (position : Nat) (ix : Instruction) : Edit Unit := do
  let count := (← get).instructions.length
  if count < position then
    fail (.parameter (.insertPosition position count))
  else
    let accounts ← pushAccounts ix.accounts
    let program ← pushReadonly ix.program
    insertCompiled position { program, accounts, data := ix.data }

/-- Makes an address that takes no part in the message its first signer. -/
def setFeePayer (payer : Address) : Edit Unit := do
  if payer ∈ (← get).keys then
    fail (.parameter (.feePayerListed payer))
  else
    raiseRequired .signers
    shift 0
    insertKey 0 payer

end Edit

/-! ## The compute budget -/

namespace Message

/-- The address of the program that an instruction calls, if it has one. -/
def programOf? (m : Message) (ix : CompiledInstruction) : Option Address :=
  m.keys[ix.program.toNat]?

/-- The compute budget setting that an instruction makes. -/
def settingOf? (m : Message) (ix : CompiledInstruction) : Option ComputeBudget :=
  if m.programOf? ix = some Known.computeBudget then ComputeBudget.ofData? ix.data else none

/-- The price that the first instruction to set one sets. -/
def unitPrice? (m : Message) : Option UInt64 :=
  m.instructions.findSome? fun ix => m.settingOf? ix >>= ComputeBudget.price?

/-- The limit that the first instruction to set one sets. -/
def unitLimit? (m : Message) : Option UInt32 :=
  m.instructions.findSome? fun ix => m.settingOf? ix >>= ComputeBudget.limit?

/-- Whether the first instruction advances a nonce. -/
def startsWithAdvanceNonce (m : Message) : Bool :=
  match m.instructions with
  | [] => false
  | first :: _ =>
    m.programOf? first == some Known.system && SystemProgram.isAdvanceNonce first.data

end Message

namespace Edit

/-- Replaces the data of the instruction at `position`. -/
def setData (position : Nat) (data : List UInt8) : Edit Unit := fun m =>
  .ok () { m with
    instructions := m.instructions.modify position fun ix => { ix with data } }

/-- Puts a compute budget instruction at `position`. -/
def insertSetting (position : Nat) (setting : ComputeBudget) : Edit Unit := do
  let program ← pushReadonly Known.computeBudget
  insertCompiled position { program, accounts := [], data := setting.data }

/-- Sets the price: in the instruction that sets it, or in a new last one. -/
def setUnitPrice (price : UInt64) : Edit Unit := do
  let m ← get
  let sets ix := (m.settingOf? ix >>= ComputeBudget.price?).isSome
  match m.instructions.findIdx? sets with
  | some position => setData position (ComputeBudget.unitPrice price).data
  | none => insertSetting m.instructions.length (.unitPrice price)

/-- Sets the limit: in the instruction that sets it, or in a new first one.
Only an instruction that advances a nonce stays in front of it. -/
def setUnitLimit (units : UInt32) : Edit Unit := do
  let m ← get
  let sets ix := (m.settingOf? ix >>= ComputeBudget.limit?).isSome
  match m.instructions.findIdx? sets with
  | some position => setData position (ComputeBudget.unitLimit units).data
  | none => insertSetting (if m.startsWithAdvanceNonce then 1 else 0) (.unitLimit units)

end Edit

end SolanaWallet
