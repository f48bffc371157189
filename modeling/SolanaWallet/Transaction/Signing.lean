import SolanaWallet.Transaction.Basic

/-!
# Filling signature slots

Keys and signatures come in any order: the slot of each is found by looking
its address up in the key table.  The slots that were filled before a failure
stay filled.
-/

namespace SolanaWallet

/-- A change of a transaction: it ends with a result or a failure, and either
way with a transaction. -/
abbrev Signing := EStateM Failure Transaction

namespace Transaction

/-- The slot of an address, if it is a required signer. -/
def slotOf (tx : Transaction) (address : Address) : Except Failure Nat := do
  let index ← tx.accountIndex address
  if index < tx.signatures.length then return index
  else throw (.account (.notSigner address))

/-- The transaction with another signature in a slot. -/
def fill (tx : Transaction) (slot : Nat) (signature : Signature) : Transaction :=
  { tx with signatures := tx.signatures.set slot signature }

end Transaction

namespace Signing

variable (suite : CryptoSuite)

/-- The transaction that a change leads to, if it succeeds. -/
def apply (change : Signing Unit) (tx : Transaction) : Except Failure Transaction :=
  match change tx with
  | .ok _ after => .ok after
  | .error reason _ => .error reason

/-- Signs `bytes` with each key and fills its slot. -/
def fillSlots (bytes : List UInt8) : List Keypair → Signing Unit
  | [] => pure ()
  | key :: rest => fun tx =>
    match tx.slotOf (key.address suite) with
    | .error reason => .error reason tx
    | .ok slot => fillSlots bytes rest (tx.fill slot (key.sign suite bytes))

/-- Signs with every key. -/
def sign (keys : List Keypair) : Signing Unit := fun tx =>
  match tx.messageBytes with
  | .error reason => .error reason tx
  | .ok bytes => fillSlots suite bytes keys tx

/-- Moves the transaction to another moment and signs with every key. -/
def signAt (keys : List Keypair) (blockhash : Blockhash) : Signing Unit := fun tx =>
  sign suite keys (tx.withBlockhash blockhash)

/-- Checks each signature and puts it into the slot of its address. -/
def placeSignatures (bytes : List UInt8) : List (Address × Signature) → Signing Unit
  | [] => pure ()
  | (address, signature) :: rest => fun tx =>
    match tx.slotOf address with
    | .error reason => .error reason tx
    | .ok slot =>
      match verifySignature suite address bytes signature with
      | .error reason => .error reason tx
      | .ok () => placeSignatures bytes rest (tx.fill slot signature)

/-- Adds signatures that were made elsewhere. -/
def addExternal (signatures : List (Address × Signature)) : Signing Unit := fun tx =>
  match tx.messageBytes with
  | .error reason => .error reason tx
  | .ok bytes => placeSignatures suite bytes signatures tx

end Signing

/-- The wire form of bytes signed with `keys`: the signatures in the order of
the keys, and the bytes unchanged. -/
def signRaw (suite : CryptoSuite) (keys : List Keypair) (raw : List UInt8) :
    Except Failure (List UInt8) := do
  let signatures ← Writer.list (fun key => .ok (key.sign suite raw).bytes) keys
  return signatures ++ raw

end SolanaWallet
