import SolanaWallet.Transaction.Basic

/-!
# Transactions on the wire and as text

The signatures, preceded by their number, come before the message.  A
transaction is only read if its message is well formed and the number of
signatures is the one that the message requires.  As text it is Base58 or
Base64.
-/

namespace SolanaWallet

namespace Transaction

/-- The bytes of a transaction. -/
def serialize (tx : Transaction) : Except Failure (List UInt8) := do
  let message ← tx.messageBytes
  let signatures ← Writer.list (fun signature => .ok signature.bytes) tx.signatures
  return signatures ++ message

end Transaction

/-- Takes signatures and a message. -/
def Reader.transaction : Reader Transaction := do
  let signatures ← list (block 64 .signature)
  let message ← message
  return { signatures := signatures.map Signature.mk, message }

namespace Transaction

/-- The transaction that makes up the whole of `input`. -/
def ofBytes (input : List UInt8) : Except Failure Transaction :=
  match Reader.runAll Reader.transaction .transaction input with
  | .error fault => .error (.wire fault)
  | .ok tx =>
    if tx.signatures.length = tx.message.header.signerCount then .ok tx
    else .error (.signatureCount tx.message.header.signerCount tx.signatures.length)

/-- The transaction as Base58 text. -/
def toBase58 (tx : Transaction) : Except Failure String := do
  let bytes ← tx.serialize
  return Base58.encode bytes

/-- The transaction as Base64 text. -/
def toBase64 (tx : Transaction) : Except Failure String := do
  let bytes ← tx.serialize
  return Base64.encode bytes

/-- The transaction with the given Base58 text. -/
def ofBase58 (text : String) : Except Failure Transaction :=
  match Base58.decode text with
  | .ok bytes => ofBytes bytes
  | .error fault => .error (.wire (.base58 fault))

/-- The transaction with the given Base64 text. -/
def ofBase64 (text : String) : Except Failure Transaction :=
  match Base64.decode text with
  | .ok bytes => ofBytes bytes
  | .error fault => .error (.wire (.base64 fault))

end Transaction

end SolanaWallet
