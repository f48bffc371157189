import SolanaWallet.Keypair
import SolanaWallet.Message.Wire

/-!
# Transactions

A transaction is a message with one signature slot for each required signer;
slot `i` belongs to key `i`.  A slot that nobody has signed holds the zero
signature.
-/

namespace SolanaWallet

/-- A message and its signature slots. -/
structure Transaction where
  signatures : List Signature
  message : Message
deriving DecidableEq

namespace Transaction

/-- The message with all slots unsigned. -/
def ofMessage (m : Message) : Transaction :=
  { signatures := List.replicate m.header.signerCount Signature.placeholder, message := m }

/-- The bytes that every signer signs. -/
def messageBytes (tx : Transaction) : Except Failure (List UInt8) := tx.message.serialize

/-- The first place of an address in the key table. -/
def accountIndex (tx : Transaction) (address : Address) : Except Failure Nat :=
  match tx.message.keys.idxOf? address with
  | some index => .ok index
  | none => .error (.account .unlisted)

/-- The required signers with the signatures in their slots. -/
def signerSignatures (tx : Transaction) : List (Address × Signature) :=
  tx.message.signerKeys.zip tx.signatures

/-- Whether no slot is unsigned. -/
def isFullySigned (tx : Transaction) : Bool :=
  tx.signatures.all fun signature => !signature.isPlaceholder

/-- The transaction tied to another moment.  Every signature covers the old
bytes, so all slots become unsigned. -/
def withBlockhash (tx : Transaction) (blockhash : Blockhash) : Transaction :=
  { signatures := tx.signatures.map fun _ => Signature.placeholder
    message := { tx.message with blockhash } }

/-- Checks signatures of one message in turn. -/
def verifyAll (suite : CryptoSuite) (bytes : List UInt8) :
    List (Address × Signature) → Except Failure Unit
  | [] => .ok ()
  | (address, signature) :: rest => do
    verifySignature suite address bytes signature
    verifyAll suite bytes rest

/-- Checks that every slot holds a signature of its signer. -/
def verify (suite : CryptoSuite) (tx : Transaction) : Except Failure Unit := do
  let bytes ← tx.messageBytes
  verifyAll suite bytes tx.signerSignatures

end Transaction

end SolanaWallet
