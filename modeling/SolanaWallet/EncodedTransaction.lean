import SolanaWallet.Message.Edit
import SolanaWallet.Request.Sign

/-!
# Transactions in Base64

Operations on a transaction that exists only as text, such as one that a web
page asks to have signed.  An edit changes the bytes that are signed, so the
result has no signatures.
-/

namespace SolanaWallet.EncodedTransaction

/-- The transaction in a text. -/
def decode (text : String) : Except RequestFailure Transaction :=
  Attempt.inField "encodedTx" (Transaction.ofBase64 text)

/-- The message that an edit leads to, if it succeeds. -/
def applyEdit (edit : Edit Unit) (m : Message) : Except Failure Message :=
  match edit m with
  | .ok _ after => .ok after
  | .error reason _ => .error reason

/-- Edits the message and drops the signatures. -/
def edit (change : Message → Edit Unit) (text : String) : Except RequestFailure String := do
  let tx ← decode text
  let m ← Attempt.plain (applyEdit (change tx.message) tx.message)
  Attempt.plain (Transaction.ofMessage m).toBase64

/-- The price of a compute unit. -/
def unitPrice? (text : String) : Except RequestFailure (Option UInt64) := do
  let tx ← decode text
  return tx.message.unitPrice?

/-- The limit of compute units. -/
def unitLimit? (text : String) : Except RequestFailure (Option UInt32) := do
  let tx ← decode text
  return tx.message.unitLimit?

/-- Sets the price of a compute unit. -/
def setUnitPrice (text : String) (price : UInt64) : Except RequestFailure String :=
  edit (fun _ => Edit.setUnitPrice price) text

/-- Sets the limit of compute units. -/
def setUnitLimit (text : String) (units : UInt32) : Except RequestFailure String :=
  edit (fun _ => Edit.setUnitLimit units) text

/-- Puts a fee payer in front of the signers. -/
def setFeePayer (text payer : String) : Except RequestFailure String := do
  let address ← addressField "feePayer" payer
  edit (fun _ => Edit.setFeePayer address) text

/-- Puts an instruction, given as JSON text, at a position or at the end. -/
def insertInstruction (text : String) (position : Option Nat) (instruction : String) :
    Except RequestFailure String := do
  match InstructionForm.parse? instruction with
  | none => throw .unreadable
  | some form =>
    let ix ← form.instruction
    edit (fun m => Edit.insertInstruction (position.getD m.instructions.length) ix) text

/-- Moves the transaction to another blockhash and signs it with the keys. -/
def signWith (suite : CryptoSuite) (text blockhash : String) (keys : List Keypair) :
    Except RequestFailure SignedOutput := do
  let tx ← decode text
  let moment ← Attempt.inField "recentBlockhash" (Blockhash.ofText blockhash)
  let signed ← Attempt.plain ((Signing.signAt suite keys moment).apply tx)
  Attempt.plain (signed.output .base64)

/-- The keys of the secrets that are set. -/
def keypairs (suite : CryptoSuite) : List Secret → Except RequestFailure (List Keypair)
  | [] => .ok []
  | secret :: rest => do
    let key ← secret.keypair suite "privateKeys"
    let keys ← keypairs suite rest
    return key.toList ++ keys

/-- Moves the transaction to another blockhash and signs it with the keys of the
secrets that are set. -/
def signAt (suite : CryptoSuite) (text blockhash : String) (secrets : List Secret) :
    Except RequestFailure SignedOutput := do
  let keys ← keypairs suite secrets
  signWith suite text blockhash keys

end SolanaWallet.EncodedTransaction
