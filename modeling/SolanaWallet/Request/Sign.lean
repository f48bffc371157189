import SolanaWallet.Request.Build
import SolanaWallet.Request.Reader

/-!
# Answering a request

A request is answered in one of three ways: the transaction is signed here;
the bytes to sign are handed out for someone else to sign; or the transaction
is put together with signatures that were made elsewhere.
-/

namespace SolanaWallet

/-- Bytes as text. -/
def Encoding.encode : Encoding → List UInt8 → String
  | .base58, bytes => Base58.encode bytes
  | .base64, bytes => Base64.encode bytes

/-- The texts of a transaction. -/
def Transaction.output (encoding : Encoding) (tx : Transaction) :
    Except Failure SignedOutput := do
  let wire ← tx.serialize
  let message ← tx.messageBytes
  return {
    transaction := encoding.encode wire
    message := encoding.encode message
    signatures := tx.signerSignatures.map fun (address, signature) =>
      { signer := address.text, signature := signature.text } }

/-- The signature and the signer that an entry stands for. -/
def SignatureEntry.read (entry : SignatureEntry) : Except RequestFailure (Address × Signature) := do
  let address ← addressField "externalSignatures.pubkey" entry.signer
  let signature ← Attempt.inField "externalSignatures.signature" (Signature.ofText entry.signature)
  return (address, signature)

namespace Request

variable (suite : CryptoSuite) (r : Request)

/-- The transaction signed with the keys of the request and completed with its
external signatures, of which none may be missing. -/
def sign : Except RequestFailure SignedOutput := do
  let keys ← r.signingKeys suite
  let tx ← r.buildTransaction suite
  let tx ← Attempt.plain ((Signing.sign suite keys).apply tx)
  let external ← r.externalSignatures.mapM SignatureEntry.read
  let tx ← Attempt.plain ((Signing.addExternal suite external).apply tx)
  match tx.signerSignatures.find? fun (_, signature) => signature.isPlaceholder with
  | some (address, _) => throw (.unsigned (.noKey address))
  | none => Attempt.plain (tx.output r.encoding)

/-- What has to be signed, and by whom. -/
def preimage : Except RequestFailure Preimage := do
  let tx ← r.buildTransaction suite
  let bytes ← Attempt.plain tx.messageBytes
  return { signers := tx.message.signerKeys.map Address.text, bytes }

/-- The given signatures that are not zero, each with the address at its place
in `addresses`.  A zero signature must at least belong to a signer. -/
def providedSignatures (m : Message) :
    List (Address × Signature) → Except Failure (List (Address × Signature))
  | [] => .ok []
  | (address, signature) :: rest =>
    if signature.isPlaceholder then
      if address ∈ m.signerKeys then providedSignatures m rest
      else .error (.account (.notSigner address))
    else do
      let provided ← providedSignatures m rest
      return (address, signature) :: provided

/-- The transaction with signatures made elsewhere: `signatures[i]` is that of
`addresses[i]`.  Every required signer must be listed; a zero signature leaves
its slot unsigned, and any other must verify. -/
def assemble (signatures : List Signature) (addresses : List Address) :
    Except RequestFailure SignedOutput := do
  if signatures.length ≠ addresses.length then
    throw (.transaction (.signatureCount addresses.length signatures.length))
  let built ← r.buildTransaction suite
  let m := built.message
  match m.signerKeys.find? (· ∉ addresses) with
  | some missing => throw (.unsigned (.notListed missing))
  | none =>
    let provided ← Attempt.plain (providedSignatures m (addresses.zip signatures))
    let tx ← Attempt.plain
      ((Signing.addExternal suite provided).apply (Transaction.ofMessage m))
    Attempt.plain (tx.output r.encoding)

end Request

/-- Signs the request in a JSON text.  A key that is given replaces the
signer's key of the request. -/
def signText (suite : CryptoSuite) (text : String) (key : Secret) :
    Except RequestFailure String := do
  match Request.parse? text with
  | none => throw .unreadable
  | some r =>
    let output ← (if key.isSet then { r with privateKey := key } else r).sign suite
    return output.transaction

end SolanaWallet
