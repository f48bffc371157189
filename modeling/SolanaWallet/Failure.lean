import SolanaWallet.Address
import SolanaWallet.Message.Header
import SolanaWallet.ShortVec
import SolanaWallet.Text.Base64

/-!
# What can go wrong with keys, messages and transactions

A `Failure` is a cause, sorted into the ten kinds that callers tell apart; its
wording is in `Failure.message` alone.
-/

namespace SolanaWallet

/-- Why bytes or a text are not a secret key. -/
inductive SecretFault where
  | text (fault : Base58.Fault)
  | length (actual : Nat)
  /-- The second half of the secret is not the public key of the first. -/
  | publicHalf
deriving DecidableEq

/-- Why an argument does not make sense. -/
inductive ParameterFault where
  | seedCount (given limit : Nat)
  | seedLength (length : Nat)
  /-- The owner ends with the bytes that mark program-derived addresses. -/
  | markedOwner
  /-- The account is in the message with other flags. -/
  | flags (address : Address)
  | insertPosition (position count : Nat)
  | feePayerListed (address : Address)
deriving DecidableEq

/-- Why an account was not found. -/
inductive AccountFault where
  /-- An instruction names an address that a given table lacks. -/
  | notInTable (address : Address)
  /-- The address is not in the key table of the message. -/
  | unlisted
  /-- The address is in the key table but does not sign. -/
  | notSigner (address : Address)
deriving DecidableEq

/-- Why a signature is refused. -/
inductive SignatureFault where
  | form (fault : BlockFault)
  | mismatch (address : Address)
deriving DecidableEq

/-- Which limit of the format is passed. -/
inductive SizeFault where
  | list (length : Nat)
  | accounts (count : Nat)
  | signers
  | readonly
  | index (index : Nat)
  /-- An index of the message would have to grow past 255. -/
  | shiftedIndex
  | tableFull
  | readonlyCount
  | region
deriving DecidableEq

/-- The parts of the wire format that can be cut off. -/
inductive Part where
  | byte
  | accountKey
  | blockhash
  | instructionAccounts
  | instructionData
  | lookupKey
  | writableIndexes
  | readonlyIndexes
  | signature
deriving DecidableEq

/-- What can follow the last part of the wire format. -/
inductive Whole where
  | message
  | transaction
deriving DecidableEq

/-- Why bytes or a text are not a message or transaction. -/
inductive WireFault where
  | length (fault : ShortVec.Fault)
  | truncated (part : Part)
  | emptyMessage
  | version (version : Nat)
  | header (header : Header) (keys : Nat)
  | index
  | trailing (count : Nat) (after : Whole)
  | base58 (fault : Base58.Fault)
  | base64 (fault : Base64.Fault)
deriving DecidableEq

/-- The reason for which an operation on keys, messages or transactions fails. -/
inductive Failure where
  | address (fault : BlockFault)
  | blockhash (fault : BlockFault)
  /-- The address is no public key. -/
  | publicKey (address : Address)
  | secret (fault : SecretFault)
  | parameter (fault : ParameterFault)
  | account (fault : AccountFault)
  | signatureCount (expected actual : Nat)
  | signature (fault : SignatureFault)
  /-- No bump leads off the curve. -/
  | bumpsExhausted
  | tooLarge (fault : SizeFault)
  | wire (fault : WireFault)
deriving DecidableEq

/-! ## Wording -/

/-- The wording for Base58 text that cannot be read. -/
def base58Message (fault : Base58.Fault) : String :=
  "base58 decode failed: " ++ fault.message

/-- The wording for a block of 32 bytes that is shown as an identifier. -/
def BlockFault.identifierMessage : BlockFault → String
  | .text fault => base58Message fault
  | .length actual => s!"invalid size: expected 32 bytes, got {actual}"

/-- The wording for a secret key that cannot be read. -/
def SecretFault.message : SecretFault → String
  | .text fault => base58Message fault
  | .length actual => s!"expected 32 or 64 bytes, got {actual}"
  | .publicHalf => "public key half does not match the seed"

/-- The wording for an argument that does not make sense. -/
def ParameterFault.message : ParameterFault → String
  | .seedCount given limit => s!"{given} seeds given, at most {limit} allowed"
  | .seedLength length => s!"seed of {length} bytes exceeds the 32-byte limit"
  | .markedOwner => "owner id ends with the program-derived address marker"
  | .flags address =>
    s!"{address.text} is already in the message with different signer or writable flags"
  | .insertPosition position count =>
    s!"cannot insert an instruction at {position}, the message has {count}"
  | .feePayerListed address => s!"fee payer {address.text} is already in the account list"

/-- The wording for an account that was not found. -/
def AccountFault.message : AccountFault → String
  | .notInTable address => address.text
  | .unlisted => "publicKey not found in message.accountKeys"
  | .notSigner address => s!"{address.text} is not a required signer of this message"

/-- The wording for a signature that is refused. -/
def SignatureFault.message : SignatureFault → String
  | .form (.text fault) => base58Message fault
  | .form (.length actual) => s!"expected 64 bytes, got {actual}"
  | .mismatch address => s!"signature does not verify for {address.text}"

/-- The wording for a limit that is passed. -/
def SizeFault.message : SizeFault → String
  | .list length => s!"list of {length} items exceeds the short-vec limit"
  | .accounts count => s!"{count} accounts referenced, at most 256 fit in a message"
  | .signers => "more than 255 signers"
  | .readonly => "more than 255 read-only accounts"
  | .index position => s!"account index {position} exceeds 255"
  | .shiftedIndex => "account index exceeds 255"
  | .tableFull => "account table is full"
  | .readonlyCount => "too many read-only accounts"
  | .region => "too many accounts in one region"

/-- The name of a part that is cut off. -/
def Part.name : Part → String
  | .byte => "u8"
  | .accountKey => "account key"
  | .blockhash => "recent blockhash"
  | .instructionAccounts => "instruction accounts"
  | .instructionData => "instruction data"
  | .lookupKey => "lookup table key"
  | .writableIndexes => "writable indexes"
  | .readonlyIndexes => "readonly indexes"
  | .signature => "signature"

/-- The name of what the bytes should make up. -/
def Whole.name : Whole → String
  | .message => "message"
  | .transaction => "transaction"

/-- The wording for bytes or text that cannot be read. -/
def WireFault.message : WireFault → String
  | .length fault => fault.message
  | .truncated part => s!"unexpected end of data while reading {part.name}"
  | .emptyMessage => "empty message"
  | .version number => s!"unsupported message version {number}"
  | .header counts keys => s!"header {counts.describe} does not fit {keys} account keys"
  | .index => "instruction refers to an account index past the key table"
  | .trailing count after => s!"{count} trailing bytes after {after.name}"
  | .base58 fault => base58Message fault
  | .base64 fault => "base64 decode failed: " ++ fault.message

/-- The wording of a failure: its kind, a colon, and the cause. -/
def Failure.message : Failure → String
  | .address fault => "invalid address: " ++ fault.identifierMessage
  | .blockhash fault => "invalid hash: " ++ fault.identifierMessage
  | .publicKey key =>
    s!"invalid public key: {key.text}: signature error: Cannot decompress Edwards point"
  | .secret fault => "invalid private key: " ++ fault.message
  | .parameter fault => "invalid params: " ++ fault.message
  | .account fault => "account not found: " ++ fault.message
  | .signatureCount expected actual =>
    s!"signature count mismatch: expected {expected}, got {actual}"
  | .signature fault => "invalid signature: " ++ fault.message
  | .bumpsExhausted => "unable to find a viable program address bump seed"
  | .tooLarge fault => "transaction too large: " ++ fault.message
  | .wire fault => "serialization error: " ++ fault.message

/-! ## Reading identifiers -/

namespace Address

/-- The address with exactly these bytes. -/
def ofBytes (bytes : List UInt8) : Except Failure Address :=
  match Block.ofBytes 32 bytes with
  | .ok block => .ok ⟨block⟩
  | .error fault => .error (.address fault)

/-- The address shown as `text`. -/
def ofText (text : String) : Except Failure Address :=
  match Block.ofText 32 text with
  | .ok block => .ok ⟨block⟩
  | .error fault => .error (.address fault)

end Address

namespace Blockhash

/-- The blockhash with exactly these bytes. -/
def ofBytes (bytes : List UInt8) : Except Failure Blockhash :=
  match Block.ofBytes 32 bytes with
  | .ok block => .ok ⟨block⟩
  | .error fault => .error (.blockhash fault)

/-- The blockhash shown as `text`. -/
def ofText (text : String) : Except Failure Blockhash :=
  match Block.ofText 32 text with
  | .ok block => .ok ⟨block⟩
  | .error fault => .error (.blockhash fault)

end Blockhash

namespace Signature

/-- The signature with exactly these bytes. -/
def ofBytes (bytes : List UInt8) : Except Failure Signature :=
  match Block.ofBytes 64 bytes with
  | .ok block => .ok ⟨block⟩
  | .error fault => .error (.signature (.form fault))

/-- The signature shown as `text`. -/
def ofText (text : String) : Except Failure Signature :=
  match Block.ofText 64 text with
  | .ok block => .ok ⟨block⟩
  | .error fault => .error (.signature (.form fault))

end Signature

end SolanaWallet
