import SolanaWallet.Json.Reader
import SolanaWallet.Json.Record
import SolanaWallet.Request.Basic
import SolanaWallet.Text.Hex

/-!
# Reading requests

Requests and instructions are JSON records.  Secrets are hexadecimal texts,
with or without `0x` in front; the empty text means that the secret is not
set.
-/

namespace SolanaWallet

open Json

/-- The characters after all leading `0x`. -/
def dropHexMarks : List Char → List Char
  | '0' :: 'x' :: rest => dropHexMarks rest
  | cs => cs

namespace Json

/-- A secret. -/
def secret? (value : Json) : Option Secret := do
  let text ← text? value
  let bytes ← Hex.decodeChars (dropHexMarks text.toList)
  return { bytes }

/-- The text form of a transaction. -/
def encoding? (value : Json) : Option Encoding := do
  match ← choice? value with
  | "base58" => return .base58
  | "base64" => return .base64
  | _ => none

/-- A token program. -/
def tokenProgram? (value : Json) : Option TokenProgram := do
  match ← choice? value with
  | "token" => return .token
  | "token2022" => return .token2022
  | _ => none

/-- A signature with its signer. -/
def signatureEntry? (value : Json) : Option SignatureEntry := do
  let fields ← fields? ["pubkey", "signature"] value
  return {
    signer := ← fields.get "pubkey" "" text?
    signature := ← fields.get "signature" "" text? }

/-! ## Kinds -/

/-- The arguments of a transfer. -/
def transfer? (value : Json) : Option Transfer := do
  let fields ← fields? ["recipient", "value", "memo", "references"] value
  return {
    recipient := ← fields.get "recipient" "" text?
    value := ← fields.get "value" 0 uint64?
    memo := ← fields.get "memo" "" text?
    references := ← fields.get "references" [] (list? text?) }

/-- The arguments of a delegation. -/
def delegateStake? (value : Json) : Option DelegateStake := do
  let fields ← fields? ["validatorPubkey", "value", "stakeAccount"] value
  return {
    validator := ← fields.get "validatorPubkey" "" text?
    value := ← fields.get "value" 0 uint64?
    stakeAccount := ← fields.get "stakeAccount" "" text? }

/-- The only field of a record, which is read as `read` says. -/
def single? {α : Type} (name : String) (default : α) (read : Json → Option α) (value : Json) :
    Option α := do
  let fields ← fields? [name] value
  fields.get name default read

/-- The arguments of a withdrawal from a stake account. -/
def stakeWithdrawal? (value : Json) : Option StakeWithdrawal := do
  let fields ← fields? ["stakeAccount", "value"] value
  return {
    stakeAccount := ← fields.get "stakeAccount" "" text?
    value := ← fields.get "value" 0 uint64? }

/-- The arguments for a new token account. -/
def createTokenAccount? (value : Json) : Option CreateTokenAccount := do
  let fields ←
    fields? ["mainAddress", "tokenMintAddress", "tokenAddress", "tokenProgramId"] value
  return {
    wallet := ← fields.get "mainAddress" "" text?
    mint := ← fields.get "tokenMintAddress" "" text?
    tokenAccount := ← fields.get "tokenAddress" "" text?
    program := ← fields.get "tokenProgramId" .token tokenProgram? }

/-- The fields that both kinds of token transfer have. -/
def tokenTransferOf? (fields : Fields) : Option TokenTransfer := do
  return {
    mint := ← fields.get "tokenMintAddress" "" text?
    source := ← fields.get "senderTokenAddress" "" text?
    target := ← fields.get "recipientTokenAddress" "" text?
    amount := ← fields.get "amount" 0 uint64?
    decimals := ← fields.get "decimals" 0 uint32?
    memo := ← fields.get "memo" "" text?
    references := ← fields.get "references" [] (list? text?)
    program := ← fields.get "tokenProgramId" .token tokenProgram? }

/-- The arguments of a token transfer. -/
def tokenTransfer? (value : Json) : Option TokenTransfer := do
  let fields ← fields?
    ["tokenMintAddress", "senderTokenAddress", "recipientTokenAddress", "amount", "decimals",
      "memo", "references", "tokenProgramId"] value
  tokenTransferOf? fields

/-- The arguments of a token transfer to a new token account. -/
def createAndTransfer? (value : Json) : Option CreateAndTransfer := do
  let fields ← fields?
    ["recipientMainAddress", "tokenMintAddress", "recipientTokenAddress", "senderTokenAddress",
      "amount", "decimals", "memo", "references", "tokenProgramId"] value
  let wallet ← fields.get "recipientMainAddress" "" text?
  let transfer ← tokenTransferOf? fields
  return { transfer with wallet }

/-- The arguments for a new nonce account. -/
def createNonce? (value : Json) : Option CreateNonce := do
  let fields ← fields? ["nonceAccount", "rent", "nonceAccountPrivateKey"] value
  return {
    nonceAccount := ← fields.get "nonceAccount" "" text?
    rent := ← fields.get "rent" 0 uint64?
    secret := ← fields.get "nonceAccountPrivateKey" {} secret? }

/-- The arguments of a withdrawal from a nonce account. -/
def withdrawNonce? (value : Json) : Option WithdrawNonce := do
  let fields ← fields? ["nonceAccount", "recipient", "value"] value
  return {
    nonceAccount := ← fields.get "nonceAccount" "" text?
    recipient := ← fields.get "recipient" "" text?
    value := ← fields.get "value" 0 uint64? }

/-- The arguments of the kind with the given name. -/
def kindNamed? (name : String) (value : Json) : Option Kind :=
  match name with
  | "transfer" => (transfer? value).map .transfer
  | "delegateStake" => (delegateStake? value).map .delegateStake
  | "deactivateStake" => (single? "stakeAccount" "" text? value).map .deactivateStake
  | "deactivateAllStake" =>
    (single? "stakeAccounts" [] (list? text?) value).map .deactivateAllStake
  | "withdrawStake" => (stakeWithdrawal? value).map .withdrawStake
  | "withdrawAllStake" =>
    (single? "stakeAccounts" [] (list? stakeWithdrawal?) value).map .withdrawAllStake
  | "createTokenAccount" => (createTokenAccount? value).map .createTokenAccount
  | "tokenTransfer" => (tokenTransfer? value).map .tokenTransfer
  | "createAndTransferToken" => (createAndTransfer? value).map .createAndTransfer
  | "createNonceAccount" => (createNonce? value).map .createNonce
  | "withdrawNonceAccount" => (withdrawNonce? value).map .withdrawNonce
  | "advanceNonceAccount" => (single? "nonceAccount" "" text? value).map .advanceNonce
  | _ => none

/-- A kind: an object whose only entry has the name of the kind. -/
def kind? : Json → Option Kind
  | .object [(some name, value)] => kindNamed? name value
  | _ => none

/-! ## Requests and instructions -/

/-- The fields of a request in the order of declaration. -/
def requestFields : List String :=
  ["privateKey", "sender", "recentBlockhash", "nonceAccount", "feePayer", "feePayerPrivateKey",
    "v0Msg", "priorityFeePrice", "priorityFeeLimit", "txEncoding", "transactionType",
    "rawMessage", "externalSignatures"]

/-- A request. -/
def request? (value : Json) : Option Request := do
  let fields ← fields? requestFields value
  return {
    privateKey := ← fields.get "privateKey" {} secret?
    sender := ← fields.get "sender" "" text?
    recentBlockhash := ← fields.get "recentBlockhash" "" text?
    nonceAccount := ← fields.get "nonceAccount" none (optional? text?)
    feePayer := ← fields.get "feePayer" none (optional? text?)
    feePayerPrivateKey := ← fields.get "feePayerPrivateKey" {} secret?
    v0 := ← fields.get "v0Msg" false bool?
    unitPrice := ← fields.get "priorityFeePrice" none (optional? uint64?)
    unitLimit := ← fields.get "priorityFeeLimit" none (optional? uint32?)
    encoding := ← fields.get "txEncoding" .base58 encoding?
    kind := ← fields.get "transactionType" none (optional? kind?)
    rawMessage := ← fields.get "rawMessage" none (optional? text?)
    externalSignatures := ← fields.get "externalSignatures" [] (list? signatureEntry?) }

/-- An account of an instruction. -/
def accountForm? (value : Json) : Option AccountForm := do
  let fields ← fields? ["pubkey", "isSigner", "isWritable"] value
  return {
    address := ← fields.get "pubkey" "" text?
    signer := ← fields.get "isSigner" false bool?
    writable := ← fields.get "isWritable" false bool? }

/-- An instruction. -/
def instructionForm? (value : Json) : Option InstructionForm := do
  let fields ← fields? ["programId", "accounts", "data"] value
  return {
    program := ← fields.get "programId" "" text?
    accounts := ← fields.get "accounts" [] (list? accountForm?)
    data := ← fields.get "data" "" text? }

end Json

/-- The request that a JSON text makes. -/
def Request.parse? (text : String) : Option Request := do
  let value ← Json.parse? text
  Json.request? value

/-- The instruction that a JSON text describes. -/
def InstructionForm.parse? (text : String) : Option InstructionForm := do
  let value ← Json.parse? text
  Json.instructionForm? value

end SolanaWallet
