import SolanaWallet.Message.Compile
import SolanaWallet.Program.ComputeBudget
import SolanaWallet.Program.Memo
import SolanaWallet.Program.Stake
import SolanaWallet.Request.Basic
import SolanaWallet.Request.Failure
import SolanaWallet.Transaction.Signing
import SolanaWallet.Transaction.Wire

/-!
# Building the transaction of a request

Every kind starts with the same optional instructions, in this order: advance
a nonce, set the price of a compute unit, set their limit, write a memo.  Only
when a token account is created for a transfer does the memo come between the
two.

The fields are read in the order in which the instructions need them, and the
first that is wrong is reported.
-/

namespace SolanaWallet

/-- The address in a field. -/
def addressField (name text : String) : Except RequestFailure Address :=
  Attempt.inField name (Address.ofText text)

/-- The addresses in a field. -/
def addressesField (name : String) (texts : List String) : Except RequestFailure (List Address) :=
  texts.mapM (addressField name)

/-- The text of an optional field, where the empty text counts as none. -/
def filled : Option String → Option String
  | some text => if text.isEmpty then none else some text
  | none => none

/-- Decimals as the token program takes them. -/
def decimalsByte (decimals : UInt32) : Except RequestFailure UInt8 :=
  if decimals.toNat < 256 then .ok (UInt8.ofNat decimals.toNat)
  else .error (.input (.decimals decimals.toNat))

/-- The memo, unless it is empty. -/
def memoInstructions (text : String) : List Instruction :=
  if text.isEmpty then [] else [MemoProgram.memo text]

/-- The key pair of a secret, if it is set; the field is named in case it is no
secret key. -/
def Secret.keypair (suite : CryptoSuite) (field : String) (secret : Secret) :
    Except RequestFailure (Option Keypair) :=
  if secret.isSet then do
    let key ← Attempt.inField field (Keypair.ofBytes suite secret.bytes)
    return some key
  else return none

namespace Request

variable (suite : CryptoSuite) (r : Request)

/-! ## Who takes part -/

/-- The signer: the address of the signer's key, or else the sender. -/
def signerAddress : Except RequestFailure Address := do
  match ← r.privateKey.keypair suite "privateKey" with
  | some key => return key.address suite
  | none => addressField "sender" r.sender

/-- The fee payer: the address of the fee payer's key, or else the fee payer
named, or else the signer. -/
def feePayerAddress : Except RequestFailure Address := do
  match ← r.feePayerPrivateKey.keypair suite "feePayerPrivateKey" with
  | some key => return key.address suite
  | none =>
    match filled r.feePayer with
    | some text => addressField "feePayer" text
    | none => r.signerAddress suite

/-- The key of a new nonce account. -/
def nonceKeypair : Except RequestFailure (Option Keypair) :=
  match r.kind with
  | some (.createNonce arguments) => arguments.secret.keypair suite "nonceAccountPrivateKey"
  | _ => return none

/-- The keys that sign: those of the fee payer, the signer and a new nonce
account, as far as they are set. -/
def signingKeys : Except RequestFailure (List Keypair) := do
  let feePayer ← r.feePayerPrivateKey.keypair suite "feePayerPrivateKey"
  let signer ← r.privateKey.keypair suite "privateKey"
  let nonce ← r.nonceKeypair suite
  return feePayer.toList ++ signer.toList ++ nonce.toList

/-- The blockhash. -/
def blockhash : Except RequestFailure Blockhash :=
  Attempt.inField "recentBlockhash" (Blockhash.ofText r.recentBlockhash)

/-- The nonce account to advance first: the one to be advanced anyway, or else
the one named. -/
def nonceAddress (kind : Kind) : Except RequestFailure (Option Address) :=
  match kind with
  | .advanceNonce nonceAccount => some <$> addressField "nonceAccount" nonceAccount
  | _ =>
    match filled r.nonceAccount with
    | some text => some <$> addressField "nonceAccount" text
    | none => return none

/-! ## Instructions -/

/-- What comes before the instructions of every kind. -/
def opening (nonce : Option Address) (signer : Address) : List Instruction :=
  nonce.toList.map (SystemProgram.advanceNonce · signer) ++
    r.unitPrice.toList.map (ComputeBudget.instruction <| .unitPrice ·) ++
    r.unitLimit.toList.map (ComputeBudget.instruction <| .unitLimit ·)

/-- The instruction of a token transfer, whose accounts are known. -/
def transferTokens (arguments : TokenTransfer) (mint source target signer : Address)
    (references : List Address) : Except RequestFailure Instruction := do
  let decimals ← decimalsByte arguments.decimals
  return (arguments.program.transferChecked source mint target signer arguments.amount
    decimals).withReferences references

/-- The instructions of a kind, the memo included. -/
def kindInstructions (signer : Address) : Kind → Except RequestFailure (List Instruction)
  | .transfer arguments => do
    let recipient ← addressField "recipient" arguments.recipient
    let references ← addressesField "references" arguments.references
    let transfer := SystemProgram.transfer signer recipient arguments.value
    return memoInstructions arguments.memo ++ [transfer.withReferences references]
  | .delegateStake arguments => do
    let validator ← addressField "validatorPubkey" arguments.validator
    let account ← (filled (some arguments.stakeAccount)).mapM (addressField "stakeAccount")
    let blockhash ← r.blockhash
    return StakeProgram.deposit suite signer validator arguments.value blockhash account
  | .deactivateStake stakeAccount => do
    let account ← addressField "stakeAccount" stakeAccount
    return [StakeProgram.deactivate account signer]
  | .deactivateAllStake stakeAccounts => do
    let accounts ← addressesField "stakeAccounts" stakeAccounts
    return accounts.map (StakeProgram.deactivate · signer)
  | .withdrawStake withdrawal => do
    let account ← addressField "stakeAccount" withdrawal.stakeAccount
    return [StakeProgram.withdraw account signer signer withdrawal.value none]
  | .withdrawAllStake withdrawals =>
    withdrawals.mapM fun withdrawal => do
      let account ← addressField "stakeAccounts" withdrawal.stakeAccount
      return StakeProgram.withdraw account signer signer withdrawal.value none
  | .createTokenAccount arguments => do
    let wallet ← addressField "mainAddress" arguments.wallet
    let mint ← addressField "tokenMintAddress" arguments.mint
    let tokenAccount ← addressField "tokenAddress" arguments.tokenAccount
    return [arguments.program.createAssociatedAccount signer wallet mint tokenAccount]
  | .tokenTransfer arguments => do
    let mint ← addressField "tokenMintAddress" arguments.mint
    let source ← addressField "senderTokenAddress" arguments.source
    let target ← addressField "recipientTokenAddress" arguments.target
    let references ← addressesField "references" arguments.references
    let transfer ← transferTokens arguments mint source target signer references
    return memoInstructions arguments.memo ++ [transfer]
  | .createAndTransfer arguments => do
    let wallet ← addressField "recipientMainAddress" arguments.wallet
    let mint ← addressField "tokenMintAddress" arguments.mint
    let target ← addressField "recipientTokenAddress" arguments.target
    let source ← addressField "senderTokenAddress" arguments.source
    let references ← addressesField "references" arguments.references
    -- the fee payer funds the new account, and need not be the signer
    let funding ← r.feePayerAddress suite
    let create := arguments.program.createAssociatedAccount funding wallet mint target
    let transfer ← transferTokens arguments.toTokenTransfer mint source target signer references
    return create :: memoInstructions arguments.memo ++ [transfer]
  | .createNonce arguments => do
    let nonce ←
      if arguments.nonceAccount.isEmpty then do
        match ← arguments.secret.keypair suite "nonceAccountPrivateKey" with
        | some key => pure (key.address suite)
        | none => throw (.input .noNonceAccount)
      else addressField "nonceAccount" arguments.nonceAccount
    return SystemProgram.createNonce signer nonce signer arguments.rent
  | .withdrawNonce arguments => do
    let nonce ← addressField "nonceAccount" arguments.nonceAccount
    let recipient ← addressField "recipient" arguments.recipient
    return [SystemProgram.withdrawNonce nonce signer recipient arguments.value]
  | .advanceNonce _ => return []

/-- All instructions of the request. -/
def instructions : Except RequestFailure (List Instruction) :=
  match r.kind with
  | none => throw .noKind
  | some kind => do
    let signer ← r.signerAddress suite
    let nonce ← r.nonceAddress kind
    let rest ← r.kindInstructions suite signer kind
    return r.opening nonce signer ++ rest

/-! ## Messages and transactions -/

/-- The message for the kind of the request. -/
def build : Except RequestFailure Message := do
  let instructions ← r.instructions suite
  let feePayer ← r.feePayerAddress suite
  let blockhash ← r.blockhash
  Attempt.plain (Message.compile instructions (some feePayer) blockhash r.v0)

/-- The signatures of a transaction that verify, with their signers. -/
def validSignatures (tx : Transaction) (bytes : List UInt8) : List (Address × Signature) :=
  tx.signerSignatures.filter fun (address, signature) =>
    !signature.isPlaceholder && (verifySignature suite address bytes signature).isOk

/-- A transaction given as a whole.  If the request has a blockhash the
transaction is moved to it; otherwise the signatures that do not verify are
dropped. -/
def rawTransaction (raw : String) : Except RequestFailure Transaction := do
  let tx ← Attempt.inField "rawMessage" (Transaction.ofBase64 raw)
  if r.recentBlockhash.isEmpty then
    let bytes ← Attempt.plain tx.messageBytes
    let valid := validSignatures suite tx bytes
    if valid.length = tx.signatures.countP (!·.isPlaceholder) then return tx
    else
      Attempt.plain ((Signing.addExternal suite valid).apply (Transaction.ofMessage tx.message))
  else
    let blockhash ← r.blockhash
    return tx.withBlockhash blockhash

/-- The transaction to sign, with the signatures that it has already. -/
def buildTransaction : Except RequestFailure Transaction :=
  match r.rawMessage with
  | some raw => r.rawTransaction suite raw
  | none => Transaction.ofMessage <$> r.build suite

end Request

/-! ## Instructions as clients write them -/

/-- The account that a client means. -/
def AccountForm.account (form : AccountForm) : Except RequestFailure AccountMeta := do
  let address ← addressField "account pubkey" form.address
  return { address, signer := form.signer, writable := form.writable }

/-- The instruction that a client means. -/
def InstructionForm.instruction (form : InstructionForm) : Except RequestFailure Instruction := do
  let program ← addressField "programId" form.program
  let accounts ← form.accounts.mapM AccountForm.account
  match Base58.decode form.data with
  | .ok data => return { program, accounts, data }
  | .error fault => throw (.input (.instructionData fault))

end SolanaWallet
