import SolanaWallet.Program.Token

/-!
# Requests

A request describes one transaction to build and sign: who signs and pays,
when, and what is to happen.  Addresses and blockhashes are still texts here;
they are read when the transaction is built, so that what is wrong with them
can be reported together with the field they stand in.
-/

namespace SolanaWallet

/-- The bytes of a secret key; none when it is not set. -/
structure Secret where
  bytes : List UInt8 := []
deriving DecidableEq

namespace Secret

/-- Whether a secret is given. -/
def isSet (s : Secret) : Bool := !s.bytes.isEmpty

/-- The text in which a secret is shown: only whether it is set. -/
def describe (s : Secret) : String :=
  if s.isSet then "SecretBytes(<redacted>)" else "SecretBytes(empty)"

end Secret

/-- The text form of a finished transaction. -/
inductive Encoding where
  | base58
  | base64
deriving DecidableEq

/-- A signature and the address of its signer, both as Base58 text. -/
structure SignatureEntry where
  signer : String := ""
  signature : String := ""
deriving DecidableEq

/-! ## What is to happen -/

/-- Moves lamports to a recipient. -/
structure Transfer where
  recipient : String := ""
  value : UInt64 := 0
  memo : String := ""
  references : List String := []
deriving DecidableEq

/-- Opens a stake account and delegates it to a validator.  Without an account
its address is derived from the blockhash. -/
structure DelegateStake where
  validator : String := ""
  value : UInt64 := 0
  stakeAccount : String := ""
deriving DecidableEq

/-- Lamports to take out of one stake account. -/
structure StakeWithdrawal where
  stakeAccount : String := ""
  value : UInt64 := 0
deriving DecidableEq

/-- Creates the token account of a wallet for a mint. -/
structure CreateTokenAccount where
  wallet : String := ""
  mint : String := ""
  tokenAccount : String := ""
  program : TokenProgram := .token
deriving DecidableEq

/-- Moves tokens between token accounts. -/
structure TokenTransfer where
  mint : String := ""
  source : String := ""
  target : String := ""
  amount : UInt64 := 0
  decimals : UInt32 := 0
  memo : String := ""
  references : List String := []
  program : TokenProgram := .token
deriving DecidableEq

/-- Creates the recipient's token account and moves tokens to it. -/
structure CreateAndTransfer extends TokenTransfer where
  wallet : String := ""
deriving DecidableEq

/-- Creates a nonce account: the given one, or the one of the given key, which
then signs. -/
structure CreateNonce where
  nonceAccount : String := ""
  rent : UInt64 := 0
  secret : Secret := {}
deriving DecidableEq

/-- Moves lamports out of a nonce account. -/
structure WithdrawNonce where
  nonceAccount : String := ""
  recipient : String := ""
  value : UInt64 := 0
deriving DecidableEq

/-- What a transaction does. -/
inductive Kind where
  | transfer (arguments : Transfer)
  | delegateStake (arguments : DelegateStake)
  | deactivateStake (stakeAccount : String)
  | deactivateAllStake (stakeAccounts : List String)
  | withdrawStake (withdrawal : StakeWithdrawal)
  | withdrawAllStake (withdrawals : List StakeWithdrawal)
  | createTokenAccount (arguments : CreateTokenAccount)
  | tokenTransfer (arguments : TokenTransfer)
  | createAndTransfer (arguments : CreateAndTransfer)
  | createNonce (arguments : CreateNonce)
  | withdrawNonce (arguments : WithdrawNonce)
  | advanceNonce (nonceAccount : String)
deriving DecidableEq

/-- The name of a kind. -/
def Kind.name : Kind → String
  | .transfer _ => "transfer"
  | .delegateStake _ => "delegate_stake"
  | .deactivateStake _ => "deactivate_stake"
  | .deactivateAllStake _ => "deactivate_all_stake"
  | .withdrawStake _ => "withdraw_stake"
  | .withdrawAllStake _ => "withdraw_all_stake"
  | .createTokenAccount _ => "create_token_account"
  | .tokenTransfer _ => "token_transfer"
  | .createAndTransfer _ => "create_and_transfer_token"
  | .createNonce _ => "create_nonce_account"
  | .withdrawNonce _ => "withdraw_nonce_account"
  | .advanceNonce _ => "advance_nonce_account"

/-! ## The request -/

/-- Everything needed to build and sign one transaction. -/
structure Request where
  /-- The signer's secret key. -/
  privateKey : Secret := {}
  /-- The signer's address, used when the key is not set. -/
  sender : String := ""
  recentBlockhash : String := ""
  /-- A nonce account to advance first. -/
  nonceAccount : Option String := none
  feePayer : Option String := none
  feePayerPrivateKey : Secret := {}
  /-- Whether to build a message of version 0. -/
  v0 : Bool := false
  unitPrice : Option UInt64 := none
  unitLimit : Option UInt32 := none
  encoding : Encoding := .base58
  kind : Option Kind := none
  /-- A complete transaction in Base64 to use instead of building one. -/
  rawMessage : Option String := none
  /-- Signatures made elsewhere. -/
  externalSignatures : List SignatureEntry := []
deriving DecidableEq

/-- A signed transaction. -/
structure SignedOutput where
  /-- The transaction as text. -/
  transaction : String
  /-- The message alone as text. -/
  message : String
  signatures : List SignatureEntry
deriving DecidableEq

/-- What has to be signed, and by whom, in the order of the slots. -/
structure Preimage where
  signers : List String
  bytes : List UInt8
deriving DecidableEq

/-! ## Instructions as clients write them -/

/-- An account of an instruction as a client writes it. -/
structure AccountForm where
  address : String := ""
  signer : Bool := false
  writable : Bool := false
deriving DecidableEq

/-- An instruction as a client writes it, with its data in Base58. -/
structure InstructionForm where
  program : String := ""
  accounts : List AccountForm := []
  data : String := ""
deriving DecidableEq

end SolanaWallet
