import SolanaWallet.Failure

/-!
# What can go wrong with a request

A request fails because one of its fields is wrong, because something that it
needs is missing, or for a reason that lies in the transaction itself.  Each
failure has someone to blame for it.
-/

namespace SolanaWallet

/-- Why the arguments of a request do not make sense. -/
inductive InputFault where
  | decimals (given : Nat)
  /-- Neither a nonce account nor its key is given. -/
  | noNonceAccount
  | instructionData (fault : Base58.Fault)
deriving DecidableEq

/-- Why a required signature is missing. -/
inductive UnsignedFault where
  /-- Neither a key nor a signature is given for the signer. -/
  | noKey (signer : Address)
  /-- The signer is not listed among the signers of the given signatures. -/
  | notListed (signer : Address)
deriving DecidableEq

/-- The reason for which a request fails. -/
inductive RequestFailure where
  | transaction (reason : Failure)
  | field (name : String) (reason : Failure)
  | input (fault : InputFault)
  /-- The text is no request. -/
  | unreadable
  | noKind
  | unsigned (fault : UnsignedFault)
deriving DecidableEq

/-- Who is to blame for a failure. -/
inductive Blame where
  /-- The request itself is wrong. -/
  | malformed
  /-- The request does not fit the message that it is about. -/
  | inconsistent
  /-- A key or signature failed a check. -/
  | cryptographic
deriving DecidableEq

namespace RequestFailure

/-- Who is to blame. -/
def blame : RequestFailure → Blame
  | .transaction (.account _) => .inconsistent
  | .transaction (.signatureCount _ _) => .inconsistent
  | .transaction .bumpsExhausted => .inconsistent
  | .transaction (.signature _) => .cryptographic
  | .unsigned _ => .inconsistent
  | _ => .malformed

end RequestFailure

/-- The wording for arguments that do not make sense. -/
def InputFault.message : InputFault → String
  | .decimals given => s!"token decimals must be below 256, got {given}"
  | .noNonceAccount => "either nonceAccount or nonceAccountPrivateKey is required"
  | .instructionData fault => "instruction data is not base58: " ++ fault.message

/-- The wording for a signature that is missing. -/
def UnsignedFault.message : UnsignedFault → String
  | .noKey signer => s!"no key or signature given for signer {signer.text}"
  | .notListed signer => s!"no signature given for signer {signer.text}"

/-- The wording of a failure. -/
def RequestFailure.message : RequestFailure → String
  | .transaction reason => reason.message
  | .field name reason => s!"Invalid {name}: {reason.message}"
  | .input fault => "Invalid input: " ++ fault.message
  | .unreadable => "Invalid JSON request"
  | .noKind => "No transaction type specified"
  | .unsigned fault => "Missing signature: " ++ fault.message

/-! ## Passing failures on -/

namespace Attempt

variable {α : Type}

/-- A failure that is passed on as it is. -/
def plain (result : Except Failure α) : Except RequestFailure α :=
  result.mapError .transaction

/-- A failure that is passed on together with the field that it is about. -/
def inField (name : String) (result : Except Failure α) : Except RequestFailure α :=
  result.mapError (.field name)

end Attempt

end SolanaWallet
