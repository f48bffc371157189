import SolanaWallet.Crypto.Suite
import SolanaWallet.Failure

/-!
# Key pairs

A key pair is its seed: the address and the signatures follow from it.
-/

namespace SolanaWallet

/-- A seed from which signatures are made. -/
structure Keypair where
  seed : Block 32
deriving DecidableEq

namespace Keypair

variable (suite : CryptoSuite)

/-- The address at which the key pair's signatures verify: its public key. -/
def address (k : Keypair) : Address := ⟨suite.publicKey k.seed⟩

/-- The signature of a message. -/
def sign (k : Keypair) (message : List UInt8) : Signature := ⟨suite.sign k.seed message⟩

/-- The text in which a key pair is shown: never with its seed. -/
def describe (k : Keypair) : String :=
  s!"Keypair \x7b address: {(k.address suite).describe}, .. \x7d"

/-- The key pair of a secret: either the seed alone, or the seed followed by
its public key, which must be the right one. -/
def ofBytes (secret : List UInt8) : Except Failure Keypair :=
  if secret.length = 32 then .ok ⟨Block.fit 32 secret⟩
  else if secret.length = 64 then
    let k : Keypair := ⟨Block.fit 32 (secret.take 32)⟩
    if (k.address suite).bytes = secret.drop 32 then .ok k else .error (.secret .publicHalf)
  else .error (.secret (.length secret.length))

/-- The key pair of a secret given as Base58 text. -/
def ofText (secret : String) : Except Failure Keypair :=
  match Base58.decode secret with
  | .ok bytes => ofBytes suite bytes
  | .error fault => .error (.secret (.text fault))

end Keypair

/-- Checks that `signature` is a signature of `message` by the owner of
`address`. -/
def verifySignature (suite : CryptoSuite) (address : Address) (message : List UInt8)
    (signature : Signature) : Except Failure Unit :=
  match suite.verify address.toBlock message signature.toBlock with
  | .valid => .ok ()
  | .badKey => .error (.publicKey address)
  | .badSignature => .error (.signature (.mismatch address))

end SolanaWallet
