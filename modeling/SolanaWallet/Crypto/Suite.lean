import SolanaWallet.Crypto.Ed25519

/-!
# The cryptography a wallet is built over

Everything above this module uses hashing and signatures only through a
`CryptoSuite`, so what it does can be stated for every suite that obeys the
laws below.  `CryptoSuite.ledger` is the suite of the network: SHA-256 and
Ed25519.
-/

namespace SolanaWallet

/-- The outcome of checking a signature. -/
inductive Verdict where
  | valid
  /-- The key is not a point of the curve. -/
  | badKey
  | badSignature
deriving DecidableEq

/-- The functions a wallet takes from cryptography. -/
structure CryptoSuite where
  /-- The hash by which addresses are derived. -/
  digest : List UInt8 → Block 32
  /-- Whether 32 bytes could be a public key. -/
  onCurve : Block 32 → Bool
  /-- The public key of a seed. -/
  publicKey : Block 32 → Block 32
  /-- The signature of a message under a seed. -/
  sign : Block 32 → List UInt8 → Block 64
  /-- Checks a signature of a message under a public key. -/
  verify : Block 32 → List UInt8 → Block 64 → Verdict

namespace CryptoSuite

/-- A signature verifies under the public key of the seed that made it. -/
def SignsVerifiably (suite : CryptoSuite) : Prop :=
  ∀ seed message, suite.verify (suite.publicKey seed) message (suite.sign seed message) = .valid

/-- The zero signature verifies under no key. -/
def RejectsZero (suite : CryptoSuite) : Prop :=
  ∀ key message, suite.verify key message (Block.zero 64) ≠ .valid

/-- SHA-256 and strict Ed25519. -/
def ledger : CryptoSuite where
  digest := Sha2.sha256
  onCurve := Ed25519.isOnCurve
  publicKey := Ed25519.publicKey
  sign := Ed25519.sign
  verify key message signature :=
    match Edwards.Point.decompress? key with
    | none => .badKey
    | some A => if Ed25519.verifies key A message signature then .valid else .badSignature

end CryptoSuite

end SolanaWallet
