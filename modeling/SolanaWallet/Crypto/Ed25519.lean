import SolanaWallet.Crypto.Edwards
import SolanaWallet.Crypto.Sha2

/-!
# Ed25519 signatures

Signing is deterministic: the nonce is a digest of the second half of the
hashed seed and the message.  Verification is strict: the scalar must be
below the group order, neither the key nor the nonce point may have small
order, and the recomputed nonce point must have exactly the signature's bytes.
-/

namespace SolanaWallet.Ed25519

open Edwards

/-- The secret scalar of a seed: the first half of its digest with the lowest
three bits and the top bit cleared and bit 254 set. -/
def secretScalar (seed : Block 32) : Nat :=
  let n := ofLittleEndian ((Sha2.sha512 seed.bytes).bytes.take 32)
  Nat.pow 2 254 + n % Nat.pow 2 254 / 8 * 8

/-- The public key of a seed. -/
def publicKey (seed : Block 32) : Block 32 :=
  (Point.base.smul (secretScalar seed)).compress

/-- The digest of some byte strings one after the other, as a scalar. -/
def challenge (parts : List (List UInt8)) : Nat :=
  ofLittleEndian (Sha2.sha512 parts.flatten).bytes % groupOrder

/-- The signature of a message. -/
def sign (seed : Block 32) (message : List UInt8) : Block 64 :=
  let tail := (Sha2.sha512 seed.bytes).bytes.drop 32
  let r := challenge [tail, message]
  let noncePoint := (Point.base.smul r).compress
  let k := challenge [noncePoint.bytes, (publicKey seed).bytes, message]
  let s := (r + k * secretScalar seed) % groupOrder
  Block.fit 64 (noncePoint.bytes ++ littleEndian 32 s)

/-- Whether 32 bytes stand for a point of the curve. -/
def isOnCurve (bytes : Block 32) : Bool :=
  (Point.decompress? bytes).isSome

/-- Whether `signature` is a signature of `message` under the key `A`, whose
bytes are `key`. -/
def verifies (key : Block 32) (A : Point) (message : List UInt8) (signature : Block 64) : Bool :=
  let nonceBytes := Block.fit 32 (signature.bytes.take 32)
  let s := ofLittleEndian (signature.bytes.drop 32)
  match Point.decompress? nonceBytes with
  | none => false
  | some R =>
    let k := challenge [nonceBytes.bytes, key.bytes, message]
    let expected := (Point.base.smul s).add (A.neg.smul k)
    s < groupOrder && !R.hasSmallOrder && !A.hasSmallOrder &&
      expected.compress = nonceBytes

end SolanaWallet.Ed25519
