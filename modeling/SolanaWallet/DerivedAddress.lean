import SolanaWallet.Keypair
import SolanaWallet.Program.Token

/-!
# Derived addresses

Some addresses are digests instead of public keys.  A program-derived address
is the digest of seeds, a program and a marker; it is only safe to use when it
is off the curve, so that nobody holds a key for it, and a one-byte bump among
the seeds is varied until that is so.  A seeded address is the digest of a
base address, one seed and the owner.
-/

namespace SolanaWallet.DerivedAddress

variable (suite : CryptoSuite)

/-- The longest seed. -/
def maxSeedLength : Nat := 32

/-- The most seeds, the bump included. -/
def maxSeeds : Nat := 16

/-- The bytes that mark program-derived addresses. -/
def marker : List UInt8 := "ProgramDerivedAddress".toUTF8.toList

/-! ## Program-derived addresses -/

/-- The seeds are not too many and none is too long. -/
def checkSeeds (limit : Nat) (seeds : List (List UInt8)) : Except Failure Unit :=
  if limit < seeds.length then .error (.parameter (.seedCount seeds.length limit))
  else match seeds.find? (fun seed => maxSeedLength < seed.length) with
    | some seed => .error (.parameter (.seedLength seed.length))
    | none => .ok ()

/-- The digest of seeds, bump, program and marker. -/
def programDigest (seeds : List (List UInt8)) (bump : List UInt8) (program : Address) : Block 32 :=
  suite.digest (seeds.flatten ++ bump ++ program.bytes ++ marker)

/-- The address derived from `seeds` without a bump, on the curve or not. -/
def ofSeeds (seeds : List (List UInt8)) (program : Address) : Except Failure Address := do
  checkSeeds maxSeeds seeds
  return ⟨programDigest suite seeds [] program⟩

/-- The highest bump below `bound` that leads off the curve, with the address
it leads to. -/
def searchBump (seeds : List (List UInt8)) (program : Address) :
    (bound : Nat) → Option (Address × UInt8)
  | 0 => none
  | bump + 1 =>
    let digest := programDigest suite seeds [UInt8.ofNat bump] program
    if suite.onCurve digest then searchBump seeds program bump
    else some (⟨digest⟩, UInt8.ofNat bump)

/-- The address that `seeds` and the highest possible bump lead to off the
curve, with the bump.  The bump takes the place of one seed. -/
def find (seeds : List (List UInt8)) (program : Address) : Except Failure (Address × UInt8) := do
  checkSeeds (maxSeeds - 1) seeds
  match searchBump suite seeds program 256 with
  | some found => return found
  | none => throw .bumpsExhausted

/-- The account in which `wallet` keeps the tokens of `mint`. -/
def associatedToken (wallet mint : Address) (program : TokenProgram) : Except Failure Address := do
  let (address, _) ← find suite [wallet.bytes, program.address.bytes, mint.bytes]
    Known.associatedToken
  return address

/-! ## Seeded addresses -/

/-- The digest of base, seed and owner. -/
def seededDigest (base : Address) (seed : List UInt8) (owner : Address) : Address :=
  ⟨suite.digest (base.bytes ++ seed ++ owner.bytes)⟩

/-- The address derived from `base` and `seed` for `owner`, which may not look
like a program-derived address. -/
def withSeed (base : Address) (seed : List UInt8) (owner : Address) : Except Failure Address :=
  if maxSeedLength < seed.length then .error (.parameter (.seedLength seed.length))
  else if marker.isSuffixOf owner.bytes then .error (.parameter .markedOwner)
  else .ok (seededDigest suite base seed owner)

/-- A text as a seed of full length: its UTF-8 bytes, filled up with zeros or
cut off. -/
def seedOfText (text : String) : Block 32 :=
  Block.fit 32 text.toUTF8.toList

/-- The stake account that `owner` keeps for a validator. -/
def ofValidator (owner validator program : Address) : Address :=
  seededDigest suite owner (seedOfText validator.text).bytes program

/-- The stake account that `owner` opens at a recent blockhash. -/
def ofBlockhash (owner : Address) (blockhash : Blockhash) (program : Address) : Address :=
  seededDigest suite owner (seedOfText blockhash.text).bytes program

end SolanaWallet.DerivedAddress
