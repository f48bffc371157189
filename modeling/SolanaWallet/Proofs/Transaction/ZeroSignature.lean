import SolanaWallet.Proofs.Transaction.Signing

/-!
# The zero signature

A slot that holds the zero signature counts as empty, so nothing may verify as
the zero signature.  The strict verification of the network sees to that: the
nonce point of the zero signature has small order, and such points are rejected.

That no key ever makes the zero signature is a matter of the group, and not
shown here.  `CryptoSuite.nonzero` differs from a suite at most where one of its
signatures is zero, and `nonzero.lawful` obeys both laws of signatures.
-/

namespace SolanaWallet

variable {suite : CryptoSuite}

theorem CryptoSuite.RejectsZero.isPlaceholder_eq_false (h : suite.RejectsZero) {address : Address}
    {bytes : List UInt8} {signature : Signature}
    (hverify : verifySignature suite address bytes signature = .ok ()) :
    signature.isPlaceholder = false := by
  rw [Bool.eq_false_iff]
  intro hplaceholder
  obtain rfl := Signature.isPlaceholder_iff.mp hplaceholder
  unfold verifySignature at hverify
  split at hverify
  · rename_i hvalid
    exact h _ _ hvalid
  · cases hverify
  · cases hverify

/-! ## On the network -/

/-- The point whose bytes are all zero. -/
def Edwards.Point.ofZero : Point where
  X := 19681161376707505956807079304988542015446066515923890162744021073123829784752
  Y := 0
  Z := 1
  T := 0

theorem Edwards.Point.decompress?_zero :
    decompress? (Block.fit 32 ((Block.zero 64).bytes.take 32)) = some ofZero := by
  have hcoordinates : (decompress? (Block.fit 32 ((Block.zero 64).bytes.take 32))).map
      (fun R => (R.X, R.Y, R.Z, R.T)) = some (ofZero.X, ofZero.Y, ofZero.Z, ofZero.T) := by
    decide +kernel
  obtain ⟨⟨X, Y, Z, T⟩, hR, heq⟩ := Option.map_eq_some_iff.mp hcoordinates
  rw [hR]
  simp only [Prod.mk.injEq] at heq
  obtain ⟨rfl, rfl, rfl, rfl⟩ := heq
  rfl

theorem Edwards.Point.hasSmallOrder_ofZero : ofZero.hasSmallOrder = true := by decide +kernel

theorem Ed25519.verifies_zero (key : Block 32) (A : Edwards.Point) (message : List UInt8) :
    verifies key A message (Block.zero 64) = false := by
  -- unfolded for this signature only, as the point of another cannot be computed
  delta verifies
  dsimp only
  rw [Edwards.Point.decompress?_zero]
  dsimp only
  rw [Edwards.Point.hasSmallOrder_ofZero, Bool.not_true, Bool.and_false, Bool.false_and,
    Bool.false_and]

namespace CryptoSuite

theorem verify_ledger :
    ledger.verify = fun key message signature =>
      match Edwards.Point.decompress? key with
      | none => .badKey
      | some A => if Ed25519.verifies key A message signature then .valid else .badSignature := rfl

theorem rejectsZero_ledger : ledger.RejectsZero := by
  rw [RejectsZero, verify_ledger]
  intro key message
  dsimp only
  cases Edwards.Point.decompress? key with
  | none => simp
  | some A => simp [Ed25519.verifies_zero]

/-! ## Both laws -/

/-- The suite with another signature in place of one that is zero. -/
def nonzero (suite : CryptoSuite) : CryptoSuite :=
  { suite with
    sign := fun seed message =>
      if suite.sign seed message = Block.zero 64 then Block.fit 64 [1]
      else suite.sign seed message }

theorem sign_nonzero_ne (suite : CryptoSuite) (seed : Block 32) (message : List UInt8) :
    suite.nonzero.sign seed message ≠ Block.zero 64 := by
  unfold nonzero
  dsimp only
  split
  · decide
  · assumption

theorem rejectsZero_lawful_nonzero (h : suite.RejectsZero) :
    suite.nonzero.lawful.RejectsZero := by
  intro key message
  have hnone : ¬ ∃ seed, suite.nonzero.publicKey seed = key ∧
      suite.nonzero.sign seed message = Block.zero 64 :=
    fun hmade => hmade.elim fun seed hseed => suite.sign_nonzero_ne seed message hseed.2
  have hverify : suite.nonzero.lawful.verify key message (Block.zero 64) =
      suite.verify key message (Block.zero 64) := if_neg hnone
  rw [hverify]
  exact h key message

end CryptoSuite

end SolanaWallet
