import SolanaWallet.Program.Stake
import SolanaWallet.Proofs.Text.Base58Form
import SolanaWallet.Proofs.Wire.Message

/-!
# A deposit opens the account that its seed names

The ledger does not believe the address of a seeded account: it reads base, seed
and owner from the data of the instruction and derives the address again.  A
deposit writes the seed on one path and derives the address on another, so the
two have to meet.

* `run_seededCreation`: the data is read back to the end, and gives what was
  written.
* `bytes_seedOfText`: the text of 32 bytes or more is cut off and never filled
  up, because a Base58 text has at least as many characters as there are bytes
  (`Base58.length_le_length_encode`) and all of them are ASCII.

That the derivation itself succeeds needs no hypothesis: the seed has 32 bytes,
and the address of the stake program does not end with the marker.
-/

namespace SolanaWallet

/-! ## Reading the data of an instruction -/

theorem ofLittleEndian_of_lt {width value : Nat} (h : value < 256 ^ width) :
    ofLittleEndian (littleEndian width value) = value := by
  rw [ofLittleEndian_littleEndian]
  exact Nat.mod_eq_of_lt h

/-- What the data of an instruction that creates an account from a seed says. -/
structure SeededCreation where
  number : Nat
  base : Address
  seed : List UInt8
  lamports : Nat
  space : Nat
  owner : Address

namespace Reader

/-- Takes a number of `width` bytes, least significant first. -/
def number (width : Nat) : Reader Nat := do
  let taken ← block width .instructionData
  return ofLittleEndian taken.bytes

/-- Takes the number of the instruction and its arguments; the seed stands behind
its length. -/
def seededCreation : Reader SeededCreation := do
  let number ← number 4
  let base ← address .instructionData
  let length ← Reader.number 8
  let seed ← block length .instructionData
  let lamports ← Reader.number 8
  let space ← Reader.number 8
  let owner ← address .instructionData
  return { number, base, seed := seed.bytes, lamports, space, owner }

theorem run_number {width value : Nat} (h : value < 256 ^ width) (rest : List UInt8) :
    (number width).run (littleEndian width value ++ rest) = .ok (value, rest) := by
  have htaken : (block width .instructionData).run (littleEndian width value ++ rest) =
      .ok (⟨littleEndian width value, length_littleEndian width value⟩, rest) :=
    (block_reads width _ _ _ _).mpr ⟨_, rfl, rfl⟩
  rw [number, run_bind_of_ok htaken, ofLittleEndian_of_lt h]
  rfl

theorem run_address (a : Address) (rest : List UInt8) :
    (address .instructionData).run (a.bytes ++ rest) = .ok (a, rest) :=
  (address_reads _ _ _ _).mpr ⟨a.bytes, rfl, rfl⟩

theorem run_block_append (bytes rest : List UInt8) :
    (block bytes.length .instructionData).run (bytes ++ rest) = .ok (⟨bytes, rfl⟩, rest) :=
  (block_reads _ _ _ _ _).mpr ⟨bytes, rfl, rfl⟩

theorem run_seededCreation (source account base : Address) {seed : List UInt8}
    (lamports space : UInt64) (owner : Address) (hseed : seed.length < 256 ^ 8) :
    seededCreation.run
        (SystemProgram.createAccountWithSeed source account base seed lamports space owner).data =
      .ok (⟨3, base, seed, lamports.toNat, space.toNat, owner⟩, []) := by
  have hdata :
      (SystemProgram.createAccountWithSeed source account base seed lamports space owner).data =
        littleEndian 4 3 ++ (base.bytes ++ (littleEndian 8 seed.length ++ (seed ++
          (littleEndian 8 lamports.toNat ++
            (littleEndian 8 space.toNat ++ (owner.bytes ++ [])))))) := by
    simp only [SystemProgram.createAccountWithSeed, SystemProgram.call, bytes32, bytes64,
      List.append_assoc, List.append_nil]
    rfl
  rw [hdata, seededCreation, run_bind_of_ok (run_number (by decide) _),
    run_bind_of_ok (run_address base _), run_bind_of_ok (run_number hseed _),
    run_bind_of_ok (run_block_append seed _), run_bind_of_ok (run_number lamports.toNat_lt _),
    run_bind_of_ok (run_number space.toNat_lt _), run_bind_of_ok (run_address owner _)]
  rfl

end Reader

/-! ## Texts as seeds -/

theorem utf8_toText {n : Nat} (b : Block n) :
    b.toText.toUTF8.toList = asciiBytes b.toText.toList := by
  have hascii : ∀ c ∈ b.toText.toList, c.toNat < 128 := fun c hc =>
    Base58.toNat_lt_of_mem_encode hc
  rw [← utf8_ofList hascii, String.ofList_toList]

/-- The text of `n` bytes has a character for every byte of the seed. -/
theorem length_le_length_toText {n : Nat} (b : Block n) : n ≤ b.toText.toList.length := by
  have hlength := Base58.length_le_length_encode b.bytes
  rwa [b.length_bytes] at hlength

/-- The seed made from the text of a long enough block is its first 32
characters. -/
theorem bytes_seedOfText {n : Nat} (b : Block n) (hn : 32 ≤ n) :
    (DerivedAddress.seedOfText b.toText).bytes =
      (String.ofList (b.toText.toList.take 32)).toUTF8.toList := by
  have hascii : ∀ c ∈ b.toText.toList.take 32, c.toNat < 128 := fun c hc =>
    Base58.toNat_lt_of_mem_encode (List.mem_of_mem_take hc)
  have hlong : 32 ≤ (asciiBytes b.toText.toList).length := by
    rw [asciiBytes, List.length_map]
    exact hn.trans (length_le_length_toText b)
  calc (DerivedAddress.seedOfText b.toText).bytes
      = (asciiBytes b.toText.toList ++ List.replicate 32 0).take 32 := by
        rw [← utf8_toText]
        rfl
    _ = (asciiBytes b.toText.toList).take 32 := List.take_append_of_le_length hlong
    _ = asciiBytes (b.toText.toList.take 32) := by
        rw [asciiBytes, asciiBytes, List.map_take]
    _ = (String.ofList (b.toText.toList.take 32)).toUTF8.toList := (utf8_ofList hascii).symm

/-! ## What the ledger does with a deposit -/

/-- The address of the account that stands at `place` among those of an
instruction. -/
def Instruction.address? (ix : Instruction) (place : Nat) : Option Address :=
  ix.accounts[place]?.map (·.address)

/-- The instruction creates `account`, as its data says: the data is read to the
end, and the address is the one that the ledger derives from it. -/
structure Creates (suite : CryptoSuite) (ix : Instruction) (said : SeededCreation)
    (account : Address) : Prop where
  program_eq : ix.program = Known.system
  run_data : Reader.seededCreation.run ix.data = .ok (said, [])
  number_eq : said.number = 3
  account_eq : ix.address? 1 = some account
  base_eq : ix.address? 2 = some said.base
  withSeed_eq : DerivedAddress.withSeed suite said.base said.seed said.owner = .ok account

/-- The instruction is the one with this number of the stake program, and works
on `account`. -/
structure IsStakeCall (number : UInt32) (ix : Instruction) (account : Address) : Prop where
  program_eq : ix.program = Known.stake
  number_prefix : bytes32 number <+: ix.data
  account_eq : ix.address? 0 = some account

theorem marker_not_suffix_stake :
    DerivedAddress.marker.isSuffixOf Known.stake.bytes = false := by decide +kernel

theorem withSeed_seedOfText (suite : CryptoSuite) (base : Address) (text : String) :
    DerivedAddress.withSeed suite base (DerivedAddress.seedOfText text).bytes Known.stake =
      .ok (DerivedAddress.seededDigest suite base (DerivedAddress.seedOfText text).bytes
        Known.stake) := by
  have hshort : ¬ DerivedAddress.maxSeedLength < (DerivedAddress.seedOfText text).bytes.length := by
    rw [Block.length_bytes]
    decide
  rw [DerivedAddress.withSeed, if_neg hshort, marker_not_suffix_stake]
  rfl

/-- **A deposit is consistent.** The account that the first instruction creates,
the second authorizes and the third delegates is the one that the ledger derives
from the data of the first: from the sender, the first 32 characters of the text
of the blockhash and the stake program. -/
theorem deposit_selfConsistent (suite : CryptoSuite) (sender vote : Address) (lamports : UInt64)
    (blockhash : Blockhash) :
    ∃ create authorize delegate said account,
      StakeProgram.deposit suite sender vote lamports blockhash none =
        [create, authorize, delegate] ∧
      Creates suite create said account ∧ IsStakeCall 0 authorize account ∧
      IsStakeCall 2 delegate account ∧ delegate.address? 1 = some vote ∧
      said.base = sender ∧ said.owner = Known.stake ∧ said.lamports = lamports.toNat ∧
      32 ≤ blockhash.text.toList.length ∧ said.seed.length = 32 ∧
      said.seed = (String.ofList (blockhash.text.toList.take 32)).toUTF8.toList := by
  have hlength : (DerivedAddress.seedOfText blockhash.text).bytes.length = 32 :=
    Block.length_bytes _
  refine ⟨_, _, _, _, DerivedAddress.ofBlockhash suite sender blockhash Known.stake, rfl,
    ⟨rfl, Reader.run_seededCreation _ _ _ _ _ _ ?_, rfl, rfl, rfl, withSeed_seedOfText _ _ _⟩,
    ⟨rfl, List.prefix_append _ _, rfl⟩, ⟨rfl, List.prefix_append _ _, rfl⟩, rfl, rfl, rfl, rfl,
    length_le_length_toText _, hlength, bytes_seedOfText _ (Nat.le_refl 32)⟩
  rw [hlength]
  decide

end SolanaWallet
