/-!
# Bytes of fixed length

Addresses, blockhashes, signatures, seeds and digests are all byte strings
whose length is part of their meaning.  `Block n` carries that length as a
proof, so a function that receives one never has to check it again.

Integers travel little endian: `littleEndian` writes a number into a given
number of bytes and `ofLittleEndian` reads it back.
-/

namespace SolanaWallet

/-- A string of exactly `n` bytes. -/
structure Block (n : Nat) where
  bytes : List UInt8
  length_bytes : bytes.length = n
deriving DecidableEq

namespace Block

variable {n : Nat}

@[ext] theorem ext {a b : Block n} (h : a.bytes = b.bytes) : a = b := by
  cases a; cases b; cases h; rfl

/-- The block with exactly these bytes, if there are `n` of them. -/
def ofBytes? (n : Nat) (bytes : List UInt8) : Option (Block n) :=
  if h : bytes.length = n then some ⟨bytes, h⟩ else none

/-- The block that starts with `bytes`: what is missing is filled with zero
bytes and what is too much is cut off. -/
def fit (n : Nat) (bytes : List UInt8) : Block n :=
  ⟨(bytes ++ List.replicate n 0).take n, by simp⟩

/-- The block of zero bytes. -/
def zero (n : Nat) : Block n :=
  ⟨List.replicate n 0, List.length_replicate⟩

theorem ofBytes?_bytes (b : Block n) : ofBytes? n b.bytes = some b := by
  simp [ofBytes?, b.length_bytes]

theorem ofBytes?_eq_some_iff {bytes : List UInt8} {b : Block n} :
    ofBytes? n bytes = some b ↔ bytes = b.bytes := by
  constructor
  · intro h
    unfold ofBytes? at h
    split at h
    · cases h; rfl
    · cases h
  · rintro rfl
    exact ofBytes?_bytes b

end Block

/-! ## Integers, least significant byte first -/

/-- The lowest `width` bytes of `value`, least significant first. -/
def littleEndian : (width : Nat) → (value : Nat) → List UInt8
  | 0, _ => []
  | width + 1, value => UInt8.ofNat (value % 256) :: littleEndian width (value / 256)

/-- The number whose bytes are given, least significant first. -/
def ofLittleEndian : List UInt8 → Nat
  | [] => 0
  | byte :: rest => byte.toNat + 256 * ofLittleEndian rest

@[simp] theorem length_littleEndian (width value : Nat) :
    (littleEndian width value).length = width := by
  induction width generalizing value with
  | zero => rfl
  | succ width ih => simp [littleEndian, ih]

theorem ofLittleEndian_littleEndian (width value : Nat) :
    ofLittleEndian (littleEndian width value) = value % Nat.pow 256 width := by
  induction width generalizing value with
  | zero => simp [littleEndian, ofLittleEndian, Nat.mod_one]
  | succ width ih =>
    simp only [littleEndian, ofLittleEndian, ih]
    have hbyte : (UInt8.ofNat (value % 256)).toNat = value % 256 := by simp
    have hpow : Nat.pow 256 (width + 1) = 256 * Nat.pow 256 width := Nat.mul_comm _ _
    rw [hbyte, hpow, Nat.mod_mul]

/-- Four bytes, least significant first. -/
def bytes32 (value : UInt32) : List UInt8 :=
  littleEndian 4 value.toNat

/-- Eight bytes, least significant first. -/
def bytes64 (value : UInt64) : List UInt8 :=
  littleEndian 8 value.toNat

end SolanaWallet
