import SolanaWallet.Bytes

/-!
# SHA-256 and SHA-512

Both hash functions run the same compression over words of 32 or 64 bits;
they differ in the width of a word, the number of rounds and the rotation
amounts.  The round constants are the first bits of the fractional parts of
the cube roots of the first primes, and the initial state is taken in the same
way from square roots, so both are computed here rather than listed.
-/

namespace SolanaWallet.Sha2

/-! ## Words -/

/-- The operations on a machine word that the compression needs. -/
class Word (W : Type) extends Add W, AndOp W, XorOp W, Complement W where
  /-- How many bytes a word has. -/
  width : Nat
  ofNat : Nat → W
  toNat : W → Nat
  rotateRight : W → Nat → W
  shiftRight : W → Nat → W

instance : Word UInt32 where
  width := 4
  ofNat := UInt32.ofNat
  toNat := UInt32.toNat
  rotateRight x n := (x >>> UInt32.ofNat n) ||| (x <<< UInt32.ofNat (32 - n))
  shiftRight x n := x >>> UInt32.ofNat n

instance : Word UInt64 where
  width := 8
  ofNat := UInt64.ofNat
  toNat := UInt64.toNat
  rotateRight x n := (x >>> UInt64.ofNat n) ||| (x <<< UInt64.ofNat (64 - n))
  shiftRight x n := x >>> UInt64.ofNat n

/-! ## Constants -/

/-- The largest number with `root ^ k ≤ n` that can be reached from `root` by
adding distinct powers of two below `2 ^ bits`. -/
def rootFrom (k n : Nat) : (bits : Nat) → (root : Nat) → Nat
  | 0, root => root
  | bits + 1, root =>
    if (root + 2 ^ bits) ^ k ≤ n then rootFrom k n bits (root + 2 ^ bits)
    else rootFrom k n bits root

/-- The first `bits` bits of the fractional part of the `k`-th root of a prime
below `2 ^ 10`. -/
def rootFraction (k bits p : Nat) : Nat :=
  rootFrom k (p * Nat.pow 2 (k * bits)) (bits + 6) 0 % Nat.pow 2 bits

/-- The first 80 primes. -/
def primes : List Nat :=
  (List.range 410).filter fun n => 2 ≤ n && (List.range n).all fun d => d < 2 || n % d != 0

/-! ## Compression -/

/-- What tells the two functions apart, apart from the width of a word. -/
structure Variant where
  rounds : Nat
  /-- Rotations of the first working variable. -/
  bigSigma0 : Nat × Nat × Nat
  /-- Rotations of the fifth working variable. -/
  bigSigma1 : Nat × Nat × Nat
  /-- Two rotations and a shift of the word fifteen places back. -/
  smallSigma0 : Nat × Nat × Nat
  /-- Two rotations and a shift of the word two places back. -/
  smallSigma1 : Nat × Nat × Nat

/-- The eight working variables. -/
structure State (W : Type) where
  a : W
  b : W
  c : W
  d : W
  e : W
  f : W
  g : W
  h : W

section

variable {W : Type} [Word W]

/-- The exclusive or of three rotations. -/
@[specialize] def rotations (amounts : Nat × Nat × Nat) (x : W) : W :=
  Word.rotateRight x amounts.1 ^^^ Word.rotateRight x amounts.2.1 ^^^
    Word.rotateRight x amounts.2.2

/-- The exclusive or of two rotations and a shift. -/
@[specialize] def rotationsAndShift (amounts : Nat × Nat × Nat) (x : W) : W :=
  Word.rotateRight x amounts.1 ^^^ Word.rotateRight x amounts.2.1 ^^^
    Word.shiftRight x amounts.2.2

/-- The next `count` schedule words after the sixteen in `recent`. -/
@[specialize] def expand (v : Variant) : (count : Nat) → (recent : List W) → List W
  | 0, _ => []
  | count + 1, recent =>
    let zero : W := Word.ofNat 0
    let next := rotationsAndShift v.smallSigma1 (recent.getD 14 zero) + recent.getD 9 zero +
      rotationsAndShift v.smallSigma0 (recent.getD 1 zero) + recent.getD 0 zero
    next :: expand v count (recent.tail ++ [next])

/-- One round with the sum of a schedule word and a round constant. -/
@[specialize] def round (v : Variant) (s : State W) (input : W) : State W :=
  let choice := (s.e &&& s.f) ^^^ (~~~s.e &&& s.g)
  let majority := (s.a &&& s.b) ^^^ (s.a &&& s.c) ^^^ (s.b &&& s.c)
  let t1 := s.h + rotations v.bigSigma1 s.e + choice + input
  let t2 := rotations v.bigSigma0 s.a + majority
  { a := t1 + t2, b := s.a, c := s.b, d := s.c, e := s.d + t1, f := s.e, g := s.f, h := s.g }

/-- Mixes a block of sixteen words into the state. -/
@[specialize] def compress (v : Variant) (constants : List W) (s : State W) (block : List W) :
    State W :=
  let inputs := List.zipWith (· + ·) (block ++ expand v (v.rounds - 16) block) constants
  let t := inputs.foldl (round v) s
  { a := s.a + t.a, b := s.b + t.b, c := s.c + t.c, d := s.d + t.d,
    e := s.e + t.e, f := s.f + t.f, g := s.g + t.g, h := s.h + t.h }

/-! ## Padding and words -/

/-- The number whose bytes are given, most significant first. -/
def bigEndian (bytes : List UInt8) : Nat :=
  bytes.foldl (fun total byte => total * 256 + byte.toNat) 0

/-- The message, a one bit, zeros, and the length in bits, filling whole
blocks of sixteen words of `width` bytes. -/
def padded (width : Nat) (message : List UInt8) : List UInt8 :=
  let block := 16 * width
  let used := message.length + 1 + 2 * width
  message ++ 128 :: List.replicate ((block - used % block) % block) 0 ++
    (littleEndian (2 * width) (8 * message.length)).reverse

/-- Reads `count` words. -/
@[specialize] def words : (count : Nat) → List UInt8 → List W
  | 0, _ => []
  | count + 1, bytes =>
    Word.ofNat (bigEndian (bytes.take (Word.width W))) ::
      words count (bytes.drop (Word.width W))

/-- Mixes in `count` blocks one after the other. -/
@[specialize] def absorb (v : Variant) (constants : List W) :
    (count : Nat) → State W → List W → State W
  | 0, s, _ => s
  | count + 1, s, input =>
    absorb v constants count (compress v constants s (input.take 16)) (input.drop 16)

/-- The eight words of the digest. -/
@[specialize] def digest (v : Variant) (constants : List W) (start : State W)
    (message : List UInt8) : List UInt8 :=
  let input := padded (Word.width W) message
  let count := input.length / Word.width W
  let s := absorb v constants (count / 16) start (words count input)
  [s.a, s.b, s.c, s.d, s.e, s.f, s.g, s.h].flatMap fun x =>
    (littleEndian (Word.width W) (Word.toNat x)).reverse

end

/-! ## The two functions -/

/-- The constants of the first `count` rounds for words of `bits` bits. -/
def roundConstants (bits count : Nat) : List Nat :=
  (primes.take count).map (rootFraction 3 bits)

/-- The initial state for words of `bits` bits. -/
def initialWords (bits : Nat) : List Nat :=
  (primes.take 8).map (rootFraction 2 bits)

/-- A state from a list of eight words. -/
def State.ofList {W : Type} (zero : W) (words : List W) : State W where
  a := words.getD 0 zero
  b := words.getD 1 zero
  c := words.getD 2 zero
  d := words.getD 3 zero
  e := words.getD 4 zero
  f := words.getD 5 zero
  g := words.getD 6 zero
  h := words.getD 7 zero

/-- What makes SHA-256. -/
def variant256 : Variant where
  rounds := 64
  bigSigma0 := (2, 13, 22)
  bigSigma1 := (6, 11, 25)
  smallSigma0 := (7, 18, 3)
  smallSigma1 := (17, 19, 10)

/-- What makes SHA-512. -/
def variant512 : Variant where
  rounds := 80
  bigSigma0 := (28, 34, 39)
  bigSigma1 := (14, 18, 41)
  smallSigma0 := (1, 8, 7)
  smallSigma1 := (19, 61, 6)

/-- The round constants of SHA-256. -/
def constants256 : List UInt32 :=
  (roundConstants 32 64).map UInt32.ofNat

/-- The round constants of SHA-512. -/
def constants512 : List UInt64 :=
  (roundConstants 64 80).map UInt64.ofNat

/-- The state in which SHA-256 starts. -/
def start256 : State UInt32 :=
  State.ofList 0 ((initialWords 32).map UInt32.ofNat)

/-- The state in which SHA-512 starts. -/
def start512 : State UInt64 :=
  State.ofList 0 ((initialWords 64).map UInt64.ofNat)

/-- The SHA-256 digest. -/
def sha256 (message : List UInt8) : Block 32 :=
  Block.fit 32 (digest variant256 constants256 start256 message)

/-- The SHA-512 digest. -/
def sha512 (message : List UInt8) : Block 64 :=
  Block.fit 64 (digest variant512 constants512 start512 message)

end SolanaWallet.Sha2
