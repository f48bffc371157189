/-!
# Short-vector lengths

Every list on the wire is preceded by its length in groups of seven bits,
lowest group first; each byte but the last has its high bit set.  Lengths are
16-bit numbers, so there are at most three bytes.  Reading accepts only the
shortest form of a length.
-/

namespace SolanaWallet.ShortVec

/-- The most bytes a length takes. -/
def maxBytes : Nat := 3

/-- The largest length. -/
def maxLength : Nat := 65535

/-- Why bytes do not start with a length. -/
inductive Fault where
  /-- A last byte of zero adds nothing, so a shorter form exists. -/
  | padded
  /-- The length is above the limit. -/
  | overflow
  /-- The bytes end within the length. -/
  | truncated
deriving DecidableEq

/-- The one to three bytes of a length. -/
def encode (value : UInt16) : List UInt8 :=
  let n := value.toNat
  if n < 128 then [UInt8.ofNat n]
  else if n < 16384 then [UInt8.ofNat (n % 128 + 128), UInt8.ofNat (n / 128)]
  else [UInt8.ofNat (n % 128 + 128), UInt8.ofNat (n / 128 % 128 + 128), UInt8.ofNat (n / 16384)]

/-- The length at the front of `bytes`, and how many bytes it takes. -/
def decode : (bytes : List UInt8) → Except Fault (UInt16 × Nat)
  | [] => .error .truncated
  | a :: rest =>
    if a.toNat < 128 then .ok (UInt16.ofNat a.toNat, 1)
    else match rest with
      | [] => .error .truncated
      | b :: rest =>
        if b = 0 then .error .padded
        else if b.toNat < 128 then .ok (UInt16.ofNat (a.toNat % 128 + 128 * b.toNat), 2)
        else match rest with
          | [] => .error .truncated
          | c :: _ =>
            let n := a.toNat % 128 + 128 * (b.toNat % 128) + 16384 * c.toNat
            if c = 0 then .error .padded
            else if n ≤ maxLength then .ok (UInt16.ofNat n, 3)
            else .error .overflow

/-- What the fault is called. -/
def Fault.message : Fault → String
  | .padded => "non-canonical short-vec encoding"
  | .overflow => "short-vec value overflow"
  | .truncated => "unexpected end of data while decoding short-vec"

end SolanaWallet.ShortVec
