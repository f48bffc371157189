import SolanaWallet.Bytes

/-!
# The twisted Edwards curve of Ed25519

Points of `-x² + y² = 1 + d x² y²` over the field of `2²⁵⁵ - 19` elements, in
extended coordinates: `x = X / Z`, `y = Y / Z` and `x y = T / Z`.  The curve
coefficient `d` is not a square, so the addition law below has no exceptional
case.

A point travels as the 255 bits of `y` and one bit that says whether `x` is
odd.  `decompress` is lenient in two ways: a `y` at or above the field's size
is reduced, and the sign bit is ignored when `x` is zero.
-/

namespace SolanaWallet.Edwards

/-! ## The field -/

/-- The size of the field. -/
def fieldSize : Nat := Nat.pow 2 255 - 19

/-- Subtraction in the field, of numbers below its size. -/
def sub (a b : Nat) : Nat := (a + fieldSize - b) % fieldSize

/-- Multiplication in the field. -/
def mul (a b : Nat) : Nat := a * b % fieldSize

/-- Addition in the field. -/
def add (a b : Nat) : Nat := (a + b) % fieldSize

/-- A power in the field, by squaring. -/
def pow (a exponent : Nat) : Nat :=
  if exponent = 0 then 1
  else
    let half := pow (mul a a) (exponent / 2)
    if exponent % 2 = 0 then half else mul a half
termination_by exponent

/-- The inverse of a number that is not zero. -/
def inverse (a : Nat) : Nat := pow a (fieldSize - 2)

/-- A square root of minus one. -/
def rootOfMinusOne : Nat := pow 2 ((fieldSize - 1) / 4)

/-- A square root, if there is one. -/
def squareRoot? (a : Nat) : Option Nat :=
  let r := pow a ((fieldSize + 3) / 8)
  if mul r r = a then some r
  else
    let s := mul r rootOfMinusOne
    if mul s s = a then some s else none

/-- The coefficient of the curve, `-121665 / 121666`. -/
def coefficient : Nat := mul (sub 0 121665) (inverse 121666)

/-! ## Points -/

/-- A point in extended coordinates. -/
structure Point where
  X : Nat
  Y : Nat
  Z : Nat
  T : Nat

namespace Point

/-- The neutral element. -/
def zero : Point := ⟨0, 1, 1, 0⟩

/-- The point with the given affine coordinates. -/
def ofAffine (x y : Nat) : Point := ⟨x, y, 1, mul x y⟩

/-- The sum of two points. -/
def add (p q : Point) : Point :=
  let a := mul (sub p.Y p.X) (sub q.Y q.X)
  let b := mul (Edwards.add p.Y p.X) (Edwards.add q.Y q.X)
  let c := mul (mul p.T q.T) (mul 2 coefficient)
  let d := mul 2 (mul p.Z q.Z)
  let e := sub b a
  let f := sub d c
  let g := Edwards.add d c
  let h := Edwards.add b a
  ⟨mul e f, mul g h, mul f g, mul e h⟩

/-- The point with the opposite `x`. -/
def neg (p : Point) : Point := ⟨sub 0 p.X, p.Y, p.Z, sub 0 p.T⟩

/-- The sum of `n` copies of a point, by doubling. -/
def smul (n : Nat) (p : Point) : Point :=
  if n = 0 then zero
  else
    let half := smul (n / 2) (p.add p)
    if n % 2 = 0 then half else p.add half
termination_by n

/-- Whether two points are the same, whatever their `Z`. -/
def same (p q : Point) : Bool :=
  mul p.X q.Z = mul q.X p.Z ∧ mul p.Y q.Z = mul q.Y p.Z

/-- Whether eight times the point is the neutral element. -/
def hasSmallOrder (p : Point) : Bool :=
  (smul 8 p).same zero

/-- The 32 bytes of a point: `y`, and the parity of `x` in the top bit. -/
def compress (p : Point) : Block 32 :=
  let zInverse := inverse p.Z
  let x := mul p.X zInverse
  let y := mul p.Y zInverse
  Block.fit 32 (littleEndian 32 (y + Nat.pow 2 255 * (x % 2)))

/-- The point with the given `y`, reduced, whose `x` is odd or even as asked;
an `x` of zero is taken whatever was asked. -/
def ofY? (y : Nat) (odd : Bool) : Option Point :=
  let yy := mul y y
  match squareRoot? (mul (sub yy 1) (inverse (Edwards.add (mul coefficient yy) 1))) with
  | none => none
  | some x => some (ofAffine (if (x % 2 == 1) = odd then x else sub 0 x) y)

/-- The point with the given bytes, if its `y` belongs to a point. -/
def decompress? (bytes : Block 32) : Option Point :=
  let n := ofLittleEndian bytes.bytes
  ofY? (n % Nat.pow 2 255 % fieldSize) (Nat.pow 2 255 ≤ n)

/-- The base point: `y = 4 / 5`, and `x` is even. -/
def base : Point :=
  (ofY? (mul 4 (inverse 5)) false).getD zero

end Point

/-- The order of the base point. -/
def groupOrder : Nat := Nat.pow 2 252 + 27742317777372353535851937790883648493

end SolanaWallet.Edwards
