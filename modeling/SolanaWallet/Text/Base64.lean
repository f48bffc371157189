/-!
# Base64 text

The standard alphabet with canonical padding.  Three bytes make four symbols;
a rest of one or two bytes makes two or three symbols and is padded to four
with `=`.  Reading accepts only what writing produces: padding is required,
and the bits of the last symbol that belong to no byte must be zero.

A text is read from left to right, four symbols at a time, and the last four
(or fewer) are looked at together, because only they may hold padding.
-/

namespace SolanaWallet.Base64

/-- The 64 symbols in order. -/
def alphabet : List Char :=
  "ABCDEFGHIJKLMNOPQRSTUVWXYZabcdefghijklmnopqrstuvwxyz0123456789+/".toList

/-- The byte of the padding character. -/
def pad : UInt8 := 61

/-- Why a text is not Base64. -/
inductive Fault where
  /-- A byte that may not stand where it does. -/
  | symbol (byte : UInt8) (offset : Nat)
  /-- A single symbol is left over after this many. -/
  | length (symbols : Nat)
  /-- The last symbol carries bits that belong to no byte. -/
  | lastSymbol (byte : UInt8) (offset : Nat)
  /-- Padding is missing. -/
  | padding
deriving DecidableEq

/-- The character for a value below 64. -/
def symbol (value : Nat) : Char :=
  alphabet.getD value 'A'

/-! ## Writing -/

/-- The symbols and padding for a byte string. -/
def symbols : List UInt8 → List Char
  | a :: b :: c :: rest =>
    let n := a.toNat * 65536 + b.toNat * 256 + c.toNat
    symbol (n / 262144) :: symbol (n / 4096 % 64) :: symbol (n / 64 % 64) :: symbol (n % 64) ::
      symbols rest
  | [a, b] =>
    let n := a.toNat * 1024 + b.toNat * 4
    [symbol (n / 4096), symbol (n / 64 % 64), symbol (n % 64), '=']
  | [a] =>
    let n := a.toNat * 16
    [symbol (n / 64), symbol (n % 64), '=', '=']
  | [] => []

/-- The Base64 form of a byte string. -/
def encode (bytes : List UInt8) : String :=
  String.ofList (symbols bytes)

/-! ## Reading -/

/-- The value of a symbol, given as a byte. -/
def value? (byte : UInt8) : Option Nat :=
  alphabet.idxOf? (Char.ofNat byte.toNat)

/-- The value of the symbol at `offset`. -/
def valueAt (offset : Nat) (byte : UInt8) : Except Fault Nat :=
  match value? byte with
  | some value => .ok value
  | none => .error (.symbol byte offset)

/-- The values of the symbols from `offset` on. -/
def valuesAt (offset : Nat) : List UInt8 → Except Fault (List Nat)
  | [] => .ok []
  | byte :: rest => do
    let value ← valueAt offset byte
    let values ← valuesAt (offset + 1) rest
    return value :: values

/-- The bytes of a final group of two to four symbol values, or `none` when
the bits left over are not zero. -/
def closing? : List Nat → Option (List UInt8)
  | [w, x] =>
    let n := w * 64 + x
    if n % 16 = 0 then some [UInt8.ofNat (n / 16)] else none
  | [w, x, y] =>
    let n := w * 4096 + x * 64 + y
    if n % 4 = 0 then some [UInt8.ofNat (n / 1024), UInt8.ofNat (n / 4)] else none
  | [w, x, y, z] =>
    let n := w * 262144 + x * 4096 + y * 64 + z
    some [UInt8.ofNat (n / 65536), UInt8.ofNat (n / 256), UInt8.ofNat n]
  | _ => none

/-- Reads the last group, which starts at `offset`.  Padding may only follow
two or three symbols, and nothing may follow padding: the first padding
character is blamed for either. -/
def readLast (offset : Nat) (group : List UInt8) : Except Fault (List UInt8) := do
  let body := group.takeWhile (· ≠ pad)
  let padding := group.dropWhile (· ≠ pad)
  let values ← valuesAt offset body
  if padding ≠ [] ∧ (body.length < 2 ∨ padding.any (· ≠ pad)) then
    throw (.symbol pad (offset + body.length))
  if body.length < 2 then
    throw (.length (offset + body.length))
  if (body.length + padding.length) % 4 ≠ 0 then
    throw .padding
  match closing? values with
  | some bytes => return bytes
  | none => throw (.lastSymbol (body.getLastD pad) (offset + body.length - 1))

/-- Reads groups of four symbols, of which the first starts at `offset`, and
then the last group. -/
def readGroups (offset : Nat) : List UInt8 → Except Fault (List UInt8)
  | a :: b :: c :: d :: next :: rest => do
    let w ← valueAt offset a
    let x ← valueAt (offset + 1) b
    let y ← valueAt (offset + 2) c
    let z ← valueAt (offset + 3) d
    let n := w * 262144 + x * 4096 + y * 64 + z
    let bytes ← readGroups (offset + 4) (next :: rest)
    return UInt8.ofNat (n / 65536) :: UInt8.ofNat (n / 256) :: UInt8.ofNat n :: bytes
  | group => readLast offset group

/-- The byte string whose Base64 form has the given bytes.  When one byte is
left over after the groups of four and it is no symbol at all, such as a line
break, it is blamed before anything else is read. -/
def decodeBytes (text : List UInt8) : Except Fault (List UInt8) :=
  match text.getLast? with
  | none => .ok []
  | some last =>
    if text.length % 4 = 1 ∧ last ≠ pad ∧ value? last = none then
      .error (.symbol last (text.length - 1))
    else readGroups 0 text

/-- The byte string with the given Base64 form. -/
def decode (text : String) : Except Fault (List UInt8) :=
  decodeBytes text.toUTF8.toList

/-- What the fault is called. -/
def Fault.message : Fault → String
  | .symbol byte offset => s!"Invalid symbol {byte.toNat}, offset {offset}."
  | .length symbols => s!"Invalid input length: {symbols}"
  | .lastSymbol byte offset => s!"Invalid last symbol {byte.toNat}, offset {offset}."
  | .padding => "Invalid padding"

end SolanaWallet.Base64
