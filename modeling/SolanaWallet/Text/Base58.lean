import SolanaWallet.Text.Radix

/-!
# Base58 text

The bytes are one numeral in base 256 and the text is the same numeral in
base 58, with as many leading `1`s as there are leading zero bytes.  There is
no checksum.  A text is refused at its first character outside the alphabet;
characters beyond ASCII are told apart from the others because they are
reported without being shown.
-/

namespace SolanaWallet.Base58

/-- The 58 digits in order: no zero, capital o, capital i or small L. -/
def alphabet : List Char :=
  "123456789ABCDEFGHJKLMNPQRSTUVWXYZabcdefghijkmnopqrstuvwxyz".toList

/-- Why a text is not Base58. -/
inductive Fault where
  /-- An ASCII character that is no digit. -/
  | foreign (character : Char) (offset : Nat)
  /-- A character beyond ASCII. -/
  | nonAscii (offset : Nat)
deriving DecidableEq

/-- The value of one digit standing at `offset`. -/
def digit? (offset : Nat) (c : Char) : Except Fault Nat :=
  if 127 < c.toNat then .error (.nonAscii offset)
  else match alphabet.idxOf? c with
    | some value => .ok value
    | none => .error (.foreign c offset)

/-- The values of the digits, of which the first stands at `offset`. -/
def digits? (offset : Nat) : List Char → Except Fault (List Nat)
  | [] => .ok []
  | c :: rest => do
    let value ← digit? offset c
    let values ← digits? (offset + 1) rest
    return value :: values

/-- The character for a digit value. -/
def symbol (value : Nat) : Char :=
  alphabet.getD value '1'

/-- The Base58 form of a byte string. -/
def encode (bytes : List UInt8) : String :=
  String.ofList ((Radix.recode 256 58 (bytes.map (·.toNat))).map symbol)

/-- The byte string with the given Base58 form. -/
def decode (text : String) : Except Fault (List UInt8) := do
  let values ← digits? 0 text.toList
  return (Radix.recode 58 256 values).map UInt8.ofNat

/-! ## Wording -/

/-- The single quotation mark. -/
def quotationMark : Char :=
  Char.ofNat 39

/-- How an ASCII character is shown between quotation marks: the mark itself,
the backslash and the characters with a short name follow a backslash, other
control characters are given by their number in braces. -/
def escaped (c : Char) : List Char :=
  if c = '\t' then ['\\', 't']
  else if c = '\n' then ['\\', 'n']
  else if c = '\r' then ['\\', 'r']
  else if c.toNat = 0 then ['\\', '0']
  else if c = quotationMark ∨ c = '\\' then ['\\', c]
  else if c.toNat < 32 ∨ c.toNat = 127 then
    ['\\', 'u', '{'] ++ Nat.toDigits 16 c.toNat ++ ['}']
  else [c]

/-- An ASCII character in single quotation marks. -/
def quoted (c : Char) : String :=
  String.ofList (quotationMark :: escaped c ++ [quotationMark])

/-- What the fault is called. -/
def Fault.message : Fault → String
  | .foreign c offset =>
    s!"provided string contained invalid character {quoted c} at byte {offset}"
  | .nonAscii offset =>
    s!"provided string contained non-ascii character starting at byte {offset}"

end SolanaWallet.Base58
