/-!
# Hexadecimal text

Two digits per byte.  Writing uses small letters; reading takes either case
and refuses an odd number of digits.
-/

namespace SolanaWallet.Hex

/-- The value of a digit of either case. -/
def digit? (c : Char) : Option Nat :=
  if '0' ≤ c ∧ c ≤ '9' then some (c.toNat - '0'.toNat)
  else if 'a' ≤ c ∧ c ≤ 'f' then some (c.toNat - 'a'.toNat + 10)
  else if 'A' ≤ c ∧ c ≤ 'F' then some (c.toNat - 'A'.toNat + 10)
  else none

/-- The small-letter digit for a value below sixteen. -/
def digit (value : Nat) : Char :=
  "0123456789abcdef".toList.getD value '0'

/-- The bytes written as pairs of digits. -/
def decodeChars : List Char → Option (List UInt8)
  | [] => some []
  | [_] => none
  | high :: low :: rest => do
    let h ← digit? high
    let l ← digit? low
    let bytes ← decodeChars rest
    return UInt8.ofNat (16 * h + l) :: bytes

/-- The bytes that `text` writes out. -/
def decode? (text : String) : Option (List UInt8) :=
  decodeChars text.toList

/-- Two small-letter digits for each byte. -/
def encode (bytes : List UInt8) : String :=
  String.ofList (bytes.flatMap fun byte => [digit (byte.toNat / 16), digit (byte.toNat % 16)])

end SolanaWallet.Hex
