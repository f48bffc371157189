import SolanaWallet.Failure

/-!
# Reading and writing the wire format

A reader takes what it needs from the front of the bytes and leaves the rest,
so what it decides depends only on what it has taken.  Writing fails only when
a list is too long to have a length on the wire.
-/

namespace SolanaWallet

/-- A reader of the wire format. -/
abbrev Reader := StateT (List UInt8) (Except WireFault)

namespace Reader

variable {α : Type}

/-- Takes one byte. -/
def byte : Reader UInt8 := fun bytes =>
  match bytes with
  | [] => .error (.truncated .byte)
  | first :: rest => .ok (first, rest)

/-- Takes exactly `n` bytes, which make up `part`. -/
def block (n : Nat) (part : Part) : Reader (Block n) := fun bytes =>
  match Block.ofBytes? n (bytes.take n) with
  | some taken => .ok (taken, bytes.drop n)
  | none => .error (.truncated part)

/-- Takes a length. -/
def length : Reader Nat := fun bytes =>
  match ShortVec.decode bytes with
  | .ok (value, count) => .ok (value.toNat, bytes.drop count)
  | .error fault => .error (.length fault)

/-- Takes a length and that many bytes, which make up `part`. -/
def bytes (part : Part) : Reader (List UInt8) := do
  let count ← length
  let taken ← block count part
  return taken.bytes

/-- Runs a reader `count` times. -/
def times (reader : Reader α) : (count : Nat) → Reader (List α)
  | 0 => return []
  | count + 1 => do
    let first ← reader
    let rest ← times reader count
    return first :: rest

/-- Takes a length and runs a reader that many times. -/
def list (reader : Reader α) : Reader (List α) := do
  let count ← length
  times reader count

/-- The result of a reader that has to take all of `input`; what is left over
stands after `whole`. -/
def runAll (reader : Reader α) (whole : Whole) (input : List UInt8) : Except WireFault α :=
  match reader.run input with
  | .error fault => .error fault
  | .ok (result, []) => .ok result
  | .ok (_, rest) => .error (.trailing rest.length whole)

end Reader

namespace Writer

variable {α : Type}

/-- The bytes of a length. -/
def length (n : Nat) : Except Failure (List UInt8) :=
  if n ≤ ShortVec.maxLength then .ok (ShortVec.encode (UInt16.ofNat n))
  else .error (.tooLarge (.list n))

/-- Bytes after their length. -/
def bytes (data : List UInt8) : Except Failure (List UInt8) := do
  let head ← length data.length
  return head ++ data

/-- The items one after the other. -/
def items (write : α → Except Failure (List UInt8)) : List α → Except Failure (List UInt8)
  | [] => .ok []
  | item :: rest => do
    let head ← write item
    let tail ← items write rest
    return head ++ tail

/-- Items after their number. -/
def list (write : α → Except Failure (List UInt8)) (values : List α) :
    Except Failure (List UInt8) := do
  let head ← length values.length
  let tail ← items write values
  return head ++ tail

end Writer

end SolanaWallet
