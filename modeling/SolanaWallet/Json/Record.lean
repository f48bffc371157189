import SolanaWallet.Json.Basic

/-!
# Reading records from JSON

A record is an object, or an array of its fields in the order of declaration
with the last ones left out.  Missing fields take their default and unknown
fields are ignored, but a known field may not be given twice.  A value of the
wrong shape makes the whole record unreadable.
-/

namespace SolanaWallet.Json

/-- The fields that are given, with their values. -/
abbrev Fields := List (String × Json)

/-- The names of the entries, all of which must be texts. -/
def named? : List (Option String × Json) → Option Fields
  | [] => some []
  | (name, value) :: rest => do
    let name ← name
    let fields ← named? rest
    return (name, value) :: fields

/-- The fields given by a record that has the fields `names`. -/
def fields? (names : List String) : Json → Option Fields
  | .array values => if values.length ≤ names.length then some (names.zip values) else none
  | .object entries => do
    let fields ← named? entries
    let known := fields.filter fun field => names.contains field.1
    if (known.map (·.1)).Pairwise (· ≠ ·) then return known else none
  | _ => none

/-- The value of a field, or the default when it is not given. -/
def Fields.get {α : Type} (fields : Fields) (name : String) (default : α)
    (read : Json → Option α) : Option α :=
  match fields.lookup name with
  | none => some default
  | some value => read value

/-! ## Values of fields -/

/-- A text. -/
def text? : Json → Option String
  | .string value => value
  | _ => none

/-- A truth value. -/
def bool? : Json → Option Bool
  | .bool value => some value
  | _ => none

/-- An integer from zero up to, but not including, `bound`. -/
def natural? (bound : Nat) : Json → Option Nat
  | .integer value => if 0 ≤ value ∧ value < bound then some value.toNat else none
  | _ => none

/-- A 32-bit number. -/
def uint32? (value : Json) : Option UInt32 := (natural? (Nat.pow 2 32) value).map UInt32.ofNat

/-- A 64-bit number. -/
def uint64? (value : Json) : Option UInt64 := (natural? (Nat.pow 2 64) value).map UInt64.ofNat

/-- A value, or `null` for none. -/
def optional? {α : Type} (read : Json → Option α) : Json → Option (Option α)
  | .null => some none
  | value => (read value).map some

/-- An array. -/
def list? {α : Type} (read : Json → Option α) : Json → Option (List α)
  | .array items => items.mapM read
  | _ => none

/-- The name of a choice without content: a text, or an object whose only
entry has the value `null`. -/
def choice? : Json → Option String
  | .string value => value
  | .object [(name, .null)] => name
  | _ => none

end SolanaWallet.Json
