/-!
# JSON values

A value keeps what a strict reader of records needs to know and no more.
Numbers are told apart only as far as they matter: an integer written as such
has its value, and any other number is just a number.  A text that contains
half of a surrogate pair as an escape stands for no text at all, which is only
noticed when the text is asked for.  Objects keep all their entries in order,
repeated names included.
-/

namespace SolanaWallet

/-- A JSON value. -/
inductive Json where
  | null
  | bool (value : Bool)
  | integer (value : Int)
  /-- A number with a fraction or an exponent, or minus zero. -/
  | number
  /-- A text, or `none` when its escapes do not make one. -/
  | string (value : Option String)
  | array (items : List Json)
  | object (entries : List (Option String × Json))

end SolanaWallet
