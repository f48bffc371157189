import SolanaWallet.Json.Basic
import SolanaWallet.Text.Hex

/-!
# Reading JSON

The text is cut into tokens by a machine that looks at one character at a
time, and the tokens are put together by a machine that keeps the open arrays
and objects on a stack.  Neither recurses into the text, so values may be
nested to any depth.
-/

namespace SolanaWallet.Json

/-! ## Tokens -/

/-- The pieces of a JSON text. -/
inductive Token where
  | openBrace
  | closeBrace
  | openBracket
  | closeBracket
  | comma
  | colon
  | scalar (value : Json)

/-- Whether a character can be part of a number or of `null`, `true` or
`false`. -/
def isWordChar (c : Char) : Bool :=
  c.isAlphanum || c == '+' || c == '-' || c == '.'

/-- Drops one or more digits. -/
def dropDigits? (cs : List Char) : Option (List Char) :=
  match cs with
  | [] => none
  | c :: rest => if c.isDigit then some (rest.dropWhile Char.isDigit) else none

/-- Whether `cs` is an optional fraction followed by an optional exponent. -/
def isFractionAndExponent (cs : List Char) : Bool :=
  let afterFraction : Option (List Char) :=
    match cs with
    | '.' :: rest => dropDigits? rest
    | _ => some cs
  match afterFraction with
  | none => false
  | some [] => true
  | some (e :: rest) =>
    (e == 'e' || e == 'E') &&
      match rest with
      | '+' :: digits => dropDigits? digits == some []
      | '-' :: digits => dropDigits? digits == some []
      | digits => dropDigits? digits == some []

/-- The number whose decimal digits are given. -/
def decimal (digits : List Char) : Nat :=
  digits.foldl (fun total digit => total * 10 + (digit.toNat - '0'.toNat)) 0

/-- The number written by `cs`, which has no sign: no digits but a single zero
may follow a leading zero. -/
def unsigned? (negative : Bool) (cs : List Char) : Option Json :=
  let digits := cs.takeWhile Char.isDigit
  let rest := cs.dropWhile Char.isDigit
  if digits.isEmpty || (digits.length > 1 && digits.head? == some '0') then none
  else if !isFractionAndExponent rest then none
  else if rest.isEmpty then
    let n := decimal digits
    if negative then
      if n = 0 then some .number else some (.integer (-(n : Int)))
    else some (.integer n)
  else some .number

/-- The value of a run of word characters. -/
def word? (cs : List Char) : Option Json :=
  if cs = "null".toList then some .null
  else if cs = "true".toList then some (.bool true)
  else if cs = "false".toList then some (.bool false)
  else match cs with
    | '-' :: rest => unsigned? true rest
    | _ => unsigned? false cs

/-- The characters for a list of code points in which a code point beyond the
16-bit range may stand as a surrogate pair; `none` when half of a pair stands
alone. -/
def joinSurrogates : List Nat → Option (List Char)
  | [] => some []
  | [n] => if 0xD800 ≤ n ∧ n < 0xE000 then none else some [Char.ofNat n]
  | n :: next :: rest =>
    if 0xD800 ≤ n ∧ n < 0xDC00 then
      if 0xDC00 ≤ next ∧ next < 0xE000 then
        (joinSurrogates rest).map
          (Char.ofNat (0x10000 + (n - 0xD800) * 0x400 + (next - 0xDC00)) :: ·)
      else none
    else if 0xDC00 ≤ n ∧ n < 0xE000 then none
    else (joinSurrogates (next :: rest)).map (Char.ofNat n :: ·)

/-- The code point for the letter of a short escape. -/
def shortEscape? (c : Char) : Option Nat :=
  if c == '"' || c == '\\' || c == '/' then some c.toNat
  else if c == 'b' then some 8
  else if c == 'f' then some 12
  else if c == 'n' then some 10
  else if c == 'r' then some 13
  else if c == 't' then some 9
  else none

/-- Where in a token the machine stands.  What has been read is kept last
first. -/
inductive Place where
  | between
  | word (read : List Char)
  | string (points : List Nat)
  /-- After a backslash. -/
  | escape (points : List Nat)
  /-- Within the four digits of an escape, with the value of those read. -/
  | digits (points : List Nat) (value missing : Nat)

/-- The tokens read so far, last first, and the place. -/
structure Scan where
  tokens : List Token
  place : Place

namespace Scan

/-- A character between tokens. -/
def start (tokens : List Token) (c : Char) : Option Scan :=
  if c == ' ' || c == '\t' || c == '\n' || c == '\r' then some ⟨tokens, .between⟩
  else if c == '{' then some ⟨.openBrace :: tokens, .between⟩
  else if c == '}' then some ⟨.closeBrace :: tokens, .between⟩
  else if c == '[' then some ⟨.openBracket :: tokens, .between⟩
  else if c == ']' then some ⟨.closeBracket :: tokens, .between⟩
  else if c == ',' then some ⟨.comma :: tokens, .between⟩
  else if c == ':' then some ⟨.colon :: tokens, .between⟩
  else if c == '"' then some ⟨tokens, .string []⟩
  else if isWordChar c then some ⟨tokens, .word [c]⟩
  else none

/-- One more character. -/
def next (s : Scan) (c : Char) : Option Scan :=
  match s.place with
  | .between => start s.tokens c
  | .word read =>
    if isWordChar c then some { s with place := .word (c :: read) }
    else do
      let value ← word? read.reverse
      start (.scalar value :: s.tokens) c
  | .string points =>
    if c == '"' then
      let value := (joinSurrogates points.reverse).map String.ofList
      some ⟨.scalar (.string value) :: s.tokens, .between⟩
    else if c == '\\' then some { s with place := .escape points }
    else if c.toNat < 32 then none
    else some { s with place := .string (c.toNat :: points) }
  | .escape points =>
    if c == 'u' then some { s with place := .digits points 0 4 }
    else do
      let point ← shortEscape? c
      return { s with place := .string (point :: points) }
  | .digits points value missing => do
    let digit ← Hex.digit? c
    let total := value * 16 + digit
    if missing ≤ 1 then return { s with place := .string (total :: points) }
    else return { s with place := .digits points total (missing - 1) }

/-- The end of the text. -/
def finish (s : Scan) : Option (List Token) :=
  match s.place with
  | .between => some s.tokens.reverse
  | .word read => do
    let value ← word? read.reverse
    return (.scalar value :: s.tokens).reverse
  | _ => none

end Scan

/-- The tokens of a text. -/
def tokens? (text : List Char) : Option (List Token) := do
  let s ← text.foldlM Scan.next ⟨[], .between⟩
  s.finish

/-! ## Values -/

/-- An array or object that is still open, with what it holds so far, last
first. -/
inductive Frame where
  | array (items : List Json)
  /-- The name is that of the entry being read. -/
  | object (entries : List (Option String × Json)) (name : Option String)

/-- What may come next. -/
inductive Build where
  | wantsValue (stack : List Frame)
  /-- A value, or the end of an array that has just been opened. -/
  | wantsItem (stack : List Frame)
  /-- The name of an entry, or the end of an object if there is none yet. -/
  | wantsName (stack : List Frame) (entries : List (Option String × Json))
  | wantsColon (stack : List Frame) (entries : List (Option String × Json)) (name : Option String)
  /-- What follows a complete value. -/
  | after (stack : List Frame) (value : Json)

namespace Build

/-- The first token of a value. -/
def open? (stack : List Frame) : Token → Option Build
  | .scalar value => some (.after stack value)
  | .openBracket => some (.wantsItem stack)
  | .openBrace => some (.wantsName stack [])
  | _ => none

/-- One more token. -/
def next : Build → Token → Option Build
  | .wantsValue stack, token => open? stack token
  | .wantsItem stack, .closeBracket => some (.after stack (.array []))
  | .wantsItem stack, token => open? (.array [] :: stack) token
  | .wantsName stack entries, .scalar (.string name) => some (.wantsColon stack entries name)
  | .wantsName stack [], .closeBrace => some (.after stack (.object []))
  | .wantsColon stack entries name, .colon => some (.wantsValue (.object entries name :: stack))
  | .after (.array items :: stack) value, .comma =>
    some (.wantsValue (.array (value :: items) :: stack))
  | .after (.array items :: stack) value, .closeBracket =>
    some (.after stack (.array (value :: items).reverse))
  | .after (.object entries name :: stack) value, .comma =>
    some (.wantsName stack ((name, value) :: entries))
  | .after (.object entries name :: stack) value, .closeBrace =>
    some (.after stack (.object ((name, value) :: entries).reverse))
  | _, _ => none

end Build

/-- The value that makes up the whole text, apart from white space. -/
def parse? (text : String) : Option Json := do
  let tokens ← tokens? text.toList
  match ← tokens.foldlM Build.next (.wantsValue []) with
  | .after [] value => return value
  | _ => none

end SolanaWallet.Json
