/-!
# Numerals in a base

A list of digits, most significant first, is read as a number by `value` and
a number is written by `digits`.  Neither sees leading zeros, so `recode`,
which moves a numeral from one base to another, carries them over one for
one.
-/

namespace SolanaWallet.Radix

/-- The number with the given digits, most significant first. -/
def value (base : Nat) (digits : List Nat) : Nat :=
  digits.foldl (fun total digit => total * base + digit) 0

/-- The digits of `n` put in front of `tail`. -/
def digitsBefore (base n : Nat) (tail : List Nat) : List Nat :=
  if _h : 2 ≤ base ∧ n ≠ 0 then
    digitsBefore base (n / base) (n % base :: tail)
  else tail
termination_by n
decreasing_by exact Nat.div_lt_self (Nat.pos_of_ne_zero _h.2) _h.1

/-- The digits of `n` in `base`, most significant first and without leading
zeros; zero has no digits. -/
def digits (base n : Nat) : List Nat :=
  digitsBefore base n []

/-- How many zeros stand in front. -/
def leadingZeros (digits : List Nat) : Nat :=
  (digits.takeWhile (· = 0)).length

/-- The numeral in base `target` for a numeral in base `source`: as many
leading zeros as before, then the digits of the same number. -/
def recode (source target : Nat) (numeral : List Nat) : List Nat :=
  List.replicate (leadingZeros numeral) 0 ++ digits target (value source numeral)

end SolanaWallet.Radix
