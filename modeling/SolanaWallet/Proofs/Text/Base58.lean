import Mathlib.Data.Nat.Digits.Lemmas
import SolanaWallet.Proofs.Outcome
import SolanaWallet.Proofs.Text.Characters
import SolanaWallet.Text.Base58

/-!
# Base58 text has one form

A numeral is fixed by the number behind it and by its leading zeros
(`Radix.eq_recode_iff`).  Both are carried over when the base is changed, so
nothing is lost on the way there and back (`Radix.recode_recode`).  The digits
of Base58 are in one-to-one correspondence with 58 characters, so a text is read
as some bytes exactly if it is what is written for them.
-/

namespace SolanaWallet

namespace Radix

variable {base source target : Nat} {numeral : List Nat}

/-! ## Numerals and numbers -/

theorem value_append_singleton (base : Nat) (numeral : List Nat) (digit : Nat) :
    value base (numeral ++ [digit]) = value base numeral * base + digit := by
  simp [value]

theorem value_eq_ofDigits (base : Nat) (numeral : List Nat) :
    value base numeral = Nat.ofDigits base numeral.reverse := by
  induction numeral using List.reverseRecOn with
  | nil => rfl
  | append_singleton numeral digit ih =>
    rw [value_append_singleton, ih, List.reverse_append, List.reverse_singleton,
      List.singleton_append, Nat.ofDigits_cons]
    ring

theorem digitsBefore_eq (hbase : 2 ≤ base) (n : Nat) (tail : List Nat) :
    digitsBefore base n tail = (Nat.digits base n).reverse ++ tail := by
  induction n using Nat.strongRecOn generalizing tail with
  | ind n ih =>
    rw [digitsBefore]
    by_cases hn : n = 0
    · simp [hn]
    · have hless : n / base < n := Nat.div_lt_self (Nat.pos_of_ne_zero hn) hbase
      rw [dif_pos ⟨hbase, hn⟩, ih _ hless, Nat.digits_def' hbase (Nat.pos_of_ne_zero hn)]
      simp

theorem digits_eq_reverse (hbase : 2 ≤ base) (n : Nat) :
    digits base n = (Nat.digits base n).reverse := by
  rw [digits, digitsBefore_eq hbase, List.append_nil]

theorem value_digits (hbase : 2 ≤ base) (n : Nat) : value base (digits base n) = n := by
  rw [value_eq_ofDigits, digits_eq_reverse hbase, List.reverse_reverse, Nat.ofDigits_digits]

theorem lt_of_mem_digits (hbase : 2 ≤ base) {n digit : Nat} (h : digit ∈ digits base n) :
    digit < base := by
  rw [digits_eq_reverse hbase, List.mem_reverse] at h
  exact Nat.digits_lt_base hbase h

/-! ## Leading zeros -/

theorem leadingZeros_eq_zero_iff : leadingZeros numeral = 0 ↔ numeral.head? ≠ some 0 := by
  unfold leadingZeros
  cases numeral with
  | nil => simp
  | cons first rest =>
    by_cases hfirst : first = 0 <;> simp [hfirst]

theorem leadingZeros_digits (hbase : 2 ≤ base) (n : Nat) : leadingZeros (digits base n) = 0 := by
  rw [leadingZeros_eq_zero_iff, digits_eq_reverse hbase, List.head?_reverse]
  intro hlast
  have hne : Nat.digits base n ≠ [] := by
    intro hnil
    simp [hnil] at hlast
  rw [List.getLast?_eq_some_getLast hne] at hlast
  exact Nat.getLast_digit_ne_zero base (Nat.digits_ne_nil_iff_ne_zero.mp hne)
    (Option.some.inj hlast)

/-- A number has one numeral without leading zeros. -/
theorem digits_value (hbase : 2 ≤ base) (hdigits : ∀ digit ∈ numeral, digit < base)
    (hfirst : leadingZeros numeral = 0) : digits base (value base numeral) = numeral := by
  rw [leadingZeros_eq_zero_iff] at hfirst
  have hunique : Nat.digits base (Nat.ofDigits base numeral.reverse) = numeral.reverse := by
    apply Nat.digits_ofDigits base hbase
    · intro digit hdigit
      exact hdigits digit (List.mem_reverse.mp hdigit)
    · intro hne hlast
      rw [List.getLast_reverse, List.head_eq_iff_head?_eq_some] at hlast
      exact hfirst hlast
  rw [value_eq_ofDigits, digits_eq_reverse hbase, hunique, List.reverse_reverse]

/-- A numeral is its leading zeros followed by a numeral without any. -/
theorem exists_eq_replicate_append (numeral : List Nat) :
    ∃ rest, numeral = List.replicate (leadingZeros numeral) 0 ++ rest ∧ leadingZeros rest = 0 := by
  induction numeral with
  | nil => exact ⟨[], rfl, rfl⟩
  | cons first tail ih =>
    by_cases hfirst : first = 0
    · obtain ⟨rest, htail, hrest⟩ := ih
      have hcount : leadingZeros (first :: tail) = leadingZeros tail + 1 := by
        simp [leadingZeros, hfirst]
      refine ⟨rest, ?_, hrest⟩
      rw [hcount, List.replicate_succ, List.cons_append, ← htail, hfirst]
    · have hcount : leadingZeros (first :: tail) = 0 := by
        simp [leadingZeros, hfirst]
      exact ⟨first :: tail, by simp [hcount], hcount⟩

theorem leadingZeros_replicate_append (count : Nat) (h : leadingZeros numeral = 0) :
    leadingZeros (List.replicate count 0 ++ numeral) = count := by
  unfold leadingZeros at h ⊢
  rw [List.takeWhile_append_of_pos (by simp), List.length_append, List.length_replicate, h,
    Nat.add_zero]

theorem value_replicate_append (base count : Nat) (numeral : List Nat) :
    value base (List.replicate count 0 ++ numeral) = value base numeral := by
  induction count with
  | zero => rfl
  | succ count ih =>
    rw [List.replicate_succ, List.cons_append, ← ih]
    simp [value]

/-! ## Changing the base -/

theorem leadingZeros_recode (htarget : 2 ≤ target) (numeral : List Nat) :
    leadingZeros (recode source target numeral) = leadingZeros numeral :=
  leadingZeros_replicate_append _ (leadingZeros_digits htarget _)

theorem value_recode (htarget : 2 ≤ target) (numeral : List Nat) :
    value target (recode source target numeral) = value source numeral := by
  rw [recode, value_replicate_append, value_digits htarget]

theorem lt_of_mem_recode (htarget : 2 ≤ target) {digit : Nat}
    (h : digit ∈ recode source target numeral) : digit < target := by
  rcases List.mem_append.mp h with hzero | hdigit
  · rw [List.eq_of_mem_replicate hzero]
    omega
  · exact lt_of_mem_digits htarget hdigit

/-- A numeral in the target base is the one that is made exactly if it has as
many leading zeros and the same value. -/
theorem eq_recode_iff {other : List Nat} (htarget : 2 ≤ target)
    (hdigits : ∀ digit ∈ other, digit < target) :
    other = recode source target numeral ↔
      leadingZeros other = leadingZeros numeral ∧ value target other = value source numeral := by
  constructor
  · rintro rfl
    exact ⟨leadingZeros_recode htarget numeral, value_recode htarget numeral⟩
  · rintro ⟨hzeros, hvalue⟩
    obtain ⟨rest, hother, hrest⟩ := exists_eq_replicate_append other
    have hdigits' : ∀ digit ∈ rest, digit < target := by
      intro digit hdigit
      rw [hother] at hdigits
      exact hdigits digit (List.mem_append_right _ hdigit)
    have hnumber : value target rest = value source numeral := by
      rw [← hvalue, hother, value_replicate_append]
    calc other
        = List.replicate (leadingZeros other) 0 ++ rest := hother
      _ = List.replicate (leadingZeros numeral) 0 ++ digits target (value source numeral) := by
          rw [hzeros, ← hnumber, digits_value htarget hdigits' hrest]
      _ = recode source target numeral := rfl

/-- Nothing is lost on the way to another base. -/
theorem recode_recode (hsource : 2 ≤ source) (htarget : 2 ≤ target)
    (hdigits : ∀ digit ∈ numeral, digit < source) :
    recode target source (recode source target numeral) = numeral := by
  have hzeros : leadingZeros (recode source target numeral) = leadingZeros numeral :=
    leadingZeros_recode htarget numeral
  have hvalue : value target (recode source target numeral) = value source numeral :=
    value_recode htarget numeral
  exact ((eq_recode_iff hsource hdigits).mpr ⟨hzeros.symm, hvalue.symm⟩).symm

end Radix

namespace Base58

/-! ## Digits and characters -/

theorem nodup_alphabet : alphabet.Nodup := by decide +kernel

theorem toNat_lt_of_mem_alphabet {c : Char} (hc : c ∈ alphabet) : c.toNat < 128 := by
  have hascii : alphabet.all (fun c => decide (c.toNat < 128)) = true := by decide
  exact of_decide_eq_true (List.all_eq_true.mp hascii c hc)

theorem digit?_eq_ok_iff {offset : Nat} {c : Char} {v : Nat} :
    digit? offset c = .ok v ↔ c = symbol v ∧ v < 58 := by
  have hplace : alphabet.idxOf? c = some v ↔ c = symbol v ∧ v < 58 :=
    idxOf?_eq_some_iff_getD nodup_alphabet '1'
  rw [← hplace]
  unfold digit?
  cases hlisted : alphabet.idxOf? c with
  | none => split <;> simp
  | some value =>
    have hmem : c ∈ alphabet := List.isSome_idxOf?.mp (by rw [hlisted]; rfl)
    have hlow : c.toNat ≤ 127 := Nat.le_of_lt_succ (toNat_lt_of_mem_alphabet hmem)
    rw [if_neg (Nat.not_lt.mpr hlow)]
    simp

theorem digits?_eq_ok_iff {offset : Nat} {text : List Char} {values : List Nat} :
    digits? offset text = .ok values ↔ text = values.map symbol ∧ ∀ v ∈ values, v < 58 := by
  induction text generalizing offset values with
  | nil =>
    rw [digits?]
    constructor
    · rintro h
      cases h
      simp
    · rintro ⟨hnil, -⟩
      rw [List.map_eq_nil_iff.mp hnil.symm]
  | cons c text ih =>
    rw [digits?, exceptBind_eq_ok_iff]
    constructor
    · rintro ⟨v, hv, h⟩
      obtain ⟨rest, hrest, h⟩ := exceptBind_eq_ok_iff.mp h
      obtain rfl := exceptPure_eq_ok_iff.mp h
      obtain ⟨rfl, hlt⟩ := digit?_eq_ok_iff.mp hv
      obtain ⟨rfl, hless⟩ := ih.mp hrest
      exact ⟨rfl, List.forall_mem_cons.mpr ⟨hlt, hless⟩⟩
    · rintro ⟨htext, hless⟩
      cases values with
      | nil => cases htext
      | cons v rest =>
        obtain ⟨rfl, hrest⟩ := List.cons.inj htext
        obtain ⟨hlt, hless⟩ := List.forall_mem_cons.mp hless
        refine ⟨v, digit?_eq_ok_iff.mpr ⟨rfl, hlt⟩, exceptBind_eq_ok_iff.mpr ⟨rest, ?_, rfl⟩⟩
        exact ih.mpr ⟨hrest, hless⟩

/-! ## Texts -/

theorem toNat_lt_of_mem {bytes : List UInt8} {v : Nat} (hv : v ∈ bytes.map (·.toNat)) :
    v < 256 := by
  obtain ⟨byte, -, rfl⟩ := List.mem_map.mp hv
  exact byte.toNat_lt

/-- **One form.** A text is read as some bytes exactly if it is the text that
is written for them. -/
theorem decode_eq_ok_iff {text : String} {bytes : List UInt8} :
    decode text = .ok bytes ↔ text = encode bytes := by
  unfold decode
  rw [exceptBind_eq_ok_iff]
  constructor
  · rintro ⟨values, hvalues, h⟩
    obtain rfl := exceptPure_eq_ok_iff.mp h
    obtain ⟨htext, hless⟩ := digits?_eq_ok_iff.mp hvalues
    have hbytes : ∀ v ∈ Radix.recode 58 256 values, v < 256 :=
      fun v hv => Radix.lt_of_mem_recode (by decide) hv
    rw [encode, map_toNat_ofNat hbytes, Radix.recode_recode (by decide) (by decide) hless,
      ← htext, String.ofList_toList]
  · rintro rfl
    have hbytes : ∀ v ∈ bytes.map (·.toNat), v < 256 := fun v hv => toNat_lt_of_mem hv
    refine ⟨Radix.recode 256 58 (bytes.map (·.toNat)), ?_, ?_⟩
    · rw [digits?_eq_ok_iff, encode, String.toList_ofList]
      exact ⟨rfl, fun v hv => Radix.lt_of_mem_recode (by decide) hv⟩
    · rw [Radix.recode_recode (by decide) (by decide) hbytes, map_ofNat_toNat]
      rfl

end Base58

end SolanaWallet
