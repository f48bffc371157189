import Mathlib.Algebra.Group.Nat.Defs
import SolanaWallet.Proofs.Wire.Length

/-!
# Spellings of any length

Groups of seven bits, lowest first, can spell a number in as many bytes as one
likes: groups of zero at the end add nothing.  `Spells value bytes` is the rule
without a limit on the value or on the number of bytes.  A byte string begins
with a spelling, or it is `Unfinished`: each of its bytes announces another one
(`unfinished_or_spells`).

The decoder does not look further than three bytes.  That it finds the shortest
spelling of every number within the limit all the same, and takes no other
spelling for one, is a matter of size:

* a spelling in `n` bytes is of a number below `128 ^ n` (`Spells.lt_pow`);
* if it does not end in a group of zero, the number is at least
  `128 ^ (n - 1)` (`Spells.pow_le`).

So a spelling is the shortest one exactly if it does not end in a superfluous
zero (`Spells.shortest_iff`), and in more than three bytes no such spelling is
of a number within the limit (`Spells.maxLength_lt`).  `Verdict` says what there
is to say of a byte string in terms of its spelling alone, and
`decode_eq_iff_verdict` that the decoder says just that.
-/

namespace SolanaWallet.ShortVec

/-- `bytes` spell out `value`: seven bits each, lowest first, with the high bit
set in all but the last. -/
inductive Spells : (value : Nat) → (bytes : List UInt8) → Prop
  | last (a : UInt8) (hlast : a.toNat < 128) : Spells a.toNat [a]
  | more (a : UInt8) {value : Nat} {bytes : List UInt8} (hmore : 128 ≤ a.toNat)
      (hrest : Spells value bytes) : Spells (a.toNat % 128 + 128 * value) (a :: bytes)

/-- Each of the bytes announces another one. -/
def Unfinished (bytes : List UInt8) : Prop := ∀ a ∈ bytes, 128 ≤ a.toNat

/-- The value has no spelling in fewer bytes. -/
def Shortest (value : Nat) (bytes : List UInt8) : Prop :=
  ∀ other, Spells value other → bytes.length ≤ other.length

/-- What there is to say of bytes that should start with a length: the length
that their first spelling is of and how many bytes that takes, or what is wrong
with it. -/
inductive Verdict : (bytes : List UInt8) → (outcome : Except Fault (UInt16 × Nat)) → Prop
  | unfinished {bytes : List UInt8} (h : Unfinished bytes) :
      Verdict bytes (.error (if bytes.length < maxBytes then .truncated else .overflow))
  | padded {value : Nat} {bytes : List UInt8} (rest : List UInt8) (h : Spells value bytes)
      (hlong : ¬ Shortest value bytes) :
      Verdict (bytes ++ rest) (.error (if bytes.length ≤ maxBytes then .padded else .overflow))
  | large {value : Nat} {bytes : List UInt8} (rest : List UInt8) (h : Spells value bytes)
      (hshort : Shortest value bytes) (hlarge : maxLength < value) :
      Verdict (bytes ++ rest) (.error .overflow)
  | length {value : UInt16} {bytes : List UInt8} (rest : List UInt8)
      (h : Spells value.toNat bytes) (hshort : Shortest value.toNat bytes) :
      Verdict (bytes ++ rest) (.ok (value, bytes.length))

variable {value : Nat} {bytes rest : List UInt8} {a b c : UInt8}
  {outcome : Except Fault (UInt16 × Nat)}

/-- Reading on until a byte without the high bit finds a spelling. -/
theorem unfinished_or_spells (bytes : List UInt8) :
    Unfinished bytes ∨ ∃ value front rest, Spells value front ∧ bytes = front ++ rest := by
  induction bytes with
  | nil => exact .inl nofun
  | cons a rest ih =>
    by_cases hlast : a.toNat < 128
    · exact .inr ⟨a.toNat, [a], rest, .last a hlast, rfl⟩
    have hmore : 128 ≤ a.toNat := Nat.not_lt.mp hlast
    rcases ih with hrest | ⟨value, front, tail, hfront, rfl⟩
    · exact .inl (List.forall_mem_cons.mpr ⟨hmore, hrest⟩)
    · exact .inr ⟨_, a :: front, tail, .more a hmore hfront, rfl⟩

/-! ## The shortest spelling -/

/-- The last of several bytes is zero. -/
def EndsInZero (bytes : List UInt8) : Prop := 1 < bytes.length ∧ bytes.getLast? = some 0

instance (bytes : List UInt8) : Decidable (EndsInZero bytes) :=
  inferInstanceAs (Decidable (_ ∧ _))

namespace Spells

theorem ne_nil (h : Spells value bytes) : bytes ≠ [] := by
  cases h <;> exact List.cons_ne_nil _ _

theorem length_pos (h : Spells value bytes) : 0 < bytes.length :=
  List.length_pos_iff.mpr h.ne_nil

theorem getLast?_cons (h : Spells value bytes) (a : UInt8) :
    (a :: bytes).getLast? = bytes.getLast? := by
  obtain ⟨b, rest, rfl⟩ := List.exists_cons_of_ne_nil h.ne_nil
  exact List.getLast?_cons_cons

theorem lt_pow (h : Spells value bytes) : value < 128 ^ bytes.length := by
  induction h with
  | last a hlast => simpa using hlast
  | more a hmore hrest ih =>
    rw [List.length_cons, Nat.pow_succ]
    omega

theorem pow_le (h : Spells value bytes) (hlast : bytes.getLast? ≠ some 0) :
    128 ^ bytes.length ≤ 128 * value := by
  induction h with
  | last a hone =>
    have hpos : 0 < a.toNat := toNat_pos_of_ne_zero fun hzero => hlast (congrArg some hzero)
    rw [List.length_singleton, Nat.pow_one]
    omega
  | more a hmore hrest ih =>
    rw [hrest.getLast?_cons] at hlast
    have hle := ih hlast
    rw [List.length_cons, Nat.pow_succ]
    omega

/-- A zero at the end can be left out, and the byte in front of it ends the
spelling. -/
theorem exists_shorter (h : Spells value bytes) (hzero : EndsInZero bytes) :
    ∃ other, Spells value other ∧ other.length < bytes.length := by
  induction h with
  | last a hlast => exact absurd hzero.1 (Nat.lt_irrefl 1)
  | more a hmore hrest ih =>
    obtain ⟨-, hend⟩ := hzero
    rw [hrest.getLast?_cons] at hend
    cases hrest with
    | last b hlast =>
      obtain rfl : b = 0 := Option.some.inj hend
      have hgroup : (UInt8.ofNat (a.toNat % 128)).toNat = a.toNat % 128 :=
        UInt8.toNat_ofNat_of_lt' (by simp only [UInt8.size]; omega)
      have hone := Spells.last (UInt8.ofNat (a.toNat % 128)) (by omega)
      rw [hgroup] at hone
      exact ⟨_, hone, Nat.lt_succ_self 1⟩
    | more b hmore' hrest' =>
      obtain ⟨other, hother, hlt⟩ := ih ⟨Nat.succ_lt_succ hrest'.length_pos, hend⟩
      exact ⟨a :: other, .more a hmore hother, Nat.succ_lt_succ hlt⟩

theorem shortest_iff (h : Spells value bytes) : Shortest value bytes ↔ ¬ EndsInZero bytes := by
  constructor
  · intro hshort hzero
    obtain ⟨other, hother, hlt⟩ := h.exists_shorter hzero
    exact Nat.not_lt.mpr (hshort other hother) hlt
  · intro hzero other hother
    by_cases hone : bytes.length ≤ 1
    · exact Nat.le_trans hone hother.length_pos
    have hlast : bytes.getLast? ≠ some 0 := fun hend => hzero ⟨Nat.not_le.mp hone, hend⟩
    have hpow : 128 ^ bytes.length < 128 ^ (other.length + 1) := by
      calc 128 ^ bytes.length ≤ 128 * value := h.pow_le hlast
        _ < 128 * 128 ^ other.length := Nat.mul_lt_mul_of_pos_left hother.lt_pow (by decide)
        _ = 128 ^ (other.length + 1) := (Nat.pow_succ').symm
    exact Nat.lt_succ_iff.mp ((Nat.pow_lt_pow_iff_right (by decide)).mp hpow)

/-- More than three bytes without superfluous zeros are too many. -/
theorem maxLength_lt (h : Spells value bytes) (hlast : bytes.getLast? ≠ some 0)
    (hlong : 4 ≤ bytes.length) : maxLength < value := by
  have hpow : 128 ^ 4 ≤ 128 * value :=
    Nat.le_trans (Nat.pow_le_pow_right (by decide) hlong) (h.pow_le hlast)
  unfold maxLength
  omega

end Spells

/-! ## What the encoder writes -/

theorem spells_of_form (h : Form value bytes) (hfits : value ≤ maxLength) :
    Spells value bytes ∧ ¬ EndsInZero bytes := by
  unfold maxLength at hfits
  cases h with
  | one a hlast hvalue =>
    subst hvalue
    exact ⟨.last a hlast, fun hzero => absurd hzero.1 (Nat.lt_irrefl 1)⟩
  | two a b hmore hshort hlast hvalue =>
    subst hvalue
    exact ⟨.more a hmore (.last b hlast), fun hzero => hshort (Option.some.inj hzero.2)⟩
  | three a b c hmore hmore' hshort hvalue =>
    -- the limit leaves two bits for the last group
    have hlast : c.toNat < 128 := by omega
    have hgroups : value = a.toNat % 128 + 128 * (b.toNat % 128 + 128 * c.toNat) := by omega
    subst hgroups
    exact ⟨.more a hmore (.more b hmore' (.last c hlast)),
      fun hzero => hshort (Option.some.inj hzero.2)⟩

theorem shortest_encode (value : UInt16) :
    Spells value.toNat (encode value) ∧ Shortest value.toNat (encode value) := by
  obtain ⟨hspells, hzero⟩ :=
    spells_of_form (form_encode value) (Nat.le_of_lt_succ value.toNat_lt)
  exact ⟨hspells, hspells.shortest_iff.mpr hzero⟩

/-! ## What the decoder says -/

theorem ne_zero_of_le (hmore : 128 ≤ b.toNat) : b ≠ 0 :=
  ne_zero_of_toNat_pos (Nat.lt_of_lt_of_le (by decide) hmore)

theorem decode_one (hlast : a.toNat < 128) :
    decode (a :: rest) = .ok (UInt16.ofNat a.toNat, 1) := if_pos hlast

theorem decode_zero (hmore : 128 ≤ a.toNat) : decode (a :: 0 :: rest) = .error .padded :=
  if_neg (Nat.not_lt.mpr hmore)

theorem decode_two (hmore : 128 ≤ a.toNat) (hzero : b ≠ 0) (hlast : b.toNat < 128) :
    decode (a :: b :: rest) = .ok (UInt16.ofNat (a.toNat % 128 + 128 * b.toNat), 2) := by
  simp only [decode]
  rw [if_neg (Nat.not_lt.mpr hmore), if_neg hzero, if_pos hlast]

theorem decode_three (hmore : 128 ≤ a.toNat) (hmore' : 128 ≤ b.toNat) :
    decode (a :: b :: c :: rest) =
      if c = 0 then .error .padded
      else if a.toNat % 128 + 128 * (b.toNat % 128) + 16384 * c.toNat ≤ maxLength then
        .ok (UInt16.ofNat (a.toNat % 128 + 128 * (b.toNat % 128) + 16384 * c.toNat), 3)
      else .error .overflow := by
  simp only [decode]
  rw [if_neg (Nat.not_lt.mpr hmore), if_neg (ne_zero_of_le hmore'), if_neg (Nat.not_lt.mpr hmore')]

/-- After three bytes that announce another one, whatever comes is too much. -/
theorem decode_four (hmore : 128 ≤ a.toNat) (hmore' : 128 ≤ b.toNat) (hmore'' : 128 ≤ c.toNat) :
    decode (a :: b :: c :: rest) = .error .overflow := by
  rw [decode_three hmore hmore', if_neg (ne_zero_of_le hmore''), if_neg]
  unfold maxLength
  omega

theorem decode_of_unfinished (h : Unfinished bytes) :
    decode bytes = .error (if bytes.length < maxBytes then .truncated else .overflow) := by
  unfold Unfinished at h
  match bytes with
  | [] => rfl
  | [a] => exact if_neg (Nat.not_lt.mpr (h a List.mem_cons_self))
  | [a, b] =>
    simp only [List.forall_mem_cons] at h
    simp only [decode]
    rw [if_neg (Nat.not_lt.mpr h.1), if_neg (ne_zero_of_le h.2.1), if_neg (Nat.not_lt.mpr h.2.1)]
    rfl
  | a :: b :: c :: rest =>
    simp only [List.forall_mem_cons] at h
    rw [decode_four h.1 h.2.1 h.2.2.1, if_neg]
    simp only [List.length_cons, maxBytes]
    omega

theorem decode_append_of_spells (h : Spells value bytes) :
    decode (bytes ++ rest) =
      if EndsInZero bytes then .error (if bytes.length ≤ maxBytes then .padded else .overflow)
      else if value ≤ maxLength then .ok (UInt16.ofNat value, bytes.length)
      else .error .overflow := by
  have hwhole := h
  cases h with
  | last a hlast =>
    have hzero : ¬ EndsInZero [a] := fun hzero => absurd hzero.1 (Nat.lt_irrefl 1)
    rw [if_neg hzero, if_pos (by unfold maxLength; omega)]
    exact decode_one hlast
  | more a hmore hrest =>
    cases hrest with
    | last b hlast =>
      have hzero : EndsInZero [a, b] ↔ b = 0 := by simp [EndsInZero]
      by_cases hb : b = 0
      · rw [if_pos (hzero.mpr hb), hb]
        exact decode_zero hmore
      · rw [if_neg (mt hzero.mp hb), if_pos (by unfold maxLength; omega)]
        exact decode_two hmore hb hlast
    | more b hmore' hrest =>
      cases hrest with
      | last c hlast =>
        have hzero : EndsInZero [a, b, c] ↔ c = 0 := by simp [EndsInZero]
        have hvalue : a.toNat % 128 + 128 * (b.toNat % 128 + 128 * c.toNat) =
            a.toNat % 128 + 128 * (b.toNat % 128) + 16384 * c.toNat := by omega
        simp only [hzero, hvalue]
        exact decode_three hmore hmore'
      | @more c _ tail hmore'' hrest =>
        have hlong : 4 ≤ (a :: b :: c :: tail).length := by
          have hpos := hrest.length_pos
          simp only [List.length_cons]
          omega
        -- a zero that comes this late is not looked at
        have hoverflow : decode (a :: b :: c :: tail ++ rest) = .error .overflow :=
          decode_four hmore hmore' hmore''
        rw [hoverflow]
        by_cases hzero : EndsInZero (a :: b :: c :: tail)
        · rw [if_pos hzero, if_neg (by unfold maxBytes; omega)]
        · have hlast : (a :: b :: c :: tail).getLast? ≠ some 0 := fun hend =>
            hzero ⟨by omega, hend⟩
          rw [if_neg hzero, if_neg (Nat.not_le.mpr (hwhole.maxLength_lt hlast hlong))]

/-! ## The decoder gives the verdict -/

theorem decode_of_verdict (h : Verdict bytes outcome) : decode bytes = outcome := by
  cases h with
  | unfinished h => exact decode_of_unfinished h
  | padded rest h hlong =>
    rw [decode_append_of_spells h, if_pos (Decidable.not_not.mp (mt h.shortest_iff.mpr hlong))]
  | large rest h hshort hlarge =>
    rw [decode_append_of_spells h, if_neg (h.shortest_iff.mp hshort),
      if_neg (Nat.not_le.mpr hlarge)]
  | @length value _ rest h hshort =>
    have hfits : value.toNat ≤ maxLength := Nat.le_of_lt_succ value.toNat_lt
    rw [decode_append_of_spells h, if_neg (h.shortest_iff.mp hshort), if_pos hfits,
      UInt16.ofNat_toNat]

theorem exists_verdict (bytes : List UInt8) : ∃ outcome, Verdict bytes outcome := by
  rcases unfinished_or_spells bytes with hbytes | ⟨value, front, rest, hfront, rfl⟩
  · exact ⟨_, .unfinished hbytes⟩
  by_cases hshort : Shortest value front
  · by_cases hfits : value ≤ maxLength
    · obtain ⟨value, rfl⟩ : ∃ length : UInt16, length.toNat = value :=
        ⟨UInt16.ofNat value, UInt16.toNat_ofNat_of_lt' (Nat.lt_succ_of_le hfits)⟩
      exact ⟨_, .length rest hfront hshort⟩
    · exact ⟨_, .large rest hfront hshort (Nat.not_le.mp hfits)⟩
  · exact ⟨_, .padded rest hfront hshort⟩

theorem decode_eq_iff_verdict : decode bytes = outcome ↔ Verdict bytes outcome := by
  constructor
  · rintro rfl
    obtain ⟨outcome, hverdict⟩ := exists_verdict bytes
    rw [decode_of_verdict hverdict]
    exact hverdict
  · exact decode_of_verdict

/-- A number above the limit, a number with a superfluous zero, one that is cut
off, and the largest length with a byte behind it. -/
example :
    Verdict [128, 128, 128, 1] (.error .overflow) ∧ Verdict [129, 128, 0, 7] (.error .padded) ∧
      Verdict [255, 255] (.error .truncated) ∧ Verdict [255, 255, 3, 9] (.ok (65535, 3)) :=
  ⟨decode_eq_iff_verdict.mp rfl, decode_eq_iff_verdict.mp rfl, decode_eq_iff_verdict.mp rfl,
    decode_eq_iff_verdict.mp rfl⟩

/-- **Lengths are read in their shortest spelling and in no other.**  A length
is read from bytes that start with what is written for it, and from no others,
whatever follows.  What is written is the shortest spelling.  Bytes that are cut
off, padded, or of a number above the limit are refused, however many they are. -/
theorem decode_iff_canonical :
    (∀ (bytes : List UInt8) (value : UInt16) (count : Nat), decode bytes = .ok (value, count) ↔
      count = (encode value).length ∧ bytes.take count = encode value) ∧
    (∀ (value : UInt16) (rest : List UInt8),
      decode (encode value ++ rest) = .ok (value, (encode value).length)) ∧
    (∀ value : UInt16, Spells value.toNat (encode value) ∧
      Shortest value.toNat (encode value)) ∧
    ∀ (bytes : List UInt8) (outcome : Except Fault (UInt16 × Nat)),
      decode bytes = outcome ↔ Verdict bytes outcome := by
  refine ⟨fun bytes value count => ?_, fun value rest => ?_, shortest_encode,
    fun bytes outcome => decode_eq_iff_verdict⟩
  · rw [decode_eq_ok_iff_append]
    constructor
    · intro hparts
      obtain ⟨rest, rfl, rfl⟩ := hparts
      exact ⟨rfl, List.take_left⟩
    · intro hparts
      obtain ⟨rfl, htake⟩ := hparts
      refine ⟨bytes.drop (encode value).length, ?_, rfl⟩
      calc bytes = bytes.take (encode value).length ++ bytes.drop (encode value).length :=
            (List.take_append_drop _ _).symm
        _ = encode value ++ bytes.drop (encode value).length := by rw [htake]
  · exact decode_eq_ok_iff_append.mpr ⟨rest, rfl, rfl⟩

end SolanaWallet.ShortVec
