import SolanaWallet.Proofs.Outcome
import SolanaWallet.Proofs.Wire.Length
import SolanaWallet.Wire

/-!
# Readers that undo writers

`reader.Reads write` ties a reader to a writer of the same values: the reader
returns a value exactly if the input starts with what is written for it, and
then leaves exactly what follows.  One equivalence says three things.

* Whatever can be written is read back, whatever follows it.
* Nothing else is read: what a value is read from is what is written for it,
  byte for byte, so that no value has two forms.
* What the reader decides depends only on the bytes it takes.

The relation holds of single bytes, blocks and lengths, and it is kept by
repetition, so the readers of instructions, messages and transactions get it
from their parts.
-/

namespace SolanaWallet

theorem Writer.length_eq_ok_iff {n : Nat} {head : List UInt8} :
    length n = .ok head ↔ n ≤ ShortVec.maxLength ∧ head = ShortVec.encode (.ofNat n) := by
  unfold length
  by_cases hshort : n ≤ ShortVec.maxLength
  · simp [hshort, eq_comm]
  · simp [hshort]

namespace Reader

variable {α β : Type}

/-- The reader takes exactly what is written for the value it returns. -/
def Reads (reader : Reader α) (write : α → Except Failure (List UInt8)) : Prop :=
  ∀ input value rest, reader.run input = .ok (value, rest) ↔
    ∃ bytes, write value = .ok bytes ∧ input = bytes ++ rest

/-! ## Runs of readers -/

theorem run_bind_eq_ok_iff {first : Reader α} {next : α → Reader β} {input rest : List UInt8}
    {value : β} :
    (first >>= next).run input = .ok (value, rest) ↔
      ∃ a mid, first.run input = .ok (a, mid) ∧ (next a).run mid = .ok (value, rest) := by
  rw [StateT.run_bind, exceptBind_eq_ok_iff]
  constructor
  · intro hparts
    obtain ⟨⟨a, mid⟩, hfirst, hnext⟩ := hparts
    exact ⟨a, mid, hfirst, hnext⟩
  · intro hparts
    obtain ⟨a, mid, hfirst, hnext⟩ := hparts
    exact ⟨(a, mid), hfirst, hnext⟩

theorem run_bind_of_ok {first : Reader α} {next : α → Reader β} {input mid : List UInt8} {a : α}
    (h : first.run input = .ok (a, mid)) : (first >>= next).run input = (next a).run mid := by
  rw [StateT.run_bind, h]
  rfl

theorem run_bind_of_error {first : Reader α} {next : α → Reader β} {input : List UInt8}
    {fault : WireFault} (h : first.run input = .error fault) :
    (first >>= next).run input = .error fault := by
  rw [StateT.run_bind, h]
  rfl

theorem run_pure_eq_ok_iff {a value : α} {input rest : List UInt8} :
    (pure a : Reader α).run input = .ok (value, rest) ↔ a = value ∧ input = rest := by
  rw [StateT.run_pure, exceptPure_eq_ok_iff, Prod.mk.injEq]

/-- A run that starts with such a reader goes on behind what is written for
the value that it returns. -/
theorem Reads.run_bind_eq_ok_iff {first : Reader α} {write : α → Except Failure (List UInt8)}
    (hreads : first.Reads write) {next : α → Reader β} {input rest : List UInt8} {value : β} :
    (first >>= next).run input = .ok (value, rest) ↔
      ∃ a bytes mid, write a = .ok bytes ∧ input = bytes ++ mid ∧
        (next a).run mid = .ok (value, rest) := by
  rw [Reader.run_bind_eq_ok_iff]
  constructor
  · intro hparts
    obtain ⟨a, mid, hfirst, hnext⟩ := hparts
    obtain ⟨bytes, hbytes, rfl⟩ := (hreads _ _ _).mp hfirst
    exact ⟨a, bytes, mid, hbytes, rfl, hnext⟩
  · intro hparts
    obtain ⟨a, bytes, mid, hbytes, rfl, hnext⟩ := hparts
    exact ⟨a, mid, (hreads _ _ _).mpr ⟨bytes, hbytes, rfl⟩, hnext⟩

/-! ## Parts of a known length -/

theorem byte_reads : byte.Reads fun value => .ok [value] := by
  intro input value rest
  constructor
  · intro h
    cases input with
    | nil => cases h
    | cons first tail =>
      obtain ⟨rfl, rfl⟩ := Prod.mk.inj (Except.ok.inj h)
      exact ⟨[first], rfl, rfl⟩
  · intro hparts
    obtain ⟨bytes, hbytes, rfl⟩ := hparts
    cases hbytes
    rfl

theorem run_block (n : Nat) (part : Part) (input : List UInt8) :
    (block n part).run input =
      match Block.ofBytes? n (input.take n) with
      | some taken => .ok (taken, input.drop n)
      | none => .error (.truncated part) := rfl

theorem block_reads (n : Nat) (part : Part) : (block n part).Reads fun value => .ok value.bytes := by
  intro input value rest
  constructor
  · intro h
    rw [run_block] at h
    split at h
    · rename_i taken htaken
      obtain ⟨rfl, rfl⟩ := Prod.mk.inj (Except.ok.inj h)
      refine ⟨taken.bytes, rfl, ?_⟩
      rw [← Block.ofBytes?_eq_some_iff.mp htaken, List.take_append_drop]
    · cases h
  · intro hparts
    obtain ⟨bytes, hbytes, rfl⟩ := hparts
    cases hbytes
    rw [run_block, List.take_left' value.length_bytes, List.drop_left' value.length_bytes,
      Block.ofBytes?_bytes]

/-! ## Lengths and what they announce -/

theorem run_length (input : List UInt8) :
    length.run input =
      match ShortVec.decode input with
      | .ok (value, count) => .ok (value.toNat, input.drop count)
      | .error fault => .error (.length fault) := rfl

theorem length_reads : length.Reads Writer.length := by
  intro input value rest
  rw [run_length]
  constructor
  · intro h
    split at h
    · rename_i announced count hdecode
      obtain ⟨rfl, rfl⟩ := Prod.mk.inj (Except.ok.inj h)
      obtain ⟨tail, rfl, rfl⟩ := ShortVec.decode_eq_ok_iff_append.mp hdecode
      have hfits : announced.toNat ≤ ShortVec.maxLength := Nat.le_of_lt_succ announced.toNat_lt
      refine ⟨ShortVec.encode announced, ?_, by rw [List.drop_left]⟩
      rw [Writer.length_eq_ok_iff, UInt16.ofNat_toNat]
      exact ⟨hfits, rfl⟩
    · cases h
  · intro hparts
    obtain ⟨bytes, hbytes, rfl⟩ := hparts
    obtain ⟨hfits, rfl⟩ := Writer.length_eq_ok_iff.mp hbytes
    have hvalue : (UInt16.ofNat value).toNat = value :=
      UInt16.toNat_ofNat_of_lt' (Nat.lt_succ_of_le hfits)
    rw [ShortVec.decode_eq_ok_iff_append.mpr ⟨rest, rfl, rfl⟩]
    simp only [hvalue, List.drop_left]

theorem bytes_reads (part : Part) : (bytes part).Reads Writer.bytes := by
  intro input value rest
  constructor
  · intro h
    rw [bytes, length_reads.run_bind_eq_ok_iff] at h
    obtain ⟨count, head, mid, hhead, rfl, h⟩ := h
    rw [(block_reads count part).run_bind_eq_ok_iff] at h
    obtain ⟨taken, data, mid', hdata, rfl, h⟩ := h
    obtain ⟨rfl, rfl⟩ := run_pure_eq_ok_iff.mp h
    cases hdata
    refine ⟨head ++ taken.bytes, ?_, by rw [List.append_assoc]⟩
    exact exceptBind_eq_ok_iff.mpr ⟨head, by rw [taken.length_bytes]; exact hhead, rfl⟩
  · intro hparts
    obtain ⟨written, hwritten, rfl⟩ := hparts
    obtain ⟨head, hhead, h⟩ := exceptBind_eq_ok_iff.mp hwritten
    cases h
    rw [List.append_assoc]
    refine length_reads.run_bind_eq_ok_iff.mpr ⟨value.length, head, value ++ rest, hhead, rfl, ?_⟩
    exact (block_reads _ part).run_bind_eq_ok_iff.mpr ⟨⟨value, rfl⟩, value, rest, rfl, rfl, rfl⟩

section Lists

variable {reader : Reader α} {write : α → Except Failure (List UInt8)}

/-- Repeating a reader takes as many items as it is repeated. -/
theorem run_times_eq_ok_iff (hreads : reader.Reads write) {count : Nat} {input rest : List UInt8}
    {values : List α} :
    (times reader count).run input = .ok (values, rest) ↔
      values.length = count ∧ ∃ bytes, Writer.items write values = .ok bytes ∧
        input = bytes ++ rest := by
  induction count generalizing input values with
  | zero =>
    rw [times, run_pure_eq_ok_iff]
    constructor
    · intro hparts
      obtain ⟨rfl, rfl⟩ := hparts
      exact ⟨rfl, [], rfl, rfl⟩
    · intro hparts
      obtain ⟨hlength, bytes, hbytes, rfl⟩ := hparts
      cases List.eq_nil_of_length_eq_zero hlength
      cases hbytes
      exact ⟨rfl, rfl⟩
  | succ count ih =>
    constructor
    · intro h
      rw [times, hreads.run_bind_eq_ok_iff] at h
      obtain ⟨first, head, mid, hhead, rfl, h⟩ := h
      obtain ⟨others, mid', hothers, h⟩ := run_bind_eq_ok_iff.mp h
      obtain ⟨rfl, rfl⟩ := run_pure_eq_ok_iff.mp h
      obtain ⟨hlength, tail, htail, rfl⟩ := ih.mp hothers
      refine ⟨by rw [List.length_cons, hlength], head ++ tail, ?_, by rw [List.append_assoc]⟩
      exact exceptBind_eq_ok_iff.mpr ⟨head, hhead, exceptBind_eq_ok_iff.mpr ⟨tail, htail, rfl⟩⟩
    · intro hparts
      obtain ⟨hlength, bytes, hbytes, rfl⟩ := hparts
      cases values with
      | nil => cases hlength
      | cons first others =>
        obtain ⟨head, hhead, h⟩ := exceptBind_eq_ok_iff.mp hbytes
        obtain ⟨tail, htail, h⟩ := exceptBind_eq_ok_iff.mp h
        cases h
        rw [List.append_assoc]
        refine hreads.run_bind_eq_ok_iff.mpr ⟨first, head, tail ++ rest, hhead, rfl, ?_⟩
        refine run_bind_eq_ok_iff.mpr ⟨others, rest, ?_, rfl⟩
        exact ih.mpr ⟨Nat.succ.inj hlength, tail, htail, rfl⟩

theorem Reads.list (hreads : reader.Reads write) : (list reader).Reads (Writer.list write) := by
  intro input values rest
  constructor
  · intro h
    rw [Reader.list, length_reads.run_bind_eq_ok_iff] at h
    obtain ⟨count, head, mid, hhead, rfl, hitems⟩ := h
    obtain ⟨rfl, tail, htail, rfl⟩ := (run_times_eq_ok_iff hreads).mp hitems
    refine ⟨head ++ tail, ?_, by rw [List.append_assoc]⟩
    exact exceptBind_eq_ok_iff.mpr ⟨head, hhead, exceptBind_eq_ok_iff.mpr ⟨tail, htail, rfl⟩⟩
  · intro hparts
    obtain ⟨bytes, hbytes, rfl⟩ := hparts
    obtain ⟨head, hhead, h⟩ := exceptBind_eq_ok_iff.mp hbytes
    obtain ⟨tail, htail, h⟩ := exceptBind_eq_ok_iff.mp h
    cases h
    rw [List.append_assoc]
    refine length_reads.run_bind_eq_ok_iff.mpr
      ⟨values.length, head, tail ++ rest, hhead, rfl, ?_⟩
    exact (run_times_eq_ok_iff hreads).mpr ⟨rfl, tail, htail, rfl⟩

end Lists

/-! ## The whole of an input -/

theorem runAll_eq_ok_iff {reader : Reader α} (whole : Whole) {input : List UInt8} {value : α} :
    runAll reader whole input = .ok value ↔ reader.run input = .ok (value, []) := by
  unfold runAll
  split
  · rename_i fault h
    rw [h]
    constructor <;> intro hcontra <;> cases hcontra
  · rename_i result h
    rw [h]
    constructor
    · intro hresult
      rw [Except.ok.inj hresult]
    · intro hresult
      rw [(Prod.mk.inj (Except.ok.inj hresult)).1]
  · rename_i result rest hrest h
    rw [h]
    constructor
    · intro hcontra
      cases hcontra
    · intro hresult
      exact absurd (Prod.mk.inj (Except.ok.inj hresult)).2 hrest

theorem runAll_of_error {reader : Reader α} (whole : Whole) {input : List UInt8}
    {fault : WireFault} (h : reader.run input = .error fault) :
    runAll reader whole input = .error fault := by
  rw [runAll, h]

theorem runAll_of_trailing {reader : Reader α} (whole : Whole) {input rest : List UInt8}
    {value : α} (hrest : rest ≠ []) (h : reader.run input = .ok (value, rest)) :
    runAll reader whole input = .error (.trailing rest.length whole) := by
  cases rest with
  | nil => exact absurd rfl hrest
  | cons head tail => rw [runAll, h]

end Reader

/-! ## When writing succeeds -/

namespace Writer

variable {α : Type} {write : α → Except Failure (List UInt8)} {values : List α}

theorem exists_bytes {data : List UInt8} (hshort : data.length ≤ ShortVec.maxLength) :
    ∃ written, bytes data = .ok written :=
  ⟨_, exceptBind_eq_ok_iff.mpr ⟨_, length_eq_ok_iff.mpr ⟨hshort, rfl⟩, rfl⟩⟩

/-- A list is written if it is short and all its items are. -/
theorem exists_list (hshort : values.length ≤ ShortVec.maxLength)
    (h : ∀ value ∈ values, ∃ written, write value = .ok written) :
    ∃ written, list write values = .ok written := by
  have hitems : ∃ written, items write values = .ok written := by
    clear hshort
    induction values with
    | nil => exact ⟨[], rfl⟩
    | cons value rest ih =>
      rw [List.forall_mem_cons] at h
      obtain ⟨head, hhead⟩ := h.1
      obtain ⟨tail, htail⟩ := ih h.2
      exact ⟨head ++ tail, exceptBind_eq_ok_iff.mpr
        ⟨head, hhead, exceptBind_eq_ok_iff.mpr ⟨tail, htail, rfl⟩⟩⟩
  obtain ⟨tail, htail⟩ := hitems
  exact ⟨_, exceptBind_eq_ok_iff.mpr ⟨_, length_eq_ok_iff.mpr ⟨hshort, rfl⟩,
    exceptBind_eq_ok_iff.mpr ⟨tail, htail, rfl⟩⟩⟩

/-- What is written for a list starts with its length. -/
theorem exists_tail_of_list {written : List UInt8} (h : list write values = .ok written) :
    values.length ≤ ShortVec.maxLength ∧
      ∃ tail, written = ShortVec.encode (.ofNat values.length) ++ tail := by
  obtain ⟨head, hhead, h⟩ := exceptBind_eq_ok_iff.mp h
  obtain ⟨tail, -, h⟩ := exceptBind_eq_ok_iff.mp h
  obtain ⟨hshort, rfl⟩ := length_eq_ok_iff.mp hhead
  exact ⟨hshort, tail, (exceptPure_eq_ok_iff.mp h).symm⟩

end Writer

end SolanaWallet
