import SolanaWallet.Proofs.Edit.Invariant

/-!
# Which accounts a message may write

The indices of a message run through six regions.  The header cuts the keys into
four, of which the first and the third may be written.  The loaded accounts
follow the keys: first those that any of the lookups loads to be written, lookup
by lookup, then in the same order those that are only read.

`MayWrite` says of every index whether its account may be written.
`isWritable` answers from the header and the number of keys alone: it is right
about every key, and it never says yes to a loaded account.  So it misses the
fifth region as a whole and nothing else (`isWritable_misses_loaded`).
-/

namespace SolanaWallet

/-- An account that is loaded: the entry of a lookup table, and whether it may be
written. -/
structure LoadedAccount where
  table : Address
  entry : UInt8
  writable : Bool
deriving DecidableEq

namespace Lookup

/-- The accounts that a lookup loads to be written. -/
def writableAccounts (l : Lookup) : List LoadedAccount :=
  l.writable.map fun entry => ⟨l.table, entry, true⟩

/-- The accounts that a lookup loads to be read only. -/
def readonlyAccounts (l : Lookup) : List LoadedAccount :=
  l.readonly.map fun entry => ⟨l.table, entry, false⟩

end Lookup

namespace Message

variable {m : Message} {index : Nat}

/-! ## Loaded accounts -/

/-- The loaded accounts in the order of their indices. -/
def loadedAccounts (m : Message) : List LoadedAccount :=
  m.format.lookups.flatMap Lookup.writableAccounts ++
    m.format.lookups.flatMap Lookup.readonlyAccounts

/-- How many accounts are loaded to be written. -/
def loadedWritable (m : Message) : Nat :=
  (m.format.lookups.map fun l => l.writable.length).foldr (· + ·) 0

theorem length_flatMap_writableAccounts (lookups : List Lookup) :
    (lookups.flatMap Lookup.writableAccounts).length =
      (lookups.map fun l => l.writable.length).foldr (· + ·) 0 := by
  induction lookups with
  | nil => rfl
  | cons l rest ih =>
    rw [List.flatMap_cons, List.length_append, ih, Lookup.writableAccounts, List.length_map,
      List.map_cons, List.foldr_cons]

theorem length_loadedAccounts (m : Message) : m.loadedAccounts.length = m.loaded := by
  unfold loadedAccounts loaded
  induction m.format.lookups with
  | nil => rfl
  | cons l rest ih =>
    simp only [List.flatMap_cons, List.length_append, List.map_cons, List.foldr_cons,
      Lookup.writableAccounts, Lookup.readonlyAccounts, List.length_map, Lookup.count] at ih ⊢
    omega

/-- The accounts that may be written come first. -/
theorem exists_writable_iff {place : Nat} :
    (∃ account, m.loadedAccounts[place]? = some account ∧ account.writable = true) ↔
      place < m.loadedWritable := by
  have hlength := length_flatMap_writableAccounts m.format.lookups
  unfold loadedAccounts loadedWritable
  rw [← hlength]
  constructor
  · rintro ⟨account, haccount, hwritable⟩
    by_contra hge
    rw [List.getElem?_append_right (Nat.le_of_not_lt hge)] at haccount
    obtain ⟨l, -, hmem⟩ := List.mem_flatMap.mp (List.mem_of_getElem? haccount)
    obtain ⟨entry, -, rfl⟩ := List.mem_map.mp hmem
    cases hwritable
  · intro hlt
    rw [List.getElem?_append_left hlt, List.getElem?_eq_getElem hlt]
    refine ⟨_, rfl, ?_⟩
    obtain ⟨l, -, hmem⟩ := List.mem_flatMap.mp (List.getElem_mem hlt)
    obtain ⟨entry, -, hentry⟩ := List.mem_map.mp hmem
    rw [← hentry]

/-! ## Regions that may be written -/

/-- The index is that of an account that is loaded to be written. -/
def LoadsWritable (m : Message) (index : Nat) : Prop :=
  m.keys.length ≤ index ∧
    ∃ account, m.loadedAccounts[index - m.keys.length]? = some account ∧ account.writable = true

/-- The transaction may write the account at the index: a signer or another key
that is not read-only, or an account that is loaded to be written. -/
def MayWrite (m : Message) (index : Nat) : Prop :=
  index < m.header.required.toNat - m.header.readonlySigners.toNat ∨
    (m.header.required.toNat ≤ index ∧ index < m.keys.length - m.header.readonlyOthers.toNat) ∨
    m.LoadsWritable index

theorem loadsWritable_iff :
    m.LoadsWritable index ↔
      m.keys.length ≤ index ∧ index < m.keys.length + m.loadedWritable := by
  rw [LoadsWritable, exists_writable_iff]
  omega

theorem isWritable_iff_regions :
    m.isWritable index = true ↔
      index < m.header.required.toNat - m.header.readonlySigners.toNat ∨
        (m.header.required.toNat ≤ index ∧
          index < m.keys.length - m.header.readonlyOthers.toNat) := by
  rw [isWritable, Header.writableAt_iff]
  omega

/-- No loaded account is among those to which `isWritable` says yes. -/
theorem lt_length_of_isWritable (hfits : m.header.Fits m.keys.length)
    (h : m.isWritable index = true) : index < m.keys.length := by
  obtain ⟨hrequired, -, -⟩ := hfits
  rcases isWritable_iff_regions.mp h with hsigner | ⟨-, hother⟩
  · omega
  · omega

/-- **Loaded accounts are missed.** In a well-formed message `isWritable` says
yes to exactly those accounts that may be written and have a key.  So its answer
is the right one exactly if the account is not one that is loaded to be written;
of all loaded accounts, these directly follow the keys. -/
theorem isWritable_misses_loaded (hm : m.WellFormed) (index : Nat) :
    (m.isWritable index = true ↔ m.MayWrite index ∧ index < m.keys.length) ∧
    ((m.isWritable index = true ↔ m.MayWrite index) ↔ ¬ m.LoadsWritable index) ∧
    (m.LoadsWritable index ↔
      m.keys.length ≤ index ∧ index < m.keys.length + m.loadedWritable) ∧
    m.loadedAccounts.length = m.loaded := by
  have hkey : m.isWritable index = true → index < m.keys.length := lt_length_of_isWritable hm.1
  have hmay : m.MayWrite index ↔ m.isWritable index = true ∨ m.LoadsWritable index := by
    rw [MayWrite, isWritable_iff_regions, or_assoc]
  have hloaded : m.LoadsWritable index → ¬ index < m.keys.length := fun h => Nat.not_lt.mpr h.1
  refine ⟨?_, ?_, loadsWritable_iff, length_loadedAccounts m⟩
  · rw [hmay]
    constructor
    · intro h
      exact ⟨.inl h, hkey h⟩
    · rintro ⟨h | h, hlt⟩
      · exact h
      · exact absurd hlt (hloaded h)
  · rw [hmay]
    constructor
    · intro hsame h
      exact hloaded h (hkey (hsame.mpr (.inr h)))
    · intro hnone
      exact ⟨.inl, fun h => h.resolve_right hnone⟩

/-- A message with keys in all four regions and two lookups. -/
def sampleLoading : Message where
  header := { required := 2, readonlySigners := 1, readonlyOthers := 1 }
  keys := [.numbered 1, .numbered 2, .numbered 3, .numbered 4]
  blockhash := ⟨Block.zero 32⟩
  instructions := [{ program := 3, accounts := [0, 6, 8], data := [7] }]
  format := .v0 [⟨.numbered 5, [0, 9], [3]⟩, ⟨.numbered 6, [1], [2]⟩]

/-- The account that the second lookup loads to be written has the index 6. -/
theorem isWritable_misses_sampleLoading :
    sampleLoading.WellFormed ∧ sampleLoading.MayWrite 6 ∧ sampleLoading.isWritable 6 = false ∧
      sampleLoading.isWritable 2 = true := by
  have hm : sampleLoading.WellFormed := by decide +kernel
  obtain ⟨hkeys, -, hloads, -⟩ := isWritable_misses_loaded hm 6
  have hmay : sampleLoading.MayWrite 6 := .inr (.inr (hloads.mpr (by decide)))
  refine ⟨hm, hmay, ?_, (isWritable_misses_loaded hm 2).1.mpr ⟨.inr (.inl (by decide)), by decide⟩⟩
  rw [Bool.eq_false_iff]
  intro h
  exact absurd (hkeys.mp h).2 (by decide)

/-- A message that loads one account, to be written. -/
theorem not_forall_isWritable_iff_mayWrite :
    ¬ ∀ (m : Message) (index : Nat), m.WellFormed → m.isV0 = true →
        index < m.keys.length + m.loaded →
        (m.isWritable index = true ↔ m.MayWrite index) := by
  intro hclaim
  have hwritable := (hclaim
    { header := { required := 1, readonlySigners := 0, readonlyOthers := 1 }
      keys := [.numbered 1, .numbered 2]
      blockhash := ⟨Block.zero 32⟩
      instructions := [{ program := 1, accounts := [0, 2], data := [] }]
      format := .v0 [⟨.numbered 3, [0], []⟩] }
    2 (by decide +kernel) rfl (by decide)).mpr (.inr (.inr ⟨by decide, _, rfl, rfl⟩))
  revert hwritable
  decide

end Message

end SolanaWallet
