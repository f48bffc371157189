import SolanaWallet.Proofs.Outcome

/-!
# Making room for a key

Every edit that lets another address take part in a message does the same
three things: it counts the key in its region, moves the indices at or past
its place up by one, and puts the key into the table.  `Message.withKey` is
the message that results when nothing overflows, and `Header.HasRoom` and
`Message.IndexRoom` say that nothing does.

The steps are taken apart here once: `raise_eq_ok_iff` and `shift_eq_ok_iff`
say exactly when a step succeeds and what it leaves, and `counted_eq_ok_iff`
puts the two together.  `Message.GainsKey` collects what all successful
insertions have in common, and every invariant of edits is proved of it.
-/

namespace SolanaWallet

/-! ## The message with one more key -/

/-- The header with one more key counted in a region. -/
def Header.grow (h : Header) : Region → Header
  | .writableSigners => { h with required := h.required + 1 }
  | .readonlySigners =>
    { h with required := h.required + 1, readonlySigners := h.readonlySigners + 1 }
  | .writableOthers => h
  | .readonlyOthers => { h with readonlyOthers := h.readonlyOthers + 1 }

/-- How much a key of the region adds to the three counts of a header. -/
def Region.counts : Region → Nat × Nat × Nat
  | .writableSigners => (1, 0, 0)
  | .readonlySigners => (1, 1, 0)
  | .writableOthers => (0, 0, 0)
  | .readonlyOthers => (0, 0, 1)

/-- The counts that a key of the region raises are not full. -/
def Header.HasRoom (h : Header) : Region → Prop
  | .writableSigners => h.required ≠ 255
  | .readonlySigners => h.required ≠ 255 ∧ h.readonlySigners ≠ 255
  | .writableOthers => True
  | .readonlyOthers => h.readonlyOthers ≠ 255

/-- Where an account stands after a key was put at `place`. -/
def placeAfter (place index : Nat) : Nat := if index < place then index else index + 1

/-- The index of an account after a key was put at `place`. -/
def indexAfter (place index : UInt8) : UInt8 := if index < place then index else index + 1

/-- The instruction with the indices it has after a key was put at `place`. -/
def CompiledInstruction.after (place : UInt8) (ix : CompiledInstruction) : CompiledInstruction :=
  { ix with program := indexAfter place ix.program
            accounts := ix.accounts.map (indexAfter place) }

/-- The index can move up if it has to. -/
def IndexRoom (place index : UInt8) : Prop := place ≤ index → index ≠ 255

instance (place index : UInt8) : Decidable (IndexRoom place index) :=
  inferInstanceAs (Decidable (_ → _))

namespace Message

/-- Every index of the message can move up if it has to. -/
def IndexRoom (m : Message) (place : UInt8) : Prop :=
  ∀ ix ∈ m.instructions, ∀ index ∈ ix.indices, SolanaWallet.IndexRoom place index

/-- The message in which `address` stands at `place`, in the given region. -/
def withKey (m : Message) (region : Region) (place : UInt8) (address : Address) : Message :=
  { m with
    header := m.header.grow region
    keys := m.keys.insertIdx place.toNat address
    instructions := m.instructions.map (·.after place) }

/-- The place of the first key of a region. -/
def regionStart (m : Message) : Region → Nat
  | .writableSigners => 0
  | .readonlySigners => m.header.required.toNat - m.header.readonlySigners.toNat
  | .writableOthers => m.header.required.toNat
  | .readonlyOthers => m.keys.length - m.header.readonlyOthers.toNat

/-- `m'` is `m` with a new key inside, or at either end of, its region. -/
structure GainsKey (m : Message) (region : Region) (place : UInt8) (address : Address)
    (m' : Message) : Prop where
  fresh : address ∉ m.keys
  start_le : m.regionStart region ≤ place.toNat
  le_end : place.toNat ≤ m.regionEnd region
  countRoom : m.header.HasRoom region
  indexRoom : m.IndexRoom place
  eq_withKey : m' = m.withKey region place address

end Message

/-! ## Moving indices -/

theorem getElem?_insertIdx_placeAfter {α : Type} {items : List α} {x : α} {place index : Nat} :
    (items.insertIdx place x)[placeAfter place index]? = items[index]? := by
  unfold placeAfter
  split
  · exact List.getElem?_insertIdx_of_lt ‹_›
  · rw [List.getElem?_insertIdx_of_gt (by omega), Nat.add_sub_cancel]

theorem toNat_indexAfter {place index : UInt8} (h : IndexRoom place index) :
    (indexAfter place index).toNat = placeAfter place.toNat index.toNat := by
  unfold indexAfter placeAfter
  by_cases hlt : index < place
  · rw [if_pos hlt, if_pos (UInt8.lt_iff_toNat_lt.mp hlt)]
  · rw [if_neg hlt, if_neg (mt UInt8.lt_iff_toNat_lt.mpr hlt)]
    have hle : place ≤ index := UInt8.not_lt.mp hlt
    -- an index that moves is not full, so it does not wrap
    have hne : index.toNat ≠ 255 := fun heq => h hle (UInt8.toNat_inj.mp heq)
    have hbyte : index.toNat < 256 := index.toNat_lt
    rw [UInt8.toNat_add, Nat.mod_eq_of_lt]
    · rfl
    · have hone : (1 : UInt8).toNat = 1 := rfl
      omega

theorem shiftIndex_snd {place index : UInt8} :
    (shiftIndex place index).2 = true ↔ IndexRoom place index := by
  unfold shiftIndex IndexRoom
  by_cases hlt : index < place
  · rw [if_pos hlt]
    exact ⟨fun _ hle => absurd hlt (UInt8.not_lt.mpr hle), fun _ => rfl⟩
  · rw [if_neg hlt]
    have hle : place ≤ index := UInt8.not_lt.mp hlt
    by_cases hfull : index = 255 <;> simp [hfull, hle]
    exact hfull ▸ hle

theorem shiftIndex_fst {place index : UInt8} (h : IndexRoom place index) :
    (shiftIndex place index).1 = indexAfter place index := by
  unfold shiftIndex indexAfter
  by_cases hlt : index < place
  · rw [if_pos hlt, if_pos hlt]
  · rw [if_neg hlt, if_neg hlt, if_neg (h (UInt8.not_lt.mp hlt))]

theorem mapUntilFailure_snd {α : Type} {f : α → α × Bool} {items : List α} :
    (mapUntilFailure f items).2 = true ↔ ∀ item ∈ items, (f item).2 = true := by
  induction items with
  | nil => simp [mapUntilFailure]
  | cons item rest ih =>
    unfold mapUntilFailure
    cases hitem : (f item).2 with
    | true => simp [hitem, ih]
    | false => simp [hitem]

/-- Without a failure every item is changed. -/
theorem mapUntilFailure_fst {α : Type} {f : α → α × Bool} {g : α → α} {items : List α}
    (hsucceeds : ∀ item ∈ items, (f item).2 = true) (hchanges : ∀ item ∈ items, (f item).1 = g item) :
    (mapUntilFailure f items).1 = items.map g := by
  induction items with
  | nil => rfl
  | cons item rest ih =>
    rw [List.forall_mem_cons] at hsucceeds hchanges
    unfold mapUntilFailure
    simp [hsucceeds.1, hchanges.1, ih hsucceeds.2 hchanges.2]

namespace CompiledInstruction

variable {place : UInt8} {ix : CompiledInstruction}

theorem shift_snd :
    (ix.shift place).2 = true ↔ ∀ index ∈ ix.indices, IndexRoom place index := by
  unfold shift indices
  rw [List.forall_mem_cons]
  -- the program's index moves first, and the accounts stay if it cannot
  cases hprogram : (shiftIndex place ix.program).2 with
  | true =>
    simp only [hprogram, if_true, mapUntilFailure_snd, shiftIndex_snd]
    exact ⟨fun haccounts => ⟨shiftIndex_snd.mp hprogram, haccounts⟩, And.right⟩
  | false =>
    simp only [hprogram, Bool.false_eq_true, if_false, false_iff, not_and]
    intro hroom
    rw [shiftIndex_snd.mpr hroom] at hprogram
    cases hprogram

theorem shift_fst (h : ∀ index ∈ ix.indices, IndexRoom place index) :
    (ix.shift place).1 = ix.after place := by
  unfold indices at h
  rw [List.forall_mem_cons] at h
  have haccounts : (mapUntilFailure (shiftIndex place) ix.accounts).1 =
      ix.accounts.map (indexAfter place) :=
    mapUntilFailure_fst (fun index hindex => shiftIndex_snd.mpr (h.2 index hindex))
      (fun index hindex => shiftIndex_fst (h.2 index hindex))
  unfold shift after
  simp only [shiftIndex_snd.mpr h.1, if_true, shiftIndex_fst h.1, haccounts]

@[simp] theorem indices_after (place : UInt8) (ix : CompiledInstruction) :
    (ix.after place).indices = ix.indices.map (indexAfter place) := rfl

end CompiledInstruction

/-! ## The steps of an insertion -/

namespace Edit

variable {m m' : Message} {place : UInt8} {region : Region}

private theorem shift_complete_iff :
    (mapUntilFailure (CompiledInstruction.shift place) m.instructions).2 = true ↔
      m.IndexRoom place := by
  rw [mapUntilFailure_snd]
  exact forall₂_congr fun ix _ => CompiledInstruction.shift_snd

theorem shift_eq_ok_iff :
    shift place m = .ok () m' ↔
      m.IndexRoom place ∧ m' = { m with instructions := m.instructions.map (·.after place) } := by
  unfold shift
  by_cases hroom : m.IndexRoom place
  · have hmoved : (mapUntilFailure (CompiledInstruction.shift place) m.instructions).1 =
        m.instructions.map (·.after place) :=
      mapUntilFailure_fst (fun ix hix => CompiledInstruction.shift_snd.mpr (hroom ix hix))
        (fun ix hix => CompiledInstruction.shift_fst (hroom ix hix))
    simp [shift_complete_iff.mpr hroom, hroom, hmoved, eq_comm]
  · have hfails : (mapUntilFailure (CompiledInstruction.shift place) m.instructions).2 = false :=
      Bool.eq_false_iff.mpr (mt shift_complete_iff.mp hroom)
    simp [hfails, hroom]

theorem raiseRequired_eq_ok_iff {fault : SizeFault} :
    raiseRequired fault m = .ok () m' ↔
      m.header.HasRoom .writableSigners ∧
        m' = { m with header := m.header.grow .writableSigners } := by
  unfold raiseRequired
  by_cases hfull : m.header.required = 255 <;> simp [hfull, Header.HasRoom, Header.grow, eq_comm]

theorem raiseReadonlySigners_eq_ok_iff {fault : SizeFault} :
    raiseReadonlySigners fault m = .ok () m' ↔
      m.header.readonlySigners ≠ 255 ∧
        m' = { m with header :=
          { m.header with readonlySigners := m.header.readonlySigners + 1 } } := by
  unfold raiseReadonlySigners
  by_cases hfull : m.header.readonlySigners = 255 <;> simp [hfull, eq_comm]

theorem raiseReadonlyOthers_eq_ok_iff {fault : SizeFault} :
    raiseReadonlyOthers fault m = .ok () m' ↔
      m.header.HasRoom .readonlyOthers ∧
        m' = { m with header := m.header.grow .readonlyOthers } := by
  unfold raiseReadonlyOthers
  by_cases hfull : m.header.readonlyOthers = 255 <;>
    simp [hfull, Header.HasRoom, Header.grow, eq_comm]

theorem raise_eq_ok_iff :
    raise region m = .ok () m' ↔
      m.header.HasRoom region ∧ m' = { m with header := m.header.grow region } := by
  cases region with
  | writableSigners => exact raiseRequired_eq_ok_iff
  | readonlySigners =>
    unfold raise
    rw [bind_eq_ok_iff]
    constructor
    · intro hparts
      obtain ⟨⟨⟩, mid, hrequired, hreadonly⟩ := hparts
      obtain ⟨hroom, rfl⟩ := raiseRequired_eq_ok_iff.mp hrequired
      obtain ⟨hroom', rfl⟩ := raiseReadonlySigners_eq_ok_iff.mp hreadonly
      exact ⟨⟨hroom, hroom'⟩, rfl⟩
    · intro hparts
      obtain ⟨⟨hroom, hroom'⟩, rfl⟩ := hparts
      exact ⟨(), _, raiseRequired_eq_ok_iff.mpr ⟨hroom, rfl⟩,
        raiseReadonlySigners_eq_ok_iff.mpr ⟨hroom', rfl⟩⟩
  | writableOthers =>
    unfold raise
    rw [pure_eq_ok_iff, eq_comm (a := m)]
    simp [Header.HasRoom, Header.grow]
  | readonlyOthers => exact raiseReadonlyOthers_eq_ok_iff

/-! The two steps before a key is put into the table, whatever comes next: the
key is counted, and the indices make room for it. -/

section Counted

variable {α : Type} {counting : Edit Unit} {next : Edit α} {result : α}

theorem counted_eq_ok_iff
    (hcounting : ∀ {mid}, counting m = .ok () mid ↔
      m.header.HasRoom region ∧ mid = { m with header := m.header.grow region }) :
    (do counting; shift place; next) m = .ok result m' ↔
      m.header.HasRoom region ∧ m.IndexRoom place ∧
        next { m with
          header := m.header.grow region
          instructions := m.instructions.map (·.after place) } = .ok result m' := by
  rw [bind_eq_ok_iff]
  constructor
  · intro h
    obtain ⟨⟨⟩, _, hcounted, h⟩ := h
    obtain ⟨hcount, rfl⟩ := hcounting.mp hcounted
    obtain ⟨⟨⟩, _, hshift, h⟩ := bind_eq_ok_iff.mp h
    obtain ⟨hroom, rfl⟩ := shift_eq_ok_iff.mp hshift
    exact ⟨hcount, hroom, h⟩
  · intro hparts
    obtain ⟨hcount, hroom, h⟩ := hparts
    refine ⟨(), _, hcounting.mpr ⟨hcount, rfl⟩, ?_⟩
    exact bind_eq_ok_iff.mpr ⟨(), _, shift_eq_ok_iff.mpr ⟨hroom, rfl⟩, h⟩

end Counted

end Edit

/-! ## What an insertion keeps -/

theorem idxOf?_eq_some_iff_getElem? {keys : List Address} {a : Address} {index : Nat} :
    keys.idxOf? a = some index ↔
      keys[index]? = some a ∧ ∀ earlier < index, keys[earlier]? ≠ some a := by
  rw [List.idxOf?_eq_some_iff]
  constructor
  · intro hparts
    obtain ⟨hlt, hkey, hfirst⟩ := hparts
    refine ⟨List.getElem?_eq_some_iff.mpr ⟨hlt, hkey⟩, fun earlier hearlier => ?_⟩
    rw [List.getElem?_eq_getElem (Nat.lt_trans hearlier hlt)]
    exact fun heq => hfirst earlier hearlier (Option.some.inj heq)
  · intro hparts
    obtain ⟨hkey, hfirst⟩ := hparts
    obtain ⟨hlt, hkey⟩ := List.getElem?_eq_some_iff.mp hkey
    refine ⟨hlt, hkey, fun earlier hearlier heq => hfirst earlier hearlier ?_⟩
    exact List.getElem?_eq_some_iff.mpr ⟨_, heq⟩

theorem getElem?_of_idxOf? {keys : List Address} {a : Address} {index : Nat}
    (h : keys.idxOf? a = some index) : keys[index]? = some a :=
  (idxOf?_eq_some_iff_getElem?.mp h).1

/-- Different addresses have different first places. -/
theorem eq_of_idxOf? {keys : List Address} {a b : Address} {index : Nat}
    (ha : keys.idxOf? a = some index) (hb : keys.idxOf? b = some index) : a = b :=
  Option.some.inj ((getElem?_of_idxOf? ha).symm.trans (getElem?_of_idxOf? hb))

theorem mem_of_idxOf? {keys : List Address} {a : Address} {index : Nat}
    (h : keys.idxOf? a = some index) : a ∈ keys :=
  List.mem_of_getElem? (getElem?_of_idxOf? h)

private theorem toNat_add_one {count : UInt8} (h : count ≠ 255) :
    (count + 1).toNat = count.toNat + 1 := by
  have hne : count.toNat ≠ 255 := fun heq => h (UInt8.toNat_inj.mp heq)
  have hbyte : count.toNat < 256 := count.toNat_lt
  have hone : (1 : UInt8).toNat = 1 := rfl
  rw [UInt8.toNat_add, hone, Nat.mod_eq_of_lt (by omega)]

/-- The counts of a header are raised as the region asks, and do not wrap. -/
theorem Header.HasRoom.counts_grow {h : Header} {region : Region} (hroom : h.HasRoom region) :
    (h.grow region).required.toNat = h.required.toNat + region.counts.1 ∧
      (h.grow region).readonlySigners.toNat = h.readonlySigners.toNat + region.counts.2.1 ∧
      (h.grow region).readonlyOthers.toNat = h.readonlyOthers.toNat + region.counts.2.2 := by
  cases region with
  | writableSigners => exact ⟨toNat_add_one hroom, rfl, rfl⟩
  | readonlySigners => exact ⟨toNat_add_one hroom.1, toNat_add_one hroom.2, rfl⟩
  | writableOthers => exact ⟨rfl, rfl, rfl⟩
  | readonlyOthers => exact ⟨rfl, rfl, toNat_add_one hroom⟩

theorem Header.writableAt_iff {h : Header} {keys index : Nat} :
    h.writableAt keys index = true ↔
      (index < h.required.toNat ∧ index < h.required.toNat - h.readonlySigners.toNat) ∨
        (h.required.toNat ≤ index ∧ index < keys - h.readonlyOthers.toNat) := by
  unfold writableAt
  by_cases hsigner : index < h.required.toNat
  · rw [if_pos hsigner, decide_eq_true_iff]
    omega
  · rw [if_neg hsigner, decide_eq_true_iff]
    omega

namespace Message

variable {m m' : Message} {region : Region} {place : UInt8} {address : Address}

theorem regionEnd_le_length (hfits : m.header.Fits m.keys.length) (region : Region) :
    m.regionEnd region ≤ m.keys.length := by
  obtain ⟨hrequired, -, -⟩ := hfits
  cases region <;> simp only [regionEnd] <;> omega

namespace GainsKey

theorem place_le (h : m.GainsKey region place address m') (hfits : m.header.Fits m.keys.length) :
    place.toNat ≤ m.keys.length :=
  Nat.le_trans h.le_end (regionEnd_le_length hfits region)

theorem format_eq (h : m.GainsKey region place address m') : m'.format = m.format :=
  h.eq_withKey ▸ rfl

theorem blockhash_eq (h : m.GainsKey region place address m') : m'.blockhash = m.blockhash :=
  h.eq_withKey ▸ rfl

theorem keys_eq (h : m.GainsKey region place address m') :
    m'.keys = m.keys.insertIdx place.toNat address :=
  h.eq_withKey ▸ rfl

theorem loaded_eq (h : m.GainsKey region place address m') : m'.loaded = m.loaded := by
  rw [loaded, h.format_eq, loaded]

theorem length_keys (h : m.GainsKey region place address m')
    (hfits : m.header.Fits m.keys.length) : m'.keys.length = m.keys.length + 1 := by
  rw [h.eq_withKey]
  exact List.length_insertIdx_of_le_length (h.place_le hfits) address

theorem counts (h : m.GainsKey region place address m') :
    m'.header.required.toNat = m.header.required.toNat + region.counts.1 ∧
      m'.header.readonlySigners.toNat = m.header.readonlySigners.toNat + region.counts.2.1 ∧
      m'.header.readonlyOthers.toNat = m.header.readonlyOthers.toNat + region.counts.2.2 := by
  obtain rfl := h.eq_withKey
  exact h.countRoom.counts_grow

theorem fits (h : m.GainsKey region place address m') (hfits : m.header.Fits m.keys.length) :
    m'.header.Fits m'.keys.length := by
  obtain ⟨hrequired, hsigners, hothers⟩ := h.counts
  have hlength := h.length_keys hfits
  unfold Header.Fits at hfits ⊢
  cases region <;> simp only [Region.counts] at hrequired hsigners hothers <;> omega

/-- An account that signs goes on signing, and no other account starts to. -/
theorem signer_iff (h : m.GainsKey region place address m')
    (hfits : m.header.Fits m.keys.length) (index : Nat) :
    placeAfter place.toNat index < m'.header.signerCount ↔ index < m.header.signerCount := by
  obtain ⟨hrequired, -, -⟩ := h.counts
  have hstart := h.start_le
  have hend := h.le_end
  unfold Header.Fits at hfits
  unfold placeAfter Header.signerCount
  -- a key of a region of signers is put in front of the first account that does not sign
  cases region <;> simp only [regionStart, regionEnd, Region.counts] at hrequired hstart hend <;>
    split <;> omega

/-- An account may be written as before. -/
theorem isWritable_eq (h : m.GainsKey region place address m')
    (hfits : m.header.Fits m.keys.length) (index : Nat) :
    m'.isWritable (placeAfter place.toNat index) = m.isWritable index := by
  obtain ⟨hrequired, hsigners, hothers⟩ := h.counts
  have hlength := h.length_keys hfits
  have hstart := h.start_le
  have hend := h.le_end
  unfold Header.Fits at hfits
  unfold isWritable
  rw [Bool.eq_iff_iff, Header.writableAt_iff, Header.writableAt_iff]
  unfold placeAfter
  -- the ends of the regions behind the place move with the accounts, those in front stay
  cases region <;>
    simp only [regionStart, regionEnd, Region.counts] at hrequired hsigners hothers hstart hend <;>
    split <;> omega

theorem getElem?_keys (h : m.GainsKey region place address m') (index : Nat) :
    m'.keys[placeAfter place.toNat index]? = m.keys[index]? := by
  rw [h.eq_withKey]
  exact getElem?_insertIdx_placeAfter

theorem getElem?_place (h : m.GainsKey region place address m')
    (hplace : place.toNat ≤ m.keys.length) : m'.keys[place.toNat]? = some address := by
  rw [h.eq_withKey]
  change (m.keys.insertIdx place.toNat address)[place.toNat]? = _
  rw [List.getElem?_insertIdx_self, if_pos hplace]

theorem idxOf?_place (h : m.GainsKey region place address m')
    (hplace : place.toNat ≤ m.keys.length) : m'.keys.idxOf? address = some place.toNat := by
  rw [idxOf?_eq_some_iff_getElem?]
  refine ⟨h.getElem?_place hplace, fun earlier hearlier heq => h.fresh ?_⟩
  have hafter : placeAfter place.toNat earlier = earlier := if_pos hearlier
  rw [← hafter, h.getElem?_keys] at heq
  exact List.mem_of_getElem? heq

/-- The first place of a key is the one that its old first place has become,
since the new key is no other. -/
theorem idxOf?_keys (h : m.GainsKey region place address m')
    (hfits : m.header.Fits m.keys.length) {a : Address} {index : Nat}
    (ha : m.keys.idxOf? a = some index) :
    m'.keys.idxOf? a = some (placeAfter place.toNat index) := by
  obtain ⟨hkey, hfirst⟩ := idxOf?_eq_some_iff_getElem?.mp ha
  have hne : address ≠ a := fun heq => h.fresh (heq ▸ List.mem_of_getElem? hkey)
  rw [idxOf?_eq_some_iff_getElem?]
  refine ⟨(h.getElem?_keys index).trans hkey, fun earlier hearlier => ?_⟩
  rcases Nat.lt_trichotomy earlier place.toNat with hlt | rfl | hgt
  · have hafter : placeAfter place.toNat earlier = earlier := if_pos hlt
    rw [← hafter, h.getElem?_keys]
    unfold placeAfter at hearlier
    exact hfirst earlier (by split at hearlier <;> omega)
  · rw [h.getElem?_place (h.place_le hfits)]
    simpa using hne
  · -- behind the new key stands what stood one place in front
    have hafter : placeAfter place.toNat (earlier - 1) = earlier := by
      unfold placeAfter
      split <;> omega
    rw [← hafter, h.getElem?_keys]
    unfold placeAfter at hearlier
    exact hfirst (earlier - 1) (by split at hearlier <;> omega)

theorem perm_keys (h : m.GainsKey region place address m')
    (hfits : m.header.Fits m.keys.length) : m'.keys.Perm (address :: m.keys) := by
  rw [h.eq_withKey]
  exact List.perm_insertIdx address m.keys (h.place_le hfits)

theorem nodup (h : m.GainsKey region place address m') (hfits : m.header.Fits m.keys.length)
    (hnodup : m.keys.Nodup) : m'.keys.Nodup :=
  (h.perm_keys hfits).nodup_iff.mpr (List.nodup_cons.mpr ⟨h.fresh, hnodup⟩)

theorem wellFormed (h : m.GainsKey region place address m') (hm : m.WellFormed) :
    m'.WellFormed := by
  refine ⟨h.fits hm.1, ?_⟩
  rw [h.length_keys hm.1, h.loaded_eq, h.eq_withKey]
  intro ix' hix' index' hindex'
  obtain ⟨ix, hix, rfl⟩ := List.mem_map.mp hix'
  rw [CompiledInstruction.indices_after] at hindex'
  obtain ⟨index, hindex, rfl⟩ := List.mem_map.mp hindex'
  have hlt := hm.2 ix hix index hindex
  rw [toNat_indexAfter (h.indexRoom ix hix index hindex)]
  unfold placeAfter
  split <;> omega

end GainsKey

end Message

end SolanaWallet
