import SolanaWallet.Proofs.Edit.Placement
import SolanaWallet.Proofs.Message.Faithful

/-!
# The indices that an insertion collects

An instruction is put into a message in two steps: its accounts are found in
the table or let in, one after the other, and then the indices that were
collected on the way are put in with its data.  An account that is let in
moves the indices of the instructions that are in the message already.  The
indices that were collected are not in the message yet, and do not move.

So an index falls behind its account by one place for every later account that
is let in in front of it.  Which accounts these are can be told from the
instruction and the table alone: an account is let in if its address is new,
and stands in front of an earlier one if its region does (`lags`).

The invariant is `Message.Holds`: an account that was found or let in has a
first place in the table, and that place is in the region of its flags.  A new
key goes to the end of a region, so it moves the later regions as a whole and
nothing else (`GainsKey.inRegion`); `Holds.pushAccount` is one step,
`Holds.pushAccounts` the run.  Beside it `Message.Knows` keeps account of the
addresses that are not new any more.
-/

namespace SolanaWallet

/-! ## How far keys move -/

/-- The number of a region in the order of the table. -/
def Region.rank : Region → Nat
  | .writableSigners => 0
  | .readonlySigners => 1
  | .writableOthers => 2
  | .readonlyOthers => 3

/-- How far the keys of a region move if a key is put at the end of `next`. -/
def Region.offset (region next : Region) : Nat := if next.rank < region.rank then 1 else 0

/-- How far the keys of a region move when accounts are found or let in, one
after the other, where only the addresses in `known` are in the table. -/
def Region.offsets (region : Region) (known : List Address) : List AccountMeta → Nat
  | [] => 0
  | next :: rest =>
    (if next.address ∈ known then 0 else region.offset next.region) +
      region.offsets (next.address :: known) rest

/-- How far each of the accounts moves after its turn. -/
def lags (known : List Address) : List AccountMeta → List Nat
  | [] => []
  | account :: rest =>
    account.region.offsets (account.address :: known) rest :: lags (account.address :: known) rest

theorem length_lags {known : List Address} {accounts : List AccountMeta} :
    (lags known accounts).length = accounts.length := by
  induction accounts generalizing known with
  | nil => rfl
  | cons account rest ih => rw [lags, List.length_cons, List.length_cons, ih]

namespace Message

/-- The message is well formed, and the addresses in `known` are its keys. -/
structure Knows (m : Message) (known : List Address) : Prop where
  wellFormed : m.WellFormed
  mem_iff : ∀ a, a ∈ known ↔ a ∈ m.keys

variable {m m' : Message} {account : AccountMeta} {place : Nat} {index : UInt8}

/-! ## One key more -/

/-- A key at the end of a region moves the later regions. -/
theorem GainsKey.inRegion {region next : Region} {inserted : UInt8} {address : Address}
    (h : m.GainsKey next inserted address m') (hfits : m.header.Fits m.keys.length)
    (hend : m.regionEnd next = inserted.toNat) (hplace : m.InRegion region place) :
    placeAfter inserted.toNat place = place + region.offset next ∧
      m'.InRegion region (place + region.offset next) := by
  obtain ⟨hrequired, hsigners, hothers⟩ := h.counts
  have hlength := h.length_keys hfits
  obtain ⟨hstart, hlt⟩ := hplace
  unfold Header.Fits at hfits
  unfold placeAfter InRegion
  -- whether the key moves is the same question in each of the sixteen cases
  cases next <;> cases region <;>
    simp only [regionStart, regionEnd, Region.counts, Region.offset, Region.rank] at * <;>
    split <;> simp <;> omega

theorem Holds.gainsKey {next : Region} {inserted : UInt8} {address : Address}
    (h : m.Holds account place) (hgains : m.GainsKey next inserted address m')
    (hfits : m.header.Fits m.keys.length) (hend : m.regionEnd next = inserted.toNat) :
    m'.Holds account (place + account.region.offset next) := by
  obtain ⟨hmoves, hregion⟩ := hgains.inRegion hfits hend h.inRegion
  exact ⟨hmoves ▸ hgains.idxOf?_keys hfits h.idxOf?_eq, hregion⟩

/-! ## One account more -/

variable {next : AccountMeta} {known : List Address}

theorem Knows.pushAccount (h : m.Knows known) (hpush : Edit.pushAccount next m = .ok index m') :
    m'.Knows (next.address :: known) := by
  refine ⟨(Edit.grows_of_pushAccount h.wellFormed hpush).1.wellFormed h.wellFormed, fun a => ?_⟩
  rw [List.mem_cons, h.mem_iff]
  rcases Edit.gainsKey_of_pushAccount h.wellFormed.1 hpush with ⟨hlisted, rfl⟩ | ⟨hgains, -⟩
  · have hmem := mem_of_idxOf? hlisted
    exact ⟨fun ha => ha.elim (fun heq => heq ▸ hmem) id, .inr⟩
  · rw [(hgains.perm_keys h.wellFormed.1).mem_iff, List.mem_cons]

/-- An account that is found moves nothing, and one that is let in moves the
later regions. -/
theorem Holds.pushAccount (h : m.Holds account place) (hfits : m.header.Fits m.keys.length)
    (hpush : Edit.pushAccount next m = .ok index m') :
    m'.Holds account
      (place + if next.address ∈ m.keys then 0 else account.region.offset next.region) := by
  rcases Edit.gainsKey_of_pushAccount hfits hpush with ⟨hlisted, rfl⟩ | ⟨hgains, hend⟩
  · rwa [if_pos (mem_of_idxOf? hlisted)]
  · rw [if_neg hgains.fresh]
    exact h.gainsKey hgains hfits hend

/-- A program goes behind all accounts. -/
theorem Holds.pushReadonly {program : Address} (h : m.Holds account place)
    (hfits : m.header.Fits m.keys.length) (hpush : Edit.pushReadonly program m = .ok index m') :
    m'.Holds account place := by
  rcases Edit.gainsKey_of_pushReadonly hpush with ⟨-, rfl⟩ | ⟨hgains, hend⟩
  · exact h
  · have hlast : account.region.offset .readonlyOthers = 0 := by cases account.region <;> rfl
    have hkept := h.gainsKey hgains hfits hend
    rwa [hlast] at hkept

/-! ## All accounts -/

theorem Holds.pushAccounts {accounts : List AccountMeta} {indices : List UInt8}
    (h : m.Holds account place) (hknows : m.Knows known)
    (hpush : Edit.pushAccounts accounts m = .ok indices m') :
    m'.Holds account (place + account.region.offsets known accounts) := by
  induction accounts generalizing m place indices known with
  | nil =>
    obtain ⟨-, rfl⟩ := Edit.pure_eq_ok_iff.mp hpush
    exact h
  | cons next rest ih =>
    obtain ⟨first, mid, others, hfirst, hothers, -⟩ := Edit.pushAccounts_cons_eq_ok_iff.mp hpush
    have hstep := ih (h.pushAccount hknows.wellFormed.1 hfirst) (hknows.pushAccount hfirst) hothers
    simpa only [Region.offsets, hknows.mem_iff, Nat.add_assoc] using hstep

/-- After all accounts are in, each is as far from its index as it has moved
since its turn. -/
theorem forall₂_holds_of_pushAccounts {accounts : List AccountMeta} {indices : List UInt8}
    (hknows : m.Knows known) (hpush : Edit.pushAccounts accounts m = .ok indices m') :
    List.Forall₂ (fun account (entry : UInt8 × Nat) => m'.Holds account (entry.1.toNat + entry.2))
      accounts (indices.zip (lags known accounts)) := by
  induction accounts generalizing m indices known with
  | nil =>
    obtain ⟨rfl, -⟩ := Edit.pure_eq_ok_iff.mp hpush
    exact .nil
  | cons account rest ih =>
    obtain ⟨first, mid, others, hfirst, hothers, rfl⟩ := Edit.pushAccounts_cons_eq_ok_iff.mp hpush
    have hmid : mid.Knows (account.address :: known) := hknows.pushAccount hfirst
    have hholds : mid.Holds account first.toNat := holds_of_pushAccount hknows.wellFormed.1 hfirst
    exact .cons (hholds.pushAccounts hmid hothers) (ih hmid hothers)

theorem length_of_pushAccounts {accounts : List AccountMeta} {indices : List UInt8}
    (hpush : Edit.pushAccounts accounts m = .ok indices m') : indices.length = accounts.length := by
  induction accounts generalizing m indices with
  | nil =>
    obtain ⟨rfl, -⟩ := Edit.pure_eq_ok_iff.mp hpush
    rfl
  | cons account rest ih =>
    obtain ⟨first, mid, others, -, hothers, rfl⟩ := Edit.pushAccounts_cons_eq_ok_iff.mp hpush
    rw [List.length_cons, List.length_cons, ih hothers]

/-! ## What the indices refer to -/

/-- An index in front of the first place of an address refers to another. -/
theorem resolve_eq_key_iff_of_idxOf? {a : Address} {lag : Nat}
    (h : m.keys.idxOf? a = some (index.toNat + lag)) : m.resolve index = .key a ↔ lag = 0 := by
  obtain ⟨hkey, hfirst⟩ := idxOf?_eq_some_iff_getElem?.mp h
  rw [resolve_eq_key_iff]
  constructor
  · intro hresolve
    by_contra hlag
    exact hfirst index.toNat (Nat.lt_add_of_pos_right (Nat.pos_of_ne_zero hlag)) hresolve
  · rintro rfl
    exact hkey

theorem map_resolve_eq_iff {accounts : List AccountMeta} {entries : List (UInt8 × Nat)}
    (h : List.Forall₂ (fun account (entry : UInt8 × Nat) =>
      m.keys.idxOf? account.address = some (entry.1.toNat + entry.2)) accounts entries) :
    (entries.map Prod.fst).map m.resolve =
        (accounts.map fun account => Reference.key account.address) ↔
      ∀ lag ∈ entries.map Prod.snd, lag = 0 := by
  induction h with
  | nil => simp
  | cons hhead _ ih =>
    rw [List.map_cons, List.map_cons, List.map_cons, List.map_cons, List.cons.injEq,
      resolve_eq_key_iff_of_idxOf? hhead, ih, List.forall_mem_cons]

theorem resolve_of_pushReadonly {program : Address}
    (hpush : Edit.pushReadonly program m = .ok index m') : m'.resolve index = .key program :=
  resolve_eq_key_iff.mpr (idxOf?_eq_some_iff_getElem?.mp (Edit.idxOf?_of_pushReadonly hpush)).1

/-- **The accounts of an inserted instruction.**  Its program and its data are
as they should be, and its index for an account misses the account by as many
places as keys were let in in front of it later; so it refers to its accounts
exactly if there were no such keys. -/
theorem insertInstruction_lags {position : Nat} {ix : Instruction} (hm : m.WellFormed)
    (h : Edit.insertInstruction position ix m = .ok () m') :
    ∃ compiled, m'.instructions[position]? = some compiled ∧
      m'.resolve compiled.program = .key ix.program ∧ compiled.data = ix.data ∧
      compiled.accounts.length = ix.accounts.length ∧
      List.Forall₂ (fun account (entry : UInt8 × Nat) =>
          m'.keys.idxOf? account.address = some (entry.1.toNat + entry.2))
        ix.accounts (compiled.accounts.zip (lags m.keys ix.accounts)) ∧
      (m'.resolved compiled = ix.resolved ↔ ∀ lag ∈ lags m.keys ix.accounts, lag = 0) := by
  obtain ⟨hposition, accounts, listed, program, complete, haccounts, hprogram, rfl⟩ :=
    Edit.insertInstruction_eq_ok_iff.mp h
  have hgrows : m.Grows listed := (Edit.grows_of_pushAccounts hm haccounts).1
  have hlength : accounts.length = ix.accounts.length := length_of_pushAccounts haccounts
  have hplaces : List.Forall₂ (fun account (entry : UInt8 × Nat) =>
      complete.keys.idxOf? account.address = some (entry.1.toNat + entry.2))
      ix.accounts (accounts.zip (lags m.keys ix.accounts)) :=
    (forall₂_holds_of_pushAccounts ⟨hm, fun _ => Iff.rfl⟩ haccounts).imp fun _ _ hholds =>
      (hholds.pushReadonly (hgrows.wellFormed hm).1 hprogram).idxOf?_eq
  have hlags : accounts.length = (lags m.keys ix.accounts).length := hlength.trans length_lags.symm
  have hresolve := map_resolve_eq_iff hplaces
  rw [List.map_fst_zip (Nat.le_of_eq hlags), List.map_snd_zip (Nat.le_of_eq hlags.symm)] at hresolve
  have hprogram' : complete.resolve program = .key ix.program := resolve_of_pushReadonly hprogram
  refine ⟨{ program, accounts, data := ix.data }, ?_, hprogram', rfl, hlength, hplaces, ?_⟩
  · have hin : position ≤ complete.instructions.length := by
      rwa [(hgrows.trans (Edit.grows_of_pushReadonly hprogram).1).length_instructions]
    show (complete.instructions.insertIdx position _)[position]? = _
    rw [List.getElem?_insertIdx_self, if_pos hin]
  · show complete.resolved _ = _ ↔ _
    rw [← hresolve]
    simp only [resolved, Instruction.resolved, hprogram', ResolvedInstruction.mk.injEq, true_and,
      and_true]

/-- The same two accounts, in the order of their regions and in the other. -/
theorem insert_lags_of_sample :
    (∃ m' compiled, Edit.insertInstruction 1
          ⟨.numbered 7, [.readSigned (.numbered 8), .write (.numbered 6)], [1]⟩ sample =
        .ok () m' ∧ m'.instructions[1]? = some compiled ∧
      m'.resolved compiled = Instruction.resolved
        ⟨.numbered 7, [.readSigned (.numbered 8), .write (.numbered 6)], [1]⟩) ∧
    ∃ m' compiled, Edit.insertInstruction 1
          ⟨.numbered 7, [.write (.numbered 6), .readSigned (.numbered 8)], [1]⟩ sample =
        .ok () m' ∧ m'.instructions[1]? = some compiled ∧
      m'.resolved compiled ≠ Instruction.resolved
        ⟨.numbered 7, [.write (.numbered 6), .readSigned (.numbered 8)], [1]⟩ := by
  have hsample : sample.WellFormed := sample_origin.wellFormed
  constructor
  · obtain ⟨compiled, hcompiled, -, -, -, -, hresolved⟩ := insertInstruction_lags hsample
      (rfl : Edit.insertInstruction 1
        ⟨.numbered 7, [.readSigned (.numbered 8), .write (.numbered 6)], [1]⟩ sample = _)
    exact ⟨_, compiled, rfl, hcompiled, hresolved.mpr (by decide)⟩
  · obtain ⟨compiled, hcompiled, -, -, -, -, hresolved⟩ := insertInstruction_lags hsample
      (rfl : Edit.insertInstruction 1
        ⟨.numbered 7, [.write (.numbered 6), .readSigned (.numbered 8)], [1]⟩ sample = _)
    exact ⟨_, compiled, rfl, hcompiled, mt hresolved.mp (by decide)⟩

/-- A message with one instruction, and a new one that lists a writable account
before a signer: its first index refers to the key in front of the account. -/
theorem not_forall_insert_resolved :
    ¬ ∀ (m : Message) (position : Nat) (ix : Instruction) (m' : Message), m.WellFormed →
        position ≤ m.instructions.length → Edit.insertInstruction position ix m = .ok () m' →
        ∃ compiled, m'.instructions[position]? = some compiled ∧
          m'.resolved compiled = ix.resolved := by
  intro hclaim
  obtain ⟨compiled, hcompiled, hresolved⟩ := hclaim
    { header := { required := 1, readonlySigners := 0, readonlyOthers := 1 }
      keys := [.numbered 1, .numbered 2, .numbered 4]
      blockhash := ⟨Block.zero 32⟩
      instructions := [{ program := 2, accounts := [0, 1], data := [7] }]
      format := .legacy }
    1 ⟨.numbered 4, [.write (.numbered 6), .writeSigned (.numbered 7)], [1]⟩ _
    (by decide +kernel) (by decide) rfl
  obtain rfl := Option.some.inj hcompiled
  revert hresolved
  decide

end Message

end SolanaWallet
