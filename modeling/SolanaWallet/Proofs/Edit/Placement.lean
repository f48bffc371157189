import SolanaWallet.Proofs.Edit.Invariant

/-!
# Where an account stands

The flags of an account name one of the four regions of the key table, and an
account has the flags of its place exactly if the place lies in that region
(`inRegion_iff_flags`).  An account that is found was checked to have these
flags.  One that is let in goes to the end of its region, which grows by that
place (`GainsKey.inRegion_place`).  Either way it is held where its flags say,
at the first place of its address (`holds_of_pushAccount`), and asking for it
again finds it there.

What is refused for its flags is what is listed with other flags; a new account
can only be refused because a limit is passed.
-/

namespace SolanaWallet

namespace Message

/-- The place lies in the region. -/
def InRegion (m : Message) (region : Region) (place : Nat) : Prop :=
  m.regionStart region ≤ place ∧ place < m.regionEnd region

/-- The first place of the account is in the region of its flags. -/
structure Holds (m : Message) (account : AccountMeta) (place : Nat) : Prop where
  idxOf?_eq : m.keys.idxOf? account.address = some place
  inRegion : m.InRegion account.region place

variable {m m' : Message} {account : AccountMeta} {place : Nat} {index : UInt8}

/-! ## Regions and flags -/

/-- The regions of the table are those of the flags. -/
theorem inRegion_iff_flags (hfits : m.header.Fits m.keys.length) (hplace : place < m.keys.length) :
    m.InRegion account.region place ↔
      account.signer = decide (place < m.header.signerCount) ∧
        account.writable = m.isWritable place := by
  have hsigner : account.signer = decide (place < m.header.signerCount) ↔
      (account.signer = true ↔ place < m.header.required.toNat) := by
    rw [Bool.eq_iff_iff, decide_eq_true_iff, Header.signerCount]
  have hwritable : account.writable = m.isWritable place ↔
      (account.writable = true ↔
        (place < m.header.required.toNat ∧
            place < m.header.required.toNat - m.header.readonlySigners.toNat) ∨
          (m.header.required.toNat ≤ place ∧
            place < m.keys.length - m.header.readonlyOthers.toNat)) := by
    rw [Bool.eq_iff_iff, isWritable, Header.writableAt_iff]
  rw [hsigner, hwritable]
  unfold Header.Fits at hfits
  unfold InRegion AccountMeta.region
  cases account.signer <;> cases account.writable <;>
    simp only [regionStart, regionEnd, Bool.false_eq_true, false_iff, true_iff] <;> omega

/-- A key that is put at the end of a region lies in it. -/
theorem GainsKey.inRegion_place {region : Region} {inserted : UInt8} {address : Address}
    (h : m.GainsKey region inserted address m') (hfits : m.header.Fits m.keys.length)
    (hend : m.regionEnd region = inserted.toNat) : m'.InRegion region inserted.toNat := by
  obtain ⟨hrequired, hsigners, hothers⟩ := h.counts
  have hlength := h.length_keys hfits
  have hstart := h.start_le
  unfold Header.Fits at hfits
  unfold InRegion
  cases region <;> simp only [regionStart, regionEnd, Region.counts] at * <;> omega

theorem holds_of_pushAccount (hfits : m.header.Fits m.keys.length)
    (h : Edit.pushAccount account m = .ok index m') : m'.Holds account index.toNat := by
  refine ⟨Edit.idxOf?_of_pushAccount hfits h, ?_⟩
  rcases Edit.pushAccount_eq_ok_iff.mp h with ⟨hlisted, hsigner, hwritable, rfl⟩ | ⟨hfresh, -⟩
  · have hplace : index.toNat < m'.keys.length := (List.idxOf?_eq_some_iff.mp hlisted).1
    exact (inRegion_iff_flags hfits hplace).mpr ⟨hsigner, hwritable⟩
  · rcases Edit.gainsKey_of_pushAccount hfits h with ⟨hlisted, -⟩ | ⟨hgains, hend⟩
    · exact absurd (mem_of_idxOf? hlisted) hfresh
    · exact hgains.inRegion_place hfits hend

namespace Holds

theorem lt_length (h : m.Holds account place) : place < m.keys.length :=
  (List.idxOf?_eq_some_iff.mp h.idxOf?_eq).1

theorem flags (h : m.Holds account place) (hfits : m.header.Fits m.keys.length) :
    account.signer = decide (place < m.header.signerCount) ∧
      account.writable = m.isWritable place :=
  (inRegion_iff_flags hfits h.lt_length).mp h.inRegion

/-- An account that is held is found, and nothing changes. -/
theorem pushAccount_eq (h : m.Holds account index.toNat) (hfits : m.header.Fits m.keys.length) :
    Edit.pushAccount account m = .ok index m := by
  obtain ⟨hsigner, hwritable⟩ := h.flags hfits
  exact Edit.pushAccount_eq_ok_iff.mpr (.inl ⟨h.idxOf?_eq, hsigner, hwritable, rfl⟩)

end Holds

end Message

/-! ## Limits -/

namespace Edit

/-- The step fails, if at all, because a limit is passed. -/
def Limited {α : Type} (step : Edit α) : Prop :=
  ∀ m reason m', step m = .error reason m' → ∃ fault, reason = .tooLarge fault

theorem Limited.bind {α β : Type} {first : Edit α} {next : α → Edit β} (hfirst : Limited first)
    (hnext : ∀ a, Limited (next a)) : Limited (first >>= next) := by
  intro m reason m' h
  rcases bind_eq_error_iff.mp h with h | ⟨a, mid, -, h⟩
  · exact hfirst m reason m' h
  · exact hnext a mid reason m' h

theorem limited_byteIndex (index : Nat) : Limited (ofExcept (byteIndex index)) := by
  intro m reason m' h
  unfold byteIndex at h
  split at h
  · cases h
  · cases h
    exact ⟨_, rfl⟩

theorem limited_check {full : Message → Prop} [DecidablePred full] {fault : SizeFault}
    {counted : Message → Message} :
    Limited fun m => if full m then .error (.tooLarge fault) m else .ok () (counted m) := by
  intro m reason m' h
  dsimp only at h
  split at h
  · cases h
    exact ⟨_, rfl⟩
  · cases h

theorem limited_raise (region : Region) : Limited (raise region) := by
  cases region with
  | writableSigners => exact limited_check
  | readonlySigners => exact limited_check.bind fun _ => limited_check
  | writableOthers =>
    intro m reason m' h
    cases h
  | readonlyOthers => exact limited_check

theorem limited_shift (start : UInt8) : Limited (shift start) := by
  intro m reason m' h
  unfold shift at h
  split at h
  split at h
  · cases h
  · cases h
    exact ⟨_, rfl⟩

theorem limited_insertKey (index : UInt8) (a : Address) : Limited (do
    insertKey index.toNat a
    return index) := by
  intro m reason m' h
  cases h

theorem limited_newAccount (account : AccountMeta) : Limited (newAccount account) := by
  intro m reason m' h
  rw [newAccount, get_bind] at h
  have hsteps : Limited (do
      let index ← ofExcept (byteIndex (m.regionEnd account.region))
      raise account.region
      shift index
      insertKey index.toNat account.address
      return index) :=
    (limited_byteIndex _).bind fun index => (limited_raise _).bind fun _ =>
      (limited_shift index).bind fun _ => limited_insertKey index account.address
  exact hsteps m reason m' h

variable {m m' : Message} {account : AccountMeta}

/-- Only the flags of a listed account can be wrong. -/
theorem exists_fault_of_pushAccount {reason : Failure} (hflags : ¬ m.ListsOtherwise account)
    (h : pushAccount account m = .error reason m') : ∃ fault, reason = .tooLarge fault := by
  cases hlisted : m.keys.idxOf? account.address with
  | none =>
    simp only [pushAccount, hlisted] at h
    exact limited_newAccount account m reason m' h
  | some place =>
    simp only [pushAccount, hlisted, listedAccount] at h
    split at h
    · exact limited_byteIndex place m reason m' h
    · rename_i hother
      exact absurd ⟨place, hlisted, not_and_or.mp hother⟩ hflags

end Edit

/-! ## Placed accounts -/

/-- In `m'` the account stands at `index`, and `m'` is `m` if it did so before. -/
structure Message.Placed (m : Message) (account : AccountMeta) (index : UInt8) (m' : Message) :
    Prop where
  getElem?_keys : m'.keys[index.toNat]? = some account.address
  signer_iff : index.toNat < m'.header.signerCount ↔ account.signer = true
  isWritable_eq : m'.isWritable index.toNat = account.writable
  of_listed : account.address ∈ m.keys → m' = m
  of_fresh : account.address ∉ m.keys → index.toNat ≤ m.keys.length ∧
    m'.keys = m.keys.insertIdx index.toNat account.address
  /-- Asking for the account again finds it there. -/
  again : Edit.pushAccount account m' = .ok index m'

namespace Edit

variable {m : Message} {account : AccountMeta}

/-- **An account is placed as its flags say.**  The index that is returned is
that of the account, with its flags; only a new account changes the message; and
an account is refused for its flags exactly if it is listed with others, and
then nothing changes. -/
theorem placed_of_pushAccount (hm : m.WellFormed) :
    (∀ index m', pushAccount account m = .ok index m' → m.Placed account index m') ∧
      ∀ fault m', pushAccount account m = .error (.parameter fault) m' ↔
        m.ListsOtherwise account ∧ fault = .flags account.address ∧ m' = m := by
  constructor
  · intro index m' h
    have hm' : m'.WellFormed := (grows_of_pushAccount hm h).1.wellFormed hm
    have hholds : m'.Holds account index.toNat := Message.holds_of_pushAccount hm.1 h
    obtain ⟨hsigner, hwritable⟩ := hholds.flags hm'.1
    refine ⟨getElem?_of_idxOf? hholds.idxOf?_eq, ?_, hwritable.symm, ?_, ?_,
      hholds.pushAccount_eq hm'.1⟩
    · rw [hsigner, decide_eq_true_iff]
    · intro hlisted
      rcases gainsKey_of_pushAccount hm.1 h with ⟨-, heq⟩ | ⟨hgains, -⟩
      · exact heq
      · exact absurd hlisted hgains.fresh
    · intro hfresh
      rcases gainsKey_of_pushAccount hm.1 h with ⟨hlisted, -⟩ | ⟨hgains, -⟩
      · exact absurd (mem_of_idxOf? hlisted) hfresh
      · exact ⟨hgains.place_le hm.1, hgains.keys_eq⟩
  · intro fault m'
    constructor
    · intro h
      by_cases hflags : m.ListsOtherwise account
      · rw [pushAccount_of_listsOtherwise hflags] at h
        cases h
        exact ⟨hflags, rfl, rfl⟩
      · obtain ⟨_, hlimit⟩ := exists_fault_of_pushAccount hflags h
        cases hlimit
    · rintro ⟨hflags, rfl, rfl⟩
      exact pushAccount_of_listsOtherwise hflags

/-- A new account of the sample, and one of its accounts with other flags. -/
theorem placed_of_sample :
    (∃ m', pushAccount (.readSigned (.numbered 6)) .sample = .ok 2 m' ∧
      Message.sample.Placed (.readSigned (.numbered 6)) 2 m') ∧
    Message.sample.ListsOtherwise (.writeSigned (.numbered 2)) ∧
      pushAccount (.writeSigned (.numbered 2)) .sample =
        .error (.parameter (.flags (.numbered 2))) .sample := by
  have hsample : Message.sample.WellFormed := Message.sample_origin.wellFormed
  have hlists : Message.sample.ListsOtherwise (.writeSigned (.numbered 2)) :=
    ⟨1, by decide, .inr (by decide)⟩
  refine ⟨⟨_, rfl, ?_⟩, hlists, ?_⟩
  · exact (placed_of_pushAccount hsample).1 2 _ rfl
  · exact ((placed_of_pushAccount hsample).2 _ _).mpr ⟨hlists, rfl, rfl⟩

end Edit

end SolanaWallet
