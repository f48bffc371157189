import SolanaWallet.Proofs.Edit.Insertion
import SolanaWallet.Proofs.Message.Compile

/-!
# Finding an account or putting it into the table

The three edits that bring an address into a message are opened here, one
equivalence for each: `pushAccount_eq_ok_iff`, `pushReadonly_eq_ok_iff` and
`setFeePayer_eq_ok_iff` say when they succeed and with which message.  Either
the message is unchanged or it gains one key.

A failure is another matter, since the counts are raised before the indices
move.  In a well-formed message with at most 255 accounts every index is below
255, and then what an edit is refused for is found out before anything changes:
an account with other flags, or a full count.
-/

namespace SolanaWallet

/-- The account is in the table, and the first place of its address has other
flags. -/
def Message.ListsOtherwise (m : Message) (account : AccountMeta) : Prop :=
  ∃ place, m.keys.idxOf? account.address = some place ∧
    (account.signer ≠ decide (place < m.header.signerCount) ∨
      account.writable ≠ m.isWritable place)

namespace Edit

variable {m m' : Message} {account : AccountMeta} {address : Address} {index : UInt8}
  {reason : Failure}

theorem ofExcept_eq_ok_iff {α : Type} {outcome : Except Failure α} {result : α} :
    ofExcept outcome m = .ok result m' ↔ outcome = .ok result ∧ m = m' := by
  cases outcome with
  | ok value => simp [ofExcept, pure_eq_ok_iff]
  | error reason => simp [ofExcept, fail]

/-- A new key goes to the end of its region. -/
theorem newAccount_eq_ok_iff :
    newAccount account m = .ok index m' ↔
      m.regionEnd account.region = index.toNat ∧ m.header.HasRoom account.region ∧
        m.IndexRoom index ∧ m' = m.withKey account.region index account.address := by
  rw [newAccount, get_bind, bind_eq_ok_iff]
  constructor
  · intro h
    obtain ⟨place, _, hread, h⟩ := h
    obtain ⟨hplace, rfl⟩ := ofExcept_eq_ok_iff.mp hread
    obtain ⟨hcount, hroom, h⟩ := (counted_eq_ok_iff raise_eq_ok_iff).mp h
    obtain ⟨rfl, rfl⟩ := EStateM.Result.ok.inj h
    exact ⟨byteIndex_eq_ok_iff.mp hplace, hcount, hroom, rfl⟩
  · intro hparts
    obtain ⟨hplace, hcount, hroom, rfl⟩ := hparts
    refine ⟨index, m, ofExcept_eq_ok_iff.mpr ⟨byteIndex_eq_ok_iff.mpr hplace, rfl⟩, ?_⟩
    exact (counted_eq_ok_iff raise_eq_ok_iff).mpr ⟨hcount, hroom, rfl⟩

theorem pushAccount_eq_ok_iff :
    pushAccount account m = .ok index m' ↔
      (m.keys.idxOf? account.address = some index.toNat ∧
        account.signer = decide (index.toNat < m.header.signerCount) ∧
        account.writable = m.isWritable index.toNat ∧ m' = m) ∨
      (account.address ∉ m.keys ∧ m.regionEnd account.region = index.toNat ∧
        m.header.HasRoom account.region ∧ m.IndexRoom index ∧
        m' = m.withKey account.region index account.address) := by
  unfold pushAccount
  cases hlisted : m.keys.idxOf? account.address with
  | none =>
    have hfresh := List.idxOf?_eq_none_iff.mp hlisted
    simp [newAccount_eq_ok_iff, hfresh]
  | some place =>
    -- a listed account is not put in again, with whatever flags it stands there
    have hmem : account.address ∈ m.keys := mem_of_idxOf? hlisted
    simp only [listedAccount, hmem, not_true_eq_false, false_and, or_false]
    split
    · rename_i hflags
      rw [ofExcept_eq_ok_iff, byteIndex_eq_ok_iff, Option.some.injEq, eq_comm (a := m)]
      constructor
      · intro hparts
        obtain ⟨rfl, rfl⟩ := hparts
        exact ⟨rfl, hflags.1, hflags.2, rfl⟩
      · intro hparts
        obtain ⟨rfl, -, -, rfl⟩ := hparts
        exact ⟨rfl, rfl⟩
    · rename_i hflags
      constructor
      · intro h
        cases h
      · intro hparts
        obtain ⟨hplace, hsigner, hwritable, -⟩ := hparts
        rw [Option.some.inj hplace] at hflags
        exact absurd ⟨hsigner, hwritable⟩ hflags

theorem pushReadonly_eq_ok_iff :
    pushReadonly address m = .ok index m' ↔
      (m.keys.idxOf? address = some index.toNat ∧ m' = m) ∨
      (address ∉ m.keys ∧ m.keys.length = index.toNat ∧ m.header.HasRoom .readonlyOthers ∧
        m.IndexRoom index ∧ m' = m.withKey .readonlyOthers index address) := by
  unfold pushReadonly
  cases hlisted : m.keys.idxOf? address with
  | none =>
    have hfresh := List.idxOf?_eq_none_iff.mp hlisted
    simp only [reduceCtorEq, false_and, hfresh, not_false_eq_true, true_and, false_or]
    by_cases hlength : m.keys.length < 256
    · rw [if_pos hlength]
      have hplace := UInt8.toNat_ofNat_of_lt' hlength
      rw [counted_eq_ok_iff raiseReadonlyOthers_eq_ok_iff]
      constructor
      · intro hparts
        obtain ⟨hcount, hroom, h⟩ := hparts
        obtain ⟨rfl, rfl⟩ := EStateM.Result.ok.inj h
        refine ⟨hplace.symm, hcount, hroom, ?_⟩
        simp [Message.withKey, hplace]
      · intro hparts
        obtain ⟨hindex, hcount, hroom, rfl⟩ := hparts
        obtain rfl : UInt8.ofNat m.keys.length = index := by rw [hindex, UInt8.ofNat_toNat]
        refine ⟨hcount, hroom, ?_⟩
        -- the end of the table is the place of the new key
        show EStateM.Result.ok _ _ = .ok _ _
        simp [Message.withKey, hplace]
    · rw [if_neg hlength]
      constructor
      · intro h
        cases h
      · intro hparts
        obtain ⟨hindex, -⟩ := hparts
        exact absurd (hindex ▸ index.toNat_lt) hlength
  | some place =>
    have hmem : address ∈ m.keys := mem_of_idxOf? hlisted
    simp only [hmem, not_true_eq_false, false_and, or_false, Option.some.injEq]
    by_cases hplace : place < 256
    · rw [if_pos hplace]
      constructor
      · intro h
        obtain ⟨rfl, rfl⟩ := EStateM.Result.ok.inj h
        exact ⟨(UInt8.toNat_ofNat_of_lt' hplace).symm, rfl⟩
      · intro hparts
        obtain ⟨rfl, rfl⟩ := hparts
        rw [UInt8.ofNat_toNat]
    · rw [if_neg hplace]
      constructor
      · intro h
        cases h
      · intro hparts
        obtain ⟨rfl, -⟩ := hparts
        exact absurd index.toNat_lt hplace

theorem setFeePayer_eq_ok_iff :
    setFeePayer address m = .ok () m' ↔
      address ∉ m.keys ∧ m.header.HasRoom .writableSigners ∧ m.IndexRoom 0 ∧
        m' = m.withKey .writableSigners 0 address := by
  rw [setFeePayer, get_bind]
  by_cases hlisted : address ∈ m.keys
  · rw [if_pos hlisted]
    refine iff_of_false (fun h => ?_) (fun hparts => hparts.1 hlisted)
    cases h
  · rw [if_neg hlisted, counted_eq_ok_iff raiseRequired_eq_ok_iff, and_iff_right hlisted]
    constructor
    · intro hparts
      obtain ⟨hcount, hroom, h⟩ := hparts
      exact ⟨hcount, hroom, (EStateM.Result.ok.inj h).2.symm⟩
    · intro hparts
      obtain ⟨hcount, hroom, rfl⟩ := hparts
      exact ⟨hcount, hroom, rfl⟩

/-! ## What an edit of the accounts gains -/

theorem gainsKey_of_pushAccount (hfits : m.header.Fits m.keys.length)
    (h : pushAccount account m = .ok index m') :
    (m.keys.idxOf? account.address = some index.toNat ∧ m' = m) ∨
      (m.GainsKey account.region index account.address m' ∧
        m.regionEnd account.region = index.toNat) := by
  rcases pushAccount_eq_ok_iff.mp h with ⟨hlisted, -, -, rfl⟩ | ⟨hfresh, hend, hcount, hroom, heq⟩
  · exact .inl ⟨hlisted, rfl⟩
  · refine .inr ⟨⟨hfresh, ?_, Nat.le_of_eq hend.symm, hcount, hroom, heq⟩, hend⟩
    rw [← hend]
    obtain ⟨hrequired, hsigners, hothers⟩ := hfits
    cases account.region <;> simp only [Message.regionStart, Message.regionEnd] <;> omega

theorem gainsKey_of_pushReadonly (h : pushReadonly address m = .ok index m') :
    (m.keys.idxOf? address = some index.toNat ∧ m' = m) ∨
      (m.GainsKey .readonlyOthers index address m' ∧
        m.regionEnd .readonlyOthers = index.toNat) := by
  rcases pushReadonly_eq_ok_iff.mp h with ⟨hlisted, rfl⟩ | ⟨hfresh, hend, hcount, hroom, heq⟩
  · exact .inl ⟨hlisted, rfl⟩
  · refine .inr ⟨⟨hfresh, ?_, Nat.le_of_eq hend.symm, hcount, hroom, heq⟩, hend⟩
    simp only [Message.regionStart]
    omega

/-- The index that is returned is the first place of the address. -/
theorem idxOf?_of_pushAccount (hfits : m.header.Fits m.keys.length)
    (h : pushAccount account m = .ok index m') :
    m'.keys.idxOf? account.address = some index.toNat := by
  rcases gainsKey_of_pushAccount hfits h with ⟨hlisted, rfl⟩ | ⟨hgains, -⟩
  · exact hlisted
  · exact hgains.idxOf?_place (hgains.place_le hfits)

theorem idxOf?_of_pushReadonly (h : pushReadonly address m = .ok index m') :
    m'.keys.idxOf? address = some index.toNat := by
  rcases gainsKey_of_pushReadonly h with ⟨hlisted, rfl⟩ | ⟨hgains, hend⟩
  · exact hlisted
  · exact hgains.idxOf?_place (Nat.le_of_eq hend.symm)

theorem gainsKey_of_setFeePayer (h : setFeePayer address m = .ok () m') :
    m.GainsKey .writableSigners 0 address m' := by
  obtain ⟨hfresh, hcount, hroom, heq⟩ := setFeePayer_eq_ok_iff.mp h
  exact ⟨hfresh, Nat.zero_le _, Nat.zero_le _, hcount, hroom, heq⟩

/-! ## Refusals -/

theorem exists_toNat_eq {place : Nat} (h : place < 256) : ∃ index : UInt8, index.toNat = place :=
  ⟨UInt8.ofNat place, UInt8.toNat_ofNat_of_lt' h⟩

/-- In a well-formed message with few accounts no index is too large to move. -/
theorem indexRoom_of_wellFormed (hm : m.WellFormed) (hsmall : m.keys.length + m.loaded ≤ 255)
    (place : UInt8) : m.IndexRoom place := by
  intro ix hix index hindex _ hfull
  have hlt := hm.2 ix hix index hindex
  rw [hfull] at hlt
  have hbyte : (255 : UInt8).toNat = 255 := rfl
  omega

theorem raiseRequired_of_full {fault : SizeFault} (h : ¬ m.header.HasRoom .writableSigners) :
    raiseRequired fault m = .error (.tooLarge fault) m :=
  if_pos (not_not.mp h)

theorem raiseReadonlyOthers_of_full {fault : SizeFault} (h : ¬ m.header.HasRoom .readonlyOthers) :
    raiseReadonlyOthers fault m = .error (.tooLarge fault) m :=
  if_pos (not_not.mp h)

/-- The second count of a read-only signer is full only if the first is. -/
theorem raise_of_full {region : Region} (hfits : m.header.Fits m.keys.length)
    (h : ¬ m.header.HasRoom region) : raise region m = .error (.tooLarge .region) m := by
  cases region with
  | writableSigners => exact raiseRequired_of_full h
  | readonlySigners =>
    have hrequired : m.header.required = 255 := by
      by_contra hne
      have hfull : m.header.readonlySigners = 255 := by
        by_contra hroom
        exact h ⟨hne, hroom⟩
      -- all 255 signers would be read-only, so the first count was full before
      have hbyte : (255 : UInt8).toNat = 255 := rfl
      have hsigners : m.header.readonlySigners.toNat = 255 := hfull ▸ hbyte
      have hlt := m.header.required.toNat_lt
      have hle := hfits.2.1
      exact hne (UInt8.toNat_inj.mp (by omega))
    exact bind_of_error (raiseRequired_of_full (not_not.mpr hrequired))
  | writableOthers => exact absurd trivial h
  | readonlyOthers => exact raiseReadonlyOthers_of_full h

theorem pushAccount_of_listsOtherwise (h : m.ListsOtherwise account) :
    pushAccount account m = .error (.parameter (.flags account.address)) m := by
  obtain ⟨place, hplace, hflags⟩ := h
  simp only [pushAccount, hplace]
  exact if_neg fun hsame => hflags.elim (absurd hsame.1) (absurd hsame.2)

theorem pushAccount_of_full (hfits : m.header.Fits m.keys.length) (hsmall : m.keys.length ≤ 255)
    (hfresh : account.address ∉ m.keys) (hfull : ¬ m.header.HasRoom account.region) :
    pushAccount account m = .error (.tooLarge .region) m := by
  have hend : m.regionEnd account.region ≤ m.keys.length :=
    Message.regionEnd_le_length hfits account.region
  obtain ⟨index, hindex⟩ := exists_toNat_eq (show m.regionEnd account.region < 256 by omega)
  simp only [pushAccount, List.idxOf?_eq_none_iff.mpr hfresh, newAccount, get_bind,
    byteIndex_eq_ok_iff.mpr hindex.symm]
  exact (bind_of_ok rfl).trans (bind_of_error (raise_of_full hfits hfull))

/-- Nothing else keeps an account out. -/
theorem exists_pushAccount (hm : m.WellFormed) (hsmall : m.keys.length + m.loaded ≤ 255)
    (hflags : ¬ m.ListsOtherwise account)
    (hroom : account.address ∉ m.keys → m.header.HasRoom account.region) :
    ∃ index m', pushAccount account m = .ok index m' := by
  cases hlisted : m.keys.idxOf? account.address with
  | some place =>
    have hplace : place < m.keys.length := (List.idxOf?_eq_some_iff.mp hlisted).1
    obtain ⟨index, rfl⟩ := exists_toNat_eq (show place < 256 by omega)
    obtain ⟨hsigner, hwritable⟩ : account.signer = decide (index.toNat < m.header.signerCount) ∧
        account.writable = m.isWritable index.toNat := by
      by_contra hother
      exact hflags ⟨_, hlisted, not_and_or.mp hother⟩
    exact ⟨index, m, pushAccount_eq_ok_iff.mpr (.inl ⟨hlisted, hsigner, hwritable, rfl⟩)⟩
  | none =>
    have hfresh := List.idxOf?_eq_none_iff.mp hlisted
    have hend : m.regionEnd account.region ≤ m.keys.length :=
      Message.regionEnd_le_length hm.1 account.region
    obtain ⟨index, hindex⟩ := exists_toNat_eq (show m.regionEnd account.region < 256 by omega)
    have hmoves := indexRoom_of_wellFormed hm hsmall index
    exact ⟨index, _, pushAccount_eq_ok_iff.mpr
      (.inr ⟨hfresh, hindex.symm, hroom hfresh, hmoves, rfl⟩)⟩

theorem pushReadonly_of_full (hsmall : m.keys.length ≤ 255) (hfresh : address ∉ m.keys)
    (hfull : ¬ m.header.HasRoom .readonlyOthers) :
    pushReadonly address m = .error (.tooLarge .readonlyCount) m := by
  have hlt : m.keys.length < 256 := by omega
  simp only [pushReadonly, List.idxOf?_eq_none_iff.mpr hfresh, if_pos hlt]
  exact bind_of_error (raiseReadonlyOthers_of_full hfull)

theorem exists_pushReadonly (hm : m.WellFormed) (hsmall : m.keys.length + m.loaded ≤ 255)
    (hroom : address ∉ m.keys → m.header.HasRoom .readonlyOthers) :
    ∃ index m', pushReadonly address m = .ok index m' := by
  cases hlisted : m.keys.idxOf? address with
  | some place =>
    have hplace : place < m.keys.length := (List.idxOf?_eq_some_iff.mp hlisted).1
    obtain ⟨index, rfl⟩ := exists_toNat_eq (show place < 256 by omega)
    exact ⟨index, m, pushReadonly_eq_ok_iff.mpr (.inl ⟨hlisted, rfl⟩)⟩
  | none =>
    have hfresh := List.idxOf?_eq_none_iff.mp hlisted
    obtain ⟨index, hindex⟩ := exists_toNat_eq (show m.keys.length < 256 by omega)
    have hmoves := indexRoom_of_wellFormed hm hsmall index
    exact ⟨index, _, pushReadonly_eq_ok_iff.mpr
      (.inr ⟨hfresh, hindex.symm, hroom hfresh, hmoves, rfl⟩)⟩

theorem setFeePayer_of_listed (h : address ∈ m.keys) :
    setFeePayer address m = .error (.parameter (.feePayerListed address)) m := by
  rw [setFeePayer, get_bind, if_pos h]
  rfl

theorem setFeePayer_of_full (hfresh : address ∉ m.keys)
    (hfull : ¬ m.header.HasRoom .writableSigners) :
    setFeePayer address m = .error (.tooLarge .signers) m := by
  rw [setFeePayer, get_bind, if_neg hfresh]
  exact bind_of_error (raiseRequired_of_full hfull)

theorem eq_of_pushAccount_eq_error (hm : m.WellFormed)
    (hsmall : m.keys.length + m.loaded ≤ 255) (h : pushAccount account m = .error reason m') :
    m' = m := by
  by_cases hflags : m.ListsOtherwise account
  · cases (pushAccount_of_listsOtherwise hflags).symm.trans h
    rfl
  by_cases hfull : account.address ∉ m.keys ∧ ¬ m.header.HasRoom account.region
  · cases (pushAccount_of_full hm.1 (by omega) hfull.1 hfull.2).symm.trans h
    rfl
  · obtain ⟨index, mid, hpush⟩ := exists_pushAccount hm hsmall hflags fun hfresh =>
      not_not.mp (not_and.mp hfull hfresh)
    cases hpush.symm.trans h

theorem eq_of_pushReadonly_eq_error (hm : m.WellFormed)
    (hsmall : m.keys.length + m.loaded ≤ 255) (h : pushReadonly address m = .error reason m') :
    m' = m := by
  by_cases hfull : address ∉ m.keys ∧ ¬ m.header.HasRoom .readonlyOthers
  · cases (pushReadonly_of_full (by omega) hfull.1 hfull.2).symm.trans h
    rfl
  · obtain ⟨index, mid, hpush⟩ := exists_pushReadonly hm hsmall fun hfresh =>
      not_not.mp (not_and.mp hfull hfresh)
    cases hpush.symm.trans h

end Edit

end SolanaWallet
