import SolanaWallet.Proofs.Edit.Invariant

/-!
# Edits that are refused

An edit counts a new key before it moves the indices, and a read-only signer is
counted twice.  So an edit can fail when the message has changed already, and
a message whose accounts are as many as there are indices shows that this
happens.

With at most 255 accounts it does not.  The indices of a well-formed message
are then all below 255 and can move, and the second count of a read-only signer
is full only if the first is.  What is left are the refusals listed in
`EditCommand.Refused`; each of them is decided on the message as it was given.
`atomic_of_run` says that an edit fails exactly if it is refused, and that the
message is as it was before.

The insertion of an instruction is no such edit.  It lets in its accounts one
after the other, and those in front of an account that is refused stay in.
-/

namespace SolanaWallet

namespace EditCommand

variable {m m' : Message} {command : EditCommand} {reason : Failure}

/-- Why a message refuses an edit that lets in at most one key. -/
inductive Refused (m : Message) : EditCommand → Failure → Prop
  | otherFlags {account : AccountMeta} (h : m.ListsOtherwise account) :
      Refused m (.pushAccount account) (.parameter (.flags account.address))
  | regionFull {account : AccountMeta} (hfresh : account.address ∉ m.keys)
      (hfull : ¬ m.header.HasRoom account.region) :
      Refused m (.pushAccount account) (.tooLarge .region)
  | readonlyFull {address : Address} (hfresh : address ∉ m.keys)
      (hfull : ¬ m.header.HasRoom .readonlyOthers) :
      Refused m (.pushReadonly address) (.tooLarge .readonlyCount)
  | payerListed {payer : Address} (h : payer ∈ m.keys) :
      Refused m (.setFeePayer payer) (.parameter (.feePayerListed payer))
  | signersFull {payer : Address} (hfresh : payer ∉ m.keys)
      (hfull : ¬ m.header.HasRoom .writableSigners) :
      Refused m (.setFeePayer payer) (.tooLarge .signers)
  /-- A setting that the message does not make yet needs its program. -/
  | price {price : UInt64} {reason : Failure} (hnew : m.pricePosition? = none)
      (h : Refused m (.pushReadonly Known.computeBudget) reason) :
      Refused m (.setUnitPrice price) reason
  | limit {units : UInt32} {reason : Failure} (hnew : m.limitPosition? = none)
      (h : Refused m (.pushReadonly Known.computeBudget) reason) :
      Refused m (.setUnitLimit units) reason

/-! ## Refused, and not refused -/

theorem pushReadonly_of_refused {address : Address} (hsmall : m.keys.length ≤ 255)
    (h : Refused m (.pushReadonly address) reason) :
    Edit.pushReadonly address m = .error reason m := by
  cases h with
  | readonlyFull hfresh hfull => exact Edit.pushReadonly_of_full hsmall hfresh hfull

/-- A refused edit fails, and nothing has changed. -/
theorem run_of_refused (hfits : m.header.Fits m.keys.length) (hsmall : m.keys.length ≤ 255)
    (h : Refused m command reason) : command.run m = .error reason m := by
  cases h with
  | otherFlags hflags => exact Edit.bind_of_error (Edit.pushAccount_of_listsOtherwise hflags)
  | regionFull hfresh hfull =>
    exact Edit.bind_of_error (Edit.pushAccount_of_full hfits hsmall hfresh hfull)
  | readonlyFull hfresh hfull =>
    exact Edit.bind_of_error (Edit.pushReadonly_of_full hsmall hfresh hfull)
  | payerListed hlisted => exact Edit.setFeePayer_of_listed hlisted
  | signersFull hfresh hfull => exact Edit.setFeePayer_of_full hfresh hfull
  | price hnew hprogram =>
    rw [run, Edit.setUnitPrice_of_none hnew]
    exact Edit.bind_of_error (pushReadonly_of_refused hsmall hprogram)
  | limit hnew hprogram =>
    rw [run, Edit.setUnitLimit_of_none hnew]
    exact Edit.bind_of_error (pushReadonly_of_refused hsmall hprogram)

theorem exists_pushReadonly_of_not_refused (hm : m.WellFormed)
    (hsmall : m.keys.length + m.loaded ≤ 255) {address : Address}
    (h : ∀ reason, ¬ Refused m (.pushReadonly address) reason) :
    ∃ index m', Edit.pushReadonly address m = .ok index m' := by
  refine Edit.exists_pushReadonly hm hsmall fun hfresh => ?_
  by_contra hfull
  exact h _ (.readonlyFull hfresh hfull)

theorem exists_insertSetting_of_not_refused (hm : m.WellFormed)
    (hsmall : m.keys.length + m.loaded ≤ 255)
    (h : ∀ reason, ¬ Refused m (.pushReadonly Known.computeBudget) reason) (position : Nat)
    (setting : ComputeBudget) : ∃ m', Edit.insertSetting position setting m = .ok () m' := by
  obtain ⟨index, mid, hpush⟩ := exists_pushReadonly_of_not_refused hm hsmall h
  exact ⟨_, Edit.bind_eq_ok_iff.mpr ⟨index, mid, hpush, rfl⟩⟩

/-- An edit that is not refused succeeds. -/
theorem exists_run_of_not_refused (hm : m.WellFormed) (hsmall : m.keys.length + m.loaded ≤ 255)
    (hcommand : ∀ position ix, command ≠ .insertInstruction position ix)
    (h : ∀ reason, ¬ Refused m command reason) : ∃ m', command.run m = .ok () m' := by
  cases command with
  | pushAccount account =>
    have hroom : account.address ∉ m.keys → m.header.HasRoom account.region := by
      intro hfresh
      by_contra hfull
      exact h _ (.regionFull hfresh hfull)
    obtain ⟨index, m', hpush⟩ :=
      Edit.exists_pushAccount hm hsmall (fun hother => h _ (.otherFlags hother)) hroom
    exact ⟨m', Edit.bind_eq_ok_iff.mpr ⟨index, m', hpush, rfl⟩⟩
  | pushReadonly address =>
    obtain ⟨index, m', hpush⟩ := exists_pushReadonly_of_not_refused hm hsmall h
    exact ⟨m', Edit.bind_eq_ok_iff.mpr ⟨index, m', hpush, rfl⟩⟩
  | insertInstruction position ix => exact absurd rfl (hcommand position ix)
  | setFeePayer payer =>
    have hfresh : payer ∉ m.keys := fun hlisted => h _ (.payerListed hlisted)
    have hroom : m.header.HasRoom .writableSigners := by
      by_contra hfull
      exact h _ (.signersFull hfresh hfull)
    have hmoves := Edit.indexRoom_of_wellFormed hm hsmall 0
    exact ⟨_, Edit.setFeePayer_eq_ok_iff.mpr ⟨hfresh, hroom, hmoves, rfl⟩⟩
  | setUnitPrice price =>
    cases hfound : m.pricePosition? with
    | some position => exact ⟨_, Edit.setUnitPrice_of_some hfound⟩
    | none =>
      rw [run, Edit.setUnitPrice_of_none hfound]
      exact exists_insertSetting_of_not_refused hm hsmall
        (fun reason hreason => h reason (.price hfound hreason)) _ _
  | setUnitLimit units =>
    cases hfound : m.limitPosition? with
    | some position => exact ⟨_, Edit.setUnitLimit_of_some hfound⟩
    | none =>
      rw [run, Edit.setUnitLimit_of_none hfound]
      exact exists_insertSetting_of_not_refused hm hsmall
        (fun reason hreason => h reason (.limit hfound hreason)) _ _

/-! ## Atomic edits -/

/-- **Edits are atomic.**  On a well-formed message with at most 255 accounts an
edit, other than the insertion of an instruction, succeeds or leaves the message
exactly as it was; it fails for the reasons for which it is refused and for no
others. -/
theorem atomic_of_run (hm : m.WellFormed) (hsmall : m.keys.length + m.loaded ≤ 255)
    (hcommand : ∀ position ix, command ≠ .insertInstruction position ix) :
    ((∃ m', command.run m = .ok () m') ∨ ∃ reason, command.run m = .error reason m) ∧
      ∀ reason m', command.run m = .error reason m' ↔ Refused m command reason ∧ m' = m := by
  have hfails : ∀ reason, Refused m command reason → command.run m = .error reason m :=
    fun _ => run_of_refused hm.1 (by omega)
  by_cases hrefused : ∃ reason, Refused m command reason
  · obtain ⟨reason, hreason⟩ := hrefused
    refine ⟨.inr ⟨reason, hfails reason hreason⟩, fun other m' => ⟨fun hrun => ?_, ?_⟩⟩
    · rw [hfails reason hreason] at hrun
      cases hrun
      exact ⟨hreason, rfl⟩
    · rintro ⟨hother, rfl⟩
      exact hfails other hother
  · obtain ⟨m', hrun⟩ := exists_run_of_not_refused hm hsmall hcommand (not_exists.mp hrefused)
    refine ⟨.inl ⟨m', hrun⟩, fun reason after => iff_of_false ?_ fun hparts => ?_⟩
    · rw [hrun]
      exact nofun
    · exact hrefused ⟨reason, hparts.1⟩

end EditCommand

/-- A message in which both counts of read-only signers are full. -/
def Message.sampleFull : Message where
  header := { required := 255, readonlySigners := 255, readonlyOthers := 0 }
  keys := (List.range 255).map fun n => .numbered (UInt8.ofNat n)
  blockhash := ⟨Block.fit 32 [9]⟩
  instructions := [{ program := 254, accounts := [0], data := [7] }]
  format := .legacy

theorem EditCommand.atomic_of_sampleFull :
    Message.sampleFull.WellFormed ∧
      Message.sampleFull.keys.length + Message.sampleFull.loaded ≤ 255 ∧
      Refused .sampleFull (.pushAccount (.readSigned (.numbered 255))) (.tooLarge .region) ∧
      (pushAccount (.readSigned (.numbered 255))).run .sampleFull =
        .error (.tooLarge .region) .sampleFull := by
  have hm : Message.sampleFull.WellFormed := by decide +kernel
  have hsmall : Message.sampleFull.keys.length + Message.sampleFull.loaded ≤ 255 := by
    decide +kernel
  have hcommand : ∀ position ix, pushAccount (.readSigned (.numbered 255)) ≠
      .insertInstruction position ix := fun _ _ => nofun
  have hrefused :
      Refused .sampleFull (.pushAccount (.readSigned (.numbered 255))) (.tooLarge .region) :=
    .regionFull (by decide +kernel) (fun hroom => hroom.1 rfl)
  exact ⟨hm, hsmall, hrefused, ((atomic_of_run hm hsmall hcommand).2 _ _).mpr ⟨hrefused, rfl⟩⟩

/-- A message with 256 accounts, the last of which an instruction uses. -/
def Message.sampleCrowded : Message :=
  { sample with
    instructions := [{ program := 3, accounts := [255], data := [7] }]
    format := .v0 [{ table := .numbered 5, writable := List.replicate 252 0, readonly := [] }] }

/-- With one account more the index of the last cannot move, and the new key is
counted although it is not in the table. -/
example :
    Message.sampleCrowded.WellFormed ∧
      (EditCommand.pushReadonly (.numbered 6)).run .sampleCrowded =
        .error (.tooLarge .shiftedIndex) { Message.sampleCrowded with
          header := { required := 2, readonlySigners := 1, readonlyOthers := 2 } } :=
  ⟨by decide +kernel, rfl⟩

end SolanaWallet
