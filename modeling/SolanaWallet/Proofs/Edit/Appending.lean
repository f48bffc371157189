import Mathlib.Data.List.InsertIdx
import SolanaWallet.Proofs.Edit.Refusal

/-!
# Two ways to append a key

A program and an account that is only read and does not sign stand in the same
region of the key table, but they are let in by two edits.  One appends a key,
the other puts it at the end of its region, and each has its own words for a
limit that is passed.

On an address that is not in the table they are one program, `appendReadonly`,
with these words as its arguments: `pushReadonly_of_fresh` and
`pushAccount_read_of_fresh`.  Nothing is asked of the message, so its header
need not fit the table, and its indices may lead nowhere.  What a run leaves
apart from the words is its `outcome`, and a step of a longer run can be
exchanged for one with the same outcome (`outcome_bind_congr`).
-/

namespace SolanaWallet

/-! ## Outcomes -/

/-- The reason, unless it is that a limit is passed, for which there are many
words. -/
def Failure.unlessLimit : Failure → Option Failure
  | .tooLarge _ => none
  | reason => some reason

namespace Edit

variable {α β : Type} {m m' mid : Message} {address : Address}

/-- The result of a run or why it has none, and the message it leaves.  The
words for a limit that is passed are left out. -/
def outcome (run : Edit α) (m : Message) : Except (Option Failure) α × Message :=
  match run m with
  | .ok result m' => (.ok result, m')
  | .error reason m' => (.error reason.unlessLimit, m')

section Outcome

variable {run run' : Edit α} {result : α} {reason : Failure}

theorem outcome_of_ok (h : run m = .ok result m') : run.outcome m = (.ok result, m') := by
  rw [outcome, h]

theorem outcome_of_error (h : run m = .error reason m') :
    run.outcome m = (.error reason.unlessLimit, m') := by
  rw [outcome, h]

theorem outcome_congr (h : run m = run' mid) : run.outcome m = run'.outcome mid := by
  rw [outcome, outcome, h]

theorem eq_ok_of_outcome (h : run.outcome m = (.ok result, m')) : run m = .ok result m' := by
  unfold outcome at h
  cases hrun : run m with
  | ok a mid =>
    simp only [hrun, Prod.mk.injEq, Except.ok.injEq] at h
    rw [h.1, h.2]
  | error reason mid => simp [hrun] at h

theorem eq_error_of_outcome {cause : Option Failure} (h : run.outcome m = (.error cause, m')) :
    ∃ reason, run m = .error reason m' ∧ reason.unlessLimit = cause := by
  unfold outcome at h
  cases hrun : run m with
  | ok a mid => simp [hrun] at h
  | error reason mid =>
    simp only [hrun, Prod.mk.injEq, Except.error.injEq] at h
    exact ⟨reason, by rw [h.2], h.1⟩

/-- A step can be exchanged for one with the same outcome. -/
theorem outcome_bind_congr {first first' : Edit α} {next next' : α → Edit β}
    (hfirst : first.outcome m = first'.outcome m)
    (hnext : ∀ a mid, first m = .ok a mid → (next a).outcome mid = (next' a).outcome mid) :
    (first >>= next).outcome m = (first' >>= next').outcome m := by
  cases hrun : first m with
  | ok a mid =>
    rw [outcome_of_ok hrun] at hfirst
    have hrun' : first' m = .ok a mid := eq_ok_of_outcome hfirst.symm
    calc (first >>= next).outcome m = (next a).outcome mid := outcome_congr (bind_of_ok hrun)
      _ = (next' a).outcome mid := hnext a mid hrun
      _ = (first' >>= next').outcome m := (outcome_congr (bind_of_ok hrun')).symm
  | error reason mid =>
    rw [outcome_of_error hrun] at hfirst
    obtain ⟨reason', hrun', hcause⟩ := eq_error_of_outcome hfirst.symm
    calc (first >>= next).outcome m = (.error reason.unlessLimit, mid) :=
          outcome_of_error (bind_of_error hrun)
      _ = (.error reason'.unlessLimit, mid) := by rw [hcause]
      _ = (first' >>= next').outcome m := (outcome_of_error (bind_of_error hrun')).symm

end Outcome

/-! ## One program with two wordings -/

/-- Appends a key to those that are only read and do not sign. -/
def appendReadonly (tableFault countFault : SizeFault) (address : Address) : Edit UInt8 := do
  let index := (← get).keys.length
  if index < 256 then
    raiseReadonlyOthers countFault
    shift (UInt8.ofNat index)
    modify fun m => { m with keys := m.keys ++ [address] }
    return UInt8.ofNat index
  else fail (.tooLarge tableFault)

theorem pushReadonly_of_fresh (hfresh : address ∉ m.keys) :
    pushReadonly address m = appendReadonly .tableFull .readonlyCount address m := by
  rw [pushReadonly, List.idxOf?_eq_none_iff.mpr hfresh, appendReadonly, get_bind]
  by_cases hlength : m.keys.length < 256
  · simp only [if_pos hlength]
  · simp only [if_neg hlength]
    rfl

theorem pushAccount_read_of_fresh (hfresh : address ∉ m.keys) :
    pushAccount (.read address) m = appendReadonly (.index m.keys.length) .region address m := by
  have hnew : pushAccount (.read address) m = newAccount (.read address) m := by
    simp only [pushAccount, AccountMeta.read, List.idxOf?_eq_none_iff.mpr hfresh]
  have hend : m.regionEnd (AccountMeta.read address).region = m.keys.length := rfl
  rw [hnew, newAccount, appendReadonly, get_bind, get_bind, hend]
  by_cases hlength : m.keys.length < 256
  · have hplace : byteIndex m.keys.length = .ok (UInt8.ofNat m.keys.length) := if_pos hlength
    simp only [hplace, if_pos hlength]
    refine (bind_of_ok rfl).trans ?_
    refine bind_congr_of_ok fun _ counted hcounted => bind_congr_of_ok fun _ moved hmoved => ?_
    -- counting and moving leave the table as it was
    obtain ⟨-, rfl⟩ := raiseReadonlyOthers_eq_ok_iff.mp hcounted
    obtain ⟨-, rfl⟩ := shift_eq_ok_iff.mp hmoved
    have hindex : (UInt8.ofNat m.keys.length).toNat = m.keys.length :=
      UInt8.toNat_ofNat_of_lt' hlength
    show EStateM.Result.ok _ _ = EStateM.Result.ok _ _
    simp only [hindex, List.insertIdx_length_self, AccountMeta.read]
  · have hplace : byteIndex m.keys.length = .error (.tooLarge (.index m.keys.length)) :=
      if_neg hlength
    simp only [hplace, if_neg hlength]
    exact bind_of_error rfl

theorem outcome_raiseReadonlyOthers (fault fault' : SizeFault) :
    (raiseReadonlyOthers fault).outcome m = (raiseReadonlyOthers fault').outcome m := by
  by_cases hroom : m.header.HasRoom .readonlyOthers
  · have hcounts : ∀ fault, (raiseReadonlyOthers fault).outcome m =
        (.ok (), { m with header := m.header.grow .readonlyOthers }) := fun fault =>
      outcome_of_ok (raiseReadonlyOthers_eq_ok_iff.mpr ⟨hroom, rfl⟩)
    rw [hcounts, hcounts]
  · have hfull : ∀ fault, (raiseReadonlyOthers fault).outcome m = (.error none, m) := fun fault =>
      outcome_of_error (raiseReadonlyOthers_of_full hroom)
    rw [hfull, hfull]

/-- The words for a limit make no other difference. -/
theorem outcome_appendReadonly (tableFault countFault tableFault' countFault' : SizeFault) :
    (appendReadonly tableFault countFault address).outcome m =
      (appendReadonly tableFault' countFault' address).outcome m := by
  refine outcome_bind_congr rfl fun start _ _ => ?_
  by_cases hlength : start.keys.length < 256
  · simp only [if_pos hlength]
    exact outcome_bind_congr (outcome_raiseReadonlyOthers _ _) fun _ _ _ => rfl
  · simp only [if_neg hlength]
    rfl

/-! ## Keys that are not let in -/

theorem not_mem_keys_of_pushAccount {account : AccountMeta} {index : UInt8}
    (h : pushAccount account m = .ok index m') (hother : account.address ≠ address)
    (hfresh : address ∉ m.keys) : address ∉ m'.keys := by
  rcases pushAccount_eq_ok_iff.mp h with ⟨-, -, -, rfl⟩ | ⟨-, -, -, -, rfl⟩
  · exact hfresh
  · intro hmem
    rcases List.eq_or_mem_of_mem_insertIdx hmem with heq | hmem
    · exact hother heq.symm
    · exact hfresh hmem

theorem not_mem_keys_of_pushAccounts {accounts : List AccountMeta} {indices : List UInt8}
    (h : pushAccounts accounts m = .ok indices m')
    (hother : ∀ account ∈ accounts, account.address ≠ address) (hfresh : address ∉ m.keys) :
    address ∉ m'.keys := by
  induction accounts generalizing m indices with
  | nil =>
    obtain ⟨-, rfl⟩ := pure_eq_ok_iff.mp h
    exact hfresh
  | cons account rest ih =>
    obtain ⟨first, mid, others, hfirst, hothers, -⟩ := pushAccounts_cons_eq_ok_iff.mp h
    rw [List.forall_mem_cons] at hother
    exact ih hothers hother.2 (not_mem_keys_of_pushAccount hfirst hother.1 hfresh)

/-! ## Both ways have the same outcome -/

theorem outcome_pushReadonly (hfresh : address ∉ m.keys) :
    (pushReadonly address).outcome m = (pushAccount (.read address)).outcome m := by
  calc (pushReadonly address).outcome m
      = (appendReadonly .tableFull .readonlyCount address).outcome m :=
        outcome_congr (pushReadonly_of_fresh hfresh)
    _ = (appendReadonly (.index m.keys.length) .region address).outcome m :=
        outcome_appendReadonly _ _ _ _
    _ = (pushAccount (.read address)).outcome m :=
        (outcome_congr (pushAccount_read_of_fresh hfresh)).symm

theorem outcome_insertSetting (hfresh : Known.computeBudget ∉ m.keys) (position : Nat)
    (setting : ComputeBudget) :
    (insertSetting position setting).outcome m = outcome (do
      let program ← pushAccount (.read Known.computeBudget)
      insertCompiled position { program, accounts := [], data := setting.data }) m :=
  outcome_bind_congr (outcome_pushReadonly hfresh) fun _ _ _ => rfl

theorem outcome_insertInstruction {position : Nat} {ix : Instruction}
    (hposition : position ≤ m.instructions.length) (hfresh : ix.program ∉ m.keys)
    (hother : ∀ account ∈ ix.accounts, account.address ≠ ix.program) :
    (insertInstruction position ix).outcome m = outcome (do
      let accounts ← pushAccounts ix.accounts
      let program ← pushAccount (.read ix.program)
      insertCompiled position { program, accounts, data := ix.data }) m := by
  have hsteps : insertInstruction position ix m = (do
      let accounts ← pushAccounts ix.accounts
      let program ← pushReadonly ix.program
      insertCompiled position { program, accounts, data := ix.data } : Edit Unit) m := by
    rw [insertInstruction, get_bind, if_neg (Nat.not_lt.mpr hposition)]
  rw [outcome_congr hsteps]
  refine outcome_bind_congr rfl fun accounts listed haccounts => ?_
  have hfresh' : ix.program ∉ listed.keys := not_mem_keys_of_pushAccounts haccounts hother hfresh
  exact outcome_bind_congr (outcome_pushReadonly hfresh') fun _ _ _ => rfl

end Edit

/-- One way can be taken for the other anywhere in a run of edits. -/
theorem EditCommand.outcome_runAll {m : Message} {address : Address} (before after : List EditCommand)
    (hfresh : ∀ mid, runAll before m = .ok () mid → address ∉ mid.keys) :
    (runAll (before ++ .pushReadonly address :: after)).outcome m =
      (runAll (before ++ .pushAccount (.read address) :: after)).outcome m := by
  induction before generalizing m with
  | nil =>
    have hstep : (EditCommand.pushReadonly address).run.outcome m =
        (EditCommand.pushAccount (.read address)).run.outcome m :=
      Edit.outcome_bind_congr (Edit.outcome_pushReadonly (hfresh m rfl)) fun _ _ _ => rfl
    exact Edit.outcome_bind_congr hstep fun _ _ _ => rfl
  | cons command rest ih =>
    refine Edit.outcome_bind_congr rfl fun _ mid hcommand => ih fun last hrest => hfresh last ?_
    exact Edit.bind_eq_ok_iff.mpr ⟨(), mid, hcommand, hrest⟩

namespace Edit

variable {m : Message} {address : Address}

/-- **A program and a plain read-only account build the same table.**  An
address that is not in the table yet is let in by either edit with the same
outcome: the same index and message, or a failure at a limit that leaves the
same changes behind.  The message need not be well-formed.  So it makes no
difference which of them lets in the program of an inserted instruction or of a
setting, or stands in a run of edits. -/
theorem alike_of_fresh (hfresh : address ∉ m.keys) :
    (pushReadonly address).outcome m = (pushAccount (.read address)).outcome m ∧
    (∀ position ix, position ≤ m.instructions.length → ix.program = address →
      (∀ account ∈ ix.accounts, account.address ≠ address) →
      (insertInstruction position ix).outcome m = outcome (do
        let accounts ← pushAccounts ix.accounts
        let program ← pushAccount (.read address)
        insertCompiled position { program, accounts, data := ix.data }) m) ∧
    (∀ position setting, Known.computeBudget = address →
      (insertSetting position setting).outcome m = outcome (do
        let program ← pushAccount (.read address)
        insertCompiled position { program, accounts := [], data := setting.data }) m) ∧
    ∀ before after, (∀ mid, EditCommand.runAll before m = .ok () mid → address ∉ mid.keys) →
      (EditCommand.runAll (before ++ .pushReadonly address :: after)).outcome m =
        (EditCommand.runAll (before ++ .pushAccount (.read address) :: after)).outcome m := by
  refine ⟨outcome_pushReadonly hfresh, ?_, ?_, EditCommand.outcome_runAll⟩
  · rintro position ix hposition rfl hother
    exact outcome_insertInstruction hposition hfresh hother
  · rintro position setting rfl
    exact outcome_insertSetting hfresh position setting

/-- With an index that cannot move, both ways leave the new key counted but not
in the table. -/
theorem alike_of_sampleCrowded :
    Address.numbered 6 ∉ Message.sampleCrowded.keys ∧
      (pushReadonly (.numbered 6)).outcome .sampleCrowded =
        (pushAccount (.read (.numbered 6))).outcome .sampleCrowded ∧
      (pushAccount (.read (.numbered 6))).outcome .sampleCrowded =
        (.error none, { Message.sampleCrowded with
          header := { required := 2, readonlySigners := 1, readonlyOthers := 2 } }) := by
  have hfresh : Address.numbered 6 ∉ Message.sampleCrowded.keys := by decide +kernel
  exact ⟨hfresh, (alike_of_fresh hfresh).1, rfl⟩

end Edit

end SolanaWallet
