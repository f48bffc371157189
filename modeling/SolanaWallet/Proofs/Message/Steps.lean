import SolanaWallet.Message.Edit
import SolanaWallet.Proofs.Message.Faithful

/-!
# What the instructions of a message do

Whoever receives a message tells what an instruction does from the program that
it calls and the data it passes, and from nothing else.  `Message.steps` is the
message read in this way: which nonce is advanced, which settings of the compute
budget are made, which memos are written, and which other calls there are.

The price, the limit and the leading nonce of a message are what its steps say
(`unitPrice?_eq_steps`, `unitLimit?_eq_steps`, `startsWithAdvanceNonce_eq_steps`),
and the steps of a compiled message are those of its instructions
(`steps_of_compile`).  So a reading of the instructions decides all of them.
-/

namespace SolanaWallet

/-- What an instruction does, as far as its program and its data tell. -/
inductive Step where
  /-- Advances the nonce in the first account under the authority of the third. -/
  | advanceNonce (account authority : Option Reference)
  /-- Makes a setting of the compute budget. -/
  | budget (setting : ComputeBudget)
  /-- Puts a text on the ledger. -/
  | memo (text : List UInt8)
  /-- Calls a program with data that starts with a number. -/
  | call (program : Reference) (number : Option UInt8)
deriving DecidableEq

namespace Step

/-- The setting that is made, if one is. -/
def setting? : Step → Option ComputeBudget
  | .budget setting => some setting
  | _ => none

/-- Whether a nonce is advanced. -/
def isAdvanceNonce : Step → Bool
  | .advanceNonce _ _ => true
  | _ => false

theorem setting?_eq_some_iff {step : Step} {setting : ComputeBudget} :
    step.setting? = some setting ↔ step = .budget setting := by
  cases step <;> simp [setting?]

/-- Neither makes a setting nor advances a nonce. -/
def IsPlain (step : Step) : Prop := step.setting? = none ∧ step.isAdvanceNonce = false

@[simp] theorem isPlain_memo (text : List UInt8) : (memo text).IsPlain := ⟨rfl, rfl⟩

@[simp] theorem isPlain_call (program : Reference) (number : Option UInt8) :
    (call program number).IsPlain := ⟨rfl, rfl⟩

end Step

/-- The reading of an instruction. -/
def ResolvedInstruction.step (ix : ResolvedInstruction) : Step :=
  if ix.program = .key Known.system ∧ ix.data = [4, 0, 0, 0] then
    .advanceNonce ix.accounts[0]? ix.accounts[2]?
  else if ix.program = .key Known.memo then .memo ix.data
  else if ix.program = .key Known.computeBudget then
    match ComputeBudget.ofData? ix.data with
    | some setting => .budget setting
    | none => .call ix.program ix.data.head?
  else .call ix.program ix.data.head?

/-- The reading of an instruction that is not compiled yet. -/
def Instruction.step (ix : Instruction) : Step := ix.resolved.step

/-- The reading of a message. -/
def Message.steps (m : Message) : List Step := m.view.map ResolvedInstruction.step

/-! ## Readings of one instruction -/

namespace ResolvedInstruction

theorem setting?_step (ix : ResolvedInstruction) :
    ix.step.setting? =
      if ix.program = .key Known.computeBudget then ComputeBudget.ofData? ix.data else none := by
  unfold step
  by_cases hbudget : ix.program = .key Known.computeBudget
  · have hsystem : ix.program ≠ .key Known.system := hbudget ▸ by decide
    have hmemo : ix.program ≠ .key Known.memo := hbudget ▸ by decide
    rw [if_neg fun h => hsystem h.1, if_neg hmemo, if_pos hbudget, if_pos hbudget]
    cases ComputeBudget.ofData? ix.data <;> rfl
  · rw [if_neg hbudget, if_neg hbudget]
    split
    · rfl
    · split <;> rfl

theorem isAdvanceNonce_step (ix : ResolvedInstruction) :
    ix.step.isAdvanceNonce = decide (ix.program = .key Known.system ∧ ix.data = [4, 0, 0, 0]) := by
  unfold step
  by_cases hnonce : ix.program = .key Known.system ∧ ix.data = [4, 0, 0, 0]
  · rw [if_pos hnonce, decide_eq_true hnonce]
    rfl
  · rw [if_neg hnonce, decide_eq_false hnonce]
    split
    · rfl
    · split
      · cases ComputeBudget.ofData? ix.data <;> rfl
      · rfl

end ResolvedInstruction

/-- Only three programs are known by more than the number of the instruction. -/
theorem Instruction.step_eq_call {ix : Instruction} {program : Address}
    (hprogram : ix.program = program) (hnonce : program ≠ Known.system ∨ ix.data ≠ [4, 0, 0, 0])
    (hother : program ≠ Known.memo ∧ program ≠ Known.computeBudget) :
    ix.step = .call (.key program) ix.data.head? := by
  subst hprogram
  have hnotnonce :
      ¬(ix.resolved.program = .key Known.system ∧ ix.resolved.data = [4, 0, 0, 0]) := by
    rintro ⟨hsystem, hdata⟩
    rcases hnonce with hprogram | hother
    · exact hprogram (Reference.key.inj hsystem)
    · exact hother hdata
  have hnotmemo : ix.resolved.program ≠ .key Known.memo :=
    fun h => hother.1 (Reference.key.inj h)
  have hnotbudget : ix.resolved.program ≠ .key Known.computeBudget :=
    fun h => hother.2 (Reference.key.inj h)
  rw [step, ResolvedInstruction.step, if_neg hnotnonce, if_neg hnotmemo, if_neg hnotbudget]
  rfl

/-! ## What is read off a message -/

namespace Message

variable {m : Message} {instructions : List Instruction} {payer : Option Address}
  {blockhash : Blockhash} {v0 : Bool}

theorem settingOf?_eq (m : Message) (ix : CompiledInstruction) :
    m.settingOf? ix = (m.resolved ix).step.setting? := by
  rw [settingOf?, ResolvedInstruction.setting?_step]
  exact if_congr resolve_eq_key_iff.symm rfl rfl

theorem unitPrice?_eq_steps (m : Message) :
    m.unitPrice? = m.steps.findSome? fun step => step.setting? >>= ComputeBudget.price? := by
  simp only [unitPrice?, settingOf?_eq, steps, view, List.findSome?_map, Function.comp_def]

theorem unitLimit?_eq_steps (m : Message) :
    m.unitLimit? = m.steps.findSome? fun step => step.setting? >>= ComputeBudget.limit? := by
  simp only [unitLimit?, settingOf?_eq, steps, view, List.findSome?_map, Function.comp_def]

theorem startsWithAdvanceNonce_eq_steps (m : Message) :
    m.startsWithAdvanceNonce = m.steps.head?.any Step.isAdvanceNonce := by
  unfold startsWithAdvanceNonce steps view
  cases m.instructions with
  | nil => rfl
  | cons first rest =>
    have hprogram : m.programOf? first = some Known.system ↔
        (m.resolved first).program = .key Known.system := resolve_eq_key_iff.symm
    have hdata : SystemProgram.isAdvanceNonce first.data = true ↔
        (m.resolved first).data = [4, 0, 0, 0] := beq_iff_eq
    have hfirst := ResolvedInstruction.isAdvanceNonce_step (m.resolved first)
    rw [List.map_cons, List.map_cons, List.head?_cons, Option.any_some, hfirst, Bool.eq_iff_iff,
      Bool.and_eq_true, beq_iff_eq, hprogram, hdata, decide_eq_true_iff]

theorem steps_of_compile (h : compile instructions payer blockhash v0 = .ok m) :
    m.steps = instructions.map Instruction.step := by
  rw [steps, view_of_compile h, List.map_map]
  rfl

end Message

end SolanaWallet
