import Mathlib.Logic.Relation
import SolanaWallet.Proofs.Edit.Accounts

/-!
# Edits as commands

The six edits of a message, with their arguments, are the commands of one
small language; `EditCommand.runAll` carries out a list of them and stops at
the first that fails.

What a command does is said once, in `EditCommand.Effect`: it lets keys in at
the end of their regions, and then perhaps puts in one instruction, or it
overwrites the data of one instruction, or it puts a fee payer in front.
`effect_of_run_eq_ok` says that a successful command has such an effect.
Every fact about edits that follows is a fact about these four cases.

`grows_of_insertInstruction_eq_error` adds what is left by an insertion of an
instruction that fails part way.
-/

namespace SolanaWallet

/-! ## Commands -/

/-- An edit of a message with its arguments. -/
inductive EditCommand where
  | pushAccount (account : AccountMeta)
  | pushReadonly (address : Address)
  | insertInstruction (position : Nat) (ix : Instruction)
  | setFeePayer (payer : Address)
  | setUnitPrice (price : UInt64)
  | setUnitLimit (units : UInt32)
deriving DecidableEq

namespace EditCommand

/-- Carries out a command; the place of an account is not needed here. -/
def run : EditCommand → Edit Unit
  | .pushAccount account => do
    let _ ← Edit.pushAccount account
    return ()
  | .pushReadonly address => do
    let _ ← Edit.pushReadonly address
    return ()
  | .insertInstruction position ix => Edit.insertInstruction position ix
  | .setFeePayer payer => Edit.setFeePayer payer
  | .setUnitPrice price => Edit.setUnitPrice price
  | .setUnitLimit units => Edit.setUnitLimit units

/-- Carries out commands in turn, up to the first that fails. -/
def runAll : List EditCommand → Edit Unit
  | [] => pure ()
  | command :: rest => do
    command.run
    runAll rest

/-- The message after a run in which every command succeeds. -/
def result? (commands : List EditCommand) (m : Message) : Option Message :=
  match runAll commands m with
  | .ok () m' => some m'
  | .error _ _ => none

theorem result?_eq_some_iff {commands : List EditCommand} {m m' : Message} :
    result? commands m = some m' ↔ runAll commands m = .ok () m' := by
  unfold result?
  cases runAll commands m with
  | ok result m'' => simp
  | error reason m'' => simp

end EditCommand

/-- The first instruction that sets the price of a compute unit. -/
def Message.pricePosition? (m : Message) : Option Nat :=
  m.instructions.findIdx? fun ix => (m.settingOf? ix >>= ComputeBudget.price?).isSome

/-- The first instruction that sets the limit of compute units. -/
def Message.limitPosition? (m : Message) : Option Nat :=
  m.instructions.findIdx? fun ix => (m.settingOf? ix >>= ComputeBudget.limit?).isSome

/-- The instruction whose data a command replaces, and its new data. -/
def EditCommand.overwrites? (command : EditCommand) (m : Message) : Option (Nat × List UInt8) :=
  match command with
  | .setUnitPrice price => m.pricePosition?.map (·, (ComputeBudget.unitPrice price).data)
  | .setUnitLimit units => m.limitPosition?.map (·, (ComputeBudget.unitLimit units).data)
  | _ => none

/-! ## Effects -/

namespace Message

/-- `m'` is `m` with a new key at the end of its region. -/
def AppendsKey (m m' : Message) : Prop :=
  ∃ region place address, m.GainsKey region place address m' ∧ m.regionEnd region = place.toNat

/-- `m'` is `m` with any number of new keys, each at the end of its region. -/
def Grows : Message → Message → Prop := Relation.ReflTransGen AppendsKey

/-- The message with an instruction at `position`. -/
def withInstruction (m : Message) (position : Nat) (ix : CompiledInstruction) : Message :=
  { m with instructions := m.instructions.insertIdx position ix }

/-- The message with other data in the instruction at `position`. -/
def withData (m : Message) (position : Nat) (data : List UInt8) : Message :=
  { m with instructions := m.instructions.modify position fun ix => { ix with data } }

/-- How many accounts instructions can refer to. -/
def accountCount (m : Message) : Nat := m.keys.length + m.loaded

end Message

/-- `m'` is what a successful command can make of `m`. -/
inductive EditCommand.Effect (m : Message) : EditCommand → Message → Prop
  | grow {command : EditCommand} {m' : Message} (hkeeps : command.overwrites? m = none)
      (hgrows : m.Grows m') : Effect m command m'
  | insert {command : EditCommand} {m' : Message} (hkeeps : command.overwrites? m = none)
      (hgrows : m.Grows m') (position : Nat) (ix : CompiledInstruction)
      (hposition : position ≤ m'.instructions.length) (hrange : ix.InRange m'.accountCount) :
      Effect m command (m'.withInstruction position ix)
  | overwrite {command : EditCommand} (position : Nat) (data : List UInt8)
      (hoverwrites : command.overwrites? m = some (position, data)) :
      Effect m command (m.withData position data)
  | pay (payer : Address) {m' : Message} (hgains : m.GainsKey .writableSigners 0 payer m') :
      Effect m (.setFeePayer payer) m'

/-! ## Growing messages -/

namespace Message

variable {m m' : Message}

theorem AppendsKey.wellFormed (h : m.AppendsKey m') (hm : m.WellFormed) : m'.WellFormed := by
  obtain ⟨region, place, address, hgains, -⟩ := h
  exact hgains.wellFormed hm

namespace Grows

variable {m'' : Message}

theorem trans (h : m.Grows m') (h' : m'.Grows m'') : m.Grows m'' := Relation.ReflTransGen.trans h h'

theorem wellFormed (h : m.Grows m') (hm : m.WellFormed) : m'.WellFormed := by
  induction h with
  | refl => exact hm
  | tail _ hstep ih => exact hstep.wellFormed ih

theorem format_eq (h : m.Grows m') : m'.format = m.format := by
  induction h with
  | refl => rfl
  | tail _ hstep ih =>
    obtain ⟨region, place, address, hgains, -⟩ := hstep
    rw [hgains.format_eq, ih]

theorem loaded_eq (h : m.Grows m') : m'.loaded = m.loaded := by
  rw [loaded, h.format_eq, loaded]

theorem length_keys_le (h : m.Grows m') (hm : m.WellFormed) :
    m.keys.length ≤ m'.keys.length := by
  induction h with
  | refl => exact Nat.le_refl _
  | tail hgrows hstep ih =>
    obtain ⟨region, place, address, hgains, -⟩ := hstep
    rw [hgains.length_keys (Grows.wellFormed hgrows hm).1]
    exact Nat.le_succ_of_le ih

theorem length_instructions (h : m.Grows m') : m'.instructions.length = m.instructions.length := by
  induction h with
  | refl => rfl
  | tail _ hstep ih =>
    obtain ⟨region, place, address, hgains, -⟩ := hstep
    rw [hgains.eq_withKey, ← ih]
    exact List.length_map _

end Grows

end Message

/-! ## What the account edits do -/

namespace Edit

variable {m m' : Message} {reason : Failure}

theorem grows_of_pushAccount {account : AccountMeta} {index : UInt8} (hm : m.WellFormed)
    (h : pushAccount account m = .ok index m') :
    m.Grows m' ∧ m'.keys.length ≤ m.keys.length + 1 ∧ index.toNat < m'.keys.length := by
  have hindex := (List.idxOf?_eq_some_iff.mp (idxOf?_of_pushAccount hm.1 h)).1
  rcases gainsKey_of_pushAccount hm.1 h with ⟨-, rfl⟩ | ⟨hgains, hend⟩
  · exact ⟨.refl, Nat.le_succ _, hindex⟩
  · exact ⟨.single ⟨_, _, _, hgains, hend⟩, Nat.le_of_eq (hgains.length_keys hm.1), hindex⟩

theorem grows_of_pushReadonly {address : Address} {index : UInt8}
    (h : pushReadonly address m = .ok index m') :
    m.Grows m' ∧ index.toNat < m'.keys.length := by
  have hindex := (List.idxOf?_eq_some_iff.mp (idxOf?_of_pushReadonly h)).1
  rcases gainsKey_of_pushReadonly h with ⟨-, rfl⟩ | ⟨hgains, hend⟩
  · exact ⟨.refl, hindex⟩
  · exact ⟨.single ⟨_, _, _, hgains, hend⟩, hindex⟩

theorem pushAccounts_cons_eq_ok_iff {account : AccountMeta} {rest : List AccountMeta}
    {indices : List UInt8} :
    pushAccounts (account :: rest) m = .ok indices m' ↔
      ∃ first mid others, pushAccount account m = .ok first mid ∧
        pushAccounts rest mid = .ok others m' ∧ indices = first :: others := by
  constructor
  · intro h
    obtain ⟨first, mid, hfirst, h⟩ := bind_eq_ok_iff.mp h
    obtain ⟨others, _, hothers, h⟩ := bind_eq_ok_iff.mp h
    obtain ⟨rfl, rfl⟩ := pure_eq_ok_iff.mp h
    exact ⟨first, mid, others, hfirst, hothers, rfl⟩
  · intro hparts
    obtain ⟨first, mid, others, hfirst, hothers, rfl⟩ := hparts
    exact bind_eq_ok_iff.mpr ⟨first, mid, hfirst,
      bind_eq_ok_iff.mpr ⟨others, m', hothers, rfl⟩⟩

/-- The indices that were collected stay in range while the table grows. -/
theorem grows_of_pushAccounts {accounts : List AccountMeta} {indices : List UInt8}
    (hm : m.WellFormed) (h : pushAccounts accounts m = .ok indices m') :
    m.Grows m' ∧ m'.keys.length ≤ m.keys.length + accounts.length ∧
      ∀ index ∈ indices, index.toNat < m'.keys.length := by
  induction accounts generalizing m indices with
  | nil =>
    obtain ⟨rfl, rfl⟩ := pure_eq_ok_iff.mp h
    exact ⟨.refl, Nat.le_refl _, by simp⟩
  | cons account rest ih =>
    obtain ⟨first, mid, others, hfirst, hothers, rfl⟩ := pushAccounts_cons_eq_ok_iff.mp h
    obtain ⟨hgrows, hlength, hindex⟩ := grows_of_pushAccount hm hfirst
    have hmid := hgrows.wellFormed hm
    obtain ⟨hgrows', hlength', hindices⟩ := ih hmid hothers
    refine ⟨hgrows.trans hgrows', ?_, ?_⟩
    · rw [List.length_cons]
      omega
    · rw [List.forall_mem_cons]
      exact ⟨Nat.lt_of_lt_of_le hindex (hgrows'.length_keys_le hmid), hindices⟩

/-- With few accounts, what a failed run leaves has only grown. -/
theorem grows_of_pushAccounts_eq_error {accounts : List AccountMeta} (hm : m.WellFormed)
    (hsmall : m.accountCount + accounts.length ≤ 255)
    (h : pushAccounts accounts m = .error reason m') : m.Grows m' := by
  induction accounts generalizing m with
  | nil => cases h
  | cons account rest ih =>
    unfold Message.accountCount at hsmall
    rw [List.length_cons] at hsmall
    rcases bind_eq_error_iff.mp h with h | ⟨first, mid, hfirst, h⟩
    · rw [eq_of_pushAccount_eq_error hm (by omega) h]
      exact .refl
    -- every account in front uses up at most one place
    obtain ⟨hgrows, hlength, -⟩ := grows_of_pushAccount hm hfirst
    have hmid := hgrows.wellFormed hm
    have hloaded := hgrows.loaded_eq
    rcases bind_eq_error_iff.mp h with h | ⟨others, _, -, h⟩
    · exact hgrows.trans (ih hmid (by unfold Message.accountCount; omega) h)
    · cases h

end Edit

/-! ## What the commands do -/

theorem Message.instructions_pos_of_startsWithAdvanceNonce {m : Message}
    (h : m.startsWithAdvanceNonce = true) : 0 < m.instructions.length := by
  unfold startsWithAdvanceNonce at h
  split at h
  · cases h
  · rename_i heq
    rw [heq, List.length_cons]
    exact Nat.succ_pos _

namespace Edit

variable {m m' : Message} {reason : Failure}

theorem insertInstruction_eq_ok_iff {position : Nat} {ix : Instruction} :
    insertInstruction position ix m = .ok () m' ↔
      position ≤ m.instructions.length ∧
        ∃ accounts listed program complete, pushAccounts ix.accounts m = .ok accounts listed ∧
          pushReadonly ix.program listed = .ok program complete ∧
          m' = complete.withInstruction position { program, accounts, data := ix.data } := by
  rw [insertInstruction, get_bind]
  split
  · rename_i hposition
    refine iff_of_false (fun h => ?_) (fun hparts => absurd hparts.1 (Nat.not_le_of_lt hposition))
    cases h
  · rename_i hposition
    rw [and_iff_right (Nat.le_of_not_lt hposition)]
    constructor
    · intro h
      obtain ⟨accounts, listed, haccounts, h⟩ := bind_eq_ok_iff.mp h
      obtain ⟨program, complete, hprogram, h⟩ := bind_eq_ok_iff.mp h
      cases h
      exact ⟨accounts, listed, program, complete, haccounts, hprogram, rfl⟩
    · intro hparts
      obtain ⟨accounts, listed, program, complete, haccounts, hprogram, rfl⟩ := hparts
      exact bind_eq_ok_iff.mpr ⟨accounts, listed, haccounts,
        bind_eq_ok_iff.mpr ⟨program, complete, hprogram, rfl⟩⟩

theorem insertInstruction_eq_ok {position : Nat} {ix : Instruction} (hm : m.WellFormed)
    (h : insertInstruction position ix m = .ok () m') :
    ∃ mid program accounts, m.Grows mid ∧ position ≤ mid.instructions.length ∧
      (∀ index ∈ program :: accounts, index.toNat < mid.keys.length) ∧
      m' = mid.withInstruction position { program, accounts, data := ix.data } := by
  obtain ⟨hposition, accounts, listed, program, complete, haccounts, hprogram, rfl⟩ :=
    insertInstruction_eq_ok_iff.mp h
  obtain ⟨hgrows, -, hindices⟩ := grows_of_pushAccounts hm haccounts
  have hlisted := hgrows.wellFormed hm
  obtain ⟨hgrows', hindex⟩ := grows_of_pushReadonly hprogram
  refine ⟨complete, program, accounts, hgrows.trans hgrows', ?_, ?_, rfl⟩
  · rwa [(hgrows.trans hgrows').length_instructions]
  · rw [List.forall_mem_cons]
    exact ⟨hindex, fun index hmem =>
      Nat.lt_of_lt_of_le (hindices index hmem) (hgrows'.length_keys_le hlisted)⟩

theorem insertSetting_eq_ok {position : Nat} {setting : ComputeBudget}
    (h : insertSetting position setting m = .ok () m') :
    ∃ mid program, m.Grows mid ∧ program.toNat < mid.keys.length ∧
      m' = mid.withInstruction position { program, accounts := [], data := setting.data } := by
  obtain ⟨program, mid, hprogram, h⟩ := bind_eq_ok_iff.mp h
  cases h
  obtain ⟨hgrows, hindex⟩ := grows_of_pushReadonly hprogram
  exact ⟨mid, program, hgrows, hindex, rfl⟩

/-! The two settings: in the instruction that makes it already, or in a new one. -/

theorem setUnitPrice_of_some {price : UInt64} {position : Nat}
    (h : m.pricePosition? = some position) :
    setUnitPrice price m = setData position (ComputeBudget.unitPrice price).data m := by
  unfold Message.pricePosition? at h
  rw [setUnitPrice, get_bind]
  simp only [h]

theorem setUnitPrice_of_none {price : UInt64} (h : m.pricePosition? = none) :
    setUnitPrice price m = insertSetting m.instructions.length (.unitPrice price) m := by
  unfold Message.pricePosition? at h
  rw [setUnitPrice, get_bind]
  simp only [h]

theorem setUnitLimit_of_some {units : UInt32} {position : Nat}
    (h : m.limitPosition? = some position) :
    setUnitLimit units m = setData position (ComputeBudget.unitLimit units).data m := by
  unfold Message.limitPosition? at h
  rw [setUnitLimit, get_bind]
  simp only [h]

theorem setUnitLimit_of_none {units : UInt32} (h : m.limitPosition? = none) :
    setUnitLimit units m =
      insertSetting (if m.startsWithAdvanceNonce then 1 else 0) (.unitLimit units) m := by
  unfold Message.limitPosition? at h
  rw [setUnitLimit, get_bind]
  simp only [h]

/-- What an insertion leaves when it fails part way, if there are few accounts
with those of the instruction counted in. -/
theorem grows_of_insertInstruction_eq_error {position : Nat} {ix : Instruction}
    (hm : m.WellFormed) (hsmall : m.accountCount + ix.accounts.length ≤ 255)
    (h : insertInstruction position ix m = .error reason m') : m.Grows m' := by
  rw [insertInstruction, get_bind] at h
  split at h
  · cases h
    exact .refl
  rcases bind_eq_error_iff.mp h with h | ⟨accounts, listed, haccounts, h⟩
  · exact grows_of_pushAccounts_eq_error hm hsmall h
  obtain ⟨hgrows, hlength, -⟩ := grows_of_pushAccounts hm haccounts
  rcases bind_eq_error_iff.mp h with h | ⟨program, _, -, h⟩
  · -- the accounts are in the table by now, and there is still room for one more
    have hloaded := hgrows.loaded_eq
    unfold Message.accountCount at hsmall
    rw [eq_of_pushReadonly_eq_error (hgrows.wellFormed hm) (by omega) h]
    exact hgrows
  · cases h

end Edit

namespace EditCommand

variable {m m' : Message} {command : EditCommand}

/-- A setting is put in with the index of its program and no other index. -/
private theorem effect_of_insertSetting {position : Nat} {setting : ComputeBudget}
    (hkeeps : command.overwrites? m = none)
    (hposition : position ≤ m.instructions.length)
    (h : Edit.insertSetting position setting m = .ok () m') : Effect m command m' := by
  obtain ⟨mid, program, hgrows, hindex, rfl⟩ := Edit.insertSetting_eq_ok h
  refine .insert hkeeps hgrows _ _ (hgrows.length_instructions ▸ hposition) ?_
  intro index hmem
  rw [CompiledInstruction.indices, List.mem_singleton] at hmem
  subst hmem
  exact Nat.lt_add_right _ hindex

/-- **What an edit does.**  A successful command on a well-formed message has
one of the four effects. -/
theorem effect_of_run_eq_ok (hm : m.WellFormed) (h : command.run m = .ok () m') :
    Effect m command m' := by
  cases command with
  | pushAccount account =>
    obtain ⟨index, _, hpush, h⟩ := Edit.bind_eq_ok_iff.mp h
    obtain ⟨-, rfl⟩ := Edit.pure_eq_ok_iff.mp h
    exact .grow rfl (Edit.grows_of_pushAccount hm hpush).1
  | pushReadonly address =>
    obtain ⟨index, _, hpush, h⟩ := Edit.bind_eq_ok_iff.mp h
    obtain ⟨-, rfl⟩ := Edit.pure_eq_ok_iff.mp h
    exact .grow rfl (Edit.grows_of_pushReadonly hpush).1
  | insertInstruction position ix =>
    obtain ⟨mid, program, accounts, hgrows, hposition, hrange, rfl⟩ :=
      Edit.insertInstruction_eq_ok hm h
    exact .insert rfl hgrows _ _ hposition fun index hmem =>
      Nat.lt_add_right _ (hrange index hmem)
  | setFeePayer payer => exact .pay payer (Edit.gainsKey_of_setFeePayer h)
  | setUnitPrice price =>
    cases hfound : m.pricePosition? with
    | some position =>
      rw [run, Edit.setUnitPrice_of_some hfound] at h
      cases h
      exact .overwrite position _ (by simp only [overwrites?, hfound, Option.map_some])
    | none =>
      rw [run, Edit.setUnitPrice_of_none hfound] at h
      exact effect_of_insertSetting (by simp only [overwrites?, hfound, Option.map_none])
        (Nat.le_refl _) h
  | setUnitLimit units =>
    cases hfound : m.limitPosition? with
    | some position =>
      rw [run, Edit.setUnitLimit_of_some hfound] at h
      cases h
      exact .overwrite position _ (by simp only [overwrites?, hfound, Option.map_some])
    | none =>
      rw [run, Edit.setUnitLimit_of_none hfound] at h
      refine effect_of_insertSetting (by simp only [overwrites?, hfound, Option.map_none]) ?_ h
      -- an instruction that advances a nonce has a place behind it
      split
      · rename_i hnonce
        exact Message.instructions_pos_of_startsWithAdvanceNonce hnonce
      · exact Nat.zero_le _

end EditCommand

end SolanaWallet
