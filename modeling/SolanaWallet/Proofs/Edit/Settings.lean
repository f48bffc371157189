import Mathlib.Data.List.InsertIdx
import SolanaWallet.Proofs.Edit.Command

/-!
# The settings of a message

A message holds a price and a limit for compute units in the way a store holds
two variables, although each is kept in the data of some instruction that has
to be found first, or has to be put in, perhaps together with the key of its
program.

Both setters are one program, `Edit.makeSetting`.  All that it looks at is the
list of calls of the message (`Message.calls`): which program each instruction
calls, and with which data.  A new key does not change the calls
(`calls_of_pushReadonly`), and so three laws are laws of a list in which one
item is overwritten or put in:

* what is read is what was set (`setting?_of_makeSetting`), and the other
  setting stays (`setting?_of_makeSetting_of_ne`);
* of two values only the later one counts (`makeSetting_makeSetting`);
* the price and the limit can be set in either order (`makeSetting_comm`).

The last two compare whole runs, so also what they leave behind when they fail.
-/

namespace SolanaWallet

/-! ## Places in a list -/

section Places

variable {α β : Type} {items : List α} {x : α} {p : α → Bool} {f : α → α} {place index : Nat}

@[simp] theorem placeAfter_zero (index : Nat) : placeAfter 0 index = index + 1 := rfl

@[simp] theorem placeAfter_succ_zero (place : Nat) : placeAfter (place + 1) 0 = 0 := by
  simp [placeAfter]

@[simp] theorem placeAfter_succ_succ (place index : Nat) :
    placeAfter (place + 1) (index + 1) = placeAfter place index + 1 := by
  unfold placeAfter
  split <;> split <;> omega

/-- An item that is not looked for moves what is found, as it moves the rest. -/
theorem findIdx?_insertIdx (hx : p x = false) :
    (items.insertIdx place x).findIdx? p = (items.findIdx? p).map (placeAfter place) := by
  induction items generalizing place with
  | nil => cases place <;> simp [hx]
  | cons first rest ih =>
    by_cases hfirst : p first = true <;> cases place <;>
      simp [List.findIdx?_cons, hx, hfirst, ih, Function.comp_def]

theorem findIdx?_insertIdx_of_none (hnone : items.findIdx? p = none) (hx : p x = true)
    (hplace : place ≤ items.length) : (items.insertIdx place x).findIdx? p = some place := by
  induction items generalizing place with
  | nil =>
    obtain rfl : place = 0 := Nat.le_zero.mp hplace
    simp [hx]
  | cons first rest ih =>
    rw [List.findIdx?_eq_none_iff, List.forall_mem_cons, ← List.findIdx?_eq_none_iff] at hnone
    cases place with
    | zero => simp [List.findIdx?_cons, hx]
    | succ place => simp [List.findIdx?_cons, hnone.1, ih hnone.2 (Nat.le_of_succ_le_succ hplace)]

/-- A change of an item that keeps it what it is for the search. -/
theorem findIdx?_modify (hf : ∀ y ∈ items[index]?, p (f y) = p y) :
    (items.modify index f).findIdx? p = items.findIdx? p := by
  induction items generalizing index with
  | nil => simp
  | cons first rest ih => cases index <;> simp_all [List.findIdx?_cons]

theorem modify_insertIdx :
    (items.insertIdx place x).modify (placeAfter place index) f =
      (items.modify index f).insertIdx place x := by
  induction items generalizing place index with
  | nil => cases place <;> simp
  | cons first rest ih =>
    cases place with
    | zero => simp
    | succ place => cases index <;> simp [ih]

theorem modify_insertIdx_self :
    (items.insertIdx place x).modify place f = items.insertIdx place (f x) := by
  induction items generalizing place with
  | nil => cases place <;> simp
  | cons first rest ih => cases place <;> simp [ih]

theorem findSome?_eq_bind_findIdx? {g : α → Option β} :
    items.findSome? g =
      (items.findIdx? fun item => (g item).isSome).bind fun place => items[place]?.bind g := by
  induction items with
  | nil => simp
  | cons first rest ih =>
    cases hfirst : g first with
    | none =>
      simp only [List.findSome?_cons, List.findIdx?_cons, hfirst, ih, Option.isSome_none,
        Bool.false_eq_true, if_false, Option.bind_map]
      rfl
    | some b => simp [List.findIdx?_cons, hfirst]

end Places

/-! ## Settings and calls -/

namespace ComputeBudget

/-- What a setting sets, without the value. -/
inductive Kind where
  | unitLimit
  | unitPrice
deriving DecidableEq

def kind : ComputeBudget → Kind
  | .unitLimit _ => .unitLimit
  | .unitPrice _ => .unitPrice

theorem ofData?_data (setting : ComputeBudget) : ofData? setting.data = some setting := by
  cases setting with
  | unitLimit units =>
    have hbound : units.toNat < Nat.pow 256 4 := units.toNat_lt
    simp [data, ofData?, bytes32, ofLittleEndian_littleEndian, Nat.mod_eq_of_lt hbound]
  | unitPrice price =>
    have hbound : price.toNat < Nat.pow 256 8 := price.toNat_lt
    simp [data, ofData?, bytes64, ofLittleEndian_littleEndian, Nat.mod_eq_of_lt hbound]

theorem isSome_price? (setting : ComputeBudget) :
    setting.price?.isSome = decide (setting.kind = .unitPrice) := by
  cases setting <;> rfl

theorem isSome_limit? (setting : ComputeBudget) :
    setting.limit?.isSome = decide (setting.kind = .unitLimit) := by
  cases setting <;> rfl

end ComputeBudget

/-- What an instruction tells a program: the program, if it has a key in the
message, and the data. -/
structure Call where
  program : Option Address
  data : List UInt8

namespace Call

/-- The setting that a call makes. -/
def setting? (c : Call) : Option ComputeBudget :=
  if c.program = some Known.computeBudget then ComputeBudget.ofData? c.data else none

/-- Whether a call makes a setting of the given kind. -/
def sets (kind : ComputeBudget.Kind) (c : Call) : Bool :=
  c.setting?.any fun setting => setting.kind = kind

/-- Whether a call advances a nonce. -/
def advancesNonce (c : Call) : Bool :=
  c.program == some Known.system && SystemProgram.isAdvanceNonce c.data

/-- The call that makes a setting. -/
def making (setting : ComputeBudget) : Call := ⟨some Known.computeBudget, setting.data⟩

variable {c : Call} {kind : ComputeBudget.Kind} {setting : ComputeBudget}

@[simp] theorem setting?_making : (making setting).setting? = some setting := by
  rw [setting?, making, if_pos rfl, ComputeBudget.ofData?_data]

@[simp] theorem sets_making : (making setting).sets kind = decide (setting.kind = kind) := by
  rw [sets, setting?_making, Option.any_some]

theorem program_of_sets (h : c.sets kind = true) : c.program = some Known.computeBudget := by
  by_contra hother
  rw [sets, setting?, if_neg hother] at h
  cases h

/-- With other data, a call that makes a setting makes another one. -/
theorem withData_of_sets (h : c.sets kind = true) :
    ({ c with data := setting.data } : Call) = making setting := by
  rw [making, program_of_sets h]

theorem sets_unique {other : ComputeBudget.Kind} (h : c.sets kind = true)
    (h' : c.sets other = true) : kind = other := by
  obtain ⟨setting, hsetting, hkind⟩ := (Option.any_eq_true _ _).mp h
  obtain ⟨setting', hsetting', hother⟩ := (Option.any_eq_true _ _).mp h'
  obtain rfl := Option.some.inj (hsetting.symm.trans hsetting')
  exact (of_decide_eq_true hkind).symm.trans (of_decide_eq_true hother)

theorem advancesNonce_of_program (h : c.program = some Known.computeBudget) :
    c.advancesNonce = false := by
  have hprograms : Known.computeBudget ≠ Known.system := by decide
  simp [advancesNonce, h, hprograms]

end Call

namespace Message

variable {m m' : Message} {kind : ComputeBudget.Kind} {setting : ComputeBudget}
  {position place : Nat}

/-- What an instruction of the message tells its program. -/
def call (m : Message) (ix : CompiledInstruction) : Call := ⟨m.programOf? ix, ix.data⟩

/-- What the instructions tell their programs, in order. -/
def calls (m : Message) : List Call := m.instructions.map m.call

/-- The first instruction that makes a setting of the given kind. -/
def settingPosition? (m : Message) (kind : ComputeBudget.Kind) : Option Nat :=
  m.calls.findIdx? (Call.sets kind)

/-- The first setting of the given kind. -/
def setting? (m : Message) (kind : ComputeBudget.Kind) : Option ComputeBudget :=
  (m.settingPosition? kind).bind fun position => m.calls[position]?.bind Call.setting?

/-- Where a new setting goes. -/
def newPosition (m : Message) : ComputeBudget.Kind → Nat
  | .unitPrice => m.instructions.length
  | .unitLimit => if m.startsWithAdvanceNonce then 1 else 0

end Message

/-- Makes a setting: in the first instruction that makes one of its kind, or in a
new one. -/
def Edit.makeSetting (setting : ComputeBudget) : Edit Unit := fun m =>
  match m.settingPosition? setting.kind with
  | some position => setData position setting.data m
  | none => insertSetting (m.newPosition setting.kind) setting m

/-! ## The two setters as one -/

namespace Message

variable {m m' : Message} {kind : ComputeBudget.Kind} {setting : ComputeBudget}
  {position place : Nat}

theorem length_calls (m : Message) : m.calls.length = m.instructions.length := List.length_map _

theorem startsWithAdvanceNonce_eq (m : Message) :
    m.startsWithAdvanceNonce = m.calls[0]?.any Call.advancesNonce := by
  unfold startsWithAdvanceNonce calls
  cases m.instructions <;> rfl

theorem settingPosition?_eq_findIdx? {α : Type} {pick : ComputeBudget → Option α}
    (hpick : ∀ setting, (pick setting).isSome = decide (setting.kind = kind)) :
    m.settingPosition? kind =
      m.instructions.findIdx? fun ix => (m.settingOf? ix >>= pick).isSome := by
  rw [settingPosition?, calls, List.findIdx?_map]
  congr 1
  funext ix
  show (m.settingOf? ix).any _ = ((m.settingOf? ix).bind pick).isSome
  cases m.settingOf? ix with
  | none => rfl
  | some setting => exact (hpick setting).symm

theorem findSome?_settingOf? {α : Type} {pick : ComputeBudget → Option α}
    (hpick : ∀ setting, (pick setting).isSome = decide (setting.kind = kind)) :
    (m.instructions.findSome? fun ix => m.settingOf? ix >>= pick) = m.setting? kind >>= pick := by
  rw [findSome?_eq_bind_findIdx?, ← settingPosition?_eq_findIdx? hpick, setting?]
  cases m.settingPosition? kind with
  | none => rfl
  | some position =>
    rw [Option.bind_some, Option.bind_some, calls, List.getElem?_map]
    cases m.instructions[position]? <;> rfl

theorem unitPrice?_eq (m : Message) : m.unitPrice? = m.setting? .unitPrice >>= ComputeBudget.price? :=
  findSome?_settingOf? ComputeBudget.isSome_price?

theorem unitLimit?_eq (m : Message) : m.unitLimit? = m.setting? .unitLimit >>= ComputeBudget.limit? :=
  findSome?_settingOf? ComputeBudget.isSome_limit?

end Message

namespace Edit

theorem setUnitPrice_eq (price : UInt64) : setUnitPrice price = makeSetting (.unitPrice price) := by
  funext m
  have hposition : m.settingPosition? .unitPrice = m.pricePosition? :=
    Message.settingPosition?_eq_findIdx? ComputeBudget.isSome_price?
  unfold makeSetting
  rw [ComputeBudget.kind, hposition]
  cases hfound : m.pricePosition? with
  | some position => exact setUnitPrice_of_some hfound
  | none => exact setUnitPrice_of_none hfound

theorem setUnitLimit_eq (units : UInt32) : setUnitLimit units = makeSetting (.unitLimit units) := by
  funext m
  have hposition : m.settingPosition? .unitLimit = m.limitPosition? :=
    Message.settingPosition?_eq_findIdx? ComputeBudget.isSome_limit?
  unfold makeSetting
  rw [ComputeBudget.kind, hposition]
  cases hfound : m.limitPosition? with
  | some position => exact setUnitLimit_of_some hfound
  | none => exact setUnitLimit_of_none hfound

end Edit

/-! ## Calls under the steps of an edit -/

namespace Message

variable {m m' : Message} {kind : ComputeBudget.Kind} {setting : ComputeBudget}
  {position place : Nat}

/-- The instructions call the programs that they called before. -/
theorem GainsKey.calls_eq {region : Region} {inserted : UInt8} {address : Address}
    (h : m.GainsKey region inserted address m') : m'.calls = m.calls := by
  have hinstructions : m'.instructions = m.instructions.map (·.after inserted) := by
    rw [h.eq_withKey]
    rfl
  unfold calls
  rw [hinstructions, List.map_map]
  apply List.map_congr_left
  intro ix hix
  have hkey : m'.keys[(indexAfter inserted ix.program).toNat]? = m.keys[ix.program.toNat]? := by
    rw [toNat_indexAfter (h.indexRoom ix hix _ List.mem_cons_self), h.getElem?_keys]
  show (⟨_, _⟩ : Call) = ⟨_, _⟩
  exact congrArg (Call.mk · ix.data) hkey

theorem calls_of_pushReadonly {address : Address} {index : UInt8}
    (h : Edit.pushReadonly address m = .ok index m') : m'.calls = m.calls := by
  rcases Edit.gainsKey_of_pushReadonly h with ⟨-, rfl⟩ | ⟨hgains, -⟩
  · rfl
  · exact hgains.calls_eq

theorem calls_withInstruction (m : Message) (position : Nat) (ix : CompiledInstruction) :
    (m.withInstruction position ix).calls = m.calls.insertIdx position (m.call ix) :=
  List.map_insertIdx _ _ _ _

theorem calls_withData (m : Message) (position : Nat) (data : List UInt8) :
    (m.withData position data).calls = m.calls.modify position fun c => { c with data } := by
  show (m.instructions.modify position fun ix => { ix with data }).map m.call =
    (m.instructions.map m.call).modify position fun c => { c with data }
  generalize m.instructions = instructions
  induction instructions generalizing position with
  | nil => simp
  | cons first rest ih => cases position <;> simp [ih, call, programOf?]

/-! ### Overwriting a setting -/

theorem exists_call_of_settingPosition? (h : m.settingPosition? kind = some position) :
    ∃ c, m.calls[position]? = some c ∧ c.sets kind = true := by
  obtain ⟨hlt, hsets, -⟩ := List.findIdx?_eq_some_iff_getElem.mp h
  exact ⟨m.calls[position], List.getElem?_eq_getElem hlt, hsets⟩

/-- Settings of different kinds are made by different instructions. -/
theorem settingPosition?_ne {other : ComputeBudget.Kind} (hkind : kind ≠ other)
    (h : m.settingPosition? kind = some position) (h' : m.settingPosition? other = some place) :
    position ≠ place := by
  rintro rfl
  obtain ⟨c, hc, hsets⟩ := exists_call_of_settingPosition? h
  obtain ⟨c', hc', hsets'⟩ := exists_call_of_settingPosition? h'
  obtain rfl := Option.some.inj (hc.symm.trans hc')
  exact hkind (Call.sets_unique hsets hsets')

section Overwrite

variable (hposition : m.settingPosition? setting.kind = some position)

include hposition

theorem getElem?_calls_withData :
    (m.withData position setting.data).calls[position]? = some (.making setting) := by
  obtain ⟨c, hc, hsets⟩ := exists_call_of_settingPosition? hposition
  rw [calls_withData, List.getElem?_modify, hc]
  simp [Call.withData_of_sets hsets]

/-- An instruction that makes a setting still makes one of the same kind. -/
theorem settingPosition?_withData (kind : ComputeBudget.Kind) :
    (m.withData position setting.data).settingPosition? kind = m.settingPosition? kind := by
  obtain ⟨c, hc, hsets⟩ := exists_call_of_settingPosition? hposition
  rw [settingPosition?, calls_withData]
  apply findIdx?_modify
  intro c' hc'
  obtain rfl : c = c' := Option.some.inj (hc.symm.trans hc')
  rw [Call.withData_of_sets hsets, Call.sets_making, Bool.eq_iff_iff, decide_eq_true_iff]
  exact ⟨fun hkind => hkind ▸ hsets, fun hsets' => Call.sets_unique hsets hsets'⟩

theorem setting?_withData : (m.withData position setting.data).setting? setting.kind = some setting := by
  rw [setting?, settingPosition?_withData hposition, hposition, Option.bind_some,
    getElem?_calls_withData hposition, Option.bind_some, Call.setting?_making]

theorem setting?_withData_of_ne (hkind : kind ≠ setting.kind) :
    (m.withData position setting.data).setting? kind = m.setting? kind := by
  rw [setting?, settingPosition?_withData hposition, setting?]
  refine Option.bind_congr fun other hother => ?_
  have hne : position ≠ other := settingPosition?_ne hkind.symm hposition hother
  rw [calls_withData, List.getElem?_modify_ne _ _ hne]

theorem startsWithAdvanceNonce_withData :
    (m.withData position setting.data).startsWithAdvanceNonce = m.startsWithAdvanceNonce := by
  rw [startsWithAdvanceNonce_eq, startsWithAdvanceNonce_eq]
  rcases Nat.eq_zero_or_pos position with rfl | hpositive
  · obtain ⟨c, hc, hsets⟩ := exists_call_of_settingPosition? hposition
    rw [getElem?_calls_withData hposition, hc, Option.any_some, Option.any_some,
      Call.advancesNonce_of_program rfl, Call.advancesNonce_of_program (Call.program_of_sets hsets)]
  · rw [calls_withData, List.getElem?_modify_ne _ _ (Nat.ne_of_gt hpositive)]

end Overwrite

/-! ### Putting in a setting -/

/-- The message with a new instruction for a setting, whose program has the
given index. -/
def withSetting (m : Message) (position : Nat) (program : UInt8) (setting : ComputeBudget) : Message :=
  m.withInstruction position { program, accounts := [], data := setting.data }

section Insert

variable {mid : Message} {program : UInt8}
  (hlisted : Edit.pushReadonly Known.computeBudget m = .ok program mid)

include hlisted

theorem calls_withSetting (position : Nat) (setting : ComputeBudget) :
    (mid.withSetting position program setting).calls = m.calls.insertIdx position (.making setting) := by
  have hkey : mid.keys[program.toNat]? = some Known.computeBudget :=
    (idxOf?_eq_some_iff_getElem?.mp (Edit.idxOf?_of_pushReadonly hlisted)).1
  rw [withSetting, calls_withInstruction, calls_of_pushReadonly hlisted, call, programOf?, hkey,
    Call.making]

theorem settingPosition?_withSetting (hnone : m.settingPosition? setting.kind = none)
    (hposition : position ≤ m.instructions.length) :
    (mid.withSetting position program setting).settingPosition? setting.kind = some position := by
  rw [settingPosition?, calls_withSetting hlisted]
  exact findIdx?_insertIdx_of_none hnone (by simp) (m.length_calls ▸ hposition)

theorem settingPosition?_withSetting_of_ne (hkind : kind ≠ setting.kind) :
    (mid.withSetting position program setting).settingPosition? kind =
      (m.settingPosition? kind).map (placeAfter position) := by
  rw [settingPosition?, calls_withSetting hlisted]
  exact findIdx?_insertIdx (by simpa using hkind.symm)

theorem setting?_withSetting (hnone : m.settingPosition? setting.kind = none)
    (hposition : position ≤ m.instructions.length) :
    (mid.withSetting position program setting).setting? setting.kind = some setting := by
  rw [setting?, settingPosition?_withSetting hlisted hnone hposition, Option.bind_some,
    calls_withSetting hlisted, List.getElem?_insertIdx_self, if_pos (m.length_calls ▸ hposition),
    Option.bind_some, Call.setting?_making]

theorem setting?_withSetting_of_ne (hkind : kind ≠ setting.kind) :
    (mid.withSetting position program setting).setting? kind = m.setting? kind := by
  rw [setting?, settingPosition?_withSetting_of_ne hlisted hkind, calls_withSetting hlisted, setting?,
    Option.bind_map]
  refine Option.bind_congr fun other _ => ?_
  rw [Function.comp_apply, getElem?_insertIdx_placeAfter]

/-- A new setting goes behind an instruction that advances a nonce, if this is
the first. -/
theorem startsWithAdvanceNonce_withSetting :
    (mid.withSetting (m.newPosition kind) program setting).startsWithAdvanceNonce =
      m.startsWithAdvanceNonce := by
  rw [startsWithAdvanceNonce_eq, calls_withSetting hlisted]
  rcases Nat.eq_zero_or_pos (m.newPosition kind) with hfirst | hpositive
  · -- then the message does not start with such an instruction
    have hnone : m.startsWithAdvanceNonce = false := by
      cases kind with
      | unitPrice =>
        have hempty : m.calls[0]? = none := by
          rw [List.getElem?_eq_none_iff, length_calls]
          exact Nat.le_of_eq hfirst
        rw [startsWithAdvanceNonce_eq, hempty, Option.any_none]
      | unitLimit => simpa [newPosition] using hfirst
    rw [hfirst, hnone, List.insertIdx_zero, List.getElem?_cons_zero, Option.any_some,
      Call.advancesNonce_of_program rfl]
  · rw [List.getElem?_insertIdx_of_lt hpositive, startsWithAdvanceNonce_eq]

end Insert

theorem newPosition_le (m : Message) (kind : ComputeBudget.Kind) :
    m.newPosition kind ≤ m.instructions.length := by
  cases kind with
  | unitPrice => exact Nat.le_refl _
  | unitLimit =>
    by_cases hnonce : m.startsWithAdvanceNonce = true
    · rw [newPosition, if_pos hnonce]
      exact instructions_pos_of_startsWithAdvanceNonce hnonce
    · rw [newPosition, if_neg hnonce]
      exact Nat.zero_le _

end Message

/-! ## One setter -/

namespace Edit

variable {m m' mid : Message} {kind : ComputeBudget.Kind} {setting later : ComputeBudget}
  {position : Nat} {program : UInt8} {reason : Failure}

theorem makeSetting_of_some (h : m.settingPosition? setting.kind = some position) :
    makeSetting setting m = .ok () (m.withData position setting.data) := by
  rw [makeSetting, h]
  rfl

theorem makeSetting_of_listed (h : m.settingPosition? setting.kind = none)
    (hlisted : pushReadonly Known.computeBudget m = .ok program mid) :
    makeSetting setting m = .ok () (mid.withSetting (m.newPosition setting.kind) program setting) := by
  rw [makeSetting, h]
  dsimp only
  rw [insertSetting, bind_of_ok hlisted]
  rfl

theorem makeSetting_of_error (h : m.settingPosition? setting.kind = none)
    (hfails : pushReadonly Known.computeBudget m = .error reason mid) :
    makeSetting setting m = .error reason mid := by
  rw [makeSetting, h]
  dsimp only
  rw [insertSetting, bind_of_error hfails]

/-- What a setting that was made has done to the message. -/
theorem makeSetting_cases (h : makeSetting setting m = .ok () m') :
    (∃ position, m.settingPosition? setting.kind = some position ∧
      m' = m.withData position setting.data) ∨
    (m.settingPosition? setting.kind = none ∧ ∃ program mid,
      pushReadonly Known.computeBudget m = .ok program mid ∧
      m' = mid.withSetting (m.newPosition setting.kind) program setting) := by
  cases hfound : m.settingPosition? setting.kind with
  | some position =>
    rw [makeSetting_of_some hfound] at h
    exact .inl ⟨position, rfl, (EStateM.Result.ok.inj h).2.symm⟩
  | none =>
    cases hlisted : pushReadonly Known.computeBudget m with
    | ok program mid =>
      rw [makeSetting_of_listed hfound hlisted] at h
      exact .inr ⟨rfl, program, mid, rfl, (EStateM.Result.ok.inj h).2.symm⟩
    | error reason mid =>
      rw [makeSetting_of_error hfound hlisted] at h
      cases h

/-- **What is read is what was set.** -/
theorem setting?_of_makeSetting (h : makeSetting setting m = .ok () m') :
    m'.setting? setting.kind = some setting := by
  rcases makeSetting_cases h with ⟨position, hfound, rfl⟩ | ⟨hnone, program, mid, hlisted, rfl⟩
  · exact Message.setting?_withData hfound
  · exact Message.setting?_withSetting hlisted hnone (m.newPosition_le _)

theorem setting?_of_makeSetting_of_ne (h : makeSetting setting m = .ok () m')
    (hkind : kind ≠ setting.kind) : m'.setting? kind = m.setting? kind := by
  rcases makeSetting_cases h with ⟨position, hfound, rfl⟩ | ⟨-, program, mid, hlisted, rfl⟩
  · exact Message.setting?_withData_of_ne hfound hkind
  · exact Message.setting?_withSetting_of_ne hlisted hkind

theorem startsWithAdvanceNonce_of_makeSetting (h : makeSetting setting m = .ok () m') :
    m'.startsWithAdvanceNonce = m.startsWithAdvanceNonce := by
  rcases makeSetting_cases h with ⟨position, hfound, rfl⟩ | ⟨-, program, mid, hlisted, rfl⟩
  · exact Message.startsWithAdvanceNonce_withData hfound
  · exact Message.startsWithAdvanceNonce_withSetting hlisted

/-! ## Two settings in a row -/

/-- The program of a setting that is made already need not be put in. -/
theorem exists_listed (h : m.settingPosition? kind = some position) :
    ∃ program, ∀ m' : Message, m'.keys = m.keys →
      pushReadonly Known.computeBudget m' = .ok program m' := by
  obtain ⟨hlt, hsets, -⟩ := List.findIdx?_eq_some_iff_getElem.mp h
  have hlt' : position < m.instructions.length := m.length_calls ▸ hlt
  have hkey : m.keys[m.instructions[position].program.toNat]? = some Known.computeBudget := by
    have hprogram := Call.program_of_sets hsets
    simpa [Message.calls, Message.call, Message.programOf?] using hprogram
  obtain ⟨place, hplace⟩ := Option.isSome_iff_exists.mp
    (List.isSome_idxOf?.mpr (List.mem_of_getElem? hkey))
  -- its first place is not behind the one that the instruction names
  have hbyte : place < 256 := by
    by_contra hge
    have hlt := m.instructions[position].program.toNat_lt
    exact (idxOf?_eq_some_iff_getElem?.mp hplace).2 _ (by omega) hkey
  refine ⟨UInt8.ofNat place, fun m' hkeys => pushReadonly_eq_ok_iff.mpr (.inl ⟨?_, rfl⟩)⟩
  rw [hkeys, hplace, UInt8.toNat_ofNat_of_lt' hbyte]

theorem pushReadonly_withSetting (hlisted : pushReadonly Known.computeBudget m = .ok program mid) :
    pushReadonly Known.computeBudget (mid.withSetting position program setting) =
      .ok program (mid.withSetting position program setting) :=
  pushReadonly_eq_ok_iff.mpr (.inl ⟨(idxOf?_of_pushReadonly hlisted :), rfl⟩)

/-- **The last value counts.**  A setting that is made after another one of its
kind might as well have been made alone. -/
theorem makeSetting_makeSetting (hkind : setting.kind = later.kind) :
    (do makeSetting setting; makeSetting later : Edit Unit) = makeSetting later := by
  funext m
  cases hfound : m.settingPosition? setting.kind with
  | some position =>
    have hlater : (m.withData position setting.data).settingPosition? later.kind = some position := by
      rw [Message.settingPosition?_withData hfound, ← hkind, hfound]
    rw [bind_of_ok (makeSetting_of_some hfound), makeSetting_of_some hlater,
      makeSetting_of_some (hkind ▸ hfound)]
    simp only [Message.withData, List.modify_modify_eq, Function.comp_def]
  | none =>
    cases hlisted : pushReadonly Known.computeBudget m with
    | error reason mid =>
      rw [bind_of_error (makeSetting_of_error hfound hlisted),
        makeSetting_of_error (hkind ▸ hfound) hlisted]
    | ok program mid =>
      have hlater : (mid.withSetting (m.newPosition setting.kind) program setting).settingPosition?
          later.kind = some (m.newPosition setting.kind) := by
        rw [← hkind]
        exact Message.settingPosition?_withSetting hlisted hfound (m.newPosition_le _)
      rw [bind_of_ok (makeSetting_of_listed hfound hlisted), makeSetting_of_some hlater,
        makeSetting_of_listed (hkind ▸ hfound) hlisted, ← hkind]
      simp only [Message.withSetting, Message.withInstruction, Message.withData, modify_insertIdx_self]

/-- Two settings that are made already. -/
theorem makeSetting_comm_of_some {other : ComputeBudget} {place : Nat}
    (hkind : setting.kind ≠ other.kind) (hfound : m.settingPosition? setting.kind = some position)
    (hfound' : m.settingPosition? other.kind = some place) :
    (do makeSetting setting; makeSetting other : Edit Unit) m =
      (do makeSetting other; makeSetting setting : Edit Unit) m := by
  have hother : (m.withData position setting.data).settingPosition? other.kind = some place := by
    rw [Message.settingPosition?_withData hfound, hfound']
  have hsetting : (m.withData place other.data).settingPosition? setting.kind = some position := by
    rw [Message.settingPosition?_withData hfound', hfound]
  have hne : position ≠ place := Message.settingPosition?_ne hkind hfound hfound'
  rw [bind_of_ok (makeSetting_of_some hfound), makeSetting_of_some hother,
    bind_of_ok (makeSetting_of_some hfound'), makeSetting_of_some hsetting]
  simp only [Message.withData, List.modify_modify_ne _ _ _ hne]

/-- A setting that is made already and a new one of the other kind. -/
theorem makeSetting_comm_of_some_of_none {other : ComputeBudget} (hkind : setting.kind ≠ other.kind)
    (hfound : m.settingPosition? setting.kind = some position)
    (hnone : m.settingPosition? other.kind = none) :
    (do makeSetting setting; makeSetting other : Edit Unit) m =
      (do makeSetting other; makeSetting setting : Edit Unit) m := by
  obtain ⟨program, hlisted⟩ := exists_listed hfound
  have hnone' : (m.withData position setting.data).settingPosition? other.kind = none := by
    rw [Message.settingPosition?_withData hfound, hnone]
  have hplace : (m.withData position setting.data).newPosition other.kind =
      m.newPosition other.kind := by
    have hlength : (m.withData position setting.data).instructions.length = m.instructions.length :=
      List.length_modify _ _ _
    cases other <;>
      simp only [ComputeBudget.kind, Message.newPosition, hlength,
        Message.startsWithAdvanceNonce_withData hfound]
  have hmoved : (m.withSetting (m.newPosition other.kind) program other).settingPosition?
      setting.kind = some (placeAfter (m.newPosition other.kind) position) := by
    rw [Message.settingPosition?_withSetting_of_ne (hlisted m rfl) hkind, hfound, Option.map_some]
  rw [bind_of_ok (makeSetting_of_some hfound), makeSetting_of_listed hnone' (hlisted _ rfl), hplace,
    bind_of_ok (makeSetting_of_listed hnone (hlisted m rfl)), makeSetting_of_some hmoved]
  simp only [Message.withSetting, Message.withInstruction, Message.withData, modify_insertIdx]

/-- Two new settings: the price goes behind all instructions, also behind the
limit, if that is put in first. -/
theorem makeSetting_comm_of_none {other : ComputeBudget} (hprice : setting.kind = .unitPrice)
    (hlimit : other.kind = .unitLimit) (hnone : m.settingPosition? setting.kind = none)
    (hnone' : m.settingPosition? other.kind = none) :
    (do makeSetting setting; makeSetting other : Edit Unit) m =
      (do makeSetting other; makeSetting setting : Edit Unit) m := by
  have hkind : setting.kind ≠ other.kind := by
    rw [hprice, hlimit]
    decide
  cases hlisted : pushReadonly Known.computeBudget m with
  | error reason mid =>
    rw [bind_of_error (makeSetting_of_error hnone hlisted),
      bind_of_error (makeSetting_of_error hnone' hlisted)]
  | ok program mid =>
    have hother : (mid.withSetting (m.newPosition setting.kind) program setting).settingPosition?
        other.kind = none := by
      rw [Message.settingPosition?_withSetting_of_ne hlisted hkind.symm, hnone', Option.map_none]
    have hsetting : (mid.withSetting (m.newPosition other.kind) program other).settingPosition?
        setting.kind = none := by
      rw [Message.settingPosition?_withSetting_of_ne hlisted hkind, hnone, Option.map_none]
    have hfirst : (mid.withSetting (m.newPosition setting.kind) program setting).newPosition
        other.kind = m.newPosition other.kind := by
      rw [hlimit, Message.newPosition, Message.startsWithAdvanceNonce_withSetting hlisted,
        Message.newPosition]
    have hlength : mid.instructions.length = m.instructions.length := by
      rw [← Message.length_calls, Message.calls_of_pushReadonly hlisted, Message.length_calls]
    have hle : m.newPosition other.kind ≤ mid.instructions.length := hlength ▸ m.newPosition_le _
    have hlast : (mid.withSetting (m.newPosition other.kind) program other).newPosition setting.kind =
        mid.instructions.length + 1 := by
      rw [hprice]
      exact List.length_insertIdx_of_le_length hle _
    have hlast' : m.newPosition setting.kind = mid.instructions.length := by
      rw [hprice, hlength]
      rfl
    rw [bind_of_ok (makeSetting_of_listed hnone hlisted),
      makeSetting_of_listed hother (pushReadonly_withSetting hlisted), hfirst,
      bind_of_ok (makeSetting_of_listed hnone' hlisted),
      makeSetting_of_listed hsetting (pushReadonly_withSetting hlisted), hlast, hlast']
    simp only [Message.withSetting, Message.withInstruction,
      List.insertIdx_comm _ _ hle (Nat.le_refl _)]

/-- **The two settings can be made in either order.** -/
theorem makeSetting_comm {other : ComputeBudget} (hkind : setting.kind ≠ other.kind) :
    (do makeSetting setting; makeSetting other : Edit Unit) =
      (do makeSetting other; makeSetting setting) := by
  funext m
  cases hfound : m.settingPosition? setting.kind with
  | some position =>
    cases hfound' : m.settingPosition? other.kind with
    | some place => exact makeSetting_comm_of_some hkind hfound hfound'
    | none => exact makeSetting_comm_of_some_of_none hkind hfound hfound'
  | none =>
    cases hfound' : m.settingPosition? other.kind with
    | some place => exact (makeSetting_comm_of_some_of_none hkind.symm hfound' hfound).symm
    | none =>
      cases hsetting : setting.kind <;> cases hother : other.kind
      · exact absurd (hsetting.trans hother.symm) hkind
      · exact (makeSetting_comm_of_none hother hsetting hfound' hfound).symm
      · exact makeSetting_comm_of_none hsetting hother hfound hfound'
      · exact absurd (hsetting.trans hother.symm) hkind

/-- **Price and limit can be set in either order.**  On any message, whichever of
the two it has, both orders have the same outcome: they succeed and leave the
same message, or they fail for the same reason. -/
theorem setUnitPrice_comm_setUnitLimit (price : UInt64) (units : UInt32) (m : Message) :
    (do setUnitPrice price; setUnitLimit units : Edit Unit) m =
      (do setUnitLimit units; setUnitPrice price : Edit Unit) m := by
  have hkind : (ComputeBudget.unitPrice price).kind ≠ (ComputeBudget.unitLimit units).kind := nofun
  rw [setUnitPrice_eq, setUnitLimit_eq, makeSetting_comm hkind]

/-- The limit goes in front of the price, whichever is put in first. -/
example :
    (do setUnitPrice 7; setUnitLimit 9 : Edit Unit)
        ⟨⟨1, 0, 0⟩, [⟨Block.fit 32 [1]⟩], ⟨Block.zero 32⟩, [], .legacy⟩ =
      .ok () ⟨⟨1, 0, 1⟩, [⟨Block.fit 32 [1]⟩, Known.computeBudget], ⟨Block.zero 32⟩,
        [⟨1, [], (ComputeBudget.unitLimit 9).data⟩, ⟨1, [], (ComputeBudget.unitPrice 7).data⟩],
        .legacy⟩ := rfl

end Edit

end SolanaWallet
