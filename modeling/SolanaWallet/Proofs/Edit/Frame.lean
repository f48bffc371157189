import Mathlib.Data.List.InsertIdx
import Mathlib.Order.Monotone.Basic
import SolanaWallet.Proofs.Edit.Invariant
import SolanaWallet.Proofs.Message.View

/-!
# What an edit leaves alone

Two messages are compared by what their indices refer to, so by their views.

* `Message.Keeps` says that the accounts of one message are found in another,
  in the same order, with the same flags, and followed by the same loaded
  accounts.  An inserted key moves the accounts behind it by one, and keeps
  them; moves compose.
* `GainsKey.view_eq` says that an inserted key changes the view of no
  instruction.

With the effects of the commands this gives `Effect.frame`: the view after an
edit is the view before, but for the data that the edit overwrites and the
instruction that it puts in.
-/

namespace SolanaWallet

/-! ## What is kept -/

namespace Message

/-- At least one key signs and may be written. -/
def HasWritableSigner (m : Message) : Prop :=
  0 < m.header.required.toNat - m.header.readonlySigners.toNat

/-- The accounts of `m` stand in `m'` at the places given by `place`: in the
same order, with the same keys and flags, and with the loaded accounts behind
all keys. -/
structure Keeps (m m' : Message) (place : Nat → Nat) : Prop where
  strictMono : StrictMono place
  getElem?_keys : ∀ index, m'.keys[place index]? = m.keys[index]?
  loaded_place : ∀ position, place (m.keys.length + position) = m'.keys.length + position
  signer_iff : ∀ index, place index < m'.header.signerCount ↔ index < m.header.signerCount
  isWritable_eq : ∀ index, m'.isWritable (place index) = m.isWritable index

end Message

/-- The view that a command has to leave: that of the message, with the data
that the command overwrites. -/
def EditCommand.viewKept (command : EditCommand) (m : Message) : List ResolvedInstruction :=
  match command.overwrites? m with
  | none => m.view
  | some (position, data) => m.view.modify position fun ix => { ix with data }

/-! ## An inserted key -/

theorem strictMono_placeAfter (place : Nat) : StrictMono (placeAfter place) := by
  intro i j hij
  unfold placeAfter
  split <;> split <;> omega

namespace Message

variable {m m' m'' : Message}

namespace GainsKey

variable {region : Region} {place : UInt8} {address : Address}

theorem keeps (h : m.GainsKey region place address m') (hm : m.WellFormed) :
    m.Keeps m' (placeAfter place.toNat) where
  strictMono := strictMono_placeAfter place.toNat
  getElem?_keys := h.getElem?_keys
  loaded_place position := by
    have hplace : place.toNat ≤ m.keys.length := h.place_le hm.1
    have hbehind : ¬ m.keys.length + position < place.toNat := by omega
    rw [placeAfter, if_neg hbehind, h.length_keys hm.1, Nat.add_right_comm]
  signer_iff := h.signer_iff hm.1
  isWritable_eq := h.isWritable_eq hm.1

/-- A moved index refers to what it referred to before, be it a key in front
of or behind the new one or a loaded account. -/
theorem resolve_eq (h : m.GainsKey region place address m') (hm : m.WellFormed) {index : UInt8}
    (hroom : SolanaWallet.IndexRoom place index) :
    m'.resolve (indexAfter place index) = m.resolve index := by
  have hkey : m'.keys[(indexAfter place index).toNat]? = m.keys[index.toNat]? := by
    rw [toNat_indexAfter hroom, h.getElem?_keys]
  unfold resolve
  rw [hkey]
  cases hstatic : m.keys[index.toNat]? with
  | some key => rfl
  | none =>
    have hloaded : m.keys.length ≤ index.toNat := List.getElem?_eq_none_iff.mp hstatic
    have hmoved : (indexAfter place index).toNat = m'.keys.length + (index.toNat - m.keys.length) := by
      rw [toNat_indexAfter hroom, ← (h.keeps hm).loaded_place, Nat.add_sub_of_le hloaded]
    show Reference.loaded _ = .loaded _
    rw [hmoved, Nat.add_sub_cancel_left]

theorem view_eq (h : m.GainsKey region place address m') (hm : m.WellFormed) :
    m'.view = m.view := by
  have hinstructions : m'.instructions = m.instructions.map (·.after place) := by
    rw [h.eq_withKey]
    rfl
  unfold view
  rw [hinstructions, List.map_map]
  apply List.map_congr_left
  intro ix hix
  have hresolve : ∀ index ∈ ix.indices, m'.resolve (indexAfter place index) = m.resolve index :=
    fun index hindex => h.resolve_eq hm (h.indexRoom ix hix index hindex)
  have hprogram := hresolve ix.program List.mem_cons_self
  have haccounts : (ix.accounts.map (indexAfter place)).map m'.resolve =
      ix.accounts.map m.resolve := by
    rw [List.map_map]
    apply List.map_congr_left
    intro index hindex
    exact hresolve index (List.mem_cons_of_mem _ hindex)
  show m'.resolved (ix.after place) = m.resolved ix
  simp only [resolved, CompiledInstruction.after, hprogram, haccounts]

/-- A key that is put at the end of its region stands behind the first
account, unless no key signs and may be written. -/
theorem place_zero (h : m.GainsKey region place address m') (hend : m.regionEnd region = place.toNat)
    (hm : m.WellFormed) (hsigner : m.HasWritableSigner) : placeAfter place.toNat 0 = 0 := by
  have hfits := hm.1
  have hpositive : 0 < place.toNat := by
    unfold HasWritableSigner at hsigner
    unfold Header.Fits at hfits
    cases region <;> simp only [regionEnd] at hend <;> omega
  rw [placeAfter, if_pos hpositive]

theorem hasWritableSigner (h : m.GainsKey region place address m') (hsigner : m.HasWritableSigner) :
    m'.HasWritableSigner := by
  obtain ⟨hrequired, hreadonly, -⟩ := h.counts
  unfold HasWritableSigner at hsigner ⊢
  cases region <;> simp only [Region.counts] at hrequired hreadonly <;> omega

end GainsKey

/-! ## Moves compose -/

theorem Keeps.refl (m : Message) : m.Keeps m id where
  strictMono := strictMono_id
  getElem?_keys _ := rfl
  loaded_place _ := rfl
  signer_iff _ := Iff.rfl
  isWritable_eq _ := rfl

theorem Keeps.trans {place place' : Nat → Nat} (h : m.Keeps m' place) (h' : m'.Keeps m'' place') :
    m.Keeps m'' (place' ∘ place) where
  strictMono := h'.strictMono.comp h.strictMono
  getElem?_keys index := (h'.getElem?_keys (place index)).trans (h.getElem?_keys index)
  loaded_place position := by rw [Function.comp_apply, h.loaded_place, h'.loaded_place]
  signer_iff index := (h'.signer_iff (place index)).trans (h.signer_iff index)
  isWritable_eq index := (h'.isWritable_eq (place index)).trans (h.isWritable_eq index)

/-- Instructions have no part in it. -/
theorem Keeps.withInstructions {place : Nat → Nat} (h : m.Keeps m' place)
    (instructions : List CompiledInstruction) : m.Keeps { m' with instructions } place :=
  ⟨h.strictMono, h.getElem?_keys, h.loaded_place, h.signer_iff, h.isWritable_eq⟩

/-- Growing keeps all accounts and changes no view. -/
theorem Grows.exists_keeps (h : m.Grows m') (hm : m.WellFormed) :
    ∃ place, m.Keeps m' place ∧ m'.view = m.view ∧ m'.blockhash = m.blockhash ∧
      (m.HasWritableSigner → m'.HasWritableSigner ∧ place 0 = 0) := by
  induction h with
  | refl => exact ⟨id, .refl m, rfl, rfl, fun hsigner => ⟨hsigner, rfl⟩⟩
  | tail hgrows hstep ih =>
    obtain ⟨place, hkeeps, hview, hblockhash, hfirst⟩ := ih
    obtain ⟨region, inserted, address, hgains, hend⟩ := hstep
    have hmid := Grows.wellFormed hgrows hm
    refine ⟨placeAfter inserted.toNat ∘ place, hkeeps.trans (hgains.keeps hmid), ?_, ?_, ?_⟩
    · rw [hgains.view_eq hmid, hview]
    · rw [hgains.blockhash_eq, hblockhash]
    · intro hsigner
      obtain ⟨hmidSigner, hzero⟩ := hfirst hsigner
      refine ⟨hgains.hasWritableSigner hmidSigner, ?_⟩
      rw [Function.comp_apply, hzero, hgains.place_zero hend hmid hmidSigner]

/-! ## Instructions -/

theorem view_withInstruction (m : Message) (position : Nat) (ix : CompiledInstruction) :
    (m.withInstruction position ix).view = m.view.insertIdx position (m.resolved ix) :=
  List.map_insertIdx _ _ _ _

theorem view_withData (m : Message) (position : Nat) (data : List UInt8) :
    (m.withData position data).view = m.view.modify position fun ix => { ix with data } := by
  show (m.instructions.modify position fun ix => { ix with data }).map m.resolved =
    (m.instructions.map m.resolved).modify position fun ix => { ix with data }
  apply List.ext_getElem?
  intro place
  simp only [List.getElem?_map, List.getElem?_modify, Option.map_eq_map, Option.map_map]
  -- either way the instruction at `place` is resolved, and changed if it is the one
  apply Option.map_congr
  intro ix _
  by_cases hplace : position = place
  · simp only [Function.comp_apply, if_pos hplace, resolved]
  · simp only [Function.comp_apply, if_neg hplace]

end Message

/-! ## Commands -/

namespace EditCommand

variable {m m' : Message} {command : EditCommand}

/-- An instruction that makes a setting calls the compute budget program. -/
private theorem exists_of_findIdx? {α : Type} {sets : ComputeBudget → Option α} {position : Nat}
    (h : m.instructions.findIdx? (fun ix => (m.settingOf? ix >>= sets).isSome) = some position) :
    ∃ ix, m.instructions[position]? = some ix ∧ m.programOf? ix = some Known.computeBudget := by
  obtain ⟨hposition, hsets, -⟩ := List.findIdx?_eq_some_iff_getElem.mp h
  refine ⟨m.instructions[position], List.getElem?_eq_getElem hposition, ?_⟩
  by_contra hother
  simp [Message.settingOf?, hother] at hsets

/-- What is overwritten is an instruction for the compute budget. -/
theorem exists_of_overwrites? {position : Nat} {data : List UInt8}
    (h : command.overwrites? m = some (position, data)) :
    ∃ ix, m.instructions[position]? = some ix ∧ m.programOf? ix = some Known.computeBudget := by
  cases command with
  | setUnitPrice price =>
    obtain ⟨_, hfound, heq⟩ := Option.map_eq_some_iff.mp h
    obtain rfl := (Prod.mk.inj heq).1
    exact exists_of_findIdx? hfound
  | setUnitLimit units =>
    obtain ⟨_, hfound, heq⟩ := Option.map_eq_some_iff.mp h
    obtain rfl := (Prod.mk.inj heq).1
    exact exists_of_findIdx? hfound
  | pushAccount account => cases h
  | pushReadonly address => cases h
  | insertInstruction position ix => cases h
  | setFeePayer payer => cases h

/-- What a command leaves alone. -/
structure Frame (command : EditCommand) (m m' : Message) : Prop where
  /-- Every instruction is still there, in order, and refers to the same. -/
  view_sublist : (command.viewKept m).Sublist m'.view
  /-- Only an instruction for the compute budget gets other data. -/
  overwritten : ∀ position data, command.overwrites? m = some (position, data) →
    ∃ ix, m.instructions[position]? = some ix ∧ m.programOf? ix = some Known.computeBudget
  /-- Every account keeps its flags, and the first one its place. -/
  accounts : ∃ place, m.Keeps m' place ∧
    (m.HasWritableSigner → (∀ payer, command ≠ .setFeePayer payer) → place 0 = 0)
  format_eq : m'.format = m.format
  blockhash_eq : m'.blockhash = m.blockhash

theorem Effect.frame (h : Effect m command m') (hm : m.WellFormed) : Frame command m m' := by
  cases h with
  | grow hkeeps hgrows =>
    obtain ⟨place, haccounts, hview, hblockhash, hfirst⟩ := hgrows.exists_keeps hm
    refine ⟨?_, fun _ _ => exists_of_overwrites?, ?_, hgrows.format_eq, hblockhash⟩
    · rw [viewKept, hkeeps, hview]
    · exact ⟨place, haccounts, fun hsigner _ => (hfirst hsigner).2⟩
  | insert hkeeps hgrows position ix =>
    obtain ⟨place, haccounts, hview, hblockhash, hfirst⟩ := hgrows.exists_keeps hm
    refine ⟨?_, fun _ _ => exists_of_overwrites?, ?_, hgrows.format_eq, hblockhash⟩
    · rw [viewKept, hkeeps, Message.view_withInstruction, hview]
      exact List.sublist_insertIdx _ _ _
    · exact ⟨place, haccounts.withInstructions _, fun hsigner _ => (hfirst hsigner).2⟩
  | overwrite position data hoverwrites =>
    refine ⟨?_, fun _ _ => exists_of_overwrites?, ?_, rfl, rfl⟩
    · rw [viewKept, hoverwrites, Message.view_withData]
    · exact ⟨id, (Message.Keeps.refl m).withInstructions _, fun _ _ => rfl⟩
  | pay payer hgains =>
    refine ⟨?_, fun _ _ => exists_of_overwrites?, ?_, hgains.format_eq, hgains.blockhash_eq⟩
    · have hview : m'.view = m.view := hgains.view_eq hm
      rw [hview]
      exact List.Sublist.refl _
    · refine ⟨_, hgains.keeps hm, ?_⟩
      intro _ hcommand
      exact absurd rfl (hcommand payer)

/-- **What an edit leaves alone.**  An edit that succeeds on a well-formed
message leaves all instructions with their meaning, all accounts with their
flags, the lookups and the blockhash; and so does the insertion of an
instruction that fails part way, if there are few accounts. -/
theorem frame_of_run (hm : m.WellFormed)
    (h : command.run m = .ok () m' ∨
      ∃ position ix reason, command = .insertInstruction position ix ∧
        m.keys.length + m.loaded + ix.accounts.length ≤ 255 ∧
        command.run m = .error reason m') :
    Frame command m m' := by
  have heffect : Effect m command m' := by
    rcases h with hrun | ⟨position, ix, reason, rfl, hsmall, hrun⟩
    · exact effect_of_run_eq_ok hm hrun
    · exact .grow rfl (Edit.grows_of_insertInstruction_eq_error hm hsmall hrun)
  exact heffect.frame hm

/-- An insertion that puts three keys into the table of the sample, and one
that fails after the first of its keys. -/
theorem frame_of_sample :
    (∃ m', (insertInstruction 1
          ⟨.numbered 7, [.readSigned (.numbered 8), .write (.numbered 6)], [1]⟩).run .sample =
        .ok () m' ∧
      m'.keys = [.numbered 1, .numbered 2, .numbered 8, .numbered 3, .numbered 6, .numbered 4,
        .numbered 7] ∧
      Frame (insertInstruction 1
        ⟨.numbered 7, [.readSigned (.numbered 8), .write (.numbered 6)], [1]⟩) .sample m') ∧
    (∃ reason m', (insertInstruction 1
          ⟨.numbered 7, [.write (.numbered 6), .writeSigned (.numbered 3)], [1]⟩).run .sample =
        .error reason m' ∧
      m'.keys = [.numbered 1, .numbered 2, .numbered 3, .numbered 6, .numbered 4] ∧
      Frame (insertInstruction 1
        ⟨.numbered 7, [.write (.numbered 6), .writeSigned (.numbered 3)], [1]⟩) .sample m') := by
  have hsample : Message.sample.WellFormed := Message.sample_origin.wellFormed
  constructor
  · have hrun : (insertInstruction 1
        ⟨.numbered 7, [.readSigned (.numbered 8), .write (.numbered 6)], [1]⟩).run .sample =
        .ok () { Message.sample with
          header := { required := 3, readonlySigners := 2, readonlyOthers := 2 }
          keys := [.numbered 1, .numbered 2, .numbered 8, .numbered 3, .numbered 6, .numbered 4,
            .numbered 7]
          instructions :=
            [{ program := 5, accounts := [0, 1, 3, 7, 8], data := [7] },
              { program := 6, accounts := [2, 4], data := [1] }] } := rfl
    exact ⟨_, hrun, rfl, frame_of_run hsample (.inl hrun)⟩
  · have hrun : (insertInstruction 1
        ⟨.numbered 7, [.write (.numbered 6), .writeSigned (.numbered 3)], [1]⟩).run .sample =
        .error (.parameter (.flags (.numbered 3))) { Message.sample with
          keys := [.numbered 1, .numbered 2, .numbered 3, .numbered 6, .numbered 4]
          instructions := [{ program := 4, accounts := [0, 1, 2, 5, 6], data := [7] }] } := rfl
    exact ⟨_, _, hrun, rfl, frame_of_run hsample (.inr ⟨_, _, _, rfl, by decide, hrun⟩)⟩

end EditCommand

end SolanaWallet
