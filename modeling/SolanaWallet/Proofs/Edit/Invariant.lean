import SolanaWallet.Proofs.Edit.Command
import SolanaWallet.Proofs.Wire.Message

/-!
# Invariants of edits

A message comes about by reading or by compiling, and is then edited.  What
holds at its origin and is kept by the effect of every command holds after
every run; this induction is done once, in `of_runAll`.

Three invariants are shown.  A message stays well formed, which the other two
rest on; its keys stay distinct; and it has at most 256 keys that may be
written and do not sign.  The last keeps the table so short that its length is
written in two bytes.
-/

namespace SolanaWallet

/-- The address whose first byte is `n` and whose other bytes are zero. -/
def Address.numbered (n : UInt8) : Address := ⟨Block.fit 32 [n]⟩

namespace Message

/-- How a message comes about before it is edited. -/
inductive Origin (m : Message) : Prop
  | read (bytes : List UInt8) (h : deserialize bytes = .ok m)
  | compiled (instructions : List Instruction) (feePayer : Option Address) (blockhash : Blockhash)
      (v0 : Bool) (h : compile instructions feePayer blockhash v0 = .ok m)

theorem Origin.wellFormed {m : Message} (h : m.Origin) : m.WellFormed := by
  cases h with
  | read bytes h => exact (deserialize_eq_ok_iff_serialize.mp h).1
  | compiled instructions feePayer blockhash v0 h => exact wellFormed_of_compile h

/-- At most 256 keys lie in the region of those that may be written and do not
sign. -/
def HasFewWritable (m : Message) : Prop :=
  m.keys.length ≤ m.header.required.toNat + m.header.readonlyOthers.toNat + 256

/-! ## One more key -/

variable {m m' : Message}

/-- An invariant that every single key keeps is kept while a message grows. -/
theorem Grows.of_appendsKey {P : Message → Prop}
    (hkeeps : ∀ {m m' : Message}, m.WellFormed → P m → m.AppendsKey m' → P m')
    (h : m.Grows m') (hm : m.WellFormed) (hP : P m) : P m' := by
  induction h with
  | refl => exact hP
  | tail hgrows hstep ih => exact hkeeps (Grows.wellFormed hgrows hm) ih hstep

theorem AppendsKey.nodup (h : m.AppendsKey m') (hm : m.WellFormed) (hnodup : m.keys.Nodup) :
    m'.keys.Nodup := by
  obtain ⟨region, place, address, hgains, -⟩ := h
  exact hgains.nodup hm.1 hnodup

/-- The place of a new key is a byte, which bounds the one region that no
count of the header bounds. -/
theorem AppendsKey.hasFewWritable (h : m.AppendsKey m') (hm : m.WellFormed)
    (hfew : m.HasFewWritable) : m'.HasFewWritable := by
  obtain ⟨region, place, address, hgains, hend⟩ := h
  obtain ⟨hrequired, -, hothers⟩ := hgains.counts
  have hlength : m'.keys.length = m.keys.length + 1 := hgains.length_keys hm.1
  have hbyte : place.toNat < 256 := place.toNat_lt
  unfold HasFewWritable at hfew ⊢
  cases region <;> simp only [regionEnd, Region.counts] at hend hrequired hothers <;> omega

theorem Grows.nodup (h : m.Grows m') (hm : m.WellFormed) (hnodup : m.keys.Nodup) :
    m'.keys.Nodup :=
  h.of_appendsKey (fun hm hP hstep => hstep.nodup hm hP) hm hnodup

theorem Grows.hasFewWritable (h : m.Grows m') (hm : m.WellFormed) (hfew : m.HasFewWritable) :
    m'.HasFewWritable :=
  h.of_appendsKey (fun hm hP hstep => hstep.hasFewWritable hm hP) hm hfew

/-! ## Instructions -/

theorem WellFormed.withInstruction {position : Nat} {ix : CompiledInstruction} (hm : m.WellFormed)
    (hposition : position ≤ m.instructions.length) (hrange : ix.InRange m.accountCount) :
    (m.withInstruction position ix).WellFormed := by
  refine ⟨hm.1, ?_⟩
  intro ix' hmem
  rcases (List.mem_insertIdx hposition).mp hmem with rfl | hold
  · exact hrange
  · exact hm.2 ix' hold

/-- Other data leave the indices of an instruction alone. -/
theorem exists_of_mem_withData {position : Nat} {data : List UInt8} {ix' : CompiledInstruction}
    (h : ix' ∈ (m.withData position data).instructions) :
    ∃ ix ∈ m.instructions, ix'.indices = ix.indices := by
  obtain ⟨place, hplace⟩ := List.mem_iff_getElem?.mp h
  have hmodify : (m.instructions[place]?).map
      (fun ix => if position = place then { ix with data } else ix) = some ix' := by
    rw [← hplace]
    exact (List.getElem?_modify _ _ _ _).symm
  obtain ⟨ix, hix, hchanged⟩ := Option.map_eq_some_iff.mp hmodify
  refine ⟨ix, List.mem_of_getElem? hix, ?_⟩
  rw [← hchanged]
  split <;> rfl

theorem WellFormed.withData {position : Nat} {data : List UInt8} (hm : m.WellFormed) :
    (m.withData position data).WellFormed := by
  refine ⟨hm.1, ?_⟩
  intro ix' hmem index hindex
  obtain ⟨ix, hix, hindices⟩ := exists_of_mem_withData hmem
  exact hm.2 ix hix index (hindices ▸ hindex)

end Message

/-! ## Commands and runs -/

namespace EditCommand

variable {m m' : Message} {command : EditCommand} {commands : List EditCommand}

theorem Effect.wellFormed (h : Effect m command m') (hm : m.WellFormed) : m'.WellFormed := by
  cases h with
  | grow _ hgrows => exact hgrows.wellFormed hm
  | insert _ hgrows position ix hposition hrange =>
    exact (hgrows.wellFormed hm).withInstruction hposition hrange
  | overwrite position data _ => exact hm.withData
  | pay payer hgains => exact hgains.wellFormed hm

theorem Effect.nodup (h : Effect m command m') (hm : m.WellFormed) (hnodup : m.keys.Nodup) :
    m'.keys.Nodup := by
  cases h with
  | grow _ hgrows => exact hgrows.nodup hm hnodup
  | insert _ hgrows => exact hgrows.nodup hm hnodup
  | overwrite position data _ => exact hnodup
  | pay payer hgains => exact hgains.nodup hm.1 hnodup

theorem Effect.hasFewWritable (h : Effect m command m') (hm : m.WellFormed)
    (hfew : m.HasFewWritable) : m'.HasFewWritable := by
  cases h with
  | grow _ hgrows => exact hgrows.hasFewWritable hm hfew
  | insert _ hgrows => exact hgrows.hasFewWritable hm hfew
  | overwrite position data _ => exact hfew
  | pay payer hgains =>
    -- the payer signs
    obtain ⟨hrequired, -, hothers⟩ := hgains.counts
    have hlength := hgains.length_keys hm.1
    unfold Message.HasFewWritable at hfew ⊢
    simp only [Region.counts] at hrequired hothers
    omega

/-- Induction along a run: what the effects of commands keep, a run keeps, and
the message stays well formed. -/
theorem of_runAll {P : Message → Prop}
    (hkeeps : ∀ {m m' : Message} {command : EditCommand},
      m.WellFormed → P m → Effect m command m' → P m')
    (hm : m.WellFormed) (hP : P m) (h : runAll commands m = .ok () m') : m'.WellFormed ∧ P m' := by
  induction commands generalizing m with
  | nil =>
    obtain ⟨-, rfl⟩ := Edit.pure_eq_ok_iff.mp h
    exact ⟨hm, hP⟩
  | cons command rest ih =>
    obtain ⟨_, mid, hfirst, hrest⟩ := Edit.bind_eq_ok_iff.mp h
    have heffect : Effect m command mid := effect_of_run_eq_ok hm hfirst
    have hmid : mid.WellFormed := heffect.wellFormed hm
    exact ih hmid (hkeeps hm hP heffect) hrest

theorem wellFormed_of_runAll (hm : m.WellFormed) (h : runAll commands m = .ok () m') :
    m'.WellFormed :=
  (of_runAll (fun _ _ _ => trivial) hm trivial h).1

end EditCommand

namespace Message

variable {m m' : Message} {commands : List EditCommand}

/-- **Edits keep a message well formed.**  Whatever edits succeed on a message
that was read or compiled, its regions have room in its table, its indices are
in range, the differences of counts that the edits take are differences of a
count and a smaller one, and distinct keys stay distinct. -/
theorem wellFormed_of_edits (horigin : m.Origin) (h : EditCommand.runAll commands m = .ok () m') :
    m'.WellFormed ∧
      m'.header.readonlySigners.toNat ≤ m'.header.required.toNat ∧
      m'.header.readonlyOthers.toNat ≤ m'.keys.length ∧
      (m.keys.Nodup → m'.keys.Nodup) := by
  have hm : m.WellFormed := horigin.wellFormed
  have hm' : m'.WellFormed := (EditCommand.of_runAll (fun _ _ _ => trivial) hm trivial h).1
  refine ⟨hm', hm'.1.2.1, Nat.le_trans hm'.1.2.2 (Nat.sub_le _ _), ?_⟩
  intro hnodup
  exact (EditCommand.of_runAll (fun hm hP heffect => heffect.nodup hm hP) hm hnodup h).2

/-- A message with a key in each region and two loaded accounts, all of which
its instruction uses. -/
def sample : Message where
  header := { required := 2, readonlySigners := 1, readonlyOthers := 1 }
  keys := [.numbered 1, .numbered 2, .numbered 3, .numbered 4]
  blockhash := ⟨Block.fit 32 [9]⟩
  instructions := [{ program := 3, accounts := [0, 1, 2, 4, 5], data := [7] }]
  format := .v0 [{ table := .numbered 5, writable := [0], readonly := [8] }]

/-- Edits that put a key into each region. -/
def sampleEdits : List EditCommand :=
  [.pushAccount (.write (.numbered 6)),
    .insertInstruction 1 ⟨.numbered 7, [.readSigned (.numbered 8)], [1]⟩,
    .setUnitPrice 5, .setUnitPrice 6, .setFeePayer (.numbered 9)]

theorem sample_origin : sample.Origin :=
  .read _ (deserialize_eq_ok_iff_serialize.mpr ⟨by decide +kernel, by decide, rfl⟩)

theorem wellFormed_of_sampleEdits :
    ∃ m', EditCommand.runAll sampleEdits sample = .ok () m' ∧ m'.WellFormed ∧
      m'.header.readonlySigners.toNat ≤ m'.header.required.toNat ∧
      m'.header.readonlyOthers.toNat ≤ m'.keys.length ∧ m'.keys.Nodup := by
  have hsucceeds : (EditCommand.result? sampleEdits sample).isSome = true := by decide +kernel
  obtain ⟨m', hresult⟩ := Option.isSome_iff_exists.mp hsucceeds
  have hrun := EditCommand.result?_eq_some_iff.mp hresult
  obtain ⟨hm', hsigners, hothers, hnodup⟩ := wellFormed_of_edits sample_origin hrun
  exact ⟨m', hrun, hm', hsigners, hothers, hnodup (by decide)⟩

end Message

end SolanaWallet
