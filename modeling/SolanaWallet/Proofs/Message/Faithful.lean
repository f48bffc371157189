import SolanaWallet.Proofs.Message.KeyTable
import SolanaWallet.Proofs.Message.View

/-!
# A compiled message says what its instructions say

Compilation replaces addresses by places in the key table, and flags by the
part of the table in which a key stands.  Neither loses anything.

* `view_of_compile`: the places refer to the addresses they were made from, so
  the instructions can be read off the message;
* `lt_length_iff_mem_left`: as no key stands in the table twice, the part in
  which a place lies tells what the mentions of its key asked for.

A key signs or may be written in the message exactly if some instruction asks
for that, or it pays the fee; so nobody loses a privilege, and nobody gets one
that no instruction asked for.  The one thing that is not kept is a signer that
is only read: every signer of a compiled message may be written.
-/

namespace SolanaWallet

/-- The instruction with its addresses as references. -/
def Instruction.resolved (ix : Instruction) : ResolvedInstruction where
  program := .key ix.program
  accounts := ix.accounts.map fun account => .key account.address
  data := ix.data

/-- The message says what the instructions say, and gives an account the
privileges that they or the payment of the fee ask for, and no others. -/
structure Message.CarriesOut (m : Message) (instructions : List Instruction)
    (payer : Option Address) : Prop where
  wellFormed : m.WellFormed
  view_eq : m.view = instructions.map Instruction.resolved
  nodup : m.keys.Nodup
  mem_keys_iff : ∀ a, a ∈ m.keys ↔ KeyTable.IsMentioned instructions payer a
  signer_iff : ∀ index a, m.keys[index]? = some a →
    (index < m.header.signerCount ↔ KeyTable.MustSign instructions payer a)
  isWritable_iff : ∀ index a, m.keys[index]? = some a →
    (m.isWritable index = true ↔
      KeyTable.MustSign instructions payer a ∨ KeyTable.IsWritten instructions a)

/-! ## References -/

theorem map_eq_map_of_forall₂ {α β γ : Type} {R : α → β → Prop} {f : α → γ} {g : β → γ}
    {items : List α} {results : List β} (h : List.Forall₂ R items results)
    (hR : ∀ item result, R item result → g result = f item) : results.map g = items.map f := by
  induction h with
  | nil => rfl
  | cons hhead _ ih => rw [List.map_cons, List.map_cons, hR _ _ hhead, ih]

theorem getElem?_of_keyIndex {keys : List Address} {a : Address} {index : UInt8}
    (h : keyIndex keys a = .ok index) : keys[index.toNat]? = some a := by
  have hplace := keyIndex_eq_ok_iff.mp h
  obtain ⟨hlt, hkey, -⟩ := List.idxOf?_eq_some_iff.mp hplace
  exact List.getElem?_eq_some_iff.mpr ⟨hlt, hkey⟩

namespace Message

variable {m : Message} {instructions : List Instruction} {payer : Option Address}
  {blockhash : Blockhash} {v0 : Bool}

theorem resolve_of_keyIndex {a : Address} {index : UInt8} (h : keyIndex m.keys a = .ok index) :
    m.resolve index = .key a :=
  resolve_eq_key_iff.mpr (getElem?_of_keyIndex h)

theorem resolved_of_compile {ix : Instruction} {compiled : CompiledInstruction}
    (h : ix.compile m.keys = .ok compiled) : m.resolved compiled = ix.resolved := by
  obtain ⟨haccounts, hprogram, hdata⟩ := Instruction.compile_eq_ok_iff.mp h
  have hresolve : compiled.accounts.map m.resolve =
      ix.accounts.map fun account => Reference.key account.address :=
    map_eq_map_of_forall₂ haccounts fun _ _ haccount => resolve_of_keyIndex haccount
  simp only [resolved, Instruction.resolved, hresolve, resolve_of_keyIndex hprogram, hdata]

theorem view_of_compile (h : compile instructions payer blockhash v0 = .ok m) :
    m.view = instructions.map Instruction.resolved := by
  obtain ⟨-, hcompiled, -, -⟩ := compile_eq_ok_iff.mp h
  exact map_eq_map_of_forall₂ hcompiled fun _ _ hix => resolved_of_compile hix

/-! ## Privileges -/

/-- In a list without repetitions the place of an item tells on which side it
stands. -/
theorem lt_length_iff_mem_left {first second : List Address} {index : Nat} {a : Address}
    (hnodup : (first ++ second).Nodup) (ha : (first ++ second)[index]? = some a) :
    index < first.length ↔ a ∈ first := by
  constructor
  · intro hlt
    rw [List.getElem?_append_left hlt] at ha
    exact List.mem_of_getElem? ha
  · intro hmem
    by_contra hge
    rw [List.getElem?_append_right (Nat.le_of_not_lt hge)] at ha
    have hdisjoint := (List.nodup_append.mp hnodup).2.2
    exact hdisjoint a hmem a (List.mem_of_getElem? ha) rfl

/-- The parts of the table are the regions of the message. -/
theorem counts_of_compile (h : compile instructions payer blockhash v0 = .ok m) :
    m.keys = (KeyTable.inPasses instructions payer).keys ∧
      m.header.signerCount = (KeyTable.inPasses instructions payer).signers.length ∧
      ∀ index, m.isWritable index = true ↔
        index < (KeyTable.inPasses instructions payer).signers.length +
          (KeyTable.inPasses instructions payer).writable.length := by
  obtain ⟨hkeys, -⟩ := compile_eq_ok_iff.mp h
  obtain ⟨hheader, hkeys⟩ := compileKeys_eq_ok_iff.mp hkeys
  rw [KeyTable.ofInstructions_eq_inPasses] at hheader hkeys
  obtain ⟨-, hrequired, hzero, hothers⟩ := KeyTable.header_eq_ok_iff.mp hheader
  have hlength := KeyTable.length_keys (KeyTable.inPasses instructions payer)
  refine ⟨hkeys.symm, hrequired.symm, fun index => ?_⟩
  have hnone : m.header.readonlySigners.toNat = 0 := by rw [hzero]; rfl
  rw [isWritable, Header.writableAt, ← hkeys]
  split <;> rw [decide_eq_true_iff] <;> omega

theorem carriesOut_of_compile (h : compile instructions payer blockhash v0 = .ok m) :
    m.CarriesOut instructions payer := by
  obtain ⟨hkeys, hsigners, hwritable⟩ := counts_of_compile h
  have hnodup : m.keys.Nodup := hkeys ▸ KeyTable.nodup_keys_inPasses instructions payer
  refine ⟨wellFormed_of_compile h, view_of_compile h, hnodup, ?_, ?_, ?_⟩
  · intro a
    rw [hkeys]
    exact KeyTable.mem_keys_inPasses
  · intro index a ha
    rw [hkeys, KeyTable.keys, List.append_assoc] at ha hnodup
    rw [hsigners, lt_length_iff_mem_left hnodup ha, KeyTable.mem_signers_inPasses]
  · intro index a ha
    rw [hkeys, KeyTable.keys] at ha hnodup
    rw [hwritable, ← List.length_append, lt_length_iff_mem_left hnodup ha, List.mem_append,
      KeyTable.mem_signers_inPasses, KeyTable.mem_writable_inPasses]
    tauto

/-- **Compilation is faithful.** It succeeds exactly if there is a key table,
as every index into that table can be made; and the message carries out the
instructions. -/
theorem compile_faithful (instructions : List Instruction) (payer : Option Address)
    (blockhash : Blockhash) (v0 : Bool) :
    ((∃ m, compile instructions payer blockhash v0 = .ok m) ↔
      ∃ table, compileKeys instructions payer = .ok table) ∧
    (∀ header keys, compileKeys instructions payer = .ok (header, keys) →
      ∃ calls, compileInstructions instructions keys = .ok calls) ∧
    ∀ m, compile instructions payer blockhash v0 = .ok m →
      compileKeys instructions payer = .ok (m.header, m.keys) ∧ m.blockhash = blockhash ∧
        m.format = (if v0 then .v0 [] else .legacy) ∧ m.CarriesOut instructions payer := by
  refine ⟨⟨?_, ?_⟩, ?_, ?_⟩
  · rintro ⟨m, hm⟩
    exact ⟨_, (compile_eq_ok_iff.mp hm).1⟩
  · rintro ⟨⟨header, keys⟩, hkeys⟩
    obtain ⟨m, hm, -⟩ := exists_compile_of_compileKeys blockhash v0 hkeys
    exact ⟨m, hm⟩
  · intro header keys hkeys
    obtain ⟨m, hm, -, rfl⟩ := exists_compile_of_compileKeys blockhash v0 hkeys
    obtain ⟨-, hcompiled, -, -⟩ := compile_eq_ok_iff.mp hm
    exact ⟨m.instructions, mapM_eq_ok_iff_forall₂.mpr hcompiled⟩
  · intro m hm
    obtain ⟨hkeys, -, hblockhash, hformat⟩ := compile_eq_ok_iff.mp hm
    exact ⟨hkeys, hblockhash, hformat, carriesOut_of_compile hm⟩

end Message

end SolanaWallet
