import SolanaWallet.Proofs.Edit.Invariant
import SolanaWallet.Proofs.Message.Faithful

/-!
# Editing instead of compiling again

A compiled message can be edited, or its instructions can be changed and then
compiled again.  For the two changes that add at most one key at an end of the
table it makes no difference which is done.

The compiler makes its table from a list of mentions, and each of the two
changes is one more mention.  An instruction without accounts mentions its
program after everything else (`ofInstructions_append`), and a fee payer is
mentioned before everything else, so it leads a table in which nobody mentions
it again (`ofInstructions_lead`).  Three facts make the edit do what the
mention does:

* `GainsKey.compileInstructions_eq_ok`: with one more key in the table the same
  instructions compile to the ones whose indices were moved;
* `header_eq_ok_iff_grow`: one more key breaks a limit of the compiler exactly
  if the table is full or a count is;
* `CarriesOut.exists_index_eq`: every place of a table without a fee payer is an
  index of some instruction.  A full table has the place 255, and an edit in
  front of it fails because this index cannot be moved.
-/

namespace SolanaWallet

/-! ## Compiling against one more key -/

theorem forall₂_map_of_forall₂ {α β γ : Type} {R : α → β → Prop} {S : α → γ → Prop} {g : β → γ}
    {items : List α} {results : List β} (h : List.Forall₂ R items results)
    (hg : ∀ item, ∀ result ∈ results, R item result → S item (g result)) :
    List.Forall₂ S items (results.map g) := by
  induction h with
  | nil => exact .nil
  | cons hhead _ ih =>
    refine .cons (hg _ _ List.mem_cons_self hhead) (ih fun item result hresult => ?_)
    exact hg item result (List.mem_cons_of_mem _ hresult)

namespace Message.GainsKey

variable {m m' : Message} {region : Region} {place : UInt8} {address : Address}

theorem keyIndex_eq_ok (h : m.GainsKey region place address m')
    (hfits : m.header.Fits m.keys.length) {a : Address} {index : UInt8}
    (hroom : SolanaWallet.IndexRoom place index) (ha : keyIndex m.keys a = .ok index) :
    keyIndex m'.keys a = .ok (indexAfter place index) := by
  rw [keyIndex_eq_ok_iff] at ha ⊢
  rw [toNat_indexAfter hroom]
  exact h.idxOf?_keys hfits ha

theorem compile_eq_ok (h : m.GainsKey region place address m')
    (hfits : m.header.Fits m.keys.length) {ix : Instruction} {compiled : CompiledInstruction}
    (hroom : ∀ index ∈ compiled.indices, SolanaWallet.IndexRoom place index)
    (hix : ix.compile m.keys = .ok compiled) :
    ix.compile m'.keys = .ok (compiled.after place) := by
  obtain ⟨haccounts, hprogram, hdata⟩ := Instruction.compile_eq_ok_iff.mp hix
  have hprogramRoom : SolanaWallet.IndexRoom place compiled.program :=
    hroom _ List.mem_cons_self
  refine Instruction.compile_eq_ok_iff.mpr
    ⟨forall₂_map_of_forall₂ haccounts ?_, h.keyIndex_eq_ok hfits hprogramRoom hprogram, hdata⟩
  intro account index hindex haccount
  exact h.keyIndex_eq_ok hfits (hroom index (List.mem_cons_of_mem _ hindex)) haccount

/-- The instructions of a message are moved to where the compiler would have
put them if the key had been in the table. -/
theorem compileInstructions_eq_ok (h : m.GainsKey region place address m')
    (hfits : m.header.Fits m.keys.length) {instructions : List Instruction}
    (hcompiled : compileInstructions instructions m.keys = .ok m.instructions) :
    compileInstructions instructions m'.keys = .ok m'.instructions := by
  have hmoved : m'.instructions = m.instructions.map (·.after place) := by
    rw [h.eq_withKey]
    rfl
  rw [hmoved]
  refine mapM_eq_ok_iff_forall₂.mpr
    (forall₂_map_of_forall₂ (mapM_eq_ok_iff_forall₂.mp hcompiled) ?_)
  intro ix compiled hmem hix
  exact h.compile_eq_ok hfits (h.indexRoom compiled hmem) hix

end Message.GainsKey

/-! ## One more mention -/

theorem Header.ext_toNat {h h' : Header} (hrequired : h.required.toNat = h'.required.toNat)
    (hsigners : h.readonlySigners.toNat = h'.readonlySigners.toNat)
    (hothers : h.readonlyOthers.toNat = h'.readonlyOthers.toNat) : h = h' := by
  cases h
  cases h'
  rw [Header.mk.injEq]
  exact ⟨UInt8.toNat_inj.mp hrequired, UInt8.toNat_inj.mp hsigners, UInt8.toNat_inj.mp hothers⟩

namespace KeyTable

variable {t t' : KeyTable} {a p : Address} {instructions : List Instruction}
  {payer : Option Address} {ix : Instruction}

/-- An instruction without accounts is mentioned last. -/
theorem ofInstructions_append (hnone : ix.accounts = []) :
    ofInstructions (instructions ++ [ix]) payer =
      (ofInstructions instructions payer).mention (.read ix.program) := by
  have hmentions : mentions (instructions ++ [ix]) payer =
      mentions instructions payer ++ [.read ix.program] := by
    simp [mentions, hnone]
  rw [ofInstructions, hmentions, List.foldl_append, List.foldl_cons, List.foldl_nil, ofInstructions]

theorem mention_read_of_mem (h : a ∈ t.keys) : t.mention (.read a) = t := by
  have hlisted : a ∈ t.signers ∨ a ∈ t.writable ∨ a ∈ t.readonly := mem_keys.mp h
  simp [mention, AccountMeta.read, hlisted]

/-- The table with one more key behind all others. -/
def trail (t : KeyTable) (p : Address) : KeyTable := { t with readonly := t.readonly ++ [p] }

/-- The table with one more signer in front. -/
def lead (t : KeyTable) (p : Address) : KeyTable := { t with signers := p :: t.signers }

@[simp] theorem keys_trail (t : KeyTable) (p : Address) : (t.trail p).keys = t.keys ++ [p] :=
  (List.append_assoc _ _ _).symm

@[simp] theorem keys_lead (t : KeyTable) (p : Address) : (t.lead p).keys = p :: t.keys := rfl

theorem mention_read_of_not_mem (h : a ∉ t.keys) : t.mention (.read a) = t.trail a := by
  have hnew : ¬ (a ∈ t.signers ∨ a ∈ t.writable ∨ a ∈ t.readonly) := mt mem_keys.mpr h
  simp [mention, AccountMeta.read, hnew, trail]

theorem mention_lead {account : AccountMeta} (h : account.address ≠ p) :
    (t.lead p).mention account = (t.mention account).lead p := by
  obtain ⟨a, signer, writable⟩ := account
  have ha : a ≠ p := h
  cases signer with
  | true =>
    simp only [mention, lead, if_true, List.mem_cons, ha, false_or]
    split <;> rfl
  | false => cases writable <;> simp [mention, lead, ha]

theorem foldl_mention_lead {accounts : List AccountMeta} (h : p ∉ accounts.map (·.address)) :
    accounts.foldl mention (t.lead p) = (accounts.foldl mention t).lead p := by
  induction accounts generalizing t with
  | nil => rfl
  | cons account rest ih =>
    rw [List.map_cons, List.mem_cons, not_or] at h
    rw [List.foldl_cons, List.foldl_cons, mention_lead (Ne.symm h.1), ih h.2]

/-- A fee payer that takes no other part leads the table of the others. -/
theorem ofInstructions_lead (h : ¬ IsMentioned instructions none p) :
    ofInstructions instructions (some p) = (ofInstructions instructions none).lead p := by
  have hothers : p ∉ (mentions instructions none).map (·.address) := by
    rwa [← mem_keys_ofInstructions, ofInstructions_eq_inPasses, mem_keys_inPasses]
  have hfirst : empty.mention (.writeSigned p) = empty.lead p := by
    simp [mention, AccountMeta.writeSigned, lead, empty]
  have hmentions : mentions instructions (some p) =
      .writeSigned p :: mentions instructions none := rfl
  rw [ofInstructions, hmentions, List.foldl_cons, hfirst, foldl_mention_lead hothers,
    ofInstructions]

/-- A table with one more key has a header exactly if the counts have room for
that key and its place is a byte. -/
theorem header_eq_ok_iff_grow {region : Region} {header header' : Header}
    (h : t.header = .ok header) (hregion : region.counts.2.1 = 0)
    (hkeys : t'.keys.length = t.keys.length + 1)
    (hsigners : t'.signers.length = t.signers.length + region.counts.1)
    (hreadonly : t'.readonly.length = t.readonly.length + region.counts.2.2) :
    t'.header = .ok header' ↔
      t.keys.length < 256 ∧ header.HasRoom region ∧ header' = header.grow region := by
  obtain ⟨-, hrequired, hzero, hothers⟩ := header_eq_ok_iff.mp h
  rw [header_eq_ok_iff, hkeys, hsigners, hreadonly, hrequired, hothers]
  have hbyte := header'.required.toNat_lt
  have hbyte' := header'.readonlyOthers.toNat_lt
  constructor
  · intro hparts
    obtain ⟨hlength, hrequired', hzero', hothers'⟩ := hparts
    have hfull : (255 : UInt8).toNat = 255 := rfl
    have hroom : header.HasRoom region := by
      cases region with
      | writableSigners =>
        intro heq
        simp only [Region.counts, heq] at hrequired'
        omega
      | readonlySigners => cases hregion
      | writableOthers => trivial
      | readonlyOthers =>
        intro heq
        simp only [Region.counts, heq] at hothers'
        omega
    obtain ⟨hgrown, hgrown', hgrown''⟩ := hroom.counts_grow
    exact ⟨hlength, hroom, Header.ext_toNat (by omega) (by rw [hzero', hgrown', hzero, hregion]; rfl)
      (by omega)⟩
  · intro hparts
    obtain ⟨hlength, hroom, rfl⟩ := hparts
    obtain ⟨hgrown, hgrown', hgrown''⟩ := hroom.counts_grow
    have hnone : (header.grow region).readonlySigners = 0 :=
      UInt8.toNat_inj.mp (by rw [hgrown', hzero, hregion]; rfl)
    exact ⟨hlength, hgrown.symm, hnone, hgrown''.symm⟩

theorem header_trail_eq_ok_iff {header header' : Header} (h : t.header = .ok header) :
    (t.trail p).header = .ok header' ↔
      t.keys.length < 256 ∧ header.HasRoom .readonlyOthers ∧
        header' = header.grow .readonlyOthers := by
  apply header_eq_ok_iff_grow h rfl
  · rw [keys_trail, List.length_append, List.length_singleton]
  · rfl
  · exact List.length_append

theorem header_lead_eq_ok_iff {header header' : Header} (h : t.header = .ok header) :
    (t.lead p).header = .ok header' ↔
      t.keys.length < 256 ∧ header.HasRoom .writableSigners ∧
        header' = header.grow .writableSigners :=
  header_eq_ok_iff_grow h rfl rfl rfl rfl

end KeyTable

namespace Message

variable {m m' mid : Message} {instructions : List Instruction} {payer : Option Address}
  {blockhash : Blockhash} {v0 : Bool} {ix : Instruction} {program : UInt8} {p : Address}

/-! ## An instruction at the end -/

/-- In a compiled message nothing refers to what comes behind the keys. -/
theorem indexRoom_of_compile (h : compile instructions payer blockhash v0 = .ok m) {place : UInt8}
    (hplace : m.keys.length ≤ place.toNat) : m.IndexRoom place := by
  intro compiled hcompiled index hindex hle
  have hlt := lt_length_of_compile h hcompiled hindex
  have hle' : place.toNat ≤ index.toNat := UInt8.le_iff_toNat_le.mp hle
  omega

theorem compileInstructions_of_compile (h : compile instructions payer blockhash v0 = .ok m) :
    compileInstructions instructions m.keys = .ok m.instructions :=
  mapM_eq_ok_iff_forall₂.mpr (compile_eq_ok_iff.mp h).2.1

/-- A program that the edit lets in is one that the compiler lets in. -/
theorem compileKeys_of_pushReadonly (hnone : ix.accounts = [])
    (h : compile instructions payer blockhash v0 = .ok m)
    (hpush : Edit.pushReadonly ix.program m = .ok program mid) :
    compileKeys (instructions ++ [ix]) payer = .ok (mid.header, mid.keys) := by
  obtain ⟨hheader, hkeys⟩ := compileKeys_eq_ok_iff.mp (compile_eq_ok_iff.mp h).1
  rw [compileKeys_eq_ok_iff, KeyTable.ofInstructions_append hnone]
  rcases Edit.pushReadonly_eq_ok_iff.mp hpush with
    ⟨hlisted, rfl⟩ | ⟨hfresh, hend, hcount, -, rfl⟩
  · have hmem : ix.program ∈ (KeyTable.ofInstructions instructions payer).keys := by
      rw [hkeys]
      exact mem_of_idxOf? hlisted
    rw [KeyTable.mention_read_of_mem hmem]
    exact ⟨hheader, hkeys⟩
  · rw [KeyTable.mention_read_of_not_mem (hkeys ▸ hfresh), KeyTable.keys_trail,
      KeyTable.header_trail_eq_ok_iff hheader, hkeys]
    have hlast : m.keys ++ [ix.program] = m.keys.insertIdx program.toNat ix.program := by
      rw [← hend, List.insertIdx_length_self]
    exact ⟨⟨hend ▸ program.toNat_lt, hcount, rfl⟩, hlast⟩

theorem exists_pushReadonly_of_compileKeys (hnone : ix.accounts = [])
    (h : compile instructions payer blockhash v0 = .ok m) {header : Header} {keys : List Address}
    (hkeys' : compileKeys (instructions ++ [ix]) payer = .ok (header, keys)) :
    ∃ program mid, Edit.pushReadonly ix.program m = .ok program mid := by
  obtain ⟨hheader, hkeys⟩ := compileKeys_eq_ok_iff.mp (compile_eq_ok_iff.mp h).1
  have hlength := length_keys_le_of_compile h
  cases hlisted : m.keys.idxOf? ix.program with
  | some place =>
    have hlt : place < m.keys.length := (List.idxOf?_eq_some_iff.mp hlisted).1
    have hplace : (UInt8.ofNat place).toNat = place :=
      UInt8.toNat_ofNat_of_lt' (Nat.lt_of_lt_of_le hlt hlength)
    exact ⟨_, m, Edit.pushReadonly_eq_ok_iff.mpr (.inl ⟨by rw [hlisted, hplace], rfl⟩)⟩
  | none =>
    have hfresh : ix.program ∉ m.keys := List.idxOf?_eq_none_iff.mp hlisted
    obtain ⟨hheader', -⟩ := compileKeys_eq_ok_iff.mp hkeys'
    rw [KeyTable.ofInstructions_append hnone, KeyTable.mention_read_of_not_mem (hkeys ▸ hfresh),
      KeyTable.header_trail_eq_ok_iff hheader, hkeys] at hheader'
    obtain ⟨hroom, hcount, -⟩ := hheader'
    have hplace : (UInt8.ofNat m.keys.length).toNat = m.keys.length :=
      UInt8.toNat_ofNat_of_lt' hroom
    exact ⟨_, _, Edit.pushReadonly_eq_ok_iff.mpr
      (.inr ⟨hfresh, hplace.symm, hcount, indexRoom_of_compile h (Nat.le_of_eq hplace.symm), rfl⟩)⟩

theorem compile_append_of_pushReadonly (hnone : ix.accounts = [])
    (h : compile instructions payer blockhash v0 = .ok m)
    (hpush : Edit.pushReadonly ix.program m = .ok program mid) :
    compile (instructions ++ [ix]) payer blockhash v0 =
      .ok (mid.withInstruction m.instructions.length
        { program, accounts := [], data := ix.data }) := by
  have hkeys := compileKeys_of_pushReadonly hnone h hpush
  have hprogram : keyIndex mid.keys ix.program = .ok program :=
    keyIndex_eq_ok_iff.mpr (Edit.idxOf?_of_pushReadonly hpush)
  have hlast : ix.compile mid.keys = .ok { program, accounts := [], data := ix.data } := by
    refine Instruction.compile_eq_ok_iff.mpr ⟨?_, hprogram, rfl⟩
    rw [hnone]
    exact .nil
  obtain ⟨-, -, hblockhash, hformat⟩ := compile_eq_ok_iff.mp h
  have hothers : compileInstructions instructions mid.keys = .ok mid.instructions ∧
      mid.instructions.length = m.instructions.length ∧ mid.blockhash = m.blockhash ∧
      mid.format = m.format := by
    have hcompiled := compileInstructions_of_compile h
    rcases Edit.gainsKey_of_pushReadonly hpush with ⟨-, rfl⟩ | ⟨hgains, -⟩
    · exact ⟨hcompiled, rfl, rfl, rfl⟩
    · exact ⟨hgains.compileInstructions_eq_ok (wellFormed_of_compile h).1 hcompiled,
        (Edit.grows_of_pushReadonly hpush).1.length_instructions, hgains.blockhash_eq,
        hgains.format_eq⟩
  obtain ⟨hcompiled, hlength, hblockhash', hformat'⟩ := hothers
  refine compile_eq_ok_iff.mpr ⟨hkeys, ?_, hblockhash'.trans hblockhash, hformat'.trans hformat⟩
  show List.Forall₂ _ (instructions ++ [ix]) (mid.instructions.insertIdx m.instructions.length _)
  rw [← hlength, List.insertIdx_length_self]
  exact List.rel_append (mapM_eq_ok_iff_forall₂.mp hcompiled) (.cons hlast .nil)

/-- An instruction without accounts needs no more than its program. -/
theorem insertInstruction_eq_ok_iff_of_no_accounts (hnone : ix.accounts = []) :
    Edit.insertInstruction m.instructions.length ix m = .ok () m' ↔
      ∃ program mid, Edit.pushReadonly ix.program m = .ok program mid ∧
        m' = mid.withInstruction m.instructions.length
          { program, accounts := [], data := ix.data } := by
  rw [Edit.insertInstruction_eq_ok_iff, and_iff_right (Nat.le_refl _), hnone]
  constructor
  · intro hparts
    obtain ⟨accounts, listed, program, mid, haccounts, hprogram, heq⟩ := hparts
    obtain ⟨rfl, rfl⟩ := Edit.pure_eq_ok_iff.mp haccounts
    exact ⟨program, mid, hprogram, heq⟩
  · intro hparts
    obtain ⟨program, mid, hprogram, heq⟩ := hparts
    exact ⟨[], m, program, mid, rfl, hprogram, heq⟩

theorem insertInstruction_eq_ok_iff_compile (hnone : ix.accounts = [])
    (h : compile instructions payer blockhash v0 = .ok m) :
    Edit.insertInstruction m.instructions.length ix m = .ok () m' ↔
      compile (instructions ++ [ix]) payer blockhash v0 = .ok m' := by
  rw [insertInstruction_eq_ok_iff_of_no_accounts hnone]
  constructor
  · intro hparts
    obtain ⟨program, mid, hpush, rfl⟩ := hparts
    exact compile_append_of_pushReadonly hnone h hpush
  · intro hcompile
    obtain ⟨program, mid, hpush⟩ :=
      exists_pushReadonly_of_compileKeys hnone h (compile_eq_ok_iff.mp hcompile).1
    -- the edit succeeds, and leads to the only message that can be compiled
    have hedited := compile_append_of_pushReadonly hnone h hpush
    exact ⟨program, mid, hpush, Except.ok.inj (hcompile.symm.trans hedited)⟩

theorem insertSetting_eq_insertInstruction (m : Message) (setting : ComputeBudget) :
    Edit.insertSetting m.instructions.length setting m =
      Edit.insertInstruction m.instructions.length setting.instruction m := by
  rw [Edit.insertInstruction, Edit.get_bind, if_neg (Nat.lt_irrefl _)]
  rfl

end Message

/-- The compute budget setting that an instruction makes. -/
def Instruction.setting? (ix : Instruction) : Option ComputeBudget :=
  if ix.program = Known.computeBudget then ComputeBudget.ofData? ix.data else none

namespace Message

variable {m m' : Message} {instructions : List Instruction} {payer : Option Address}
  {blockhash : Blockhash} {v0 : Bool} {ix : Instruction} {p : Address}

theorem settingOf?_of_compile {compiled : CompiledInstruction}
    (h : ix.compile m.keys = .ok compiled) : m.settingOf? compiled = ix.setting? := by
  obtain ⟨-, hprogram, hdata⟩ := Instruction.compile_eq_ok_iff.mp h
  have hkey : m.programOf? compiled = some ix.program := getElem?_of_keyIndex hprogram
  simp only [settingOf?, Instruction.setting?, hkey, hdata, Option.some.injEq]

theorem pricePosition?_of_compile (h : compile instructions payer blockhash v0 = .ok m)
    (hunpriced : ∀ ix ∈ instructions, ∀ price, ix.setting? ≠ some (.unitPrice price)) :
    m.pricePosition? = none := by
  rw [pricePosition?, List.findIdx?_eq_none_iff]
  intro compiled hcompiled
  obtain ⟨ix, hix, hcompile⟩ := exists_of_mem_results (compile_eq_ok_iff.mp h).2.1 hcompiled
  rw [settingOf?_of_compile hcompile]
  cases hsetting : ix.setting? with
  | none => rfl
  | some setting =>
    cases setting with
    | unitLimit units => rfl
    | unitPrice price => exact absurd hsetting (hunpriced ix hix price)

/-- **Appending is recompiling.**  An instruction without accounts can be put
at the end of a compiled message exactly if the instructions can be compiled
with it, and the message is the same; and so can a price, if none of the
instructions sets one. -/
theorem insert_last_eq_recompile (h : compile instructions payer blockhash v0 = .ok m) :
    (∀ ix m', ix.accounts = [] →
      (Edit.insertInstruction m.instructions.length ix m = .ok () m' ↔
        compile (instructions ++ [ix]) payer blockhash v0 = .ok m')) ∧
    ((∀ ix ∈ instructions, ∀ price, ix.setting? ≠ some (.unitPrice price)) →
      ∀ price m', (Edit.setUnitPrice price m = .ok () m' ↔
        compile (instructions ++ [(ComputeBudget.unitPrice price).instruction]) payer blockhash v0 =
          .ok m')) := by
  refine ⟨fun ix m' hnone => insertInstruction_eq_ok_iff_compile hnone h, ?_⟩
  intro hunpriced price m'
  rw [Edit.setUnitPrice_of_none (pricePosition?_of_compile h hunpriced),
    insertSetting_eq_insertInstruction]
  exact insertInstruction_eq_ok_iff_compile rfl h

/-- An instruction that one account signs. -/
def sampleCall : Instruction := ⟨.numbered 7, [.writeSigned (.numbered 1)], [2]⟩

/-- The message that the call by itself is compiled to. -/
def sampleCallMessage : Message where
  header := { required := 1, readonlySigners := 0, readonlyOthers := 1 }
  keys := [.numbered 1, .numbered 7]
  blockhash := ⟨Block.zero 32⟩
  instructions := [{ program := 1, accounts := [0], data := [2] }]
  format := .legacy

theorem compile_sampleCall :
    compile [sampleCall] none ⟨Block.zero 32⟩ false = .ok sampleCallMessage := rfl

/-- A program that is new to the message, and then a price. -/
theorem insert_last_of_sampleCall :
    compile [sampleCall] none ⟨Block.zero 32⟩ false = .ok sampleCallMessage ∧
      (∃ m', Edit.insertInstruction 1 ⟨.numbered 8, [], [3]⟩ sampleCallMessage = .ok () m' ∧
        compile [sampleCall, ⟨.numbered 8, [], [3]⟩] none ⟨Block.zero 32⟩ false = .ok m') ∧
      ∃ m', Edit.setUnitPrice 5 sampleCallMessage = .ok () m' ∧
        compile [sampleCall, (ComputeBudget.unitPrice 5).instruction] none ⟨Block.zero 32⟩ false =
          .ok m' := by
  obtain ⟨hinsert, hprice⟩ := insert_last_eq_recompile compile_sampleCall
  have hunpriced : ∀ ix ∈ [sampleCall], ∀ price, ix.setting? ≠ some (.unitPrice price) := by
    intro ix hix price hsetting
    obtain rfl := List.mem_singleton.mp hix
    cases hsetting.symm.trans (rfl : sampleCall.setting? = none)
  exact ⟨compile_sampleCall, ⟨_, rfl, (hinsert _ _ rfl).mp rfl⟩,
    ⟨_, rfl, (hprice hunpriced _ _).mp rfl⟩⟩

/-! ## A fee payer in front -/

/-- Every key of a message is there for some instruction, unless it was added
to pay the fee. -/
theorem CarriesOut.exists_index_eq (h : m.CarriesOut instructions none) {place : Nat}
    (hplace : place < m.keys.length) :
    ∃ compiled ∈ m.instructions, ∃ index ∈ compiled.indices, index.toNat = place := by
  have hresolves : ∃ compiled ∈ m.instructions, ∃ index ∈ compiled.indices,
      m.resolve index = .key m.keys[place] := by
    rcases (h.mem_keys_iff _).mp (List.getElem_mem hplace) with hpayer | ⟨ix, hix, hmention⟩
    · cases hpayer
    have hview : ix.resolved ∈ m.view := h.view_eq ▸ List.mem_map_of_mem hix
    obtain ⟨compiled, hcompiled, hresolved⟩ := List.mem_map.mp hview
    refine ⟨compiled, hcompiled, ?_⟩
    rcases hmention with hprogram | ⟨account, haccount, haddress⟩
    · refine ⟨compiled.program, List.mem_cons_self, ?_⟩
      rw [← hprogram]
      exact congrArg ResolvedInstruction.program hresolved
    · have hmem : Reference.key m.keys[place] ∈ (m.resolved compiled).accounts := by
        rw [hresolved, ← haddress]
        exact List.mem_map_of_mem haccount
      obtain ⟨index, hindex, hresolve⟩ := List.mem_map.mp hmem
      exact ⟨index, List.mem_cons_of_mem _ hindex, hresolve⟩
  obtain ⟨compiled, hcompiled, index, hindex, hresolve⟩ := hresolves
  refine ⟨compiled, hcompiled, index, hindex, ?_⟩
  -- a key has no other place
  have hkey : m.keys[place]? = m.keys[index.toNat]? :=
    (List.getElem?_eq_getElem hplace).trans (resolve_eq_key_iff.mp hresolve).symm
  exact ((List.getElem?_inj hplace h.nodup).mp hkey).symm

theorem indexRoom_zero_iff (h : compile instructions none blockhash v0 = .ok m) :
    m.IndexRoom 0 ↔ m.keys.length < 256 := by
  constructor
  · intro hroom
    by_contra hfull
    have hplace : 255 < m.keys.length := by omega
    obtain ⟨compiled, hcompiled, index, hindex, hlast⟩ :=
      (carriesOut_of_compile h).exists_index_eq hplace
    exact hroom compiled hcompiled index hindex UInt8.zero_le (UInt8.toNat_inj.mp hlast)
  · intro hlength compiled hcompiled index hindex _ hlast
    have hlt := lt_length_of_compile h hcompiled hindex
    rw [hlast] at hlt
    have hbyte : (255 : UInt8).toNat = 255 := rfl
    omega

theorem compile_of_setFeePayer (hfresh : ¬ KeyTable.IsMentioned instructions none p)
    (h : compile instructions none blockhash v0 = .ok m)
    (hpays : Edit.setFeePayer p m = .ok () m') :
    compile instructions (some p) blockhash v0 = .ok m' := by
  obtain ⟨hkeys, -, hblockhash, hformat⟩ := compile_eq_ok_iff.mp h
  obtain ⟨hheader, hkeys⟩ := compileKeys_eq_ok_iff.mp hkeys
  have hgains := Edit.gainsKey_of_setFeePayer hpays
  have hlength : m.keys.length < 256 := (indexRoom_zero_iff h).mp hgains.indexRoom
  have hcompiled := hgains.compileInstructions_eq_ok (wellFormed_of_compile h).1
    (compileInstructions_of_compile h)
  have hkeys' : compileKeys instructions (some p) = .ok (m'.header, m'.keys) := by
    rw [compileKeys_eq_ok_iff, KeyTable.ofInstructions_lead hfresh,
      KeyTable.header_lead_eq_ok_iff hheader, KeyTable.keys_lead, hkeys, hgains.eq_withKey]
    exact ⟨⟨hlength, hgains.countRoom, rfl⟩, rfl⟩
  exact compile_eq_ok_iff.mpr ⟨hkeys', mapM_eq_ok_iff_forall₂.mp hcompiled,
    hgains.blockhash_eq.trans hblockhash, hgains.format_eq.trans hformat⟩

/-- With one key less the instructions can be compiled as well, and the key can
be let in. -/
theorem exists_setFeePayer_of_compile (hfresh : ¬ KeyTable.IsMentioned instructions none p)
    (h : compile instructions (some p) blockhash v0 = .ok m') :
    ∃ m mid, compile instructions none blockhash v0 = .ok m ∧
      Edit.setFeePayer p m = .ok () mid := by
  obtain ⟨hheader', -⟩ := compileKeys_eq_ok_iff.mp (compile_eq_ok_iff.mp h).1
  rw [KeyTable.ofInstructions_lead hfresh] at hheader'
  have hlimits : (KeyTable.ofInstructions instructions none).WithinLimits := by
    obtain ⟨hlength, hsigners, -, hreadonly⟩ := KeyTable.header_eq_ok_iff.mp hheader'
    rw [KeyTable.length_keys] at hlength
    have hrequired := m'.header.required.toNat_lt
    have hothers := m'.header.readonlyOthers.toNat_lt
    simp only [KeyTable.lead, List.length_cons] at hlength hsigners hreadonly
    exact ⟨by omega, by omega, by omega⟩
  have hheader := KeyTable.header_of_limits (KeyTable.ofInstructions instructions none)
  rw [if_pos hlimits] at hheader
  obtain ⟨header, hheader, -⟩ := hheader
  obtain ⟨m, hm, rfl, hkeys⟩ := exists_compile_of_compileKeys blockhash v0
    (compileKeys_eq_ok_iff.mpr ⟨hheader, rfl⟩)
  rw [KeyTable.header_lead_eq_ok_iff hheader, ← hkeys] at hheader'
  obtain ⟨hlength, hcount, -⟩ := hheader'
  have hout : p ∉ m.keys := by
    rwa [(carriesOut_of_compile hm).mem_keys_iff]
  exact ⟨m, _, hm, Edit.setFeePayer_eq_ok_iff.mpr
    ⟨hout, hcount, (indexRoom_zero_iff hm).mpr hlength, rfl⟩⟩

/-- **A fee payer can be set later.**  For an address that takes no part in the
instructions it is the same to compile them with it as fee payer, or to compile
them without one and then to make it the fee payer. -/
theorem setFeePayer_eq_recompile (hfresh : ¬ KeyTable.IsMentioned instructions none p) :
    (∃ m, compile instructions none blockhash v0 = .ok m ∧ Edit.setFeePayer p m = .ok () m') ↔
      compile instructions (some p) blockhash v0 = .ok m' := by
  constructor
  · intro hparts
    obtain ⟨m, hm, hpays⟩ := hparts
    exact compile_of_setFeePayer hfresh hm hpays
  · intro h
    obtain ⟨m, mid, hm, hpays⟩ := exists_setFeePayer_of_compile hfresh h
    have hmid := compile_of_setFeePayer hfresh hm hpays
    obtain rfl : mid = m' := Except.ok.inj (hmid.symm.trans h)
    exact ⟨m, hm, hpays⟩

/-- A payer in front of the signer of the call. -/
theorem setFeePayer_of_sampleCall :
    ¬ KeyTable.IsMentioned [sampleCall] none (.numbered 9) ∧
      ∃ m', Edit.setFeePayer (.numbered 9) sampleCallMessage = .ok () m' ∧
        compile [sampleCall] (some (.numbered 9)) ⟨Block.zero 32⟩ false = .ok m' := by
  have hfresh : ¬ KeyTable.IsMentioned [sampleCall] none (.numbered 9) := by
    rw [← (carriesOut_of_compile compile_sampleCall).mem_keys_iff]
    decide
  exact ⟨hfresh, _, rfl, (setFeePayer_eq_recompile hfresh).mp ⟨_, rfl, rfl⟩⟩

end Message

end SolanaWallet
