import Mathlib.Data.List.Induction
import Mathlib.Data.List.Nodup
import SolanaWallet.Proofs.Message.Compile

/-!
# The key table in three passes

A key table is built in one pass over everything that is mentioned.  A mention
may promote a key at any moment: the key leaves the weaker part and goes to the
end of the stronger one.  The table that comes out can be described without
this history, by one pass for each part:

* the signers are the fee payer and whatever is mentioned as a signer;
* the writable keys are what is mentioned as writable, without the signers;
* the read-only keys are what is mentioned as read-only, accounts first and
  then programs, without the keys of the other two parts.

Each pass keeps a key where it comes up first.

The invariant is `foldl_mention_eq_sift`: after any list of mentions, the
parts are the three passes over that list, each of them sifted by the stronger
ones.  One mention more adds to the pass it belongs to, if the key is new
there, and only the sifting makes it a promotion (`mention_sift_signer`,
`mention_sift_writable`, `mention_sift_readonly`).
-/

namespace SolanaWallet

namespace KeyTable

variable {a b : Address}

/-! ## First occurrences -/

/-- The list with `a` at its end, unless `a` is in the list already. -/
def addLast (keys : List Address) (a : Address) : List Address :=
  if a ∈ keys then keys else keys ++ [a]

theorem mem_addLast {keys : List Address} : b ∈ addLast keys a ↔ b ∈ keys ∨ b = a := by
  unfold addLast
  split
  · rename_i ha
    constructor
    · exact .inl
    · rintro (hb | rfl)
      · exact hb
      · exact ha
  · simp

theorem nodup_addLast {keys : List Address} (h : keys.Nodup) : (addLast keys a).Nodup := by
  unfold addLast
  split
  · exact h
  · rename_i ha
    have hconcat : (keys.concat a).Nodup := h.concat ha
    simpa using hconcat

theorem filter_addLast {keys : List Address} (keep : Address → Bool) :
    (addLast keys a).filter keep =
      if keep a = false ∨ a ∈ keys.filter keep then keys.filter keep
      else keys.filter keep ++ [a] := by
  unfold addLast
  by_cases hmem : a ∈ keys <;> by_cases hkeep : keep a = true <;> simp [hmem, hkeep]

theorem eraseDups_append_singleton (keys : List Address) (a : Address) :
    (keys ++ [a]).eraseDups = addLast keys.eraseDups a := by
  rw [List.eraseDups_append]
  unfold addLast
  by_cases ha : a ∈ keys
  · simp [List.removeAll, ha]
  · simp [List.removeAll, ha, List.eraseDups_cons]

theorem nodup_eraseDups (keys : List Address) : keys.eraseDups.Nodup := by
  induction keys using List.reverseRecOn with
  | nil => simp
  | append_singleton keys a ih =>
    rw [eraseDups_append_singleton]
    exact nodup_addLast ih

/-! ## Sifting -/

/-- The table of the given keys, where each part loses the keys of the
stronger parts. -/
def sift (signers writable readonly : List Address) : KeyTable :=
  let others := writable.filter (· ∉ signers)
  { signers
    writable := others
    readonly := readonly.filter fun a => a ∉ signers ∧ a ∉ others }

section Sift

variable {signers writable readonly : List Address}

theorem mention_sift_signer {flag : Bool} :
    (sift signers writable readonly).mention ⟨a, true, flag⟩ =
      sift (addLast signers a) writable readonly := by
  simp only [mention, sift, if_true, mk.injEq, List.filter_filter]
  refine ⟨rfl, ?_, ?_⟩
  -- a key that leaves the weaker parts is one that is sifted out of them
  · apply List.filter_congr
    intro b _
    simp [mem_addLast, Bool.and_comm]
  · apply List.filter_congr
    intro b _
    grind [mem_addLast]

theorem mention_sift_writable :
    (sift signers writable readonly).mention ⟨a, false, true⟩ =
      sift signers (addLast writable a) readonly := by
  simp only [mention, sift, Bool.false_eq_true, if_false, if_true, mk.injEq, true_and,
    List.filter_filter, filter_addLast]
  refine ⟨by simp, ?_⟩
  apply List.filter_congr
  intro b _
  grind

theorem mention_sift_readonly :
    (sift signers writable readonly).mention ⟨a, false, false⟩ =
      sift signers writable (addLast readonly a) := by
  simp only [mention, sift, Bool.false_eq_true, if_false, mk.injEq, true_and, filter_addLast]
  grind

theorem nodup_keys_sift (hsigners : signers.Nodup) (hwritable : writable.Nodup)
    (hreadonly : readonly.Nodup) : (sift signers writable readonly).keys.Nodup := by
  have hfirst : (signers ++ writable.filter (· ∉ signers)).Nodup := by
    apply hsigners.append (hwritable.filter _)
    intro b hb hb'
    simp [hb] at hb'
  apply hfirst.append (hreadonly.filter _)
  intro b hb hb'
  have hout := List.of_mem_filter hb'
  simp only [decide_eq_true_eq] at hout
  rcases List.mem_append.mp hb with h | h
  · exact hout.1 h
  · exact hout.2 h

end Sift

/-! ## The passes -/

def selectsSigner (account : AccountMeta) : Bool := account.signer

def selectsWritable (account : AccountMeta) : Bool := !account.signer && account.writable

def selectsReadonly (account : AccountMeta) : Bool := !account.signer && !account.writable

/-- The addresses of the accounts that a pass selects, each where it comes up
first. -/
def pass (selects : AccountMeta → Bool) (accounts : List AccountMeta) : List Address :=
  ((accounts.filter selects).map (·.address)).eraseDups

section Pass

variable {selects : AccountMeta → Bool} {accounts : List AccountMeta} {account : AccountMeta}

theorem pass_append_of_selects (h : selects account = true) :
    pass selects (accounts ++ [account]) = addLast (pass selects accounts) account.address := by
  have hlast : (accounts ++ [account]).filter selects = accounts.filter selects ++ [account] := by
    simp [h]
  rw [pass, hlast, List.map_append]
  exact eraseDups_append_singleton _ _

theorem pass_append_of_not_selects (h : selects account = false) :
    pass selects (accounts ++ [account]) = pass selects accounts := by
  have hlast : (accounts ++ [account]).filter selects = accounts.filter selects := by
    simp [h]
  rw [pass, hlast, pass]

end Pass

/-- After any list of mentions the table is that of the three passes. -/
theorem foldl_mention_eq_sift (accounts : List AccountMeta) :
    accounts.foldl mention empty =
      sift (pass selectsSigner accounts) (pass selectsWritable accounts)
        (pass selectsReadonly accounts) := by
  induction accounts using List.reverseRecOn with
  | nil => rfl
  | append_singleton accounts account ih =>
    rw [List.foldl_append, List.foldl_cons, List.foldl_nil, ih]
    -- the flags decide which of the passes the account belongs to
    rcases account with ⟨a, _ | _, _ | _⟩
    · rw [mention_sift_readonly, pass_append_of_not_selects rfl, pass_append_of_not_selects rfl,
        pass_append_of_selects rfl]
    · rw [mention_sift_writable, pass_append_of_not_selects rfl, pass_append_of_selects rfl,
        pass_append_of_not_selects rfl]
    · rw [mention_sift_signer, pass_append_of_selects rfl, pass_append_of_not_selects rfl,
        pass_append_of_not_selects rfl]
    · rw [mention_sift_signer, pass_append_of_selects rfl, pass_append_of_not_selects rfl,
        pass_append_of_not_selects rfl]

/-- The key table for a list of instructions in three passes. -/
def inPasses (instructions : List Instruction) (feePayer : Option Address) : KeyTable :=
  let accounts := instructions.flatMap (·.accounts)
  let signers := feePayer.toList ++ (accounts.filter selectsSigner).map (·.address)
  let writable := (accounts.filter selectsWritable).map (·.address)
  let readonly :=
    (accounts.filter selectsReadonly).map (·.address) ++ instructions.map (·.program)
  sift signers.eraseDups writable.eraseDups readonly.eraseDups

section Instructions

variable {instructions : List Instruction} {payer : Option Address}

theorem ofInstructions_eq_inPasses (instructions : List Instruction) (payer : Option Address) :
    ofInstructions instructions payer = inPasses instructions payer := by
  rw [ofInstructions, foldl_mention_eq_sift, inPasses]
  congr 1 <;>
    simp [pass, mentions, List.filter_map, Function.comp_def, selectsSigner, selectsWritable,
      selectsReadonly, AccountMeta.writeSigned, AccountMeta.read]

/-- The account pays the fee, or some instruction wants it to sign. -/
def MustSign (instructions : List Instruction) (payer : Option Address) (a : Address) : Prop :=
  payer = some a ∨
    ∃ ix ∈ instructions, ∃ account ∈ ix.accounts, account.signer = true ∧ account.address = a

/-- Some instruction wants to write the account. -/
def IsWritten (instructions : List Instruction) (a : Address) : Prop :=
  ∃ ix ∈ instructions, ∃ account ∈ ix.accounts, account.writable = true ∧ account.address = a

/-- The account pays the fee, or some instruction calls it or names it. -/
def IsMentioned (instructions : List Instruction) (payer : Option Address) (a : Address) : Prop :=
  payer = some a ∨
    ∃ ix ∈ instructions, ix.program = a ∨ ∃ account ∈ ix.accounts, account.address = a

theorem mem_signers_inPasses :
    a ∈ (inPasses instructions payer).signers ↔ MustSign instructions payer a := by
  simp only [inPasses, sift, List.mem_eraseDups, List.mem_append, List.mem_map, List.mem_filter,
    List.mem_flatMap, selectsSigner, Option.mem_toList]
  constructor
  · rintro (hpayer | ⟨account, ⟨⟨ix, hix, haccount⟩, hsigner⟩, rfl⟩)
    · exact .inl hpayer
    · exact .inr ⟨ix, hix, account, haccount, hsigner, rfl⟩
  · rintro (hpayer | ⟨ix, hix, account, haccount, hsigner, rfl⟩)
    · exact .inl hpayer
    · exact .inr ⟨account, ⟨⟨ix, hix, haccount⟩, hsigner⟩, rfl⟩

/-- A key that is written stands in the second part, unless it signs as well. -/
theorem mem_writable_inPasses :
    a ∈ (inPasses instructions payer).writable ↔
      IsWritten instructions a ∧ ¬ MustSign instructions payer a := by
  have hsifted : a ∈ (inPasses instructions payer).writable ↔
      a ∈ ((instructions.flatMap (·.accounts)).filter selectsWritable).map (·.address) ∧
        a ∉ (inPasses instructions payer).signers := by
    simp only [inPasses, sift, List.mem_filter, List.mem_eraseDups, decide_eq_true_eq]
  rw [hsifted, mem_signers_inPasses]
  refine and_congr_left fun hunsigned => ?_
  simp only [List.mem_map, List.mem_filter, List.mem_flatMap]
  constructor
  · rintro ⟨account, ⟨⟨ix, hix, haccount⟩, hselected⟩, rfl⟩
    have hwritable : account.writable = true := (Bool.and_eq_true_iff.mp hselected).2
    exact ⟨ix, hix, account, haccount, hwritable, rfl⟩
  · rintro ⟨ix, hix, account, haccount, hwritable, rfl⟩
    have hsigner : account.signer = false := by
      by_contra h
      exact hunsigned (.inr ⟨ix, hix, account, haccount, by simpa using h, rfl⟩)
    have hselected : selectsWritable account = true := by
      simp [selectsWritable, hsigner, hwritable]
    exact ⟨account, ⟨⟨ix, hix, haccount⟩, hselected⟩, rfl⟩

theorem mem_keys_inPasses :
    a ∈ (inPasses instructions payer).keys ↔ IsMentioned instructions payer a := by
  rw [← ofInstructions_eq_inPasses, mem_keys_ofInstructions]
  simp only [mentions, List.map_append, List.mem_append, List.map_map, List.mem_map,
    List.mem_flatMap, Option.mem_toList, Function.comp_apply]
  constructor
  · rintro ((⟨_, hpayer, rfl⟩ | ⟨account, ⟨ix, hix, haccount⟩, rfl⟩) | ⟨ix, hix, rfl⟩)
    · exact .inl hpayer
    · exact .inr ⟨ix, hix, .inr ⟨account, haccount, rfl⟩⟩
    · exact .inr ⟨ix, hix, .inl rfl⟩
  · rintro (hpayer | ⟨ix, hix, rfl | ⟨account, haccount, rfl⟩⟩)
    · exact .inl (.inl ⟨a, hpayer, rfl⟩)
    · exact .inr ⟨ix, hix, rfl⟩
    · exact .inl (.inr ⟨account, ⟨ix, hix, haccount⟩, rfl⟩)

theorem nodup_keys_inPasses (instructions : List Instruction) (payer : Option Address) :
    (inPasses instructions payer).keys.Nodup :=
  nodup_keys_sift (nodup_eraseDups _) (nodup_eraseDups _) (nodup_eraseDups _)

/-- The fee payer comes up before everything else. -/
theorem payer_prefix_keys_inPasses (instructions : List Instruction) (payer : Option Address) :
    payer.toList <+: (inPasses instructions payer).keys := by
  cases payer with
  | none => exact List.nil_prefix
  | some p =>
    have hsigners : ∃ rest, (inPasses instructions (some p)).signers = p :: rest :=
      ⟨_, List.eraseDups_cons⟩
    obtain ⟨rest, hrest⟩ := hsigners
    rw [keys, hrest]
    exact ⟨_, rfl⟩

end Instructions

/-! ## Limits -/

/-- The keys have one-byte indices, and the two counts of the header fit into a
byte. -/
def WithinLimits (t : KeyTable) : Prop :=
  t.signers.length + t.writable.length + t.readonly.length ≤ 256 ∧
    t.signers.length ≤ 255 ∧ t.readonly.length ≤ 255

instance (t : KeyTable) : Decidable t.WithinLimits :=
  inferInstanceAs (Decidable (_ ∧ _ ∧ _))

/-- A header exists exactly for a table within the limits. -/
theorem header_of_limits (t : KeyTable) :
    if t.WithinLimits then
      ∃ header, t.header = .ok header ∧ header.required.toNat = t.signers.length ∧
        header.readonlySigners = 0 ∧ header.readonlyOthers.toNat = t.readonly.length
    else ∃ fault, t.header = .error (.tooLarge fault) := by
  split
  · rename_i hlimits
    obtain ⟨hkeys, hsigners, hreadonly⟩ := hlimits
    let header : Header := ⟨.ofNat t.signers.length, 0, .ofNat t.readonly.length⟩
    have hrequired : header.required.toNat = t.signers.length :=
      UInt8.toNat_ofNat_of_lt' (Nat.lt_succ_of_le hsigners)
    have hothers : header.readonlyOthers.toNat = t.readonly.length :=
      UInt8.toNat_ofNat_of_lt' (Nat.lt_succ_of_le hreadonly)
    have hheader : t.header = .ok header := by
      rw [header_eq_ok_iff, length_keys]
      exact ⟨hkeys, hrequired.symm, rfl, hothers.symm⟩
    exact ⟨header, hheader, hrequired, rfl, hothers⟩
  · rename_i hlimits
    unfold KeyTable.header maxKeys
    rw [length_keys]
    split
    · exact ⟨_, rfl⟩
    split
    · exact ⟨_, rfl⟩
    split
    · exact ⟨_, rfl⟩
    · exact absurd ⟨by omega, by omega, by omega⟩ hlimits

end KeyTable

open KeyTable in
/-- **The key table in three passes.** The keys for a list of instructions are
the signers, then the writable and then the read-only keys, each part in the
order of first mentions, with the sizes of the parts as counts; and there are
none exactly if the table or a count is too large. -/
theorem compileKeys_eq_inPasses (instructions : List Instruction) (payer : Option Address) :
    (if (inPasses instructions payer).WithinLimits then
      ∃ header, compileKeys instructions payer = .ok (header,
          (inPasses instructions payer).signers ++ (inPasses instructions payer).writable ++
            (inPasses instructions payer).readonly) ∧
        header.required.toNat = (inPasses instructions payer).signers.length ∧
        header.readonlySigners = 0 ∧
        header.readonlyOthers.toNat = (inPasses instructions payer).readonly.length
      else ∃ fault, compileKeys instructions payer = .error (.tooLarge fault)) ∧
    (inPasses instructions payer).keys.Nodup ∧
    (∀ a, a ∈ (inPasses instructions payer).keys ↔ IsMentioned instructions payer a) ∧
    payer.toList <+: (inPasses instructions payer).keys := by
  refine ⟨?_, nodup_keys_inPasses _ _, fun a => mem_keys_inPasses, payer_prefix_keys_inPasses _ _⟩
  have hheader := header_of_limits (inPasses instructions payer)
  rw [compileKeys, ofInstructions_eq_inPasses]
  split at hheader
  · rename_i hlimits
    rw [if_pos hlimits]
    obtain ⟨header, hheader, hcounts⟩ := hheader
    rw [hheader]
    exact ⟨header, rfl, hcounts⟩
  · rename_i hlimits
    rw [if_neg hlimits]
    obtain ⟨fault, hheader⟩ := hheader
    rw [hheader]
    exact ⟨fault, rfl⟩

/-- Two keys that are read first: one is written later, the other signs. -/
example :
    let key (n : UInt8) : Address := ⟨Block.fit 32 [n]⟩
    compileKeys [⟨key 7, [.read (key 3), .read (key 4)], []⟩,
        ⟨key 7, [.write (key 3), .readSigned (key 4)], []⟩] none =
      .ok (⟨1, 0, 1⟩, [key 4, key 3, key 7]) := by
  decide

end SolanaWallet
