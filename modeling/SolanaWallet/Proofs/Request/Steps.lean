import SolanaWallet.Proofs.Edit.Settings
import SolanaWallet.Proofs.Message.Steps
import SolanaWallet.Proofs.Request.Signers

/-!
# What a built message does, in order

A request asks for some steps that every kind can have, and for those of its
kind.  `steps_of_build` reads them off the built message: a nonce is advanced if
one is named, then the price and the limit are set if they are given, and then
come the steps of the kind as `Kind.steps` lists them, with the memo in its
place.

The list is written down without the instructions that make it up, so it also
says what the instructions of a kind are not.  None of them sets a price or a
limit or advances a nonce (`isPlain_of_mem_steps`), whatever amounts, texts and
accounts the request gives; hence what is read back are the fields of the
request, and nothing else.
-/

namespace SolanaWallet

/-! ## The steps of the programs -/

section Programs

variable (source target owner wallet mint authority stake vote nonce : Address)
  (references : List Address)

/-- The number of a system instruction tells it from those that advance a nonce. -/
theorem SystemProgram.step_call {number : UInt32} (hnumber : UInt8.ofNat (number.toNat % 256) ≠ 4)
    (arguments : List UInt8) (accounts : List AccountMeta) :
    (call number arguments accounts).step =
      .call (.key Known.system) (some (UInt8.ofNat (number.toNat % 256))) :=
  Instruction.step_eq_call rfl (.inr fun h => hnumber (List.cons.inj h).1) (by decide)

@[simp] theorem SystemProgram.step_transfer (lamports : UInt64) :
    ((transfer source target lamports).withReferences references).step =
      .call (.key Known.system) (some 2) :=
  step_call (by decide) _ _

@[simp] theorem SystemProgram.step_createAccount (lamports space : UInt64) :
    (createAccount source target lamports space owner).step = .call (.key Known.system) (some 0) :=
  step_call (by decide) _ _

@[simp] theorem SystemProgram.step_createAccountWithSeed (seed : List UInt8)
    (lamports space : UInt64) :
    (createAccountWithSeed source target authority seed lamports space owner).step =
      .call (.key Known.system) (some 3) :=
  step_call (by decide) _ _

@[simp] theorem SystemProgram.step_initializeNonce :
    (initializeNonce nonce authority).step = .call (.key Known.system) (some 6) :=
  step_call (by decide) _ _

@[simp] theorem SystemProgram.step_withdrawNonce (lamports : UInt64) :
    (withdrawNonce nonce authority target lamports).step = .call (.key Known.system) (some 5) :=
  step_call (by decide) _ _

@[simp] theorem SystemProgram.step_advanceNonce :
    (advanceNonce nonce authority).step =
      .advanceNonce (some (.key nonce)) (some (.key authority)) := rfl

theorem StakeProgram.step_call (number : UInt32) (arguments : List UInt8)
    (accounts : List AccountMeta) :
    (call number arguments accounts).step =
      .call (.key Known.stake) (some (UInt8.ofNat (number.toNat % 256))) :=
  Instruction.step_eq_call rfl (.inl (by decide)) (by decide)

@[simp] theorem StakeProgram.step_authorize (staker withdrawer : Address) (lockup : Lockup) :
    (authorize stake staker withdrawer lockup).step = .call (.key Known.stake) (some 0) :=
  step_call _ _ _

@[simp] theorem StakeProgram.step_delegate :
    (delegate stake authority vote).step = .call (.key Known.stake) (some 2) :=
  step_call _ _ _

@[simp] theorem StakeProgram.step_deactivate :
    (deactivate stake authority).step = .call (.key Known.stake) (some 5) :=
  step_call _ _ _

@[simp] theorem StakeProgram.step_withdraw (lamports : UInt64) (custodian : Option Address) :
    (withdraw stake authority target lamports custodian).step =
      .call (.key Known.stake) (some 4) :=
  step_call _ _ _

@[simp] theorem TokenProgram.step_createAssociatedAccount (program : TokenProgram) :
    (program.createAssociatedAccount source wallet mint target).step =
      .call (.key Known.associatedToken) none :=
  Instruction.step_eq_call rfl (.inl (by decide)) (by decide)

@[simp] theorem TokenProgram.step_transferChecked (program : TokenProgram) (amount : UInt64)
    (decimals : UInt8) :
    ((program.transferChecked source mint target owner amount decimals).withReferences
      references).step = .call (.key program.address) (some 12) := by
  cases program <;>
    exact Instruction.step_eq_call rfl (.inl (by decide)) (by decide)

@[simp] theorem ComputeBudget.step_instruction (setting : ComputeBudget) :
    setting.instruction.step = .budget setting := by
  rw [← Step.setting?_eq_some_iff, Instruction.step, ResolvedInstruction.setting?_step]
  exact (if_pos rfl).trans (ofData?_data setting)

end Programs

/-! ## The steps of a request -/

/-- The step of the memo, unless it is empty. -/
def memoSteps (text : String) : List Step :=
  if text.isEmpty then [] else [.memo text.toUTF8.toList]

theorem map_step_memoInstructions (text : String) :
    (memoInstructions text).map Instruction.step = memoSteps text := by
  unfold memoInstructions memoSteps
  split <;> rfl

/-- The steps of a kind, the memo included. -/
def Kind.steps : Kind → List Step
  | .transfer arguments => memoSteps arguments.memo ++ [.call (.key Known.system) (some 2)]
  | .delegateStake _ =>
    [.call (.key Known.system) (some 3), .call (.key Known.stake) (some 0),
      .call (.key Known.stake) (some 2)]
  | .deactivateStake _ => [.call (.key Known.stake) (some 5)]
  | .deactivateAllStake stakeAccounts =>
    stakeAccounts.map fun _ => .call (.key Known.stake) (some 5)
  | .withdrawStake _ => [.call (.key Known.stake) (some 4)]
  | .withdrawAllStake withdrawals => withdrawals.map fun _ => .call (.key Known.stake) (some 4)
  | .createTokenAccount _ => [.call (.key Known.associatedToken) none]
  | .tokenTransfer arguments =>
    memoSteps arguments.memo ++ [.call (.key arguments.program.address) (some 12)]
  | .createAndTransfer arguments =>
    .call (.key Known.associatedToken) none :: memoSteps arguments.memo ++
      [.call (.key arguments.program.address) (some 12)]
  | .createNonce _ => [.call (.key Known.system) (some 0), .call (.key Known.system) (some 6)]
  | .withdrawNonce _ => [.call (.key Known.system) (some 5)]
  | .advanceNonce _ => []

namespace Request

/-- The nonce account to advance first, as the request names it. -/
def nonceName (r : Request) : Kind → Option String
  | .advanceNonce nonceAccount => some nonceAccount
  | _ => filled r.nonceAccount

/-- The steps that every kind can have: the nonce is advanced under the authority
of the signer, then the price is set, then the limit. -/
def openingSteps (r : Request) (nonce : Option Address) (signer : Address) : List Step :=
  nonce.toList.map (fun account => .advanceNonce (some (.key account)) (some (.key signer))) ++
    r.unitPrice.toList.map (fun price => .budget (.unitPrice price)) ++
    r.unitLimit.toList.map (fun units => .budget (.unitLimit units))

variable {suite : CryptoSuite} {r : Request} {m : Message} {kind : Kind} {signer : Address}
  {nonce : Option Address} {instructions : List Instruction}

theorem addressField_eq_ok_iff {name text : String} {a : Address} :
    addressField name text = .ok a ↔ a.text = text := by
  rw [addressField, Attempt.inField_eq_ok_iff, Address.ofText_eq_ok_iff, eq_comm]

theorem someField_eq_ok_iff {name text : String} :
    some <$> addressField name text = .ok nonce ↔ nonce.map Address.text = some text := by
  rw [exceptMap_eq_ok_iff, Option.map_eq_some_iff]
  constructor
  · rintro ⟨a, ha, rfl⟩
    exact ⟨a, rfl, addressField_eq_ok_iff.mp ha⟩
  · rintro ⟨a, rfl, ha⟩
    exact ⟨a, addressField_eq_ok_iff.mpr ha, rfl⟩

theorem nonceAddress_eq_ok_iff :
    r.nonceAddress kind = .ok nonce ↔ nonce.map Address.text = r.nonceName kind := by
  unfold nonceAddress
  split
  · exact someField_eq_ok_iff
  · rename_i hkind
    have hname : r.nonceName kind = filled r.nonceAccount := by
      cases kind with
      | advanceNonce account => exact (hkind account rfl).elim
      | _ => rfl
    rw [hname]
    cases filled r.nonceAccount with
    | none =>
      change pure none = Except.ok nonce ↔ _
      rw [exceptPure_eq_ok_iff, Option.map_eq_none_iff, eq_comm]
    | some text => exact someField_eq_ok_iff

theorem map_step_opening (nonce : Option Address) (signer : Address) :
    (r.opening nonce signer).map Instruction.step = r.openingSteps nonce signer := by
  simp [opening, openingSteps, Function.comp_def]

theorem step_of_transferTokens {arguments : TokenTransfer} {mint source target : Address}
    {references : List Address} {ix : Instruction}
    (h : transferTokens arguments mint source target signer references = .ok ix) :
    ix.step = .call (.key arguments.program.address) (some 12) := by
  obtain ⟨decimals, -, h⟩ := exceptBind_eq_ok_iff.mp h
  obtain rfl := exceptPure_eq_ok_iff.mp h
  exact TokenProgram.step_transferChecked ..

theorem map_step_kindInstructions (h : r.kindInstructions suite signer kind = .ok instructions) :
    instructions.map Instruction.step = kind.steps := by
  cases kind with
  | transfer arguments =>
    obtain ⟨recipient, -, h⟩ := exceptBind_eq_ok_iff.mp h
    obtain ⟨references, -, h⟩ := exceptBind_eq_ok_iff.mp h
    obtain rfl := exceptPure_eq_ok_iff.mp h
    simp [Kind.steps, map_step_memoInstructions]
  | delegateStake arguments =>
    obtain ⟨validator, -, h⟩ := exceptBind_eq_ok_iff.mp h
    obtain ⟨account, -, h⟩ := exceptBind_eq_ok_iff.mp h
    obtain ⟨blockhash, -, h⟩ := exceptBind_eq_ok_iff.mp h
    obtain rfl := exceptPure_eq_ok_iff.mp h
    simp [StakeProgram.deposit, Kind.steps]
  | deactivateStake stakeAccount =>
    obtain ⟨account, -, h⟩ := exceptBind_eq_ok_iff.mp h
    obtain rfl := exceptPure_eq_ok_iff.mp h
    simp [Kind.steps]
  | deactivateAllStake stakeAccounts =>
    obtain ⟨accounts, haccounts, h⟩ := exceptBind_eq_ok_iff.mp h
    obtain rfl := exceptPure_eq_ok_iff.mp h
    rw [List.map_map]
    exact map_eq_map_of_forall₂ (mapM_eq_ok_iff_forall₂.mp haccounts)
      fun _ _ _ => StakeProgram.step_deactivate ..
  | withdrawStake withdrawal =>
    obtain ⟨account, -, h⟩ := exceptBind_eq_ok_iff.mp h
    obtain rfl := exceptPure_eq_ok_iff.mp h
    simp [Kind.steps]
  | withdrawAllStake withdrawals =>
    refine map_eq_map_of_forall₂ (mapM_eq_ok_iff_forall₂.mp h) fun withdrawal ix hix => ?_
    obtain ⟨account, -, hix⟩ := exceptBind_eq_ok_iff.mp hix
    obtain rfl := exceptPure_eq_ok_iff.mp hix
    exact StakeProgram.step_withdraw ..
  | createTokenAccount arguments =>
    obtain ⟨wallet, -, h⟩ := exceptBind_eq_ok_iff.mp h
    obtain ⟨mint, -, h⟩ := exceptBind_eq_ok_iff.mp h
    obtain ⟨tokenAccount, -, h⟩ := exceptBind_eq_ok_iff.mp h
    obtain rfl := exceptPure_eq_ok_iff.mp h
    simp [Kind.steps]
  | tokenTransfer arguments =>
    obtain ⟨mint, -, h⟩ := exceptBind_eq_ok_iff.mp h
    obtain ⟨source, -, h⟩ := exceptBind_eq_ok_iff.mp h
    obtain ⟨target, -, h⟩ := exceptBind_eq_ok_iff.mp h
    obtain ⟨references, -, h⟩ := exceptBind_eq_ok_iff.mp h
    obtain ⟨transfer, htransfer, h⟩ := exceptBind_eq_ok_iff.mp h
    obtain rfl := exceptPure_eq_ok_iff.mp h
    simp [Kind.steps, map_step_memoInstructions, step_of_transferTokens htransfer]
  | createAndTransfer arguments =>
    obtain ⟨wallet, -, h⟩ := exceptBind_eq_ok_iff.mp h
    obtain ⟨mint, -, h⟩ := exceptBind_eq_ok_iff.mp h
    obtain ⟨target, -, h⟩ := exceptBind_eq_ok_iff.mp h
    obtain ⟨source, -, h⟩ := exceptBind_eq_ok_iff.mp h
    obtain ⟨references, -, h⟩ := exceptBind_eq_ok_iff.mp h
    obtain ⟨funding, -, h⟩ := exceptBind_eq_ok_iff.mp h
    obtain ⟨transfer, htransfer, h⟩ := exceptBind_eq_ok_iff.mp h
    obtain rfl := exceptPure_eq_ok_iff.mp h
    simp [Kind.steps, map_step_memoInstructions, step_of_transferTokens htransfer]
  | createNonce arguments =>
    rw [kindInstructions_createNonce] at h
    obtain ⟨nonce, -, h⟩ := exceptBind_eq_ok_iff.mp h
    obtain rfl := exceptPure_eq_ok_iff.mp h
    simp [SystemProgram.createNonce, Kind.steps]
  | withdrawNonce arguments =>
    obtain ⟨nonce, -, h⟩ := exceptBind_eq_ok_iff.mp h
    obtain ⟨recipient, -, h⟩ := exceptBind_eq_ok_iff.mp h
    obtain rfl := exceptPure_eq_ok_iff.mp h
    simp [Kind.steps]
  | advanceNonce nonceAccount =>
    obtain rfl := exceptPure_eq_ok_iff.mp h
    rfl

/-! ## What is read back -/

theorem isPlain_of_mem_memoSteps (text : String) : ∀ step ∈ memoSteps text, step.IsPlain := by
  intro step hstep
  unfold memoSteps at hstep
  split at hstep
  · cases hstep
  · obtain rfl := List.mem_singleton.mp hstep
    exact Step.isPlain_memo _

/-- A kind has no settings and no advanced nonces of its own. -/
theorem isPlain_of_mem_steps (kind : Kind) : ∀ step ∈ kind.steps, step.IsPlain := by
  cases kind with
  | transfer arguments =>
    exact List.forall_mem_append.mpr ⟨isPlain_of_mem_memoSteps _, by simp⟩
  | tokenTransfer arguments =>
    exact List.forall_mem_append.mpr ⟨isPlain_of_mem_memoSteps _, by simp⟩
  | createAndTransfer arguments =>
    have hopening := List.forall_mem_cons.mpr
      ⟨Step.isPlain_call (.key Known.associatedToken) none, isPlain_of_mem_memoSteps arguments.memo⟩
    exact List.forall_mem_append.mpr ⟨hopening, by simp⟩
  | _ => simp [Kind.steps]

/-- What is found among the settings is found among those of the request. -/
theorem findSome?_steps {β : Type} (pick : ComputeBudget → Option β) :
    (r.openingSteps nonce signer ++ kind.steps).findSome? (fun step => step.setting? >>= pick) =
      (r.unitPrice.bind fun price => pick (.unitPrice price)).or
        (r.unitLimit.bind fun units => pick (.unitLimit units)) := by
  have hkind : kind.steps.findSome? (fun step => step.setting? >>= pick) = none := by
    rw [List.findSome?_eq_none_iff]
    intro step hstep
    rw [(isPlain_of_mem_steps kind step hstep).1]
    rfl
  rw [List.findSome?_append, hkind, Option.or_none, openingSteps, List.findSome?_append,
    List.findSome?_append]
  cases nonce <;> cases r.unitPrice <;> cases r.unitLimit <;> simp [Step.setting?]

/-- A nonce is advanced first only by the step that is there for it. -/
theorem any_head?_steps :
    (r.openingSteps nonce signer ++ kind.steps).head?.any Step.isAdvanceNonce = nonce.isSome := by
  cases nonce with
  | some account => rfl
  | none =>
    have hopening : ∀ step ∈ r.openingSteps none signer, step.isAdvanceNonce = false := by
      cases hprice : r.unitPrice <;> cases hlimit : r.unitLimit <;>
        simp [openingSteps, hprice, hlimit, Step.isAdvanceNonce]
    have hnone : ∀ step ∈ r.openingSteps none signer ++ kind.steps, step.isAdvanceNonce = false :=
      List.forall_mem_append.mpr
        ⟨hopening, fun step hstep => (isPlain_of_mem_steps kind step hstep).2⟩
    rw [Option.isSome_none, Bool.eq_false_iff]
    intro hadvances
    obtain ⟨step, hfirst, hstep⟩ := (Option.any_eq_true _ _).mp hadvances
    rw [hnone step (List.mem_of_mem_head? hfirst)] at hstep
    cases hstep

/-- **What a built message does.**  The steps of the message are those that every
kind can have, as far as the request asks for them, and then those of its kind.
The nonce account is the one that the kind or the request names, and its authority
is the signer.  So the price and the limit that are read from the message are those
of the request, and the message starts by advancing a nonce exactly if the kind is
to do that or the request names a nonce account. -/
theorem steps_of_build (h : r.build suite = .ok m) :
    ∃ (kind : Kind) (signer : Address) (nonce : Option Address),
      r.kind = some kind ∧ r.signerAddress suite = .ok signer ∧
      nonce.map Address.text = r.nonceName kind ∧
      m.steps = r.openingSteps nonce signer ++ kind.steps ∧
      m.unitPrice? = r.unitPrice ∧ m.unitLimit? = r.unitLimit ∧
      (m.startsWithAdvanceNonce = true ↔
        (∃ account, kind = .advanceNonce account) ∨ filled r.nonceAccount ≠ none) := by
  obtain ⟨instructions, payer, blockhash, hinstructions, -, -, hcompile⟩ := build_eq_ok_iff.mp h
  obtain ⟨kind, signer, nonce, rest, hkind, hsigner, hnonce, hrest, rfl⟩ :=
    instructions_eq_ok_iff.mp hinstructions
  have hsteps : m.steps = r.openingSteps nonce signer ++ kind.steps := by
    rw [Message.steps_of_compile hcompile, List.map_append, map_step_opening,
      map_step_kindInstructions hrest]
  have hnone : nonce = none ↔
      (∀ account, kind ≠ .advanceNonce account) ∧ filled r.nonceAccount = none := by
    rw [← nonceAddress_eq_ok_none_iff, hnonce]
    simp
  refine ⟨kind, signer, nonce, hkind, hsigner, nonceAddress_eq_ok_iff.mp hnonce, hsteps, ?_, ?_, ?_⟩
  · rw [Message.unitPrice?_eq_steps, hsteps, findSome?_steps]
    cases r.unitPrice <;> cases r.unitLimit <;> rfl
  · rw [Message.unitLimit?_eq_steps, hsteps, findSome?_steps]
    cases r.unitPrice <;> cases r.unitLimit <;> rfl
  · rw [Message.startsWithAdvanceNonce_eq_steps, hsteps, any_head?_steps, Option.isSome_iff_ne_none,
      Ne, hnone, not_and_or, not_forall_not]

/-- A token account is created for a transfer with everything that can come
before it, and a memo in between. -/
def sampleTokens : Request where
  sender := sampleSender.text
  recentBlockhash := Blockhash.text ⟨Block.fit 32 [9]⟩
  nonceAccount := some sampleNonce.text
  unitPrice := some 3
  unitLimit := some 4
  kind := some (.createAndTransfer
    { mint := Address.text ⟨Block.fit 32 [1]⟩, source := Address.text ⟨Block.fit 32 [2]⟩
      target := Address.text ⟨Block.fit 32 [3]⟩, wallet := Address.text ⟨Block.fit 32 [4]⟩
      amount := 7, memo := "hi" })

theorem steps_of_sampleTokens :
    ∃ m, sampleTokens.build .ledger = .ok m ∧ m.unitPrice? = some 3 ∧ m.unitLimit? = some 4 ∧
      m.startsWithAdvanceNonce = true ∧
      m.steps =
        [.advanceNonce (some (.key sampleNonce)) (some (.key sampleSender)),
          .budget (.unitPrice 3), .budget (.unitLimit 4),
          .call (.key Known.associatedToken) none, .memo [104, 105],
          .call (.key Known.token) (some 12)] := by
  obtain ⟨m, hbuild⟩ : ∃ m, sampleTokens.build .ledger = .ok m :=
    exists_eq_ok_of_isOk (by decide +kernel)
  obtain ⟨kind, signer, nonce, hkind, hsigner, hnonce, hsteps, hprice, hlimit, hadvances⟩ :=
    steps_of_build hbuild
  obtain rfl := Option.some.inj hkind
  obtain rfl : sampleSender = signer := Except.ok.inj (.trans (by decide +kernel) hsigner)
  obtain rfl : some sampleNonce = nonce :=
    Except.ok.inj (.trans (by decide +kernel) (nonceAddress_eq_ok_iff.mpr hnonce))
  exact ⟨m, hbuild, hprice, hlimit, hadvances.mpr (.inr (by decide +kernel)),
    hsteps.trans (by decide +kernel)⟩

end Request

end SolanaWallet
