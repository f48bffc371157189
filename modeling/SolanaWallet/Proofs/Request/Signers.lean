import SolanaWallet.Proofs.Message.Faithful
import SolanaWallet.Proofs.Request.Building

/-!
# Who has to sign a request

Every instruction marks the accounts that it wants to sign, and the key table
of a message starts with all of them, each where it is first marked
(`signerKeys_of_compile`).  So it is enough to list the marks:

* each program marks the accounts whose consent it needs, and never a
  recipient, a reference or a system variable;
* whatever its kind, a request marks the fee payer at most in front, then the
  signer some number of times, then a nonce account that it creates
  (`signers_of_kindInstructions`);
* what is marked again adds nothing (`eraseDups_append_replicate`).

Only a request that has nothing to do, because it names no stake account and
no nonce, does not need its signer.
-/

namespace SolanaWallet

variable {suite : CryptoSuite}

/-! ## Repetitions -/

section Repetitions

variable {front middle : List Address}

/-- What came up before counts for nothing. -/
theorem eraseDups_append_of_subset (h : middle ⊆ front) (rest : List Address) :
    (front ++ middle ++ rest).eraseDups = (front ++ rest).eraseDups := by
  have hmiddle : middle.removeAll front = [] := by
    rw [List.removeAll, List.filter_eq_nil_iff]
    intro b hb
    simp [h hb]
  have hrest : (middle ++ rest).removeAll front = rest.removeAll front := by
    rw [List.removeAll, List.filter_append]
    exact congrArg (· ++ rest.removeAll front) hmiddle
  rw [List.append_assoc, List.eraseDups_append, hrest, List.eraseDups_append]

theorem eraseDups_append_replicate (front : List Address) (a : Address) (count : Nat)
    (rest : List Address) :
    (front ++ List.replicate count a ++ rest).eraseDups =
      (front ++ (if count = 0 then [] else [a]) ++ rest).eraseDups := by
  cases count with
  | zero => rfl
  | succ count =>
    have hagain : List.replicate count a ⊆ front ++ [a] := by
      intro b hb
      simp [List.eq_of_mem_replicate hb]
    calc (front ++ List.replicate (count + 1) a ++ rest).eraseDups
        = (front ++ [a] ++ List.replicate count a ++ rest).eraseDups := by
          rw [List.replicate_succ, List.append_assoc front [a], List.singleton_append]
      _ = (front ++ [a] ++ rest).eraseDups := eraseDups_append_of_subset hagain rest

end Repetitions

/-! ## What instructions mark -/

namespace Instruction

/-- The accounts that an instruction wants to sign, in its order. -/
def signers (ix : Instruction) : List Address :=
  (ix.accounts.filter (·.signer)).map (·.address)

@[simp] theorem signers_withReferences (ix : Instruction) (references : List Address) :
    (ix.withReferences references).signers = ix.signers := by
  have hread : (references.map AccountMeta.read).filter (·.signer) = [] := by
    simp [AccountMeta.read]
  rw [signers, withReferences, List.filter_append, hread, List.append_nil, signers]

end Instruction

theorem signerKeys_of_compile {instructions : List Instruction} {payer : Option Address}
    {blockhash : Blockhash} {v0 : Bool} {m : Message}
    (h : Message.compile instructions payer blockhash v0 = .ok m) :
    m.signerKeys = (payer.toList ++ instructions.flatMap Instruction.signers).eraseDups := by
  obtain ⟨hkeys, hcount, -⟩ := Message.counts_of_compile h
  have hmarked : ((instructions.flatMap (·.accounts)).filter KeyTable.selectsSigner).map
      (·.address) = instructions.flatMap Instruction.signers := by
    rw [List.filter_flatMap, List.map_flatMap]
    rfl
  calc m.signerKeys
      = (KeyTable.inPasses instructions payer).signers := by
        rw [Message.signerKeys, hcount, hkeys, KeyTable.keys, List.append_assoc,
          List.take_left]
    _ = (payer.toList ++ instructions.flatMap Instruction.signers).eraseDups := by
        rw [← hmarked]
        rfl

/-- In a table without repetitions a place tells whether its key signs. -/
theorem lt_signerCount_iff_mem_signerKeys {m : Message} (hfits : m.header.Fits m.keys.length)
    (hnodup : m.keys.Nodup) {index : Nat} {a : Address} (ha : m.keys[index]? = some a) :
    index < m.header.signerCount ↔ a ∈ m.signerKeys := by
  have hparts : m.keys = m.signerKeys ++ m.keys.drop m.header.signerCount :=
    (List.take_append_drop _ _).symm
  rw [hparts] at ha hnodup
  rw [← Message.length_signerKeys hfits]
  exact Message.lt_length_iff_mem_left hnodup ha

section Programs

variable (source target owner wallet mint authority stake vote nonce : Address)

@[simp] theorem SystemProgram.signers_transfer (lamports : UInt64) :
    (transfer source target lamports).signers = [source] := rfl

@[simp] theorem SystemProgram.signers_createAccount (lamports space : UInt64) :
    (createAccount source target lamports space owner).signers = [source, target] := rfl

@[simp] theorem SystemProgram.signers_createAccountWithSeed (seed : List UInt8)
    (lamports space : UInt64) :
    (createAccountWithSeed source target authority seed lamports space owner).signers =
      [source, authority] := rfl

@[simp] theorem SystemProgram.signers_advanceNonce :
    (advanceNonce nonce authority).signers = [authority] := rfl

@[simp] theorem SystemProgram.signers_initializeNonce :
    (initializeNonce nonce authority).signers = [] := rfl

@[simp] theorem SystemProgram.signers_withdrawNonce (lamports : UInt64) :
    (withdrawNonce nonce authority target lamports).signers = [authority] := rfl

@[simp] theorem StakeProgram.signers_authorize (staker withdrawer : Address) (lockup : Lockup) :
    (authorize stake staker withdrawer lockup).signers = [] := rfl

@[simp] theorem StakeProgram.signers_delegate :
    (delegate stake authority vote).signers = [authority] := rfl

@[simp] theorem StakeProgram.signers_deactivate :
    (deactivate stake authority).signers = [authority] := rfl

@[simp] theorem StakeProgram.signers_withdraw (lamports : UInt64) :
    (withdraw stake authority target lamports none).signers = [authority] := rfl

@[simp] theorem TokenProgram.signers_createAssociatedAccount (program : TokenProgram) :
    (program.createAssociatedAccount source wallet mint target).signers = [source] := rfl

@[simp] theorem TokenProgram.signers_transferChecked (program : TokenProgram) (amount : UInt64)
    (decimals : UInt8) :
    (program.transferChecked source mint target owner amount decimals).signers = [owner] := rfl

@[simp] theorem ComputeBudget.signers_instruction (setting : ComputeBudget) :
    setting.instruction.signers = [] := rfl

@[simp] theorem signers_memoInstructions (text : String) :
    (memoInstructions text).flatMap Instruction.signers = [] := by
  unfold memoInstructions
  split <;> rfl

end Programs

/-- Instructions that all want the same account to sign mark it once each. -/
theorem flatMap_signers_eq_replicate {a : Address} {instructions : List Instruction}
    (h : ∀ ix ∈ instructions, ix.signers = [a]) :
    instructions.flatMap Instruction.signers = List.replicate instructions.length a := by
  induction instructions with
  | nil => rfl
  | cons ix rest ih =>
    obtain ⟨hfirst, hrest⟩ := List.forall_mem_cons.mp h
    rw [List.flatMap_cons, hfirst, ih hrest, List.length_cons, List.replicate_succ]
    rfl

/-! ## What a request marks -/

/-- The account that is created as a nonce account. -/
def CreateNonce.address (suite : CryptoSuite) (arguments : CreateNonce) :
    Except RequestFailure Address := do
  if arguments.nonceAccount.isEmpty then
    match ← arguments.secret.keypair suite "nonceAccountPrivateKey" with
    | some key => return key.address suite
    | none => throw (.input .noNonceAccount)
  else addressField "nonceAccount" arguments.nonceAccount

namespace Kind

/-- The account that a kind creates as a nonce account, if it does. -/
def newNonce (suite : CryptoSuite) : Kind → Except RequestFailure (Option Address)
  | .createNonce arguments => some <$> arguments.address suite
  | _ => .ok none

/-- How often the instructions of a kind want the signer to sign. -/
def signerMarks : Kind → Nat
  | .delegateStake _ => 3
  | .deactivateAllStake stakeAccounts => stakeAccounts.length
  | .withdrawAllStake withdrawals => withdrawals.length
  | .advanceNonce _ => 0
  | _ => 1

end Kind

namespace Request

variable {r : Request} {signer payer : Address} {kind : Kind} {instructions : List Instruction}

theorem kindInstructions_createNonce (arguments : CreateNonce) :
    r.kindInstructions suite signer (.createNonce arguments) = do
      let nonce ← arguments.address suite
      return SystemProgram.createNonce signer nonce signer arguments.rent := by
  simp only [kindInstructions, CreateNonce.address]
  by_cases hnamed : arguments.nonceAccount.isEmpty
  · simp only [hnamed, if_true]
    cases arguments.secret.keypair suite "nonceAccountPrivateKey" with
    | error reason => rfl
    | ok key => cases key <;> rfl
  · rw [if_neg hnamed, if_neg hnamed]

theorem signers_of_transferTokens {arguments : TokenTransfer} {mint source target : Address}
    {references : List Address} {ix : Instruction}
    (h : transferTokens arguments mint source target signer references = .ok ix) :
    ix.signers = [signer] := by
  obtain ⟨decimals, -, h⟩ := exceptBind_eq_ok_iff.mp h
  obtain rfl := exceptPure_eq_ok_iff.mp h
  simp

theorem signers_opening (nonce : Option Address) :
    (r.opening nonce signer).flatMap Instruction.signers =
      List.replicate nonce.toList.length signer := by
  cases nonce <;> simp [opening, List.flatMap_map]

/-- The marks of a kind, in order. -/
theorem signers_of_kindInstructions (hpayer : r.feePayerAddress suite = .ok payer)
    (h : r.kindInstructions suite signer kind = .ok instructions) :
    ∃ funding nonce, funding ⊆ [payer] ∧ kind.newNonce suite = .ok nonce ∧
      instructions.flatMap Instruction.signers =
        funding ++ List.replicate kind.signerMarks signer ++ nonce.toList := by
  -- only the creation of a token account for a transfer is funded by the fee payer, and
  -- only one kind creates a nonce account; in all other kinds the signer is alone
  have halone : kind.newNonce suite = .ok none →
      instructions.flatMap Instruction.signers = List.replicate kind.signerMarks signer →
      ∃ funding nonce, funding ⊆ [payer] ∧ kind.newNonce suite = .ok nonce ∧
        instructions.flatMap Instruction.signers =
          funding ++ List.replicate kind.signerMarks signer ++ nonce.toList := by
    intro hnonce hmarks
    exact ⟨[], none, List.nil_subset _, hnonce, by simp [hmarks]⟩
  cases kind with
  | transfer arguments =>
    obtain ⟨recipient, -, h⟩ := exceptBind_eq_ok_iff.mp h
    obtain ⟨references, -, h⟩ := exceptBind_eq_ok_iff.mp h
    obtain rfl := exceptPure_eq_ok_iff.mp h
    exact halone rfl (by simp [Kind.signerMarks])
  | delegateStake arguments =>
    obtain ⟨validator, -, h⟩ := exceptBind_eq_ok_iff.mp h
    obtain ⟨account, -, h⟩ := exceptBind_eq_ok_iff.mp h
    obtain ⟨blockhash, -, h⟩ := exceptBind_eq_ok_iff.mp h
    obtain rfl := exceptPure_eq_ok_iff.mp h
    exact halone rfl (by simp [StakeProgram.deposit, Kind.signerMarks])
  | deactivateStake stakeAccount =>
    obtain ⟨account, -, h⟩ := exceptBind_eq_ok_iff.mp h
    obtain rfl := exceptPure_eq_ok_iff.mp h
    exact halone rfl (by simp [Kind.signerMarks])
  | deactivateAllStake stakeAccounts =>
    obtain ⟨accounts, haccounts, h⟩ := exceptBind_eq_ok_iff.mp h
    obtain rfl := exceptPure_eq_ok_iff.mp h
    have hlength := (mapM_eq_ok_iff_forall₂.mp haccounts).length_eq
    refine halone rfl ?_
    rw [flatMap_signers_eq_replicate (a := signer) (by simp)]
    simp [Kind.signerMarks, hlength]
  | withdrawStake withdrawal =>
    obtain ⟨account, -, h⟩ := exceptBind_eq_ok_iff.mp h
    obtain rfl := exceptPure_eq_ok_iff.mp h
    exact halone rfl (by simp [Kind.signerMarks])
  | withdrawAllStake withdrawals =>
    have hresults := mapM_eq_ok_iff_forall₂.mp h
    have hmarks : ∀ ix ∈ instructions, ix.signers = [signer] := by
      intro ix hix
      obtain ⟨withdrawal, -, hwithdrawal⟩ := exists_of_mem_results hresults hix
      obtain ⟨account, -, hwithdrawal⟩ := exceptBind_eq_ok_iff.mp hwithdrawal
      obtain rfl := exceptPure_eq_ok_iff.mp hwithdrawal
      simp
    refine halone rfl ?_
    rw [flatMap_signers_eq_replicate hmarks, ← hresults.length_eq]
    rfl
  | createTokenAccount arguments =>
    obtain ⟨wallet, -, h⟩ := exceptBind_eq_ok_iff.mp h
    obtain ⟨mint, -, h⟩ := exceptBind_eq_ok_iff.mp h
    obtain ⟨tokenAccount, -, h⟩ := exceptBind_eq_ok_iff.mp h
    obtain rfl := exceptPure_eq_ok_iff.mp h
    exact halone rfl (by simp [Kind.signerMarks])
  | tokenTransfer arguments =>
    obtain ⟨mint, -, h⟩ := exceptBind_eq_ok_iff.mp h
    obtain ⟨source, -, h⟩ := exceptBind_eq_ok_iff.mp h
    obtain ⟨target, -, h⟩ := exceptBind_eq_ok_iff.mp h
    obtain ⟨references, -, h⟩ := exceptBind_eq_ok_iff.mp h
    obtain ⟨transfer, htransfer, h⟩ := exceptBind_eq_ok_iff.mp h
    obtain rfl := exceptPure_eq_ok_iff.mp h
    exact halone rfl (by simp [Kind.signerMarks, signers_of_transferTokens htransfer])
  | createAndTransfer arguments =>
    obtain ⟨wallet, -, h⟩ := exceptBind_eq_ok_iff.mp h
    obtain ⟨mint, -, h⟩ := exceptBind_eq_ok_iff.mp h
    obtain ⟨target, -, h⟩ := exceptBind_eq_ok_iff.mp h
    obtain ⟨source, -, h⟩ := exceptBind_eq_ok_iff.mp h
    obtain ⟨references, -, h⟩ := exceptBind_eq_ok_iff.mp h
    obtain ⟨funding, hfunding, h⟩ := exceptBind_eq_ok_iff.mp h
    obtain ⟨transfer, htransfer, h⟩ := exceptBind_eq_ok_iff.mp h
    obtain rfl := exceptPure_eq_ok_iff.mp h
    obtain rfl : payer = funding := Except.ok.inj (hpayer.symm.trans hfunding)
    exact ⟨[payer], none, by simp, rfl,
      by simp [Kind.signerMarks, signers_of_transferTokens htransfer]⟩
  | createNonce arguments =>
    rw [kindInstructions_createNonce] at h
    obtain ⟨nonce, hnonce, h⟩ := exceptBind_eq_ok_iff.mp h
    obtain rfl := exceptPure_eq_ok_iff.mp h
    refine ⟨[], some nonce, by simp, ?_, ?_⟩
    · rw [Kind.newNonce, hnonce]
      rfl
    · simp [SystemProgram.createNonce, Kind.signerMarks]
  | withdrawNonce arguments =>
    obtain ⟨nonce, -, h⟩ := exceptBind_eq_ok_iff.mp h
    obtain ⟨recipient, -, h⟩ := exceptBind_eq_ok_iff.mp h
    obtain rfl := exceptPure_eq_ok_iff.mp h
    exact halone rfl (by simp [Kind.signerMarks])
  | advanceNonce nonceAccount =>
    obtain rfl := exceptPure_eq_ok_iff.mp h
    exact halone rfl rfl

/-! ## Who signs -/

/-- The kind asks for nothing, and no nonce is to be advanced first. -/
def IsIdle (r : Request) : Prop :=
  (r.kind = some (.deactivateAllStake []) ∨ r.kind = some (.withdrawAllStake [])) ∧
    filled r.nonceAccount = none

instance (r : Request) : Decidable r.IsIdle :=
  inferInstanceAs (Decidable (_ ∧ _))

/-- The signer is marked at all unless the request is idle. -/
theorem marks_eq_zero_iff {nonce : Option Address} (hkind : r.kind = some kind)
    (hnonce : r.nonceAddress kind = .ok nonce) :
    nonce.toList.length + kind.signerMarks = 0 ↔ r.IsIdle := by
  have hnone : nonce = none ↔
      (∀ account, kind ≠ .advanceNonce account) ∧ filled r.nonceAccount = none := by
    rw [← nonceAddress_eq_ok_none_iff, hnonce]
    simp
  have hlength : nonce.toList.length = 0 ↔ nonce = none := by
    cases nonce <;> simp
  rw [Nat.add_eq_zero_iff, hlength, hnone, IsIdle, hkind]
  cases kind <;> simp [Kind.signerMarks, and_comm]

theorem signerKeys_eq_of_build {m : Message} (h : r.build suite = .ok m) :
    ∃ kind payer signer nonce, r.kind = some kind ∧ r.feePayerAddress suite = .ok payer ∧
      r.signerAddress suite = .ok signer ∧ kind.newNonce suite = .ok nonce ∧
      m.signerKeys =
        ([payer] ++ (if r.IsIdle then [] else [signer]) ++ nonce.toList).eraseDups := by
  obtain ⟨instructions, payer, blockhash, hinstructions, hpayer, -, hcompile⟩ :=
    build_eq_ok_iff.mp h
  obtain ⟨kind, signer, advanced, rest, hkind, hsigner, hadvanced, hrest, rfl⟩ :=
    instructions_eq_ok_iff.mp hinstructions
  obtain ⟨funding, nonce, hfunding, hnonce, hmarks⟩ := signers_of_kindInstructions hpayer hrest
  refine ⟨kind, payer, signer, nonce, hkind, hpayer, hsigner, hnonce, ?_⟩
  have hfunded : funding ⊆ [payer] ++ List.replicate advanced.toList.length signer :=
    fun a ha => List.mem_append_left _ (hfunding ha)
  calc m.signerKeys
      = ([payer] ++ List.replicate advanced.toList.length signer ++ funding ++
          (List.replicate kind.signerMarks signer ++ nonce.toList)).eraseDups := by
        rw [signerKeys_of_compile hcompile, List.flatMap_append, signers_opening, hmarks]
        simp
    _ = ([payer] ++ List.replicate (advanced.toList.length + kind.signerMarks) signer ++
          nonce.toList).eraseDups := by
        rw [eraseDups_append_of_subset hfunded]
        simp only [List.replicate_add, List.append_assoc]
    _ = ([payer] ++ (if r.IsIdle then [] else [signer]) ++ nonce.toList).eraseDups := by
        rw [eraseDups_append_replicate]
        simp only [marks_eq_zero_iff hkind hadvanced]

theorem nodup_signerKeys_of_build {m : Message} (h : r.build suite = .ok m) :
    m.signerKeys.Nodup := by
  obtain ⟨kind, payer, signer, nonce, -, -, -, -, hkeys⟩ := signerKeys_eq_of_build h
  rw [hkeys]
  exact KeyTable.nodup_eraseDups _

/-- **Who signs.**  The keys that must sign a built message are the fee payer,
the signer and a new nonce account, in this order and each of them once; the
signer is left out only if the request is idle.  The fee payer has the first
place, and no other account signs, whatever place it has in the message. -/
theorem signerKeys_of_build {m : Message} (h : r.build suite = .ok m) :
    ∃ kind payer signer nonce, r.kind = some kind ∧ r.feePayerAddress suite = .ok payer ∧
      r.signerAddress suite = .ok signer ∧ kind.newNonce suite = .ok nonce ∧
      m.signerKeys =
        ([payer] ++ (if r.IsIdle then [] else [signer]) ++ nonce.toList).eraseDups ∧
      m.keys[0]? = some payer ∧
      ∀ index a, m.keys[index]? = some a →
        (index < m.header.signerCount ↔ a = payer ∨ (a = signer ∧ ¬ r.IsIdle) ∨ nonce = some a) := by
  obtain ⟨kind, payer, signer, nonce, hkind, hpayer, hsigner, hnonce, hkeys⟩ :=
    signerKeys_eq_of_build h
  obtain ⟨instructions, payer', blockhash, -, hpayer', -, hcompile⟩ := build_eq_ok_iff.mp h
  obtain rfl : payer = payer' := Except.ok.inj (hpayer.symm.trans hpayer')
  have hcarries := Message.carriesOut_of_compile hcompile
  refine ⟨kind, payer, signer, nonce, hkind, hpayer, hsigner, hnonce, hkeys, ?_, ?_⟩
  · obtain ⟨rest, hrest⟩ := KeyTable.payer_prefix_keys_inPasses instructions (some payer)
    rw [(Message.counts_of_compile hcompile).1, ← hrest]
    rfl
  · intro index a ha
    rw [lt_signerCount_iff_mem_signerKeys hcarries.wellFormed.1 hcarries.nodup ha, hkeys,
      List.mem_eraseDups]
    by_cases hidle : r.IsIdle <;> simp [hidle]

/-- The account to be created, which also pays the fee for that. -/
def sampleNonce : Address := ⟨Block.fit 32 [5]⟩

def sampleSender : Address := ⟨Block.fit 32 [6]⟩

def sampleCreation : Request where
  sender := sampleSender.text
  feePayer := some sampleNonce.text
  recentBlockhash := Blockhash.text ⟨Block.fit 32 [9]⟩
  kind := some (.createNonce { nonceAccount := sampleNonce.text, rent := 7 })

def sampleCreationMessage : Message where
  header := { required := 2, readonlySigners := 0, readonlyOthers := 3 }
  keys := [sampleNonce, sampleSender, Known.recentBlockhashes, Known.rent, Known.system]
  blockhash := ⟨Block.fit 32 [9]⟩
  instructions :=
    [⟨4, [1, 0], bytes32 0 ++ (bytes64 7 ++ bytes64 80 ++ Known.system.bytes)⟩,
      ⟨4, [0, 2, 3], bytes32 6 ++ sampleSender.bytes⟩]
  format := .legacy

/-- Two of the three accounts are one, and it signs once. -/
theorem signerKeys_of_sampleCreation :
    sampleCreation.build .ledger = .ok sampleCreationMessage ∧
      sampleCreationMessage.signerKeys = [sampleNonce, sampleSender] := by
  have hbuild : sampleCreation.build .ledger = .ok sampleCreationMessage := by decide +kernel
  obtain ⟨kind, payer, signer, nonce, hkind, hpayer, hsigner, hnonce, hkeys, -⟩ :=
    signerKeys_of_build hbuild
  obtain rfl := Option.some.inj hkind
  obtain rfl : sampleNonce = payer := Except.ok.inj (.trans (by decide +kernel) hpayer)
  obtain rfl : sampleSender = signer := Except.ok.inj (.trans (by decide +kernel) hsigner)
  obtain rfl : some sampleNonce = nonce := Except.ok.inj (.trans (by decide +kernel) hnonce)
  refine ⟨hbuild, hkeys.trans ?_⟩
  decide +kernel

end Request

end SolanaWallet
