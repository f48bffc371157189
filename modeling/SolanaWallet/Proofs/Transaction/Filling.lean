import Mathlib.Data.List.TakeWhile
import SolanaWallet.Proofs.Transaction.Slots

/-!
# What signing leaves behind

Signing looks up one slot after the other and stops at the first key that has
none.  What it leaves is described without following it: the keys in front of
that one have signed, and a slot holds the signature of the last of them whose
address first occurs there, or what it held before (`Transaction.SignedWith`).

If the addresses of the keys are pairwise distinct then there is at most one
such key for each slot.  So the order of the keys does not matter, and keys that
have signed can sign again without changing anything.

Signatures that come from outside are checked one by one.  Those that keys have
made pass, and are put where the keys would have put them.
-/

namespace SolanaWallet

variable {suite : CryptoSuite}

/-! ## The last key of a place -/

namespace Message

/-- The last of the keys whose address first occurs at `place`. -/
def lastKeyAt? (suite : CryptoSuite) (m : Message) (keys : List Keypair) (place : Nat) :
    Option Keypair :=
  keys.reverse.find? fun key => m.keys.idxOf? (key.address suite) = some place

variable {m : Message} {keys : List Keypair} {place : Nat} {key : Keypair}

theorem lastKeyAt?_eq_none_iff :
    m.lastKeyAt? suite keys place = none ↔
      ∀ key ∈ keys, m.keys.idxOf? (key.address suite) ≠ some place := by
  simp [lastKeyAt?]

theorem of_lastKeyAt? (h : m.lastKeyAt? suite keys place = some key) :
    key ∈ keys ∧ m.keys.idxOf? (key.address suite) = some place :=
  ⟨List.mem_reverse.mp (List.mem_of_find?_eq_some h), by simpa using List.find?_some h⟩

/-- Keys with different addresses do not compete for a place. -/
theorem lastKeyAt?_eq_some_iff (hdistinct : (keys.map (·.address suite)).Nodup) :
    m.lastKeyAt? suite keys place = some key ↔
      key ∈ keys ∧ m.keys.idxOf? (key.address suite) = some place := by
  refine ⟨of_lastKeyAt?, ?_⟩
  rintro ⟨hkey, hplace⟩
  cases hlast : m.lastKeyAt? suite keys place with
  | none => exact absurd hplace (lastKeyAt?_eq_none_iff.mp hlast key hkey)
  | some other =>
    obtain ⟨hother, hplace'⟩ := of_lastKeyAt? hlast
    have haddress : other.address suite = key.address suite := eq_of_idxOf? hplace' hplace
    rw [List.inj_on_of_nodup_map hdistinct hother hkey haddress]

end Message

/-! ## Keys and their slots -/

namespace Transaction

open Message (lastKeyAt?_eq_none_iff lastKeyAt?_eq_some_iff of_lastKeyAt?)

/-- The address first occurs among the keys at the place of a slot. -/
def HasSlot (tx : Transaction) (a : Address) : Prop :=
  ∃ slot ∈ tx.message.keys.idxOf? a, slot < tx.signatures.length

instance (tx : Transaction) (a : Address) : Decidable (tx.HasSlot a) :=
  inferInstanceAs (Decidable (∃ slot ∈ tx.message.keys.idxOf? a, slot < tx.signatures.length))

/-- Why an address has no slot. -/
def slotFault (tx : Transaction) (a : Address) : AccountFault :=
  if a ∈ tx.message.keys then .notSigner a else .unlisted

/-- The first of the keys whose address has no slot. -/
def slotless? (suite : CryptoSuite) (tx : Transaction) (keys : List Keypair) : Option Keypair :=
  keys.find? fun key => ¬tx.HasSlot (key.address suite)

/-- The keys in front of the first whose address has no slot. -/
def slotted (suite : CryptoSuite) (tx : Transaction) (keys : List Keypair) : List Keypair :=
  keys.takeWhile fun key => tx.HasSlot (key.address suite)

/-- `tx'` is `tx` signed with the keys, up to the first that has no slot. -/
structure SignedWith (suite : CryptoSuite) (bytes : List UInt8) (keys : List Keypair)
    (tx tx' : Transaction) : Prop where
  message_eq : tx'.message = tx.message
  length_eq : tx'.signatures.length = tx.signatures.length
  getElem?_signatures : ∀ slot < tx.signatures.length, tx'.signatures[slot]? =
    ((tx.message.lastKeyAt? suite (tx.slotted suite keys) slot).map (·.sign suite bytes)).or
      tx.signatures[slot]?

variable {tx tx' : Transaction} {a : Address} {keys : List Keypair} {bytes : List UInt8}

theorem hasSlot_iff : tx.HasSlot a ↔ ∃ slot, tx.slotOf a = .ok slot :=
  exists_congr fun _ => slotOf_eq_ok_iff.symm

@[simp] theorem hasSlot_put (tx : Transaction) (entry : Address × Signature) (a : Address) :
    (tx.put entry).HasSlot a ↔ tx.HasSlot a := by
  simp only [hasSlot_iff, slotOf_put]

@[simp] theorem slotFault_put (tx : Transaction) (entry : Address × Signature) (a : Address) :
    (tx.put entry).slotFault a = tx.slotFault a := by
  simp only [slotFault, message_put]

theorem slotOf_of_not_hasSlot (h : ¬tx.HasSlot a) :
    tx.slotOf a = .error (.account (tx.slotFault a)) := by
  unfold slotOf accountIndex slotFault
  cases hplace : tx.message.keys.idxOf? a with
  | none =>
    rw [if_neg (List.idxOf?_eq_none_iff.mp hplace)]
    rfl
  | some place =>
    have hge : ¬place < tx.signatures.length := fun hlt => h ⟨place, hplace, hlt⟩
    rw [if_pos (mem_of_idxOf? hplace)]
    exact if_neg hge

theorem slotted_eq_self (h : ∀ key ∈ keys, tx.HasSlot (key.address suite)) :
    tx.slotted suite keys = keys :=
  List.takeWhile_eq_self_iff.mpr fun key hkey => decide_eq_true (h key hkey)

/-! ## Where the last signature comes from -/

/-- The last signature of an address is that of the last key with its place. -/
theorem lastSignature?_made {m : Message} {place : Nat} (h : m.keys.idxOf? a = some place) :
    lastSignature? (Signing.made suite bytes keys) a =
      (m.lastKeyAt? suite keys place).map (·.sign suite bytes) := by
  have hsame : ∀ key : Keypair,
      key.address suite = a ↔ m.keys.idxOf? (key.address suite) = some place := by
    intro key
    exact ⟨fun haddress => haddress ▸ h, fun hplace => eq_of_idxOf? hplace h⟩
  simp only [lastSignature?, Signing.made, Message.lastKeyAt?, ← List.map_reverse, List.find?_map,
    Option.map_map, Function.comp_def, hsame]

theorem signedWith_foldl_put (bytes : List UInt8) (keys : List Keypair) (tx : Transaction) :
    SignedWith suite bytes keys tx
      ((Signing.made suite bytes (tx.slotted suite keys)).foldl put tx) := by
  refine ⟨message_foldl_put _ tx, length_signatures_foldl_put _ tx, ?_⟩
  intro slot hslot
  cases hlast : tx.message.lastKeyAt? suite (tx.slotted suite keys) slot with
  | none =>
    refine getElem?_foldl_put_of_forall_ne ?_
    intro entry hentry hplace
    obtain ⟨key, hkey, rfl⟩ := List.mem_map.mp hentry
    exact lastKeyAt?_eq_none_iff.mp hlast key hkey (slotOf_eq_ok_iff.mp hplace).1
  | some key =>
    have hplace : tx.message.keys.idxOf? (key.address suite) = some slot := (of_lastKeyAt? hlast).2
    rw [getElem?_foldl_put (slotOf_eq_ok_iff.mpr ⟨hplace, hslot⟩), lastSignature?_made hplace,
      hlast]

theorem SignedWith.unique {tx'' : Transaction} (h : SignedWith suite bytes keys tx tx')
    (h' : SignedWith suite bytes keys tx tx'') : tx'' = tx' := by
  refine ext (List.ext_getElem? fun slot => ?_) (h'.message_eq.trans h.message_eq.symm)
  by_cases hslot : slot < tx.signatures.length
  · rw [h'.getElem?_signatures slot hslot, h.getElem?_signatures slot hslot]
  · have hge : tx.signatures.length ≤ slot := Nat.le_of_not_lt hslot
    rw [List.getElem?_eq_none (h'.length_eq ▸ hge), List.getElem?_eq_none (h.length_eq ▸ hge)]

theorem SignedWith.messageBytes_eq (h : SignedWith suite bytes keys tx tx') :
    tx'.messageBytes = tx.messageBytes := by
  rw [messageBytes, h.message_eq, messageBytes]

theorem SignedWith.hasSlot_iff (h : SignedWith suite bytes keys tx tx') :
    tx'.HasSlot a ↔ tx.HasSlot a := by
  simp only [HasSlot, h.message_eq, h.length_eq]

/-! ## Distinct addresses -/

/-- Keys with distinct addresses can sign in any order. -/
theorem SignedWith.of_perm {keys' : List Keypair} (hdistinct : (keys.map (·.address suite)).Nodup)
    (hslots : ∀ key ∈ keys, tx.HasSlot (key.address suite)) (hperm : keys'.Perm keys)
    (h : SignedWith suite bytes keys tx tx') : SignedWith suite bytes keys' tx tx' := by
  refine ⟨h.message_eq, h.length_eq, fun slot hslot => ?_⟩
  have hdistinct' : (keys'.map (·.address suite)).Nodup := (hperm.map _).nodup_iff.mpr hdistinct
  have hlast : tx.message.lastKeyAt? suite keys' slot = tx.message.lastKeyAt? suite keys slot := by
    apply Option.ext
    intro key
    rw [lastKeyAt?_eq_some_iff hdistinct', lastKeyAt?_eq_some_iff hdistinct, hperm.mem_iff]
  rw [slotted_eq_self fun key hkey => hslots key (hperm.mem_iff.mp hkey), hlast,
    h.getElem?_signatures slot hslot, slotted_eq_self hslots]

/-- Keys with distinct addresses find their own signatures when they sign again. -/
theorem SignedWith.again {again : List Keypair} (hdistinct : (keys.map (·.address suite)).Nodup)
    (hslots : ∀ key ∈ keys, tx.HasSlot (key.address suite)) (hagain : again ⊆ keys)
    (h : SignedWith suite bytes keys tx tx') : SignedWith suite bytes again tx' tx' := by
  refine ⟨rfl, rfl, fun slot hslot => ?_⟩
  rw [slotted_eq_self fun key hkey => h.hasSlot_iff.mpr (hslots key (hagain hkey))]
  cases hlast : tx'.message.lastKeyAt? suite again slot with
  | none => rfl
  | some key =>
    obtain ⟨hkey, hplace⟩ := of_lastKeyAt? hlast
    have hown : tx.message.lastKeyAt? suite keys slot = some key :=
      (lastKeyAt?_eq_some_iff hdistinct).mpr ⟨hagain hkey, h.message_eq ▸ hplace⟩
    rw [h.getElem?_signatures slot (h.length_eq ▸ hslot), slotted_eq_self hslots, hown]
    rfl

end Transaction

/-! ## Signing with keys -/

namespace Signing

open Transaction

variable {tx tx' : Transaction} {keys : List Keypair} {bytes : List UInt8}

theorem fillSlots_of_slotless? {key : Keypair} (h : tx.slotless? suite keys = some key) :
    fillSlots suite bytes keys tx = .error (.account (tx.slotFault (key.address suite)))
      ((made suite bytes (tx.slotted suite keys)).foldl put tx) := by
  induction keys generalizing tx with
  | nil => cases h
  | cons first rest ih =>
    by_cases hfirst : tx.HasSlot (first.address suite)
    · obtain ⟨slot, hslot⟩ := hasSlot_iff.mp hfirst
      -- the rest find the same slots after the first signature as before it
      have hrest : (tx.put (first.address suite, first.sign suite bytes)).slotless? suite rest =
          some key := by
        simpa [slotless?, hfirst] using h
      rw [fillSlots_cons_of_slotOf hslot, ih hrest]
      simp [slotted, made, hfirst]
    · obtain rfl : first = key := by simpa [slotless?, hfirst] using h
      simp [fillSlots, slotOf_of_not_hasSlot hfirst, slotted, made, hfirst]

theorem fillSlots_of_forall_hasSlot (h : ∀ key ∈ keys, tx.HasSlot (key.address suite)) :
    fillSlots suite bytes keys tx = .ok ()
      ((made suite bytes (tx.slotted suite keys)).foldl put tx) := by
  rw [slotted_eq_self h]
  exact fillSlots_eq_ok_iff.mpr ⟨fun key hkey => hasSlot_iff.mp (h key hkey), rfl⟩

theorem sign_of_messageBytes (hbytes : tx.messageBytes = .ok bytes) (keys : List Keypair) :
    sign suite keys tx = fillSlots suite bytes keys tx := by
  simp only [sign, hbytes]

theorem fillSlots_lawful (suite : CryptoSuite) (bytes : List UInt8) (keys : List Keypair) :
    fillSlots suite.lawful bytes keys = fillSlots suite bytes keys := by
  induction keys with
  | nil => rfl
  | cons key rest ih =>
    funext tx
    simp only [fillSlots, ih]
    rfl

/-- Keys sign without verifying anything. -/
theorem sign_lawful (suite : CryptoSuite) (keys : List Keypair) :
    sign suite.lawful keys = sign suite keys := by
  funext tx
  simp only [sign, fillSlots_lawful]

theorem sign_eq_ok_iff (hbytes : tx.messageBytes = .ok bytes) :
    sign suite keys tx = .ok () tx' ↔
      (∀ key ∈ keys, tx.HasSlot (key.address suite)) ∧ SignedWith suite bytes keys tx tx' := by
  rw [sign_of_messageBytes hbytes]
  have hsigned : SignedWith suite bytes keys tx _ := signedWith_foldl_put bytes keys tx
  constructor
  · intro h
    obtain ⟨hslots, rfl⟩ := fillSlots_eq_ok_iff.mp h
    have hslots : ∀ key ∈ keys, tx.HasSlot (key.address suite) :=
      fun key hkey => hasSlot_iff.mpr (hslots key hkey)
    rw [slotted_eq_self hslots] at hsigned
    exact ⟨hslots, hsigned⟩
  · rintro ⟨hslots, h⟩
    rw [fillSlots_of_forall_hasSlot hslots, hsigned.unique h]

/-- **What signing leaves behind.**  Signing never changes the message or the
number of slots.  It succeeds if every key has a slot, and otherwise stops at the
first key without one and says why.  Either way, a slot holds the signature of
the last key before that point whose address first occurs there, or what it held
before.  So keys with distinct addresses can sign in any order, and any of them
can sign again without a change. -/
theorem signedWith_of_sign (suite : CryptoSuite) (hbytes : tx.messageBytes = .ok bytes)
    (keys : List Keypair) :
    ∃ tx', SignedWith suite bytes keys tx tx' ∧
      (sign suite keys tx = .ok () tx' ↔ ∀ key ∈ keys, tx.HasSlot (key.address suite)) ∧
      (∀ key, tx.slotless? suite keys = some key →
        sign suite keys tx = .error (.account (tx.slotFault (key.address suite))) tx') ∧
      ((keys.map (·.address suite)).Nodup → sign suite keys tx = .ok () tx' →
        (∀ keys', keys'.Perm keys → sign suite keys' tx = .ok () tx') ∧
          ∀ again, again ⊆ keys → sign suite again tx' = .ok () tx') := by
  have hsigned : SignedWith suite bytes keys tx _ := signedWith_foldl_put bytes keys tx
  refine ⟨_, hsigned, ?_, ?_, ?_⟩
  · rw [sign_eq_ok_iff hbytes]
    exact and_iff_left hsigned
  · intro key hslotless
    rw [sign_of_messageBytes hbytes]
    exact fillSlots_of_slotless? hslotless
  · intro hdistinct hsign
    obtain ⟨hslots, -⟩ := (sign_eq_ok_iff hbytes).mp hsign
    constructor
    · intro keys' hperm
      exact (sign_eq_ok_iff hbytes).mpr ⟨fun key hkey => hslots key (hperm.mem_iff.mp hkey),
        hsigned.of_perm hdistinct hslots hperm⟩
    · intro again hagain
      exact (sign_eq_ok_iff (hsigned.messageBytes_eq.trans hbytes)).mpr
        ⟨fun key hkey => hsigned.hasSlot_iff.mpr (hslots key (hagain hkey)),
          hsigned.again hdistinct hslots hagain⟩

def sampleSecond : Keypair := ⟨Block.fit 32 [2]⟩

def sampleStranger : Keypair := ⟨Block.fit 32 [3]⟩

/-- An unsigned transaction for the payer and a second signer. -/
def samplePair : Transaction :=
  ofMessage
    { sampleMessage with
      header := { required := 2, readonlySigners := 0, readonlyOthers := 0 }
      keys := [samplePayer.address .ledger, sampleSecond.address .ledger] }

theorem keys_samplePair : samplePair.message.keys =
    [samplePayer.address .ledger, sampleSecond.address .ledger] := rfl

theorem signatures_samplePair : samplePair.signatures = [.placeholder, .placeholder] := rfl

theorem mem_keys_samplePair {a : Address} : a ∈ samplePair.message.keys ↔
    a = samplePayer.address .ledger ∨ a = sampleSecond.address .ledger :=
  List.mem_pair

theorem hasSlot_samplePair {a : Address} : samplePair.HasSlot a ↔
    a = samplePayer.address .ledger ∨ a = sampleSecond.address .ledger :=
  (hasSlot_iff.trans (exists_slotOf_iff (length_signatures_ofMessage _))).trans mem_keys_samplePair

theorem sampleAddresses_ne :
    samplePayer.address .ledger ≠ sampleSecond.address .ledger ∧
      sampleStranger.address .ledger ≠ samplePayer.address .ledger ∧
      sampleStranger.address .ledger ≠ sampleSecond.address .ledger := by
  decide +kernel

/-- The second signer has the second slot. -/
theorem put_samplePair (signature : Signature) :
    samplePair.put (sampleSecond.address .ledger, signature) =
      { samplePair with signatures := [.placeholder, signature] } := by
  have hplace : samplePair.message.keys.idxOf? (sampleSecond.address .ledger) = some 1 := by
    simp [keys_samplePair, List.idxOf?_cons, sampleAddresses_ne.1]
  have hslot : samplePair.slotOf (sampleSecond.address .ledger) = .ok 1 :=
    slotOf_eq_ok_iff.mpr ⟨hplace, by simp [signatures_samplePair]⟩
  rw [put_of_slotOf hslot, fill, signatures_samplePair, List.set_cons_succ, List.set_cons_zero]

theorem slotFault_sampleStranger :
    samplePair.slotFault (sampleStranger.address .ledger) = .unlisted :=
  if_neg (mem_keys_samplePair.not.mpr (not_or.mpr sampleAddresses_ne.2))

/-- The signers sign in either order, and one of them once more.  A stranger
between them is a failure, and the slot in front of it is filled. -/
theorem signedWith_of_samplePair :
    ∃ bytes tx tx', samplePair.messageBytes = .ok bytes ∧
      sign .ledger [samplePayer, sampleSecond] samplePair = .ok () tx ∧
      sign .ledger [sampleSecond, samplePayer] samplePair = .ok () tx ∧
      sign .ledger [samplePayer] tx = .ok () tx ∧
      sign .ledger [samplePayer, sampleStranger, sampleSecond] samplePair =
        .error (.account .unlisted) tx' ∧
      SignedWith .ledger bytes [samplePayer, sampleStranger, sampleSecond] samplePair tx' ∧
      tx'.signatures[0]? = some (samplePayer.sign .ledger bytes) ∧
      tx'.signatures[1]? = some .placeholder := by
  obtain ⟨hsecond, hstranger⟩ := sampleAddresses_ne
  obtain ⟨bytes, hbytes⟩ : ∃ bytes, samplePair.messageBytes = .ok bytes := ⟨_, rfl⟩
  obtain ⟨tx, -, hok, -, hlaws⟩ := signedWith_of_sign .ledger hbytes [samplePayer, sampleSecond]
  have hsign : sign .ledger [samplePayer, sampleSecond] samplePair = .ok () tx :=
    hok.mpr (by simp [hasSlot_samplePair])
  obtain ⟨hperm, hagain⟩ := hlaws (by simpa using hsecond) hsign
  obtain ⟨tx', hsigned, -, herror, -⟩ :=
    signedWith_of_sign .ledger hbytes [samplePayer, sampleStranger, sampleSecond]
  have hslotless : samplePair.slotless? .ledger [samplePayer, sampleStranger, sampleSecond] =
      some sampleStranger := by
    simp [slotless?, hasSlot_samplePair, hstranger]
  have hslotted : samplePair.slotted .ledger [samplePayer, sampleStranger, sampleSecond] =
      [samplePayer] := by
    simp [slotted, hasSlot_samplePair, hstranger]
  have hfirst : tx'.signatures[0]? = some (samplePayer.sign .ledger bytes) := by
    rw [hsigned.getElem?_signatures 0 (by simp [signatures_samplePair]), hslotted]
    simp [Message.lastKeyAt?, keys_samplePair, List.idxOf?_cons]
  have hlast : tx'.signatures[1]? = some .placeholder := by
    rw [hsigned.getElem?_signatures 1 (by simp [signatures_samplePair]), hslotted]
    simp [Message.lastKeyAt?, keys_samplePair, List.idxOf?_cons, signatures_samplePair]
  exact ⟨bytes, tx, tx', hbytes, hsign, hperm _ (.swap _ _ _), hagain _ (by simp),
    slotFault_sampleStranger ▸ herror _ hslotless, hsigned, hfirst, hlast⟩

/-! ## Signatures from outside -/

theorem placeSignatures_made (hsuite : suite.SignsVerifiably) (bytes : List UInt8)
    (keys : List Keypair) (tx : Transaction) :
    placeSignatures suite bytes (made suite bytes keys) tx = fillSlots suite bytes keys tx := by
  induction keys generalizing tx with
  | nil => rfl
  | cons key rest ih =>
    rw [made, List.map_cons]
    cases hslot : tx.slotOf (key.address suite) with
    | error reason => simp only [placeSignatures, fillSlots, hslot]
    | ok slot =>
      -- the signature is checked after its slot is found, and passes
      simp only [placeSignatures, fillSlots, hslot, key.verifySignature_sign hsuite bytes]
      exact ih _

/-- **Keys sign the same from outside.**  If signatures verify under the addresses
of the keys that made them, then adding those of some keys ends like signing with
the keys, in the same result or failure and with the same slots filled. -/
theorem addExternal_made_eq_sign (hsuite : suite.SignsVerifiably)
    (hbytes : tx.messageBytes = .ok bytes) (keys : List Keypair) :
    addExternal suite (made suite bytes keys) tx = sign suite keys tx := by
  rw [sign_of_messageBytes hbytes, ← placeSignatures_made hsuite]
  simp only [addExternal, hbytes]

/-- The stranger stops both, because no account of the message is theirs, and
after the second signer, whose slot is filled.  The payer does not sign. -/
theorem addExternal_of_samplePair :
    ∃ bytes tx, samplePair.messageBytes = .ok bytes ∧
      tx = { samplePair with signatures := [.placeholder, sampleSecond.sign .ledger bytes] } ∧
      sign CryptoSuite.ledger.lawful [sampleSecond, sampleStranger, samplePayer] samplePair =
        .error (.account .unlisted) tx ∧
      addExternal CryptoSuite.ledger.lawful
          (made CryptoSuite.ledger.lawful bytes [sampleSecond, sampleStranger, samplePayer])
          samplePair =
        .error (.account .unlisted) tx := by
  obtain ⟨-, hstranger⟩ := sampleAddresses_ne
  obtain ⟨bytes, hbytes⟩ : ∃ bytes, samplePair.messageBytes = .ok bytes := ⟨_, rfl⟩
  have hslotless : samplePair.slotless? .ledger [sampleSecond, sampleStranger, samplePayer] =
      some sampleStranger := by
    simp [slotless?, hasSlot_samplePair, hstranger]
  have hslotted : samplePair.slotted .ledger [sampleSecond, sampleStranger, samplePayer] =
      [sampleSecond] := by
    simp [slotted, hasSlot_samplePair, hstranger]
  have hsign : sign CryptoSuite.ledger.lawful [sampleSecond, sampleStranger, samplePayer]
      samplePair = .error (.account .unlisted)
        { samplePair with signatures := [.placeholder, sampleSecond.sign .ledger bytes] } := by
    rw [sign_lawful, sign_of_messageBytes hbytes, fillSlots_of_slotless? hslotless, hslotted,
      slotFault_sampleStranger, made, List.map_singleton, List.foldl_cons, List.foldl_nil,
      put_samplePair]
  exact ⟨bytes, _, hbytes, rfl, hsign,
    (addExternal_made_eq_sign CryptoSuite.ledger.signsVerifiably_lawful hbytes
      [sampleSecond, sampleStranger, samplePayer]).trans hsign⟩

end Signing

end SolanaWallet
