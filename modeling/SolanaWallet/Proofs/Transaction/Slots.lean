import Mathlib.Data.List.Induction
import Mathlib.Data.List.Nodup
import SolanaWallet.Proofs.Transaction.Signing

/-!
# What the slots hold in the end

Whoever makes a signature, it goes into the slot of its address, and which slot
that is does not change on the way.  So a run of signatures that succeeds is a
fold of `Transaction.put`, which never touches the message, and a slot holds in
the end the last of the signatures whose address it belongs to, or what it held
before (`getElem?_foldl_put`).

If the signers of a message are pairwise distinct then slot `i` belongs to
signer `i` and to nobody else.  In that case the signatures of a transaction can
be put into an unsigned one in any order (`foldl_put_eq_of_perm`).
-/

namespace SolanaWallet

variable {suite : CryptoSuite}

namespace Transaction

variable {tx tx' : Transaction} {entry : Address × Signature}
  {entries : List (Address × Signature)}

@[ext] theorem ext (hsignatures : tx.signatures = tx'.signatures)
    (hmessage : tx.message = tx'.message) : tx = tx' := by
  cases tx
  cases tx'
  cases hsignatures
  cases hmessage
  rfl

/-- The transaction with a signature in the slot of its address, if there is
one. -/
def put (tx : Transaction) (entry : Address × Signature) : Transaction :=
  match tx.slotOf entry.1 with
  | .ok slot => tx.fill slot entry.2
  | .error _ => tx

theorem put_of_slotOf {slot : Nat} (h : tx.slotOf entry.1 = .ok slot) :
    tx.put entry = tx.fill slot entry.2 := by
  rw [put, h]

@[simp] theorem message_put (tx : Transaction) (entry : Address × Signature) :
    (tx.put entry).message = tx.message := by
  unfold put
  split <;> rfl

@[simp] theorem length_signatures_put (tx : Transaction) (entry : Address × Signature) :
    (tx.put entry).signatures.length = tx.signatures.length := by
  unfold put
  split <;> simp [fill]

/-- The slot of an address depends on the message and the number of slots. -/
theorem slotOf_congr (hmessage : tx'.message = tx.message)
    (hslots : tx'.signatures.length = tx.signatures.length) (a : Address) :
    tx'.slotOf a = tx.slotOf a := by
  simp only [slotOf, accountIndex, hmessage, hslots]

@[simp] theorem slotOf_put (tx : Transaction) (entry : Address × Signature) (a : Address) :
    (tx.put entry).slotOf a = tx.slotOf a :=
  slotOf_congr (message_put tx entry) (length_signatures_put tx entry) a

theorem message_foldl_put (entries : List (Address × Signature)) (tx : Transaction) :
    (entries.foldl put tx).message = tx.message := by
  induction entries generalizing tx with
  | nil => rfl
  | cons entry rest ih => rw [List.foldl_cons, ih, message_put]

theorem length_signatures_foldl_put (entries : List (Address × Signature)) (tx : Transaction) :
    (entries.foldl put tx).signatures.length = tx.signatures.length := by
  induction entries generalizing tx with
  | nil => rfl
  | cons entry rest ih => rw [List.foldl_cons, ih, length_signatures_put]

theorem slots_foldl_put (hslots : tx.signatures.length = tx.message.header.signerCount)
    (entries : List (Address × Signature)) :
    (entries.foldl put tx).signatures.length =
      (entries.foldl put tx).message.header.signerCount := by
  rw [length_signatures_foldl_put, message_foldl_put, hslots]

theorem getElem?_put_of_slotOf_ne {slot : Nat} (h : tx.slotOf entry.1 ≠ .ok slot) :
    (tx.put entry).signatures[slot]? = tx.signatures[slot]? := by
  cases hplace : tx.slotOf entry.1 with
  | error reason => rw [put, hplace]
  | ok place =>
    rw [put_of_slotOf hplace, fill, List.getElem?_set_ne]
    rintro rfl
    exact h hplace

theorem getElem?_foldl_put_of_forall_ne {slot : Nat}
    (h : ∀ entry ∈ entries, tx.slotOf entry.1 ≠ .ok slot) :
    (entries.foldl put tx).signatures[slot]? = tx.signatures[slot]? := by
  induction entries generalizing tx with
  | nil => rfl
  | cons first rest ih =>
    obtain ⟨hfirst, hrest⟩ := List.forall_mem_cons.mp h
    rw [List.foldl_cons, ih (by simpa only [slotOf_put] using hrest),
      getElem?_put_of_slotOf_ne hfirst]

/-! ## The last signature counts -/

/-- Different addresses have different slots. -/
theorem slotOf_inj {a b : Address} {slot : Nat} (ha : tx.slotOf a = .ok slot)
    (hb : tx.slotOf b = .ok slot) : a = b :=
  eq_of_idxOf? (slotOf_eq_ok_iff.mp ha).1 (slotOf_eq_ok_iff.mp hb).1

/-- The last signature that is listed for an address. -/
def lastSignature? (entries : List (Address × Signature)) (a : Address) : Option Signature :=
  (entries.reverse.find? fun entry => entry.1 = a).map Prod.snd

theorem lastSignature?_append_singleton (entries : List (Address × Signature))
    (entry : Address × Signature) (a : Address) :
    lastSignature? (entries ++ [entry]) a =
      if entry.1 = a then some entry.2 else lastSignature? entries a := by
  rw [lastSignature?, List.reverse_append, List.reverse_singleton, List.singleton_append,
    List.find?_cons]
  by_cases hsame : entry.1 = a
  · simp [hsame]
  · simp [hsame, lastSignature?]

theorem lastSignature?_eq_none_iff {a : Address} :
    lastSignature? entries a = none ↔ ∀ entry ∈ entries, entry.1 ≠ a := by
  simp [lastSignature?]

theorem mem_of_lastSignature? {a : Address} {signature : Signature}
    (h : lastSignature? entries a = some signature) : (a, signature) ∈ entries := by
  obtain ⟨entry, hfound, rfl⟩ := Option.map_eq_some_iff.mp h
  obtain rfl : entry.1 = a := by simpa using List.find?_some hfound
  exact List.mem_reverse.mp (List.mem_of_find?_eq_some hfound)

theorem lastSignature?_eq_some_of_unique {a : Address} {signature : Signature}
    (h : (a, signature) ∈ entries) (hunique : ∀ other, (a, other) ∈ entries → other = signature) :
    lastSignature? entries a = some signature := by
  cases hlast : lastSignature? entries a with
  | none => exact absurd rfl (lastSignature?_eq_none_iff.mp hlast _ h)
  | some other => rw [hunique other (mem_of_lastSignature? hlast)]

/-- The slot of an address holds the last signature of that address, or else what
it held. -/
theorem getElem?_foldl_put {a : Address} {slot : Nat} (h : tx.slotOf a = .ok slot) :
    (entries.foldl put tx).signatures[slot]? =
      (lastSignature? entries a).or tx.signatures[slot]? := by
  induction entries using List.reverseRecOn with
  | nil => rfl
  | append_singleton rest entry ih =>
    have hslotOf : ∀ b, (rest.foldl put tx).slotOf b = tx.slotOf b :=
      slotOf_congr (message_foldl_put rest tx) (length_signatures_foldl_put rest tx)
    rw [List.foldl_append, List.foldl_cons, List.foldl_nil, lastSignature?_append_singleton]
    by_cases hsame : entry.1 = a
    · have hplace : (rest.foldl put tx).slotOf entry.1 = .ok slot := by rw [hslotOf, hsame, h]
      rw [if_pos hsame, put_of_slotOf hplace, fill,
        List.getElem?_set_self (slotOf_eq_ok_iff.mp hplace).2, Option.some_or]
    · have hplace : (rest.foldl put tx).slotOf entry.1 ≠ .ok slot := by
        rw [hslotOf]
        exact fun hentry => hsame (slotOf_inj hentry h)
      rw [if_neg hsame, getElem?_put_of_slotOf_ne hplace, ih]

/-- An unsigned transaction gets the last signature of each signer.  If a signer
occurs more than once, only the first of the slots is filled. -/
theorem getElem?_foldl_put_ofMessage {m : Message} {a : Address} {slot : Nat}
    (hsigner : m.signerKeys[slot]? = some a) :
    (entries.foldl put (ofMessage m)).signatures[slot]? =
      some (if m.keys.idxOf? a = some slot then (lastSignature? entries a).getD .placeholder
        else .placeholder) := by
  have hlt : slot < m.header.signerCount :=
    Nat.lt_of_lt_of_le (List.getElem?_eq_some_iff.mp hsigner).1 (List.length_take_le _ _)
  have hkey : m.keys[slot]? = some a := by
    rw [← hsigner, Message.signerKeys, List.getElem?_take_of_lt hlt]
  have hempty : (ofMessage m).signatures[slot]? = some .placeholder :=
    List.getElem?_replicate_of_lt hlt
  by_cases hfirst : m.keys.idxOf? a = some slot
  · have hslot : (ofMessage m).slotOf a = .ok slot :=
      slotOf_eq_ok_iff.mpr ⟨hfirst, List.length_replicate.symm ▸ hlt⟩
    rw [if_pos hfirst, getElem?_foldl_put hslot, hempty]
    cases lastSignature? entries a <;> rfl
  · -- whoever had this slot would be its key
    have hnobody : ∀ b, (ofMessage m).slotOf b ≠ .ok slot := by
      intro b hb
      have hplace := (slotOf_eq_ok_iff.mp hb).1
      obtain rfl : b = a :=
        Option.some.inj ((getElem?_of_idxOf? hplace).symm.trans hkey)
      exact hfirst hplace
    rw [if_neg hfirst, getElem?_foldl_put_of_forall_ne fun entry _ => hnobody entry.1, hempty]

end Transaction

/-! ## Runs that succeed -/

namespace Signing

/-- The signatures of bytes that keys make, with their signers. -/
def made (suite : CryptoSuite) (bytes : List UInt8) (keys : List Keypair) :
    List (Address × Signature) :=
  keys.map fun key => (key.address suite, key.sign suite bytes)

variable {change : Signing Unit} {tx tx' : Transaction} {bytes : List UInt8}

theorem apply_eq_ok_iff : change.apply tx = .ok tx' ↔ change tx = .ok () tx' := by
  unfold apply
  cases change tx with
  | ok result after => simp
  | error reason after => simp

theorem after_of_apply (h : change.apply tx = .ok tx') : change.after tx = tx' := by
  rw [after, apply_eq_ok_iff.mp h]

theorem pure_eq_ok_iff : (pure () : Signing Unit) tx = .ok () tx' ↔ tx' = tx := by
  change EStateM.Result.ok () tx = .ok () tx' ↔ _
  simp [eq_comm]

theorem fillSlots_cons_of_slotOf {key : Keypair} {rest : List Keypair} {slot : Nat}
    (h : tx.slotOf (key.address suite) = .ok slot) :
    fillSlots suite bytes (key :: rest) tx =
      fillSlots suite bytes rest (tx.put (key.address suite, key.sign suite bytes)) := by
  rw [Transaction.put_of_slotOf h]
  simp only [fillSlots, h]

theorem fillSlots_eq_ok_iff {keys : List Keypair} :
    fillSlots suite bytes keys tx = .ok () tx' ↔
      (∀ key ∈ keys, ∃ slot, tx.slotOf (key.address suite) = .ok slot) ∧
        tx' = (made suite bytes keys).foldl Transaction.put tx := by
  induction keys generalizing tx with
  | nil => simp [fillSlots, made, pure_eq_ok_iff]
  | cons key rest ih =>
    cases hslot : tx.slotOf (key.address suite) with
    | error reason => simp [fillSlots, hslot]
    | ok slot =>
      rw [fillSlots_cons_of_slotOf hslot, ih]
      simp [hslot, made]

theorem placeSignatures_eq_ok_iff {entries : List (Address × Signature)} :
    placeSignatures suite bytes entries tx = .ok () tx' ↔
      (∀ entry ∈ entries, (∃ slot, tx.slotOf entry.1 = .ok slot) ∧
        verifySignature suite entry.1 bytes entry.2 = .ok ()) ∧
        tx' = entries.foldl Transaction.put tx := by
  induction entries generalizing tx with
  | nil => simp [placeSignatures, pure_eq_ok_iff]
  | cons entry rest ih =>
    cases hslot : tx.slotOf entry.1 with
    | error reason => simp [placeSignatures, hslot]
    | ok slot =>
      cases hverify : verifySignature suite entry.1 bytes entry.2 with
      | error reason => simp [placeSignatures, hslot, hverify]
      | ok _ =>
        have hput : tx.put entry = tx.fill slot entry.2 := Transaction.put_of_slotOf hslot
        have hstep : placeSignatures suite bytes (entry :: rest) tx =
            placeSignatures suite bytes rest (tx.put entry) := by
          simp only [placeSignatures, hslot, hverify, hput]
        rw [hstep, ih]
        simp [hslot, hverify]

theorem sign_apply_eq_ok_iff {keys : List Keypair} :
    (sign suite keys).apply tx = .ok tx' ↔
      ∃ bytes, tx.messageBytes = .ok bytes ∧ fillSlots suite bytes keys tx = .ok () tx' := by
  rw [apply_eq_ok_iff, sign]
  cases tx.messageBytes <;> simp

theorem addExternal_apply_eq_ok_iff {entries : List (Address × Signature)} :
    (addExternal suite entries).apply tx = .ok tx' ↔
      ∃ bytes, tx.messageBytes = .ok bytes ∧
        placeSignatures suite bytes entries tx = .ok () tx' := by
  rw [apply_eq_ok_iff, addExternal]
  cases tx.messageBytes <;> simp

theorem eq_foldl_put_of_sign {keys : List Keypair} (h : (sign suite keys).apply tx = .ok tx') :
    ∃ bytes, tx.messageBytes = .ok bytes ∧
      tx' = (made suite bytes keys).foldl Transaction.put tx := by
  obtain ⟨bytes, hbytes, hfill⟩ := sign_apply_eq_ok_iff.mp h
  exact ⟨bytes, hbytes, (fillSlots_eq_ok_iff.mp hfill).2⟩

theorem eq_foldl_put_of_addExternal {entries : List (Address × Signature)}
    (h : (addExternal suite entries).apply tx = .ok tx') :
    tx' = entries.foldl Transaction.put tx := by
  obtain ⟨bytes, -, hplace⟩ := addExternal_apply_eq_ok_iff.mp h
  exact (placeSignatures_eq_ok_iff.mp hplace).2

theorem message_of_sign {keys : List Keypair} (h : (sign suite keys).apply tx = .ok tx') :
    tx'.message = tx.message := by
  obtain ⟨bytes, -, rfl⟩ := eq_foldl_put_of_sign h
  exact Transaction.message_foldl_put _ tx

theorem message_of_addExternal {entries : List (Address × Signature)}
    (h : (addExternal suite entries).apply tx = .ok tx') : tx'.message = tx.message := by
  rw [eq_foldl_put_of_addExternal h]
  exact Transaction.message_foldl_put entries tx

theorem sound_of_sign (hsuite : suite.SignsVerifiably) {keys : List Keypair}
    (htx : tx.Sound suite) (h : (sign suite keys).apply tx = .ok tx') : tx'.Sound suite := by
  rw [← after_of_apply h]
  exact (Transaction.moves_of_sign hsuite keys tx).sound htx

theorem sound_of_addExternal {entries : List (Address × Signature)} (htx : tx.Sound suite)
    (h : (addExternal suite entries).apply tx = .ok tx') : tx'.Sound suite := by
  rw [← after_of_apply h]
  exact (Transaction.moves_of_addExternal entries tx).sound htx

end Signing

/-! ## Slots and signers -/

namespace Transaction

variable {tx : Transaction} {entry : Address × Signature} {entries : List (Address × Signature)}

theorem length_signatures_ofMessage (m : Message) :
    (ofMessage m).signatures.length = (ofMessage m).message.header.signerCount :=
  List.length_replicate

/-- Exactly the required signers have slots. -/
theorem exists_slotOf_iff (hslots : tx.signatures.length = tx.message.header.signerCount)
    {a : Address} : (∃ slot, tx.slotOf a = .ok slot) ↔ a ∈ tx.message.signerKeys := by
  simp only [slotOf_eq_ok_iff, hslots]
  constructor
  · intro hparts
    obtain ⟨slot, hplace, hlt⟩ := hparts
    apply List.mem_of_getElem?
    rw [Message.signerKeys, List.getElem?_take_of_lt hlt]
    exact getElem?_of_idxOf? hplace
  · intro hsigner
    obtain ⟨slot, hmin, hkey⟩ := List.mem_take_iff_getElem.mp hsigner
    have hkey : tx.message.keys[slot]? = some a := List.getElem?_eq_some_iff.mpr ⟨_, hkey⟩
    cases hplace : tx.message.keys.idxOf? a with
    | none => exact absurd (List.mem_of_getElem? hkey) (List.idxOf?_eq_none_iff.mp hplace)
    | some place =>
      -- the first place of the address is not behind its slot
      have hfirst := (idxOf?_eq_some_iff_getElem?.mp hplace).2
      refine ⟨place, rfl, ?_⟩
      by_contra hge
      exact hfirst slot (by omega) hkey

/-- Signatures are added if they are those of signers and verify. -/
theorem addExternal_eq_ok_iff_signers
    (hslots : tx.signatures.length = tx.message.header.signerCount) {bytes : List UInt8}
    (hbytes : tx.messageBytes = .ok bytes) {tx' : Transaction} :
    (Signing.addExternal suite entries).apply tx = .ok tx' ↔
      (∀ entry ∈ entries, entry.1 ∈ tx.message.signerKeys ∧
        verifySignature suite entry.1 bytes entry.2 = .ok ()) ∧ tx' = entries.foldl put tx := by
  simp only [Signing.addExternal_apply_eq_ok_iff, hbytes, Except.ok.injEq, exists_eq_left',
    Signing.placeSignatures_eq_ok_iff, exists_slotOf_iff hslots]

theorem length_signerSignatures (hfits : tx.message.header.Fits tx.message.keys.length)
    (hslots : tx.signatures.length = tx.message.header.signerCount) :
    tx.signerSignatures.length = tx.signatures.length := by
  rw [signerSignatures, List.length_zip, Message.length_signerKeys hfits, hslots, Nat.min_self]

/-- Each of pairwise distinct signers has its only place among the keys. -/
theorem idxOf?_of_getElem?_signerKeys {m : Message} (hdistinct : m.signerKeys.Nodup) {slot : Nat}
    {a : Address} (h : m.signerKeys[slot]? = some a) : m.keys.idxOf? a = some slot := by
  obtain ⟨hlt, hkey⟩ := List.getElem?_eq_some_iff.mp h
  refine List.idxOf?_eq_some_iff.mpr ⟨?_, ?_, ?_⟩
  · exact Nat.lt_of_lt_of_le hlt (List.length_take_le' _ _)
  · rw [← hkey]
    exact List.getElem_take.symm
  · intro place hplace hsame
    have hearlier : m.signerKeys[place] = m.signerKeys[slot] := by
      rw [hkey, ← hsame]
      exact List.getElem_take
    exact Nat.ne_of_lt hplace (hdistinct.getElem_inj_iff.mp hearlier)

theorem slotOf_of_getElem? (hdistinct : tx.message.signerKeys.Nodup) {slot : Nat}
    (h : tx.signerSignatures[slot]? = some entry) : tx.slotOf entry.1 = .ok slot := by
  obtain ⟨hkey, hsignature⟩ := List.getElem?_zip_eq_some.mp h
  exact slotOf_eq_ok_iff.mpr ⟨idxOf?_of_getElem?_signerKeys hdistinct hkey,
    (List.getElem?_eq_some_iff.mp hsignature).1⟩

/-- **Any order will do.**  The signatures of a transaction with distinct signers
make it up again from its message. -/
theorem foldl_put_eq_of_perm (hfits : tx.message.header.Fits tx.message.keys.length)
    (hslots : tx.signatures.length = tx.message.header.signerCount)
    (hdistinct : tx.message.signerKeys.Nodup) (hentries : entries.Perm tx.signerSignatures) :
    entries.foldl put (ofMessage tx.message) = tx := by
  have hlength : (entries.foldl put (ofMessage tx.message)).signatures.length =
      tx.signatures.length :=
    calc (entries.foldl put (ofMessage tx.message)).signatures.length
        = (ofMessage tx.message).signatures.length := length_signatures_foldl_put entries _
      _ = tx.message.header.signerCount := List.length_replicate
      _ = tx.signatures.length := hslots.symm
  refine ext (List.ext_getElem? fun slot => ?_) (message_foldl_put entries _)
  by_cases hlt : slot < tx.signatures.length
  · have hplace : slot < tx.signerSignatures.length := by
      rwa [length_signerSignatures hfits hslots]
    have hown : tx.signerSignatures[slot]? = some tx.signerSignatures[slot] :=
      List.getElem?_eq_getElem hplace
    obtain ⟨hsigner, hheld⟩ := List.getElem?_zip_eq_some.mp hown
    have hlast : lastSignature? entries tx.signerSignatures[slot].1 =
        some tx.signerSignatures[slot].2 := by
      refine lastSignature?_eq_some_of_unique (hentries.mem_iff.mpr (List.getElem_mem hplace)) ?_
      intro other hother
      obtain ⟨place, hfound⟩ := List.mem_iff_getElem?.mp (hentries.mem_iff.mp hother)
      -- the signer has no other place
      have hslot := slotOf_of_getElem? hdistinct hown
      obtain rfl : place = slot :=
        Except.ok.inj ((slotOf_of_getElem? hdistinct hfound).symm.trans hslot)
      exact congrArg Prod.snd (Option.some.inj (hfound.symm.trans hown))
    rw [getElem?_foldl_put_ofMessage hsigner,
      if_pos (idxOf?_of_getElem?_signerKeys hdistinct hsigner), hlast, hheld]
    rfl
  · rw [List.getElem?_eq_none (hlength ▸ Nat.le_of_not_lt hlt),
      List.getElem?_eq_none (Nat.le_of_not_lt hlt)]

end Transaction

end SolanaWallet
