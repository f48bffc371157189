import SolanaWallet.Proofs.Edit.Settings
import SolanaWallet.Proofs.Request.Building
import SolanaWallet.Proofs.Transaction.Signing
import SolanaWallet.Proofs.Transaction.Wire

/-!
# The settings of an encoded transaction

To set a price or a limit in a transaction that is only a text, the text is
read, its message is edited, and the message is written again without
signatures.  The edited message can be read again, because no edit of a setting
adds a signer; so what was said of settings of messages can be said of texts.
-/

namespace SolanaWallet

variable {m m' : Message} {setting : ComputeBudget} {text result : String}

/-! ## Edited messages can be read -/

namespace Edit

theorem format_of_makeSetting (h : makeSetting setting m = .ok () m') :
    m'.format = m.format ∧ m'.header.signerCount = m.header.signerCount := by
  rcases makeSetting_cases h with ⟨position, -, rfl⟩ | ⟨-, program, mid, hlisted, rfl⟩
  · exact ⟨rfl, rfl⟩
  rcases gainsKey_of_pushReadonly hlisted with ⟨-, rfl⟩ | ⟨hgains, -⟩
  · exact ⟨rfl, rfl⟩
  · exact ⟨hgains.format_eq, hgains.counts.1⟩

theorem hasClearFormat_of_makeSetting (h : makeSetting setting m = .ok () m')
    (hclear : m.HasClearFormat) : m'.HasClearFormat := by
  obtain ⟨hformat, hsigners⟩ := format_of_makeSetting h
  unfold Message.HasClearFormat Message.isV0 at hclear ⊢
  rwa [hformat, hsigners]

theorem wellFormed_of_makeSetting (h : makeSetting setting m = .ok () m') (hm : m.WellFormed) :
    m'.WellFormed := by
  cases setting with
  | unitPrice price =>
    rw [← setUnitPrice_eq] at h
    have heffect : EditCommand.Effect m (.setUnitPrice price) m' :=
      EditCommand.effect_of_run_eq_ok hm h
    exact heffect.wellFormed hm
  | unitLimit units =>
    rw [← setUnitLimit_eq] at h
    have heffect : EditCommand.Effect m (.setUnitLimit units) m' :=
      EditCommand.effect_of_run_eq_ok hm h
    exact heffect.wellFormed hm

end Edit

/-! ## Texts -/

namespace EncodedTransaction

theorem applyEdit_eq_ok_iff {change : Edit Unit} : applyEdit change m = .ok m' ↔ change m = .ok () m' := by
  unfold applyEdit
  cases change m <;> simp

theorem decode_eq_ok_iff {tx : Transaction} :
    decode text = .ok tx ↔ tx.IsReadable ∧ tx.toBase64 = .ok text := by
  rw [decode, Attempt.inField_eq_ok_iff, Transaction.ofBase64_eq_ok_iff]

theorem edit_eq_ok_iff {change : Message → Edit Unit} :
    edit change text = .ok result ↔
      ∃ tx m', decode text = .ok tx ∧ change tx.message tx.message = .ok () m' ∧
        (Transaction.ofMessage m').toBase64 = .ok result := by
  simp only [edit, exceptBind_eq_ok_iff, Attempt.plain_eq_ok_iff, applyEdit_eq_ok_iff,
    exists_and_left]

/-- The text in which a setting was made is that of the edited message, without
signatures. -/
theorem decode_of_makeSetting (h : edit (fun _ => Edit.makeSetting setting) text = .ok result) :
    ∃ tx m', decode text = .ok tx ∧ Edit.makeSetting setting tx.message = .ok () m' ∧
      decode result = .ok (.ofMessage m') := by
  obtain ⟨tx, m', htx, hedit, hresult⟩ := edit_eq_ok_iff.mp h
  have hreadable := (decode_eq_ok_iff.mp htx).1
  refine ⟨tx, m', htx, hedit, decode_eq_ok_iff.mpr ⟨?_, hresult⟩⟩
  exact ⟨Edit.wellFormed_of_makeSetting hedit hreadable.wellFormed,
    Edit.hasClearFormat_of_makeSetting hedit hreadable.hasClearFormat, List.length_replicate⟩

end EncodedTransaction

/-! ## The laws of a setting -/

/-- A setting with values in `α`, next to another one with values in `β`, behaves
like one of two variables, in messages and in the texts of transactions. -/
structure SettingLaws {α β : Type} (set : α → Edit Unit) (get : Message → Option α)
    (other : Message → Option β) (setText : String → α → Except RequestFailure String)
    (getText : String → Except RequestFailure (Option α))
    (otherText : String → Except RequestFailure (Option β)) : Prop where
  /-- What is read is what was set. -/
  get_set : ∀ value m m', set value m = .ok () m' → get m' = some value
  /-- The other setting stays. -/
  other_set : ∀ value m m', set value m = .ok () m' → other m' = other m
  /-- Of two values the later one counts. -/
  set_set : ∀ value later, (do set value; set later : Edit Unit) = set later
  /-- Nothing gets in front of an instruction that advances a nonce. -/
  startsWithAdvanceNonce : ∀ value m m', set value m = .ok () m' →
    m.startsWithAdvanceNonce = true → m'.startsWithAdvanceNonce = true
  /-- A text in which a value was set is read again, has no signatures, and has
  the value and the other setting of the text before. -/
  text : ∀ value text result, setText text value = .ok result →
    ∃ tx, EncodedTransaction.decode result = .ok tx ∧
      (∀ signature ∈ tx.signatures, signature = Signature.placeholder) ∧
      getText result = .ok (some value) ∧ otherText result = otherText text

/-- The laws follow from the kind of the setting: what is set is what the kind is
read from, and the other setting is read from another kind. -/
theorem settingLaws_of_kind {α β : Type} {make : α → ComputeBudget}
    {kind otherKind : ComputeBudget.Kind} {pick : ComputeBudget → Option α}
    {pickOther : ComputeBudget → Option β} {set : α → Edit Unit} {get : Message → Option α}
    {other : Message → Option β} {setText : String → α → Except RequestFailure String}
    {getText : String → Except RequestFailure (Option α)}
    {otherText : String → Except RequestFailure (Option β)}
    (hset : ∀ value, set value = Edit.makeSetting (make value))
    (hkind : ∀ value, (make value).kind = kind) (hpick : ∀ value, pick (make value) = some value)
    (hget : ∀ m, get m = m.setting? kind >>= pick)
    (hother : ∀ m, other m = m.setting? otherKind >>= pickOther) (hkinds : otherKind ≠ kind)
    (hsetText : ∀ text value, setText text value = EncodedTransaction.edit (fun _ => set value) text)
    (hgetText : ∀ text tx, EncodedTransaction.decode text = .ok tx →
      getText text = .ok (get tx.message))
    (hotherText : ∀ text tx, EncodedTransaction.decode text = .ok tx →
      otherText text = .ok (other tx.message)) :
    SettingLaws set get other setText getText otherText := by
  obtain rfl : set = fun value => Edit.makeSetting (make value) := funext hset
  have get_set : ∀ value m m', Edit.makeSetting (make value) m = .ok () m' →
      get m' = some value := by
    intro value m m' h
    have hread := Edit.setting?_of_makeSetting h
    rw [hkind] at hread
    rw [hget, hread]
    exact hpick value
  have other_set : ∀ value m m', Edit.makeSetting (make value) m = .ok () m' →
      other m' = other m := by
    intro value m m' h
    rw [hother, hother, Edit.setting?_of_makeSetting_of_ne h (by rwa [hkind])]
  refine ⟨get_set, other_set, ?_, ?_, ?_⟩
  · exact fun value later => Edit.makeSetting_makeSetting (by rw [hkind, hkind])
  · exact fun value m m' h hnonce => (Edit.startsWithAdvanceNonce_of_makeSetting h).trans hnonce
  · intro value text result h
    rw [hsetText] at h
    obtain ⟨tx, m', htx, hedit, hresult⟩ := EncodedTransaction.decode_of_makeSetting h
    refine ⟨.ofMessage m', hresult, fun _ => List.eq_of_mem_replicate, ?_, ?_⟩
    · rw [hgetText result _ hresult]
      exact congrArg Except.ok (get_set value tx.message m' hedit)
    · rw [hotherText result _ hresult, hotherText text tx htx]
      exact congrArg Except.ok (other_set value tx.message m' hedit)

namespace EncodedTransaction

theorem unitPrice?_of_decode {tx : Transaction} (h : decode text = .ok tx) :
    unitPrice? text = .ok tx.message.unitPrice? := by
  rw [unitPrice?, h]
  rfl

theorem unitLimit?_of_decode {tx : Transaction} (h : decode text = .ok tx) :
    unitLimit? text = .ok tx.message.unitLimit? := by
  rw [unitLimit?, h]
  rfl

end EncodedTransaction

/-- **Price and limit are two variables.**  Whatever message it is set in, a value
that is set is read, the other setting stays, only the later of two values
counts, and an instruction that advances a nonce stays in front.  The same holds
for a transaction that is given as a text, which loses its signatures. -/
theorem settingLaws :
    SettingLaws Edit.setUnitPrice Message.unitPrice? Message.unitLimit?
        EncodedTransaction.setUnitPrice EncodedTransaction.unitPrice?
        EncodedTransaction.unitLimit? ∧
      SettingLaws Edit.setUnitLimit Message.unitLimit? Message.unitPrice?
        EncodedTransaction.setUnitLimit EncodedTransaction.unitLimit?
        EncodedTransaction.unitPrice? := by
  constructor
  · exact settingLaws_of_kind Edit.setUnitPrice_eq (fun _ => rfl) (fun _ => rfl)
      Message.unitPrice?_eq Message.unitLimit?_eq nofun (fun _ _ => rfl)
      (fun _ _ => EncodedTransaction.unitPrice?_of_decode)
      (fun _ _ => EncodedTransaction.unitLimit?_of_decode)
  · exact settingLaws_of_kind Edit.setUnitLimit_eq (fun _ => rfl) (fun _ => rfl)
      Message.unitLimit?_eq Message.unitPrice?_eq nofun (fun _ _ => rfl)
      (fun _ _ => EncodedTransaction.unitLimit?_of_decode)
      (fun _ _ => EncodedTransaction.unitPrice?_of_decode)

/-- A price that is set in the text of the sample message is read from the result. -/
theorem settingLaws_of_sample :
    ∃ text result, EncodedTransaction.setUnitPrice text 7 = .ok result ∧
      EncodedTransaction.unitPrice? result = .ok (some 7) ∧
      EncodedTransaction.unitLimit? result = .ok none := by
  obtain ⟨text, htext⟩ : ∃ text, (Transaction.ofMessage Message.sample).toBase64 = .ok text :=
    ⟨_, rfl⟩
  have hreadable : (Transaction.ofMessage Message.sample).IsReadable :=
    ⟨Message.sample_origin.wellFormed, by decide, rfl⟩
  have hdecode := EncodedTransaction.decode_eq_ok_iff.mpr ⟨hreadable, htext⟩
  obtain ⟨m', hedit⟩ : ∃ m', Edit.setUnitPrice 7 Message.sample = .ok () m' := ⟨_, rfl⟩
  obtain ⟨result, hresult⟩ : ∃ result, (Transaction.ofMessage m').toBase64 = .ok result := by
    cases hedit
    exact ⟨_, rfl⟩
  have hset : EncodedTransaction.setUnitPrice text 7 = .ok result :=
    EncodedTransaction.edit_eq_ok_iff.mpr ⟨_, m', hdecode, hedit, hresult⟩
  obtain ⟨tx, -, -, hprice, hlimit⟩ := settingLaws.1.text 7 text result hset
  refine ⟨text, result, hset, hprice, ?_⟩
  rw [hlimit, EncodedTransaction.unitLimit?_of_decode hdecode]
  rfl

end SolanaWallet
