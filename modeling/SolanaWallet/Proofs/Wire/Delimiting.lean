import SolanaWallet.Proofs.Edit.Invariant
import SolanaWallet.Proofs.Transaction.Wire

/-!
# Accepted bytes stand alone

No part of an accepted message or transaction can be cut off, and nothing can
be put behind it: the accepted byte strings are prefix-free.

What the readers decide depends only on the bytes they take, and this has two
sides.  `Takes reader taken value` says that the reader returns the value from
`taken` whatever follows, and that it finds every proper prefix of `taken` cut
off.  A reader is `Delimited` if all its results are of this kind.  The second
side needs the first: a cut falls either within what the first of two readers
takes, and then that reader finds it, or behind, and then the first reader
still returns the same value and the second one finds the cut
(`Takes.bind`).  Single bytes, blocks and lengths are delimited, and sequencing
and repetition keep it, so the nested lists of a message need no argument of
their own.

Only two things do not come from the parts.  The first byte of a message
decides how the rest is read, so it has to be among the bytes that are taken;
and the number of signatures is compared with the header when everything has
been read, so it does not matter for a cut.
-/

namespace SolanaWallet

/-- The bytes end within what is being read. -/
inductive WireFault.IsCutOff : WireFault → Prop
  | length : IsCutOff (.length .truncated)
  | part (part : Part) : IsCutOff (.truncated part)
  | message : IsCutOff .emptyMessage

namespace Reader

variable {α β : Type}

/-- The reader returns `value` from these bytes whatever follows them, and finds
every proper prefix of them cut off. -/
structure Takes (reader : Reader α) (taken : List UInt8) (value : α) : Prop where
  run_append : ∀ rest, reader.run (taken ++ rest) = .ok (value, rest)
  cut_off : ∀ front, front <+: taken → front ≠ taken →
    ∃ fault, reader.run front = .error fault ∧ fault.IsCutOff

/-- The reader depends on nothing but the bytes it takes. -/
def Delimited (reader : Reader α) : Prop :=
  ∀ input value rest, reader.run input = .ok (value, rest) →
    ∃ taken, input = taken ++ rest ∧ reader.Takes taken value

/-! ## Sequencing and repetition -/

section Sequencing

variable {first : Reader α} {next : α → Reader β} {taken : List UInt8} {value : α}

/-- Taking nothing leaves nothing to cut off. -/
theorem takes_nil {reader : Reader α} (h : ∀ rest, reader.run rest = .ok (value, rest)) :
    reader.Takes [] value where
  run_append := h
  cut_off _ hfront hproper := absurd (List.prefix_nil.mp hfront) hproper

theorem Takes.bind {behind : List UInt8} {result : β} (hfirst : first.Takes taken value)
    (hnext : (next value).Takes behind result) :
    (first >>= next).Takes (taken ++ behind) result where
  run_append rest := by
    rw [List.append_assoc, run_bind_of_ok (hfirst.run_append _)]
    exact hnext.run_append rest
  cut_off front hfront hproper := by
    by_cases htaken : taken <+: front
    · obtain ⟨front, rfl⟩ := htaken
      have hbehind : front <+: behind := (List.prefix_append_right_inj taken).mp hfront
      have hne : front ≠ behind := by
        rintro rfl
        exact hproper rfl
      rw [run_bind_of_ok (hfirst.run_append front)]
      exact hnext.cut_off front hbehind hne
    · have hwithin : front <+: taken :=
        (List.prefix_or_prefix_of_prefix hfront (List.prefix_append taken behind)).resolve_right
          htaken
      have hne : front ≠ taken := by
        rintro rfl
        exact htaken (List.prefix_refl _)
      obtain ⟨fault, hrun, hfault⟩ := hfirst.cut_off front hwithin hne
      exact ⟨fault, run_bind_of_error hrun, hfault⟩

theorem delimited_pure (a : α) : (pure a : Reader α).Delimited := by
  intro input value rest h
  obtain ⟨rfl, rfl⟩ := run_pure_eq_ok_iff.mp h
  exact ⟨[], rfl, takes_nil fun _ => rfl⟩

theorem Delimited.bind (hfirst : first.Delimited) (hnext : ∀ a, (next a).Delimited) :
    (first >>= next).Delimited := by
  intro input value rest h
  obtain ⟨a, mid, ha, hrest⟩ := run_bind_eq_ok_iff.mp h
  obtain ⟨taken, rfl, htaken⟩ := hfirst _ _ _ ha
  obtain ⟨behind, rfl, hbehind⟩ := hnext a _ _ _ hrest
  exact ⟨taken ++ behind, (List.append_assoc ..).symm, htaken.bind hbehind⟩

theorem Delimited.times {reader : Reader α} (h : reader.Delimited) (count : Nat) :
    (times reader count).Delimited := by
  induction count with
  | zero => exact delimited_pure []
  | succ count ih => exact h.bind fun first => ih.bind fun rest => delimited_pure (first :: rest)

end Sequencing

/-! ## The parts of the wire format -/

/-- A reader that undoes a writer only has to find the cuts. -/
theorem Reads.delimited {reader : Reader α} {write : α → Except Failure (List UInt8)}
    (hreads : reader.Reads write)
    (hcut : ∀ value bytes front, write value = .ok bytes → front <+: bytes → front ≠ bytes →
      ∃ fault, reader.run front = .error fault ∧ fault.IsCutOff) :
    reader.Delimited := by
  intro input value rest h
  obtain ⟨bytes, hbytes, rfl⟩ := (hreads _ _ _).mp h
  refine ⟨bytes, rfl, ?_, fun front => hcut value bytes front hbytes⟩
  intro rest
  exact (hreads _ _ _).mpr ⟨bytes, hbytes, rfl⟩

theorem byte_delimited : byte.Delimited := by
  apply byte_reads.delimited
  intro value bytes front hbytes hfront hproper
  cases hbytes
  obtain rfl | rfl : front = [] ∨ front = [value] := by
    simpa [List.prefix_cons_iff] using hfront
  · exact ⟨_, rfl, .part .byte⟩
  · exact absurd rfl hproper

theorem block_delimited (n : Nat) (part : Part) : (block n part).Delimited := by
  apply (block_reads n part).delimited
  intro value bytes front hbytes hfront hproper
  cases hbytes
  have hlength : front.length ≠ n := by
    intro hlength
    exact hproper (hfront.eq_of_length (hlength.trans value.length_bytes.symm))
  have hle : front.length ≤ n := value.length_bytes ▸ hfront.length_le
  have hnone : Block.ofBytes? n (front.take n) = none := by
    rw [List.take_of_length_le hle]
    exact dif_neg hlength
  refine ⟨_, ?_, .part part⟩
  rw [run_block, hnone]

theorem length_delimited : length.Delimited := by
  apply length_reads.delimited
  intro value bytes front hbytes hfront hproper
  obtain ⟨-, rfl⟩ := Writer.length_eq_ok_iff.mp hbytes
  refine ⟨_, ?_, .length⟩
  rw [run_length, ShortVec.decode_of_prefix (ShortVec.form_encode _) hfront hproper]

theorem bytes_delimited (part : Part) : (bytes part).Delimited := by
  refine length_delimited.bind fun count => ?_
  refine (block_delimited count part).bind fun taken => ?_
  exact delimited_pure taken.bytes

theorem Delimited.list {reader : Reader α} (h : reader.Delimited) : (list reader).Delimited :=
  length_delimited.bind h.times

theorem address_delimited (part : Part) : (address part).Delimited :=
  (block_delimited 32 part).bind fun taken => delimited_pure (Address.mk taken)

theorem instruction_delimited : instruction.Delimited := by
  refine byte_delimited.bind fun program => ?_
  refine (bytes_delimited .instructionAccounts).bind fun accounts => ?_
  refine (bytes_delimited .instructionData).bind fun data => ?_
  exact delimited_pure _

theorem lookup_delimited : lookup.Delimited := by
  refine (address_delimited .lookupKey).bind fun table => ?_
  refine (bytes_delimited .writableIndexes).bind fun writable => ?_
  refine (bytes_delimited .readonlyIndexes).bind fun readonly => ?_
  exact delimited_pure _

theorem body_delimited : body.Delimited := by
  refine byte_delimited.bind fun required => ?_
  refine byte_delimited.bind fun readonlySigners => ?_
  refine byte_delimited.bind fun readonlyOthers => ?_
  refine (address_delimited .accountKey).list.bind fun keys => ?_
  refine (block_delimited 32 .blockhash).bind fun blockhash => ?_
  refine instruction_delimited.list.bind fun instructions => ?_
  exact delimited_pure _

theorem wellFormed_delimited (m : Message) : (wellFormed m).Delimited := by
  intro input m' rest h
  obtain ⟨hm, rfl, rfl⟩ := run_wellFormed_eq_ok_iff.mp h
  exact ⟨[], rfl, takes_nil fun rest => run_wellFormed_eq_ok_iff.mpr ⟨hm, rfl, rfl⟩⟩

/-! ## Messages and transactions -/

/-- Without its first byte a message is empty, and with it the format is decided. -/
theorem takes_message {first : UInt8} {taken : List UInt8} {m : Message}
    (hrun : ∀ rest, message.run (first :: (taken ++ rest)) = .ok (m, rest))
    (hcut : ∀ front, front <+: taken → front ≠ taken →
      ∃ fault, message.run (first :: front) = .error fault ∧ fault.IsCutOff) :
    message.Takes (first :: taken) m where
  run_append := hrun
  cut_off front hfront hproper := by
    cases front with
    | nil => exact ⟨_, rfl, .message⟩
    | cons head front =>
      obtain ⟨rfl, hwithin⟩ := List.cons_prefix_cons.mp hfront
      exact hcut front hwithin fun h => hproper (h ▸ rfl)

theorem takes_message_of_legacy {first : UInt8} {taken : List UInt8} {m : Message}
    (hlegacy : first < Message.versionMark)
    (htaken : (body >>= wellFormed).Takes (first :: taken) m) :
    message.Takes (first :: taken) m := by
  refine takes_message (fun rest => ?_) (fun front hfront hproper => ?_)
  · rw [run_message_of_lt hlegacy]
    exact htaken.run_append rest
  · have hne : first :: front ≠ first :: taken := by simpa using hproper
    rw [run_message_of_lt hlegacy]
    exact htaken.cut_off _ (List.cons_prefix_cons.mpr ⟨rfl, hfront⟩) hne

theorem message_delimited : message.Delimited := by
  intro input m rest h
  cases input with
  | nil => cases h
  | cons first input =>
    by_cases hlegacy : first < Message.versionMark
    · have hdelimited : (body >>= wellFormed).Delimited := body_delimited.bind wellFormed_delimited
      rw [run_message_of_lt hlegacy] at h
      obtain ⟨taken, hinput, htaken⟩ := hdelimited _ _ _ h
      cases taken with
      | nil => cases htaken.run_append []
      | cons head taken =>
        obtain ⟨rfl, rfl⟩ := List.cons.inj hinput
        exact ⟨first :: taken, rfl, takes_message_of_legacy hlegacy htaken⟩
    by_cases hversion : first = Message.versionMark
    · subst hversion
      have hdelimited : (do
          let m ← body
          let lookups ← list lookup
          wellFormed { m with format := .v0 lookups } : Reader Message).Delimited :=
        body_delimited.bind fun m => lookup_delimited.list.bind fun lookups =>
          wellFormed_delimited { m with format := .v0 lookups }
      rw [run_message_versionMark] at h
      obtain ⟨taken, rfl, htaken⟩ := hdelimited _ _ _ h
      exact ⟨Message.versionMark :: taken, rfl, takes_message htaken.run_append htaken.cut_off⟩
    · rw [run_message_of_ne hlegacy hversion] at h
      cases h

theorem transaction_delimited : transaction.Delimited := by
  refine (block_delimited 64 .signature).list.bind fun signatures => ?_
  refine message_delimited.bind fun m => ?_
  exact delimited_pure _

end Reader

/-! ## The whole of an input -/

/-- The bytes are refused when some of them are cut off, because they end too early,
and when something is put behind them, because that is too much. -/
structure StandsAlone {α : Type} (read : List UInt8 → Except Failure α) (whole : Whole)
    (bytes : List UInt8) : Prop where
  cut_off : ∀ count < bytes.length,
    ∃ fault, read (bytes.take count) = .error (.wire fault) ∧ fault.IsCutOff
  trailing : ∀ extra ≠ [], read (bytes ++ extra) = .error (.wire (.trailing extra.length whole))

namespace Reader

variable {α : Type} {reader : Reader α} {whole : Whole} {input : List UInt8}

theorem Delimited.standsAlone {read : List UInt8 → Except Failure α} {value : α}
    (hreader : reader.Delimited)
    (hfaults : ∀ input fault, runAll reader whole input = .error fault →
      read input = .error (.wire fault))
    (h : runAll reader whole input = .ok value) : StandsAlone read whole input := by
  obtain ⟨taken, hinput, htaken⟩ := hreader _ _ _ ((runAll_eq_ok_iff whole).mp h)
  obtain rfl : input = taken := by rw [hinput, List.append_nil]
  refine ⟨?_, ?_⟩
  · intro count hcount
    have hproper : input.take count ≠ input := by
      intro hall
      rw [List.take_eq_self_iff] at hall
      omega
    obtain ⟨fault, hrun, hfault⟩ := htaken.cut_off _ (List.take_prefix _ _) hproper
    exact ⟨fault, hfaults _ _ (runAll_of_error whole hrun), hfault⟩
  · intro extra hextra
    exact hfaults _ _ (runAll_of_trailing whole hextra (htaken.run_append extra))

end Reader

/-- **Accepted bytes stand alone.**  Whatever is cut off from the end of an
accepted transaction or message, what is left is refused because it ends too
early; and whatever is put behind it, the whole is refused for as many bytes as
are too many. -/
theorem standsAlone_of_accepted (bytes : List UInt8) :
    (∀ tx, Transaction.ofBytes bytes = .ok tx →
      StandsAlone Transaction.ofBytes .transaction bytes) ∧
    (∀ m, Message.deserialize bytes = .ok m →
      StandsAlone Message.deserialize .message bytes) := by
  constructor
  · intro tx htx
    have hrun : ∃ read, Reader.runAll Reader.transaction .transaction bytes = .ok read := by
      unfold Transaction.ofBytes at htx
      split at htx
      · cases htx
      · exact ⟨_, ‹_›⟩
    obtain ⟨read, hread⟩ := hrun
    refine Reader.transaction_delimited.standsAlone (fun input fault hfault => ?_) hread
    rw [Transaction.ofBytes, hfault]
  · intro m hm
    have hread : Reader.runAll Reader.message .message bytes = .ok m :=
      (Reader.runAll_eq_ok_iff _).mpr (Message.deserialize_eq_ok_iff_run.mp hm)
    refine Reader.message_delimited.standsAlone (fun input fault hfault => ?_) hread
    rw [Message.deserialize, hfault]

/-- A message with lookups, and the transaction that waits for its two
signatures. -/
theorem standsAlone_sample :
    ∃ written wire,
      Message.deserialize written = .ok Message.sample ∧
      Transaction.ofBytes wire = .ok (.ofMessage Message.sample) ∧
      StandsAlone Message.deserialize .message written ∧
      StandsAlone Transaction.ofBytes .transaction wire := by
  have hmessage : ∃ written, Message.deserialize written = .ok Message.sample :=
    ⟨_, Message.deserialize_eq_ok_iff_serialize.mpr ⟨by decide +kernel, by decide, rfl⟩⟩
  have htransaction : ∃ wire, Transaction.ofBytes wire = .ok (.ofMessage Message.sample) :=
    ⟨_, Transaction.ofBytes_eq_ok_iff.mpr ⟨⟨by decide +kernel, by decide, by decide⟩, rfl⟩⟩
  obtain ⟨written, hwritten⟩ := hmessage
  obtain ⟨wire, hwire⟩ := htransaction
  exact ⟨written, wire, hwritten, hwire, (standsAlone_of_accepted written).2 _ hwritten,
    (standsAlone_of_accepted wire).1 _ hwire⟩

end SolanaWallet
