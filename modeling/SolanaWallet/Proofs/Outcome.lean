import Mathlib.Data.List.Forall2
import SolanaWallet.Message.Edit

/-!
# Runs in steps

Programs that can fail are sequences of steps.  A run of two steps succeeds
exactly if both do; if the state survives a failure, a run fails exactly if
the first step does, or the second after it.  Every proof about such a program
opens it with these equivalences.
-/

namespace SolanaWallet

variable {α β : Type}

/-! ## Without a state -/

theorem exceptOk_bind {ε : Type} (a : α) (next : α → Except ε β) :
    ((.ok a : Except ε α) >>= next) = next a := rfl

theorem exceptBind_eq_ok_iff {ε : Type} {first : Except ε α} {next : α → Except ε β}
    {result : β} :
    (first >>= next) = .ok result ↔ ∃ a, first = .ok a ∧ next a = .ok result := by
  cases first with
  | error reason =>
    constructor
    · intro h
      cases h
    · intro hparts
      obtain ⟨a, ha, -⟩ := hparts
      cases ha
  | ok a =>
    constructor
    · intro h
      exact ⟨a, rfl, h⟩
    · intro hparts
      obtain ⟨b, hb, h⟩ := hparts
      cases hb
      exact h

theorem exceptPure_eq_ok_iff {ε : Type} {a result : α} :
    (pure a : Except ε α) = .ok result ↔ a = result := by
  constructor
  · intro h
    exact Except.ok.inj h
  · rintro rfl
    rfl

theorem exceptMap_eq_ok_iff {ε : Type} {f : α → β} {x : Except ε α} {result : β} :
    f <$> x = .ok result ↔ ∃ a, x = .ok a ∧ f a = result := by
  cases x with
  | error reason =>
    constructor
    · intro h
      cases h
    · rintro ⟨a, ha, -⟩
      cases ha
  | ok a =>
    constructor
    · intro h
      exact ⟨a, rfl, Except.ok.inj h⟩
    · rintro ⟨b, hb, rfl⟩
      cases hb
      rfl

theorem exists_eq_ok_of_isOk {ε : Type} {x : Except ε α} (h : x.isOk = true) :
    ∃ result, x = .ok result := by
  cases x with
  | error reason => cases h
  | ok result => exact ⟨result, rfl⟩

/-- Giving failures another form leaves successes as they are. -/
theorem exceptMapError_eq_ok_iff {ε ε' : Type} {f : ε → ε'} {x : Except ε α} {result : α} :
    x.mapError f = .ok result ↔ x = .ok result := by
  cases x <;> simp [Except.mapError]

/-- A step on each item succeeds exactly if it does on every single one; the
results are in the order of the items. -/
theorem mapM_eq_ok_iff_forall₂ {ε : Type} {f : α → Except ε β} {items : List α}
    {results : List β} :
    items.mapM f = .ok results ↔
      List.Forall₂ (fun item result => f item = .ok result) items results := by
  induction items generalizing results with
  | nil =>
    rw [List.mapM_nil, exceptPure_eq_ok_iff, List.forall₂_nil_left_iff, eq_comm]
  | cons item rest ih =>
    rw [List.mapM_cons, exceptBind_eq_ok_iff, List.forall₂_cons_left_iff]
    constructor
    · intro hparts
      obtain ⟨head, hhead, h⟩ := hparts
      obtain ⟨tail, htail, h⟩ := exceptBind_eq_ok_iff.mp h
      exact ⟨head, tail, hhead, ih.mp htail, (exceptPure_eq_ok_iff.mp h).symm⟩
    · intro hparts
      obtain ⟨head, tail, hhead, htail, rfl⟩ := hparts
      exact ⟨head, hhead, exceptBind_eq_ok_iff.mpr ⟨tail, ih.mpr htail, rfl⟩⟩

/-- If no step fails, neither do all of them. -/
theorem exists_mapM_eq_ok {ε : Type} {f : α → Except ε β} {items : List α}
    (h : ∀ item ∈ items, ∃ result, f item = .ok result) :
    ∃ results, items.mapM f = .ok results := by
  induction items with
  | nil => exact ⟨[], rfl⟩
  | cons item rest ih =>
    rw [List.forall_mem_cons] at h
    obtain ⟨head, hhead⟩ := h.1
    obtain ⟨tail, htail⟩ := ih h.2
    refine ⟨head :: tail, mapM_eq_ok_iff_forall₂.mpr ?_⟩
    exact .cons hhead (mapM_eq_ok_iff_forall₂.mp htail)

/-- Every result comes from an item. -/
theorem exists_of_mem_results {ε : Type} {f : α → Except ε β} {items : List α} {results : List β}
    (h : List.Forall₂ (fun item result => f item = .ok result) items results) {result : β}
    (hmem : result ∈ results) : ∃ item ∈ items, f item = .ok result := by
  induction h with
  | nil => cases hmem
  | cons hhead _ ih =>
    rcases List.mem_cons.mp hmem with rfl | hmem
    · exact ⟨_, List.mem_cons_self, hhead⟩
    · obtain ⟨item, hitem, hresult⟩ := ih hmem
      exact ⟨item, List.mem_cons_of_mem _ hitem, hresult⟩

/-! ## With a message that survives a failure -/

namespace Edit

variable {first : Edit α} {next : α → Edit β} {m m' : Message}

theorem bind_eq_ok_iff {result : β} :
    (first >>= next) m = .ok result m' ↔
      ∃ a mid, first m = .ok a mid ∧ next a mid = .ok result m' := by
  change EStateM.bind first next m = .ok result m' ↔ _
  unfold EStateM.bind
  cases first m with
  | ok a mid =>
    constructor
    · intro h
      exact ⟨a, mid, rfl, h⟩
    · intro hparts
      obtain ⟨b, other, hfirst, h⟩ := hparts
      cases hfirst
      exact h
  | error reason mid => simp

theorem bind_eq_error_iff {reason : Failure} :
    (first >>= next) m = .error reason m' ↔
      first m = .error reason m' ∨
        ∃ a mid, first m = .ok a mid ∧ next a mid = .error reason m' := by
  change EStateM.bind first next m = .error reason m' ↔ _
  unfold EStateM.bind
  cases first m with
  | ok a mid =>
    constructor
    · intro h
      exact .inr ⟨a, mid, rfl, h⟩
    · rintro (hfirst | ⟨b, other, hfirst, h⟩)
      · cases hfirst
      · cases hfirst
        exact h
  | error reason mid => simp

theorem bind_of_ok {a : α} (h : first m = .ok a m') : (first >>= next) m = next a m' := by
  change EStateM.bind first next m = _
  rw [EStateM.bind, h]

theorem bind_of_error {reason : Failure} (h : first m = .error reason m') :
    (first >>= next) m = .error reason m' := by
  change EStateM.bind first next m = _
  rw [EStateM.bind, h]

/-- What follows a step matters only for what the step can lead to. -/
theorem bind_congr_of_ok {next' : α → Edit β}
    (hnext : ∀ a mid, first m = .ok a mid → next a mid = next' a mid) :
    (first >>= next) m = (first >>= next') m := by
  cases hrun : first m with
  | ok a mid => rw [bind_of_ok hrun, bind_of_ok hrun, hnext a mid hrun]
  | error reason mid => rw [bind_of_error hrun, bind_of_error hrun]

theorem pure_eq_ok_iff {a result : α} :
    (pure a : Edit α) m = .ok result m' ↔ a = result ∧ m = m' := by
  change EStateM.Result.ok a m = .ok result m' ↔ _
  simp

/-- A step that looks at the message gets the one that it starts from. -/
theorem get_bind (next : Message → Edit β) (m : Message) : (get >>= next) m = next m m := rfl

end Edit

end SolanaWallet
