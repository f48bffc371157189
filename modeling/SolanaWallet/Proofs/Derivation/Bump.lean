import SolanaWallet.DerivedAddress
import SolanaWallet.Proofs.Outcome

/-!
# The bump of a program-derived address

Whoever is told an address and its bump can check them with `ofSeeds` alone,
by taking the bump for one more seed.  `find` goes through the bumps from above
and never calls `ofSeeds`, so two things have to be shown.

* **The bump is a seed.**  The digest of seeds with a bump behind them is that of
  the seeds with the bump among them (`programDigest_bump`), and `find` checks
  the seeds against a limit of one less, which is what `ofSeeds` does with one
  seed more (`exceeds_append_bump`).
* **The highest bump.**  What the search below a bound returns is off the
  curve, and everything between it and the bound is on the curve
  (`searchBump_eq_some_iff`).  The induction is on the bound: a bump below
  `bound + 1` is `bound` itself or lies below `bound`.

The digest and the curve are those of any suite.
-/

namespace SolanaWallet.DerivedAddress

variable {suite : CryptoSuite} {seeds : List (List UInt8)} {program a : Address} {b : UInt8}

/-! ## Seeds that are refused -/

/-- There are more than `limit` seeds, or one is longer than 32 bytes. -/
def Exceeds (limit : Nat) (seeds : List (List UInt8)) : Prop :=
  limit < seeds.length ∨ ∃ seed ∈ seeds, 32 < seed.length

theorem exists_fault_of_exceeds {limit : Nat} (h : Exceeds limit seeds) :
    ∃ fault, checkSeeds limit seeds = .error (.parameter fault) := by
  unfold checkSeeds
  split
  · exact ⟨_, rfl⟩
  · rename_i hcount
    split
    · exact ⟨_, rfl⟩
    · rename_i hnone
      obtain ⟨seed, hmem, hlong⟩ := h.resolve_left hcount
      exact absurd (decide_eq_true hlong) (List.find?_eq_none.mp hnone seed hmem)

theorem checkSeeds_eq_ok_iff {limit : Nat} :
    checkSeeds limit seeds = .ok () ↔ ¬ Exceeds limit seeds := by
  constructor
  · intro hok hexceeds
    obtain ⟨fault, hfault⟩ := exists_fault_of_exceeds hexceeds
    cases hfault.symm.trans hok
  · intro hfits
    obtain ⟨hcount, hlength⟩ := not_or.mp hfits
    have hnone : seeds.find? (fun seed => maxSeedLength < seed.length) = none := by
      rw [List.find?_eq_none]
      intro seed hmem hlong
      exact hlength ⟨seed, hmem, of_decide_eq_true hlong⟩
    rw [checkSeeds, if_neg hcount, hnone]

/-- A bump is a short seed, and takes the place of one. -/
theorem exceeds_append_bump {limit : Nat} (b : UInt8) :
    Exceeds (limit + 1) (seeds ++ [[b]]) ↔ Exceeds limit seeds := by
  have hshort : (∃ seed ∈ seeds ++ [[b]], 32 < seed.length) ↔ ∃ seed ∈ seeds, 32 < seed.length := by
    simp only [List.mem_append, List.mem_singleton, or_and_right, exists_or, exists_eq_left]
    exact or_iff_left (by simp)
  rw [Exceeds, Exceeds, List.length_append, List.length_singleton, Nat.add_lt_add_iff_right, hshort]

/-! ## The address for one bump -/

/-- The address that `seeds` and a bump lead to, on the curve or not. -/
def bumped (suite : CryptoSuite) (seeds : List (List UInt8)) (program : Address) (b : UInt8) :
    Address :=
  ⟨programDigest suite seeds [b] program⟩

theorem programDigest_bump (b : UInt8) :
    programDigest suite (seeds ++ [[b]]) [] program = programDigest suite seeds [b] program := by
  have hbytes : (seeds ++ [[b]]).flatten ++ [] = seeds.flatten ++ [b] := by
    rw [List.append_nil, List.flatten_append, List.flatten_singleton]
  rw [programDigest, programDigest, hbytes]

/-- The bump leads to a point of the curve. -/
def Lands (suite : CryptoSuite) (seeds : List (List UInt8)) (program : Address) (b : UInt8) :
    Prop :=
  suite.onCurve (bumped suite seeds program b).toBlock = true

theorem ofSeeds_bump_eq_ok_iff :
    ofSeeds suite (seeds ++ [[b]]) program = .ok a ↔
      ¬ Exceeds 15 seeds ∧ bumped suite seeds program b = a := by
  have hcheck : checkSeeds maxSeeds (seeds ++ [[b]]) = .ok () ↔ ¬ Exceeds 15 seeds :=
    checkSeeds_eq_ok_iff.trans (not_congr (exceeds_append_bump b))
  rw [ofSeeds, programDigest_bump, exceptBind_eq_ok_iff]
  constructor
  · rintro ⟨_, hok, h⟩
    exact ⟨hcheck.mp hok, exceptPure_eq_ok_iff.mp h⟩
  · rintro ⟨hfits, h⟩
    exact ⟨(), hcheck.mpr hfits, exceptPure_eq_ok_iff.mpr h⟩

/-! ## The search -/

theorem toNat_lt_succ_iff {c : UInt8} {bound : Nat} (hbound : bound < 256) :
    c.toNat < bound + 1 ↔ c = UInt8.ofNat bound ∨ c.toNat < bound := by
  have htop : c = UInt8.ofNat bound ↔ c.toNat = bound := by
    rw [← UInt8.toNat_inj, UInt8.toNat_ofNat_of_lt' hbound]
  rw [htop]
  omega

theorem searchBump_succ_of_lands {bound : Nat}
    (h : Lands suite seeds program (UInt8.ofNat bound)) :
    searchBump suite seeds program (bound + 1) = searchBump suite seeds program bound :=
  if_pos h

theorem searchBump_succ_of_not_lands {bound : Nat}
    (h : ¬ Lands suite seeds program (UInt8.ofNat bound)) :
    searchBump suite seeds program (bound + 1) =
      some (bumped suite seeds program (UInt8.ofNat bound), UInt8.ofNat bound) :=
  if_neg h

theorem searchBump_eq_none_iff {bound : Nat} (hbound : bound ≤ 256) :
    searchBump suite seeds program bound = none ↔
      ∀ c : UInt8, c.toNat < bound → Lands suite seeds program c := by
  induction bound with
  | zero => simp [searchBump]
  | succ bound ih =>
    by_cases htop : Lands suite seeds program (UInt8.ofNat bound)
    · rw [searchBump_succ_of_lands htop, ih (by omega)]
      constructor
      · intro h c hc
        rcases (toNat_lt_succ_iff hbound).mp hc with rfl | hc
        · exact htop
        · exact h c hc
      · intro h c hc
        exact h c (Nat.lt_succ_of_lt hc)
    · rw [searchBump_succ_of_not_lands htop]
      have hin : (UInt8.ofNat bound).toNat < bound + 1 := (toNat_lt_succ_iff hbound).mpr (.inl rfl)
      constructor
      · intro h
        cases h
      · intro h
        exact absurd (h _ hin) htop

/-- The search returns the highest bump below the bound that leads off the
curve. -/
theorem searchBump_eq_some_iff {bound : Nat} (hbound : bound ≤ 256) :
    searchBump suite seeds program bound = some (a, b) ↔
      b.toNat < bound ∧ ¬ Lands suite seeds program b ∧ bumped suite seeds program b = a ∧
        ∀ c : UInt8, b < c → c.toNat < bound → Lands suite seeds program c := by
  induction bound with
  | zero => simp [searchBump]
  | succ bound ih =>
    have htoNat : (UInt8.ofNat bound).toNat = bound := UInt8.toNat_ofNat_of_lt' hbound
    rw [toNat_lt_succ_iff hbound]
    by_cases htop : Lands suite seeds program (UInt8.ofNat bound)
    · rw [searchBump_succ_of_lands htop, ih (by omega)]
      constructor
      · rintro ⟨hb, hoff, ha, habove⟩
        refine ⟨.inr hb, hoff, ha, fun c hbc hc => ?_⟩
        rcases (toNat_lt_succ_iff hbound).mp hc with rfl | hc
        · exact htop
        · exact habove c hbc hc
      · rintro ⟨hb, hoff, ha, habove⟩
        have hlower : b.toNat < bound := by
          rcases hb with rfl | hb
          · exact absurd htop hoff
          · exact hb
        exact ⟨hlower, hoff, ha, fun c hbc hc => habove c hbc (Nat.lt_succ_of_lt hc)⟩
    · rw [searchBump_succ_of_not_lands htop, Option.some.injEq, Prod.mk.injEq]
      constructor
      · rintro ⟨rfl, rfl⟩
        refine ⟨.inl rfl, htop, rfl, fun c hbc hc => ?_⟩
        have : bound < c.toNat := htoNat ▸ UInt8.lt_iff_toNat_lt.mp hbc
        omega
      · rintro ⟨hb, -, rfl, habove⟩
        have hb : b = UInt8.ofNat bound := by
          -- a lower bump would put the top one, which is off the curve, on it
          refine hb.resolve_right fun hlower => htop (habove _ ?_ (by omega))
          rw [UInt8.lt_iff_toNat_lt, htoNat]
          exact hlower
        rw [hb]
        exact ⟨rfl, rfl⟩

/-! ## What is found -/

/-- The search is run exactly if the seeds are accepted. -/
theorem find_cases (suite : CryptoSuite) (seeds : List (List UInt8)) (program : Address) :
    (Exceeds 15 seeds ∧ ∃ fault, find suite seeds program = .error (.parameter fault)) ∨
      ¬ Exceeds 15 seeds ∧ find suite seeds program =
        match searchBump suite seeds program 256 with
        | some found => .ok found
        | none => .error .bumpsExhausted := by
  rw [find]
  by_cases hexceeds : Exceeds 15 seeds
  · obtain ⟨fault, hfault⟩ := exists_fault_of_exceeds hexceeds
    have hcheck : checkSeeds (maxSeeds - 1) seeds = .error (.parameter fault) := hfault
    rw [hcheck]
    exact .inl ⟨hexceeds, fault, rfl⟩
  · have hcheck : checkSeeds (maxSeeds - 1) seeds = .ok () := checkSeeds_eq_ok_iff.mpr hexceeds
    rw [hcheck]
    exact .inr ⟨hexceeds, rfl⟩

theorem exists_find_eq_parameter_iff :
    (∃ fault, find suite seeds program = .error (.parameter fault)) ↔ Exceeds 15 seeds := by
  rcases find_cases suite seeds program with ⟨hexceeds, hfault⟩ | ⟨hfits, hfind⟩
  · exact iff_of_true hfault hexceeds
  · rw [hfind]
    cases searchBump suite seeds program 256 <;> simp [hfits]

theorem find_eq_ok_iff :
    find suite seeds program = .ok (a, b) ↔
      ¬ Exceeds 15 seeds ∧ searchBump suite seeds program 256 = some (a, b) := by
  rcases find_cases suite seeds program with ⟨hexceeds, fault, hfault⟩ | ⟨hfits, hfind⟩
  · simp [hfault, hexceeds]
  · rw [hfind]
    cases searchBump suite seeds program 256 <;> simp [hfits]

theorem find_eq_exhausted_iff :
    find suite seeds program = .error .bumpsExhausted ↔
      ¬ Exceeds 15 seeds ∧ searchBump suite seeds program 256 = none := by
  rcases find_cases suite seeds program with ⟨hexceeds, fault, hfault⟩ | ⟨hfits, hfind⟩
  · simp [hfault, hexceeds]
  · rw [hfind]
    cases searchBump suite seeds program 256 <;> simp [hfits]

/-- The seeds with `b` as last one are accepted, and the address that comes from
them is on the curve. -/
def LeadsOnCurve (suite : CryptoSuite) (seeds : List (List UInt8)) (program : Address)
    (b : UInt8) : Prop :=
  ∃ a, ofSeeds suite (seeds ++ [[b]]) program = .ok a ∧ suite.onCurve a.toBlock = true

/-- The address `a` is off the curve and comes from `seeds` with `b` as last
seed, and every higher bump leads to a point of the curve. -/
structure IsHighestBump (suite : CryptoSuite) (seeds : List (List UInt8)) (program a : Address)
    (b : UInt8) : Prop where
  offCurve : suite.onCurve a.toBlock = false
  ofSeeds_eq : ofSeeds suite (seeds ++ [[b]]) program = .ok a
  onCurve_above : ∀ c : UInt8, b < c → LeadsOnCurve suite seeds program c

theorem leadsOnCurve_iff :
    LeadsOnCurve suite seeds program b ↔ ¬ Exceeds 15 seeds ∧ Lands suite seeds program b := by
  constructor
  · rintro ⟨a, ha, hon⟩
    obtain ⟨hfits, rfl⟩ := ofSeeds_bump_eq_ok_iff.mp ha
    exact ⟨hfits, hon⟩
  · rintro ⟨hfits, hon⟩
    exact ⟨_, ofSeeds_bump_eq_ok_iff.mpr ⟨hfits, rfl⟩, hon⟩

theorem isHighestBump_iff :
    IsHighestBump suite seeds program a b ↔ find suite seeds program = .ok (a, b) := by
  rw [find_eq_ok_iff, searchBump_eq_some_iff (Nat.le_refl 256)]
  constructor
  · rintro ⟨hoff, ha, habove⟩
    obtain ⟨hfits, rfl⟩ := ofSeeds_bump_eq_ok_iff.mp ha
    exact ⟨hfits, b.toNat_lt, Bool.eq_false_iff.mp hoff, rfl,
      fun c hbc _ => (leadsOnCurve_iff.mp (habove c hbc)).2⟩
  · rintro ⟨hfits, -, hoff, rfl, habove⟩
    exact ⟨Bool.eq_false_iff.mpr hoff, ofSeeds_bump_eq_ok_iff.mpr ⟨hfits, rfl⟩,
      fun c hbc => leadsOnCurve_iff.mpr ⟨hfits, habove c hbc c.toNat_lt⟩⟩

/-- **The highest bump is found.** The arguments are refused exactly if there are
more than 15 seeds or one is too long.  Otherwise the answer is the address off
the curve with the highest bump, as `ofSeeds` confirms, and there is none only
if every bump leads to a point of the curve. -/
theorem find_iff_highestBump (suite : CryptoSuite) (seeds : List (List UInt8))
    (program : Address) :
    ((∃ fault, find suite seeds program = .error (.parameter fault)) ↔
      15 < seeds.length ∨ ∃ seed ∈ seeds, 32 < seed.length) ∧
    (∀ a b, find suite seeds program = .ok (a, b) ↔ IsHighestBump suite seeds program a b) ∧
    (find suite seeds program = .error .bumpsExhausted ↔
      ∀ c, LeadsOnCurve suite seeds program c) := by
  refine ⟨exists_find_eq_parameter_iff, fun a b => isHighestBump_iff.symm, ?_⟩
  rw [find_eq_exhausted_iff, searchBump_eq_none_iff (Nat.le_refl 256)]
  have hbyte : ∀ c : UInt8, c.toNat < 256 := fun c => c.toNat_lt
  simp only [leadsOnCurve_iff, forall_and, forall_const, hbyte]

end SolanaWallet.DerivedAddress
