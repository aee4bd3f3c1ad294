import RlNginx.Lib.Word
import Mathlib.Algebra.BigOperators.Intervals

/-!
# Request policies and their horizon

`ratelimitly_policy` selects an `r_request_policy_t` : a base unit `U`, a replay count
`N`, a replay-gap schedule `B` and a final wait `F`. The longest a request may wait, and
the deduplication TTL on the wire, is `U * (B 0 + ⋯ + B N + F)` milliseconds.

`rnPolicyHorizonMs` computes it in 32- and 64-bit arithmetic, as
`rn_policy_horizon_ms` and `rn_policy_schedule_units` do, with a record of every
operation. `Schedule.gap` and `Policy.units` are the same quantities in unbounded
integers.
-/

open Word

namespace RlNginx

/-- `R_CLIENT_HA_MAX_REPLAY_COUNT`. -/
def rClientHaMaxReplayCount : ℕ := 65535

/-- `kind` of an `r_ha_schedule_t`. -/
inductive ScheduleKind where
  | fixed
  | linear
  | exponential
  deriving DecidableEq, Repr

/-- `r_ha_schedule_t`. -/
structure Schedule where
  kind : ScheduleKind
  initialUnits : UInt32
  maxUnits : UInt32
  linearStepUnits : UInt32
  exponentialFactor : UInt32
  deriving DecidableEq, Repr

/-- `r_request_policy_t`, the fields the module sets. -/
structure Policy where
  unitMs : UInt32
  replayCount : UInt32
  replayGap : Schedule
  finalReceiveUnits : UInt32
  completionDelivery : Bool
  deriving DecidableEq, Repr

/-! ## The code -/

/-- The loop of the exponential case,
`while (round-- > 0 && value < max) { … }`. The test decrements `round` even when it
is zero. -/
def exponentialLoop (max factor : ℕ) : ℕ → ℕ → Logged ℕ
  | 0, value => do
    let _ ← arith 32 (0 - 1)
    pure value
  | round + 1, value => do
    let _ ← arith 32 ((round + 1 : ℕ) - 1)
    if value < max then
      if value > max / factor then exponentialLoop max factor round max
      else do
        let value ← arith 32 (value * factor : ℕ)
        exponentialLoop max factor round value
    else pure value

/-- The linear case of `rn_policy_schedule_units`. -/
def linearUnits (value max step round : ℕ) : Logged (Option ℕ) :=
  if step = 0 then pure none
  else do
    let room ← arith 32 (max - value)
    if round > room / step then pure (some max)
    else do
      let growth ← arith 32 (round * step : ℕ)
      let value ← arith 32 (value + growth : ℕ)
      pure (some value)

/-- The exponential case of `rn_policy_schedule_units`. -/
def exponentialUnits (value max factor round : ℕ) : Logged (Option ℕ) :=
  if factor < 2 then pure none
  else do
    let value ← exponentialLoop max factor round value
    pure (some value)

/-- `rn_policy_schedule_units`. -/
def rnPolicyScheduleUnits (s : Schedule) (round : ℕ) : Logged (Option ℕ) :=
  if s.initialUnits.toNat > s.maxUnits.toNat then pure none
  else
    match s.kind with
    | .fixed => pure (some s.initialUnits.toNat)
    | .linear =>
      linearUnits s.initialUnits.toNat s.maxUnits.toNat s.linearStepUnits.toNat round
    | .exponential =>
      exponentialUnits s.initialUnits.toNat s.maxUnits.toNat s.exponentialFactor.toNat round

/-- The loop of `rn_policy_horizon_ms` with `left` rounds to go. -/
def horizonRounds (s : Schedule) (maxUnits : ℕ) : ℕ → ℕ → ℕ → Logged (Option ℕ)
  | 0, _, totalUnits => pure (some totalUnits)
  | left + 1, round, totalUnits => do
    match ← rnPolicyScheduleUnits s round with
    | none => pure none
    | some gapUnits => do
      let room ← arith 64 (maxUnits - totalUnits)
      if gapUnits > room then pure none
      else do
        let totalUnits ← arith 64 (totalUnits + gapUnits : ℕ)
        let round ← arith 32 (round + 1 : ℕ)
        horizonRounds s maxUnits left round totalUnits

/-- The end of `rn_policy_horizon_ms`, after its loop. -/
def horizonFinish (unitMs finalUnits maxUnits totalUnits : ℕ) : Logged (Option ℕ) := do
  let room ← arith 64 (maxUnits - totalUnits)
  if finalUnits > room then pure none
  else do
    let totalUnits ← arith 64 (totalUnits + finalUnits : ℕ)
    if totalUnits = 0 then pure none
    else do
      let product ← arith 64 (totalUnits * unitMs : ℕ)
      let horizonMs ← arith 32 product
      pure (some horizonMs)

/-- `rn_policy_horizon_ms`. -/
def rnPolicyHorizonMs (p : Policy) (maxTtlMs : UInt32) : Logged (Option ℕ) :=
  if p.unitMs.toNat = 0 ∨ p.unitMs.toNat > maxTtlMs.toNat ∨
      p.replayCount.toNat > rClientHaMaxReplayCount ∨ p.replayGap.initialUnits.toNat = 0 then
    pure none
  else do
    let maxUnits := maxTtlMs.toNat / p.unitMs.toNat
    match ← horizonRounds p.replayGap maxUnits (p.replayCount.toNat + 1) 0 0 with
    | none => pure none
    | some totalUnits =>
      horizonFinish p.unitMs.toNat p.finalReceiveUnits.toNat maxUnits totalUnits

/-! ## The policy in unbounded integers -/

/-- The gap `B k` of round `k`. -/
def Schedule.gap (s : Schedule) (k : ℕ) : ℕ :=
  match s.kind with
  | .fixed => s.initialUnits.toNat
  | .linear => min s.maxUnits.toNat (s.initialUnits.toNat + k * s.linearStepUnits.toNat)
  | .exponential =>
    min s.maxUnits.toNat (s.initialUnits.toNat * s.exponentialFactor.toNat ^ k)

/-- The schedules `rn_policy_schedule_units` evaluates. -/
structure Schedule.WellFormed (s : Schedule) : Prop where
  initial_le : s.initialUnits.toNat ≤ s.maxUnits.toNat
  step_pos : s.kind = .linear → 1 ≤ s.linearStepUnits.toNat
  factor_ge : s.kind = .exponential → 2 ≤ s.exponentialFactor.toNat

/-- `B 0 + ⋯ + B N + F`, in units. -/
def Policy.units (p : Policy) : ℕ :=
  ∑ k ∈ Finset.range (p.replayCount.toNat + 1), p.replayGap.gap k + p.finalReceiveUnits.toNat

/-- `U * (B 0 + ⋯ + B N + F)`, in milliseconds. -/
def Policy.horizon (p : Policy) : ℕ :=
  p.unitMs.toNat * p.units

/-- The one operation that wraps : the last post-decrement of `round`, from zero. -/
def roundUnderflow : Op := ⟨32, 0 - 1⟩

/-! ## Schedules -/

/-- The operations of a schedule : they fit, but for the exponential loop's counter. -/
def Schedule.OpOk (s : Schedule) (o : Op) : Prop :=
  o.Fits ∨ s.kind = .exponential ∧ o = roundUnderflow

theorem exponentialLoop_val {max factor : ℕ} (hmax : max < 2 ^ 32) (hf : 2 ≤ factor) :
    ∀ (round value : ℕ), value ≤ max →
      (exponentialLoop max factor round value).val = min max (value * factor ^ round)
  | 0, value, hv => by simp [exponentialLoop, hv]
  | round + 1, value, hv => by
    have hpow : 1 ≤ factor ^ round := Nat.one_le_pow _ _ (by omega)
    have hstep : value * factor ^ (round + 1) = value * factor * factor ^ round := by ring
    simp only [exponentialLoop, Logged.bind_val]
    split_ifs with hlt hgt
    · -- the next product exceeds the maximum, and so does every later one
      have hbig : max < value * factor := by
        rwa [gt_iff_lt, Nat.div_lt_iff_lt_mul (by omega)] at hgt
      have hle : value * factor ≤ value * factor ^ (round + 1) := by
        rw [hstep]
        exact Nat.le_mul_of_pos_right _ hpow
      rw [exponentialLoop_val hmax hf round max le_rfl,
        min_eq_left (Nat.le_mul_of_pos_right _ hpow), min_eq_left (by omega)]
    · have hsmall : value * factor ≤ max := by
        rwa [gt_iff_lt, Nat.div_lt_iff_lt_mul (by omega), not_lt] at hgt
      rw [Logged.bind_val, arith_val_of_fits (by omega),
        exponentialLoop_val hmax hf round _ hsmall, hstep]
    · obtain rfl : value = max := by omega
      rw [Logged.pure_val, min_eq_left (Nat.le_mul_of_pos_right _ (Nat.one_le_pow _ _ (by omega)))]

theorem exponentialLoop_all {s : Schedule} (hs : s.kind = .exponential) {max factor : ℕ}
    (hmax : max < 2 ^ 32) (hf : 2 ≤ factor) :
    ∀ (round value : ℕ), round < 2 ^ 32 → value ≤ max →
      (exponentialLoop max factor round value).All s.OpOk
  | 0, value, _, _ => Logged.all_bind (arith_all (Or.inr ⟨hs, rfl⟩)) (Logged.all_pure _ _)
  | round + 1, value, hr, hv => by
    have hdec : s.OpOk ⟨32, ((round + 1 : ℕ) : ℤ) - 1⟩ := by
      left
      rw [show ((round + 1 : ℕ) : ℤ) - 1 = (round : ℤ) by push_cast; ring]
      exact fits_of_lt (by omega)
    refine Logged.all_bind (arith_all hdec) ?_
    split_ifs with hlt hgt
    · exact exponentialLoop_all hs hmax hf round max (by omega) le_rfl
    · have hsmall : value * factor ≤ max := by
        rwa [gt_iff_lt, Nat.div_lt_iff_lt_mul (by omega), not_lt] at hgt
      refine Logged.all_bind (arith_all (Or.inl (fits_of_lt (by omega)))) ?_
      rw [arith_val_of_fits (by omega)]
      exact exponentialLoop_all hs hmax hf round _ (by omega) hsmall
    · exact Logged.all_pure _ _

/-- A linear gap is the initial value plus the growth while that stays within the
maximum : the truncated quotient decides it exactly. -/
theorem linear_gap {initial max step : ℕ} (hle : initial ≤ max) (hstep : 1 ≤ step) (round : ℕ) :
    min max (initial + round * step) =
      if round > (max - initial) / step then max else initial + round * step := by
  have hiff : round > (max - initial) / step ↔ max - initial < round * step := by
    rw [gt_iff_lt, Nat.div_lt_iff_lt_mul (by omega)]
  split_ifs with h
  · have := hiff.mp h
    omega
  · have := mt hiff.mpr h
    omega

theorem linearUnits_val {value max step : ℕ} (hmax : max < 2 ^ 32) (hle : value ≤ max)
    (hstep : 1 ≤ step) (round : ℕ) :
    (linearUnits value max step round).val = some (min max (value + round * step)) := by
  have hroom : (max : ℤ) - value = ((max - value : ℕ) : ℤ) := by omega
  have hlin := linear_gap hle hstep round
  simp only [linearUnits, show step ≠ 0 by omega, if_false, Logged.bind_val, hroom,
    arith_val_of_fits (show max - value < 2 ^ 32 by omega)]
  rw [hlin]
  split_ifs with hround
  · rfl
  · rw [if_neg hround] at hlin
    rw [Logged.bind_val, Logged.bind_val, Logged.pure_val,
      arith_val_of_fits (show round * step < 2 ^ 32 by omega),
      arith_val_of_fits (show value + round * step < 2 ^ 32 by omega)]

theorem linearUnits_all {s : Schedule} {value max step : ℕ} (hmax : max < 2 ^ 32)
    (hle : value ≤ max) (round : ℕ) : (linearUnits value max step round).All s.OpOk := by
  have hroom : (max : ℤ) - value = ((max - value : ℕ) : ℤ) := by omega
  unfold linearUnits
  split_ifs with hstep
  · exact Logged.all_pure _ _
  · rw [hroom]
    refine Logged.all_bind (arith_all (Or.inl (fits_of_lt (by omega)))) ?_
    rw [arith_val_of_fits (by omega)]
    have hlin := linear_gap hle (Nat.one_le_iff_ne_zero.mpr hstep) round
    split_ifs with hround
    · exact Logged.all_pure _ _
    · rw [if_neg hround] at hlin
      refine Logged.all_bind (arith_all (Or.inl (fits_of_lt (by omega)))) ?_
      rw [arith_val_of_fits (show round * step < 2 ^ 32 by omega)]
      exact Logged.all_bind (arith_all (Or.inl (fits_of_lt (by omega)))) (Logged.all_pure _ _)

/-- On a well-formed schedule `rn_policy_schedule_units` yields the round's gap. -/
theorem rnPolicyScheduleUnits_val {s : Schedule} (hwf : s.WellFormed) (round : ℕ) :
    (rnPolicyScheduleUnits s round).val = some (s.gap round) := by
  have hmax : s.maxUnits.toNat < 2 ^ 32 := s.maxUnits.toNat_lt
  have hle := hwf.initial_le
  unfold rnPolicyScheduleUnits Schedule.gap
  rw [if_neg (by omega)]
  cases hk : s.kind with
  | fixed => rfl
  | linear => exact linearUnits_val hmax hle (hwf.step_pos hk) round
  | exponential =>
    have hf := hwf.factor_ge hk
    simp only [exponentialUnits, show ¬s.exponentialFactor.toNat < 2 by omega, if_false,
      Logged.bind_val, Logged.pure_val, exponentialLoop_val hmax hf _ _ hle]

/-- Any other schedule is an error. -/
theorem rnPolicyScheduleUnits_eq_none {s : Schedule} (hwf : ¬s.WellFormed) (round : ℕ) :
    (rnPolicyScheduleUnits s round).val = none := by
  unfold rnPolicyScheduleUnits
  split_ifs with hgt
  · rfl
  · cases hk : s.kind with
    | fixed => exact absurd ⟨by omega, by simp [hk], by simp [hk]⟩ hwf
    | linear =>
      have hstep : s.linearStepUnits.toNat = 0 := by
        by_contra hne
        exact hwf ⟨by omega, fun _ => by omega, by simp [hk]⟩
      simp only [linearUnits, hstep, if_true, Logged.pure_val]
    | exponential =>
      have hf : s.exponentialFactor.toNat < 2 := by
        by_contra hne
        exact hwf ⟨by omega, by simp [hk], fun _ => by omega⟩
      simp only [exponentialUnits, hf, if_true, Logged.pure_val]

/-- No operation of `rn_policy_schedule_units` wraps, but for the exponential loop's
counter. -/
theorem rnPolicyScheduleUnits_all (s : Schedule) {round : ℕ} (hr : round < 2 ^ 32) :
    (rnPolicyScheduleUnits s round).All s.OpOk := by
  have hmax : s.maxUnits.toNat < 2 ^ 32 := s.maxUnits.toNat_lt
  unfold rnPolicyScheduleUnits
  split_ifs with hgt
  · exact Logged.all_pure _ _
  · have hle : s.initialUnits.toNat ≤ s.maxUnits.toNat := by omega
    cases hk : s.kind with
    | fixed => exact Logged.all_pure _ _
    | linear => exact linearUnits_all hmax hle round
    | exponential =>
      simp only [exponentialUnits]
      split_ifs with hf
      · exact Logged.all_pure _ _
      · exact Logged.all_bind (exponentialLoop_all hk hmax (by omega) _ _ hr hle)
          (Logged.all_pure _ _)

/-! ## The horizon -/

/-- The rounds of the loop add up their gaps, and stop exactly when the sum passes
`maxUnits`. -/
theorem horizonRounds_val {s : Schedule} (hwf : s.WellFormed) {maxUnits : ℕ}
    (hmax : maxUnits < 2 ^ 32) :
    ∀ (left round total : ℕ), round + left < 2 ^ 32 → total ≤ maxUnits →
      (horizonRounds s maxUnits left round total).val =
        let sum := total + ∑ k ∈ Finset.range left, s.gap (round + k)
        if sum ≤ maxUnits then some sum else none
  | 0, round, total, _, ht => by simp [horizonRounds, ht]
  | left + 1, round, total, hr, ht => by
    have hsum : ∑ k ∈ Finset.range (left + 1), s.gap (round + k) =
        s.gap round + ∑ k ∈ Finset.range left, s.gap (round + 1 + k) := by
      rw [Finset.sum_range_succ', add_comm]
      congr 1
      refine Finset.sum_congr rfl fun k _ => ?_
      rw [show round + (k + 1) = round + 1 + k by omega]
    have hroom : (maxUnits : ℤ) - total = ((maxUnits - total : ℕ) : ℤ) := by omega
    simp only [horizonRounds, Logged.bind_val, rnPolicyScheduleUnits_val hwf, hroom,
      arith_val_of_fits (show maxUnits - total < 2 ^ 64 by omega), hsum]
    split_ifs with hgap hle hle
    · omega
    · rfl
    · rw [Logged.bind_val, Logged.bind_val,
        arith_val_of_fits (show total + s.gap round < 2 ^ 64 by omega),
        arith_val_of_fits (show round + 1 < 2 ^ 32 by omega),
        horizonRounds_val hwf hmax left (round + 1) _ (by omega) (by omega)]
      simp only [← add_assoc] at hle ⊢
      rw [if_pos hle]
    · rw [Logged.bind_val, Logged.bind_val,
        arith_val_of_fits (show total + s.gap round < 2 ^ 64 by omega),
        arith_val_of_fits (show round + 1 < 2 ^ 32 by omega),
        horizonRounds_val hwf hmax left (round + 1) _ (by omega) (by omega)]
      simp only [← add_assoc] at hle ⊢
      rw [if_neg hle]

theorem horizonRounds_eq_none {s : Schedule} (hwf : ¬s.WellFormed) (maxUnits left round : ℕ)
    (total : ℕ) : (horizonRounds s maxUnits (left + 1) round total).val = none := by
  simp only [horizonRounds, Logged.bind_val, rnPolicyScheduleUnits_eq_none hwf, Logged.pure_val]

theorem horizonRounds_all (s : Schedule) {maxUnits : ℕ} (hmax : maxUnits < 2 ^ 32) :
    ∀ (left round total : ℕ), round + left < 2 ^ 32 → total ≤ maxUnits →
      (horizonRounds s maxUnits left round total).All s.OpOk
  | 0, _, _, _, _ => Logged.all_pure _ _
  | left + 1, round, total, hr, ht => by
    have hroom : (maxUnits : ℤ) - total = ((maxUnits - total : ℕ) : ℤ) := by omega
    refine Logged.all_bind (rnPolicyScheduleUnits_all s (by omega)) ?_
    cases (rnPolicyScheduleUnits s round).val with
    | none => exact Logged.all_pure _ _
    | some gap =>
      simp only [hroom]
      refine Logged.all_bind (arith_all (Or.inl (fits_of_lt (by omega)))) ?_
      rw [arith_val_of_fits (by omega)]
      split_ifs with hgap
      · exact Logged.all_pure _ _
      · refine Logged.all_bind (arith_all (Or.inl (fits_of_lt (by omega)))) ?_
        rw [arith_val_of_fits (show total + gap < 2 ^ 64 by omega)]
        refine Logged.all_bind (arith_all (Or.inl (fits_of_lt (by omega)))) ?_
        rw [arith_val_of_fits (show round + 1 < 2 ^ 32 by omega)]
        exact horizonRounds_all s hmax left (round + 1) _ (by omega) (by omega)

/-- When `rn_policy_horizon_ms` succeeds under the limit `T`. -/
structure Policy.Admissible (p : Policy) (T : ℕ) : Prop where
  unit_pos : 1 ≤ p.unitMs.toNat
  unit_le : p.unitMs.toNat ≤ T
  replays_le : p.replayCount.toNat ≤ 65535
  wellFormed : p.replayGap.WellFormed
  initial_pos : 1 ≤ p.replayGap.initialUnits.toNat
  horizon_le : p.horizon ≤ T

/-- The gaps add up to at least one unit, the initial gap. -/
theorem Policy.one_le_gaps {p : Policy} (hwf : p.replayGap.WellFormed)
    (hinit : 1 ≤ p.replayGap.initialUnits.toNat) :
    1 ≤ ∑ k ∈ Finset.range (p.replayCount.toNat + 1), p.replayGap.gap k := by
  have h0 : 1 ≤ p.replayGap.gap 0 := by
    have hle := hwf.initial_le
    unfold Schedule.gap
    cases p.replayGap.kind <;> simp <;> omega
  rw [Finset.sum_range_succ']
  omega

theorem horizonFinish_val {unitMs finalUnits maxUnits totalUnits : ℕ}
    (hprod : maxUnits * unitMs < 2 ^ 32) (hmax : maxUnits < 2 ^ 32) (hpos : 1 ≤ totalUnits)
    (hle : totalUnits ≤ maxUnits) :
    (horizonFinish unitMs finalUnits maxUnits totalUnits).val =
      if totalUnits + finalUnits ≤ maxUnits then some ((totalUnits + finalUnits) * unitMs)
      else none := by
  have hroom : (maxUnits : ℤ) - totalUnits = ((maxUnits - totalUnits : ℕ) : ℤ) := by omega
  simp only [horizonFinish, Logged.bind_val, hroom,
    arith_val_of_fits (show maxUnits - totalUnits < 2 ^ 64 by omega)]
  split_ifs with hgt hsum hsum
  · omega
  · rfl
  · have hmul : (totalUnits + finalUnits) * unitMs ≤ maxUnits * unitMs :=
      Nat.mul_le_mul_right _ hsum
    rw [Logged.bind_val, arith_val_of_fits (show totalUnits + finalUnits < 2 ^ 64 by omega),
      if_neg (by omega), Logged.bind_val, Logged.bind_val, Logged.pure_val,
      arith_val_of_fits (show (totalUnits + finalUnits) * unitMs < 2 ^ 64 by omega),
      arith_val_of_fits (show (totalUnits + finalUnits) * unitMs < 2 ^ 32 by omega)]
  · omega

theorem horizonFinish_all {s : Schedule} {unitMs finalUnits maxUnits totalUnits : ℕ}
    (hprod : maxUnits * unitMs < 2 ^ 32) (hmax : maxUnits < 2 ^ 32)
    (hle : totalUnits ≤ maxUnits) :
    (horizonFinish unitMs finalUnits maxUnits totalUnits).All s.OpOk := by
  have hroom : (maxUnits : ℤ) - totalUnits = ((maxUnits - totalUnits : ℕ) : ℤ) := by omega
  simp only [horizonFinish, hroom]
  refine Logged.all_bind (arith_all (Or.inl (fits_of_lt (by omega)))) ?_
  rw [arith_val_of_fits (by omega)]
  split_ifs with hgt
  · exact Logged.all_pure _ _
  · have hmul : (totalUnits + finalUnits) * unitMs ≤ maxUnits * unitMs :=
      Nat.mul_le_mul_right _ (by omega)
    refine Logged.all_bind (arith_all (Or.inl (fits_of_lt (by omega)))) ?_
    rw [arith_val_of_fits (show totalUnits + finalUnits < 2 ^ 64 by omega)]
    split_ifs
    · exact Logged.all_pure _ _
    · refine Logged.all_bind (arith_all (Or.inl (fits_of_lt (by omega)))) ?_
      rw [arith_val_of_fits (show (totalUnits + finalUnits) * unitMs < 2 ^ 64 by omega)]
      exact Logged.all_bind (arith_all (Or.inl (fits_of_lt (by omega)))) (Logged.all_pure _ _)

/-- `rn_policy_horizon_ms` succeeds exactly on admissible policies, with the horizon. -/
theorem rnPolicyHorizonMs_val (p : Policy) (T : UInt32) (H : ℕ) :
    (rnPolicyHorizonMs p T).val = some H ↔ p.Admissible T.toNat ∧ H = p.horizon := by
  have hT : T.toNat < 2 ^ 32 := T.toNat_lt
  unfold rnPolicyHorizonMs
  split_ifs with hbad
  · refine iff_of_false (by simp) ?_
    rintro ⟨⟨h1, h2, h3, -, h4, -⟩, -⟩
    simp only [rClientHaMaxReplayCount] at hbad
    omega
  simp only [rClientHaMaxReplayCount, not_or, not_lt] at hbad
  obtain ⟨hU, hUT, hN, hinit⟩ := hbad
  by_cases hwf : p.replayGap.WellFormed
  · have hpos := Policy.one_le_gaps hwf (Nat.one_le_iff_ne_zero.mpr hinit)
    have hmax : T.toNat / p.unitMs.toNat < 2 ^ 32 := (Nat.div_le_self _ _).trans_lt hT
    have hprod : T.toNat / p.unitMs.toNat * p.unitMs.toNat < 2 ^ 32 :=
      (Nat.div_mul_le_self _ _).trans_lt hT
    have hiff : p.units ≤ T.toNat / p.unitMs.toNat ↔ p.horizon ≤ T.toNat := by
      rw [Nat.le_div_iff_mul_le (by omega), Policy.horizon, mul_comm]
    have hadm : p.Admissible T.toNat ↔ p.units ≤ T.toNat / p.unitMs.toNat := by
      rw [hiff]
      exact ⟨Policy.Admissible.horizon_le, fun h => ⟨by omega, hUT, hN, hwf, by omega, h⟩⟩
    rw [hadm, Logged.bind_val,
      horizonRounds_val hwf hmax _ _ _ (by omega) (Nat.zero_le _)]
    simp only [zero_add]
    by_cases hsum : ∑ k ∈ Finset.range (p.replayCount.toNat + 1), p.replayGap.gap k ≤
        T.toNat / p.unitMs.toNat
    · simp only [if_pos hsum]
      rw [horizonFinish_val hprod hmax hpos hsum, Policy.horizon, mul_comm]
      simp only [Policy.units]
      split_ifs with hle
      · simp [hle, eq_comm]
      · simp [hle]
    · simp only [if_neg hsum]
      refine iff_of_false (by simp) fun h => hsum ?_
      exact (Nat.le_add_right _ _).trans h.1
  · rw [Logged.bind_val, horizonRounds_eq_none hwf]
    exact iff_of_false (by simp) fun h => hwf h.1.wellFormed

/-- No operation of `rn_policy_horizon_ms` wraps, but for the counter of the exponential
loop. -/
theorem rnPolicyHorizonMs_all (p : Policy) (T : UInt32) :
    (rnPolicyHorizonMs p T).All p.replayGap.OpOk := by
  have hT : T.toNat < 2 ^ 32 := T.toNat_lt
  unfold rnPolicyHorizonMs
  split_ifs with hbad
  · exact Logged.all_pure _ _
  simp only [rClientHaMaxReplayCount, not_or, not_lt] at hbad
  obtain ⟨hU, hUT, hN, -⟩ := hbad
  have hmax : T.toNat / p.unitMs.toNat < 2 ^ 32 := (Nat.div_le_self _ _).trans_lt hT
  have hprod : T.toNat / p.unitMs.toNat * p.unitMs.toNat < 2 ^ 32 :=
    (Nat.div_mul_le_self _ _).trans_lt hT
  refine Logged.all_bind (horizonRounds_all _ hmax _ _ _ (by omega) (Nat.zero_le _)) ?_
  cases hr : (horizonRounds p.replayGap (T.toNat / p.unitMs.toNat)
      (p.replayCount.toNat + 1) 0 0).val with
  | none => exact Logged.all_pure _ _
  | some totalUnits =>
    refine horizonFinish_all hprod hmax ?_
    by_cases hwf : p.replayGap.WellFormed
    · rw [horizonRounds_val hwf hmax _ _ _ (by omega) (Nat.zero_le _)] at hr
      dsimp only at hr
      split_ifs at hr with hle
      rwa [← Option.some.inj hr]
    · rw [horizonRounds_eq_none hwf] at hr
      cases hr

end RlNginx
