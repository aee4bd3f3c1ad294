import RlNginx.Directives
import RlNginx.Lib.Numeral
import Mathlib.Data.List.TakeWhile

/-!
# The number, rate and schedule grammars

What the hand-written parsers accept, as grammars. A number is a nonempty string of
decimal digits, of any length, and stands for its `decimal` value : the overflow guards of
the digit loops refuse exactly the strings whose value passes `UINT32_MAX`
(`rateDigits_eq`, `rnNumericParseU32_iff`), and none of their operations wraps
(`decimal_parsing`).

* `IsRate` is the rate grammar `<D>r/<P><U>` (`rnNumericParseRate_iff`). The call writes
  its outputs only when it succeeds (`rate_grammar`).
* `IsSchedule` is the schedule grammar `fixed:<a>`, `linear:<a>:<g>:<m>`,
  `exponential:<a>:<g>:<m>` (`rnParsePolicySchedule_iff`). Every schedule it yields is one
  that `rn_policy_schedule_units` evaluates at every round (`schedule_grammar`).
-/

open Word Numeral

namespace RlNginx

/-! ## Numbers -/

/-- The digit a byte stands for. -/
def digitOf (c : UInt8) : ℕ :=
  c.toNat - 48

/-- The value of a string of decimal digits. -/
def decimal (s : Bytes) : ℕ :=
  value 10 (s.map digitOf) 0

/-- Every byte is a decimal digit. -/
def Digits (s : Bytes) : Prop :=
  ∀ c ∈ s, isDigit c = true

theorem digitOf_le {c : UInt8} (h : isDigit c = true) : digitOf c ≤ uint32Max := by
  simp only [isDigit, Bool.and_eq_true, decide_eq_true_eq] at h
  simp only [digitOf, uint32Max]
  omega

/-- A number up to `UINT32_MAX` survives the store. -/
theorem toNat_toUInt32 {n : ℕ} (h : n ≤ uint32Max) : n.toUInt32.toNat = n := by
  simp only [uint32Max] at h
  simp only [Nat.toUInt32_eq, UInt32.toNat_ofNat']
  omega

/-- The room a digit leaves below `UINT32_MAX` is not negative. -/
theorem room_eq {c : UInt8} (hc : isDigit c = true) :
    ((uint32Max : ℤ) - (c.toNat - 48 : ℕ)) = ((uint32Max - digitOf c : ℕ) : ℤ) := by
  have hd := digitOf_le hc
  simp only [digitOf] at hd ⊢
  omega

theorem room_val {c : UInt8} (hc : isDigit c = true) :
    (arith 32 ((uint32Max : ℤ) - (c.toNat - 48 : ℕ))).val = uint32Max - digitOf c := by
  have hmax : uint32Max < 2 ^ 32 := by decide
  rw [room_eq hc, arith_val_of_fits (by omega)]

/-- The guard of the digit loops lets a digit through exactly when the number with it is
at most `UINT32_MAX`. -/
theorem pushDigit_val {v : ℕ} {c : UInt8} (hc : isDigit c = true) :
    (pushDigit v c).val =
      if v * 10 + digitOf c ≤ uint32Max then some (v * 10 + digitOf c) else none := by
  have hd := digitOf_le hc
  have hguard : v > (uint32Max - digitOf c) / 10 ↔ ¬(v * 10 + digitOf c ≤ uint32Max) := by
    rw [guard_iff (by omega) hd, not_le]
  simp only [pushDigit, Logged.bind_val, room_val hc]
  by_cases hfit : v * 10 + digitOf c ≤ uint32Max
  · have hscaled : (arith 32 ((v * 10 : ℕ) : ℤ)).val = v * 10 := by
      apply arith_val_of_fits
      simp only [uint32Max] at hfit
      omega
    have hsum : (arith 32 ((v * 10 + (c.toNat - 48) : ℕ) : ℤ)).val = v * 10 + digitOf c := by
      rw [arith_val_of_fits, digitOf]
      simp only [uint32Max, digitOf] at hfit
      omega
    rw [if_neg (by rw [hguard]; exact not_not.mpr hfit), if_pos hfit]
    simp only [Logged.bind_val, Logged.pure_val, hscaled, hsum]
  · rw [if_pos (hguard.mpr hfit), if_neg hfit, Logged.pure_val]

/-- A digit loop reads the longest run of digits, and fails when their value passes
`UINT32_MAX`. -/
theorem rateDigits_eq : ∀ (s : Bytes) {v : ℕ}, v ≤ uint32Max → rateDigits s v =
    if value 10 ((s.takeWhile isDigit).map digitOf) v ≤ uint32Max then
      some (value 10 ((s.takeWhile isDigit).map digitOf) v, s.dropWhile isDigit)
    else none
  | [], v, hv => by simp [rateDigits, hv]
  | c :: s, v, hv => by
    by_cases hc : isDigit c = true
    · simp only [rateDigits, hc, if_true, pushDigit_val hc, List.takeWhile_cons,
        List.dropWhile_cons, List.map_cons, value_cons]
      by_cases hfit : v * 10 + digitOf c ≤ uint32Max
      · simp only [if_pos hfit]
        exact rateDigits_eq s hfit
      · -- a number refused midway only grows
        have hgrow := le_value (b := 10) (by omega) ((s.takeWhile isDigit).map digitOf)
          (v * 10 + digitOf c)
        simp only [if_neg hfit]
        rw [if_neg (by omega)]
    · simp [rateDigits, hc, hv]

/-- The loop of `rn_numeric_parse_u32` reads a string of digits to its end. -/
theorem parseU32Loop_val : ∀ (s : Bytes) {v n : ℕ}, v ≤ uint32Max →
    ((parseU32Loop s v).val = some n ↔
      Digits s ∧ value 10 (s.map digitOf) v = n ∧ n ≤ uint32Max)
  | [], v, n, hv => by
    simp only [parseU32Loop, Logged.pure_val, Option.some.injEq, Digits, List.map_nil, value_nil]
    constructor
    · rintro rfl
      exact ⟨by simp, rfl, hv⟩
    · rintro ⟨-, h, -⟩
      exact h
  | c :: s, v, n, hv => by
    by_cases hc : isDigit c = true
    · have hdigits : Digits (c :: s) ↔ Digits s := by simp [Digits, hc]
      simp only [parseU32Loop, hc, if_true, Logged.bind_val, pushDigit_val hc, hdigits,
        List.map_cons, value_cons]
      by_cases hfit : v * 10 + digitOf c ≤ uint32Max
      · simp only [if_pos hfit]
        exact parseU32Loop_val s hfit
      · have hgrow := le_value (b := 10) (by omega) (s.map digitOf) (v * 10 + digitOf c)
        simp only [if_neg hfit, Logged.pure_val, reduceCtorEq, false_iff]
        rintro ⟨-, hvalue, hmax⟩
        omega
    · simp [parseU32Loop, Digits, hc]

/-- `rn_numeric_parse_u32` accepts the nonempty strings of digits of a value up to
`UINT32_MAX`. -/
theorem rnNumericParseU32_iff {s : Bytes} {n : ℕ} : (rnNumericParseU32 s).val = some n ↔
    s ≠ [] ∧ Digits s ∧ decimal s = n ∧ n ≤ uint32Max := by
  by_cases hs : s = []
  · simp [rnNumericParseU32, hs]
  · simp only [rnNumericParseU32, hs, if_false, ne_eq, not_false_iff, true_and]
    exact parseU32Loop_val s (Nat.zero_le _)

theorem decimal_eq_ofDigits (s : Bytes) :
    decimal s = Nat.ofDigits 10 (s.map digitOf).reverse := by
  rw [decimal, value_eq_ofDigits, Nat.zero_mul, Nat.zero_add]

/-- No operation of a digit step wraps : the guard comes before the product and the sum. -/
theorem pushDigit_all {v : ℕ} {c : UInt8} (hc : isDigit c = true) :
    (pushDigit v c).All Op.Fits := by
  have hd := digitOf_le hc
  have hmax : uint32Max < 2 ^ 32 := by decide
  unfold pushDigit
  refine Logged.all_bind (arith_all ?_) ?_
  · rw [room_eq hc]
    exact fits_of_lt (by omega)
  · rw [room_val hc]
    split_ifs with hguard
    · exact Logged.all_pure _ _
    · rw [guard_iff (by omega) hd, not_lt] at hguard
      have hscaled : (arith 32 ((v * 10 : ℕ) : ℤ)).val = v * 10 := arith_val_of_fits (by omega)
      refine Logged.all_bind (arith_all (fits_of_lt (by omega))) ?_
      rw [hscaled]
      refine Logged.all_bind (arith_all (fits_of_lt ?_)) (Logged.all_pure _ _)
      rw [← digitOf]
      omega

/-- Nor does one of the loop. -/
theorem parseU32Loop_all : ∀ (s : Bytes) (v : ℕ), (parseU32Loop s v).All Op.Fits
  | [], v => Logged.all_pure _ _
  | c :: s, v => by
    unfold parseU32Loop
    split_ifs with hc
    · refine Logged.all_bind (pushDigit_all hc) ?_
      split
      · exact Logged.all_pure _ _
      · exact parseU32Loop_all s _
    · exact Logged.all_pure _ _

/-- The call stores the value it parsed, and only that. -/
theorem rnNumericParseU32Into_val (data : Bytes) (out : UInt32) :
    (rnNumericParseU32Into data out).val =
      ((rnNumericParseU32 data).val.map fun v => ((0 : ℤ), v.toUInt32)).getD (-1, out) := by
  unfold rnNumericParseU32Into rnNumericParseU32
  split_ifs
  · rfl
  · rw [Logged.bind_val]
    rcases (parseU32Loop data 0).val with _ | v <;> rfl

/-- The call succeeds exactly on the nonempty strings of digits whose value, in positional
notation, is at most `UINT32_MAX`, and then stores that value. On every other text it leaves the
output as it was, and on every text no operation wraps. -/
theorem decimal_parsing (data : Bytes) (out : UInt32) :
    ((rnNumericParseU32Into data out).val.1 = 0 ↔ data ≠ [] ∧ Digits data ∧
      Nat.ofDigits 10 (data.map digitOf).reverse ≤ 2 ^ 32 - 1) ∧
    ((rnNumericParseU32Into data out).val.1 = 0 →
      (rnNumericParseU32Into data out).val.2.toNat =
        Nat.ofDigits 10 (data.map digitOf).reverse) ∧
    ((rnNumericParseU32Into data out).val.1 ≠ 0 →
      (rnNumericParseU32Into data out).val = (-1, out)) ∧
    ∀ o ∈ (rnNumericParseU32Into data out).ops, o.Fits := by
  rw [← decimal_eq_ofDigits]
  by_cases hempty : data = []
  · simp [rnNumericParseU32Into, hempty]
  have hall : (rnNumericParseU32Into data out).All Op.Fits := by
    unfold rnNumericParseU32Into
    rw [if_neg hempty]
    refine Logged.all_bind (parseU32Loop_all data 0) ?_
    split <;> exact Logged.all_pure _ _
  rw [rnNumericParseU32Into_val]
  rcases hparse : (rnNumericParseU32 data).val with _ | v
  · have hbad : ¬(data ≠ [] ∧ Digits data ∧ decimal data ≤ 2 ^ 32 - 1) := by
      rintro ⟨hne, hdigits, hmax⟩
      rw [rnNumericParseU32_iff.mpr ⟨hne, hdigits, rfl, hmax⟩] at hparse
      cases hparse
    exact ⟨iff_of_false (by simp) hbad, fun h => absurd h (by simp), fun _ => rfl, hall⟩
  · obtain ⟨hne, hdigits, rfl, hmax⟩ := rnNumericParseU32_iff.mp hparse
    exact ⟨iff_of_true rfl ⟨hne, hdigits, hmax⟩, fun _ => toNat_toUInt32 hmax,
      fun h => absurd rfl h, hall⟩

/-! ## Rates -/

/-- The period units with their milliseconds. -/
def periodUnits : List (UInt8 × ℕ) :=
  [(115, 1000), (109, 60000), (104, 3600000)]

/-- The rate grammar : `<D>r/<P><U>`, with the rate and the window it stands for. An empty
or zero period counts as one. -/
def IsRate (data : Bytes) (rate window : ℕ) : Prop :=
  ∃ (D P : Bytes) (U : UInt8) (factor : ℕ),
    data = D ++ ascii "r/" ++ P ++ [U] ∧ (D ≠ [] ∧ Digits D) ∧ Digits P ∧
    (U, factor) ∈ periodUnits ∧
    (decimal D = rate ∧ 1 ≤ rate ∧ rate ≤ uint32Max) ∧ decimal P ≤ uint32Max ∧
    (max (decimal P) 1 * factor = window ∧ window ≤ uint32Max)

theorem rateFactor_iff {U : UInt8} {factor : ℕ} :
    rateFactor U = some factor ↔ (U, factor) ∈ periodUnits := by
  simp only [rateFactor, periodUnits, List.mem_cons, Prod.mk.injEq, List.not_mem_nil, or_false]
  split_ifs with h1 h2 h3
  · subst h1; simp [eq_comm]
  · subst h2; simp [eq_comm]
  · subst h3; simp [eq_comm]
  · simp [h1, h2, h3]

theorem periodUnits_pos {U : UInt8} {factor : ℕ} (h : (U, factor) ∈ periodUnits) :
    isDigit U = false ∧ 0 < factor := by
  simp only [periodUnits, List.mem_cons, Prod.mk.injEq, List.not_mem_nil, or_false] at h
  rcases h with ⟨rfl, rfl⟩ | ⟨rfl, rfl⟩ | ⟨rfl, rfl⟩ <;> decide

/-- The numbers before a byte that is no digit, as a digit loop reads them. -/
theorem rateDigits_append {D : Bytes} {c : UInt8} (rest : Bytes) (hD : Digits D)
    (hc : isDigit c = false) (hmax : decimal D ≤ uint32Max) :
    rateDigits (D ++ c :: rest) 0 = some (decimal D, c :: rest) := by
  have htake : (D ++ c :: rest).takeWhile isDigit = D := by
    rw [List.takeWhile_append_of_pos hD]
    simp [hc]
  have hdrop : (D ++ c :: rest).dropWhile isDigit = c :: rest := by
    rw [List.dropWhile_append_of_pos hD]
    simp [hc]
  rw [rateDigits_eq _ (Nat.zero_le _), htake, hdrop]
  exact if_pos hmax

/-- What a digit loop has read when it succeeds. -/
theorem rateDigits_some {s rest : Bytes} {n : ℕ} (h : rateDigits s 0 = some (n, rest)) :
    ∃ D, s = D ++ rest ∧ Digits D ∧ decimal D = n ∧ n ≤ uint32Max := by
  rw [rateDigits_eq _ (Nat.zero_le _)] at h
  split_ifs at h with hmax
  obtain ⟨rfl, rfl⟩ := Prod.mk.inj (Option.some.inj h)
  refine ⟨s.takeWhile isDigit, List.takeWhile_append_dropWhile.symm, ?_, rfl, hmax⟩
  intro c hc
  exact List.mem_takeWhile_imp hc

/-- The window of a period in digits. -/
theorem window_eq (p : ℕ) : (if p = 0 then 1 else p) = max p 1 := by
  split_ifs <;> omega

/-- `rn_numeric_parse_rate` accepts exactly the rate grammar, with its values. -/
theorem rnNumericParseRate_iff {data : Bytes} {rate window : ℕ} :
    rnNumericParseRate data = some (rate, window) ↔ IsRate data rate window := by
  constructor
  · intro h
    unfold rnNumericParseRate at h
    split at h
    · cases h
    next n rest hdigits =>
    obtain ⟨D, rfl, hD, rfl, hDmax⟩ := rateDigits_some hdigits
    split_ifs at h with hzero
    split at h
    next rest' =>
      split at h
      · cases h
      next p rest'' hperiod =>
      obtain ⟨P, rfl, hP, rfl, hPmax⟩ := rateDigits_some hperiod
      simp only [window_eq] at h
      split at h
      next U =>
        split at h
        · cases h
        next factor hfactor =>
        have hunit := rateFactor_iff.mp hfactor
        split_ifs at h with hwindow
        obtain ⟨rfl, rfl⟩ := Prod.mk.inj (Option.some.inj h)
        rw [gt_iff_lt, not_lt, Nat.le_div_iff_mul_le (periodUnits_pos hunit).2] at hwindow
        refine ⟨D, P, U, factor, by simp [ascii], ⟨?_, hD⟩, hP, hunit, ⟨rfl, by omega, hDmax⟩,
          hPmax, rfl, hwindow⟩
        rintro rfl
        exact hzero rfl
      · cases h
    · cases h
  · rintro ⟨D, P, U, factor, rfl, ⟨-, hD⟩, hP, hunit, ⟨rfl, hpos, hDmax⟩, hPmax, rfl, hwindow⟩
    obtain ⟨hU, hfactor⟩ := periodUnits_pos hunit
    have hdata : D ++ ascii "r/" ++ P ++ [U] = D ++ 114 :: 47 :: (P ++ [U]) := by simp [ascii]
    have hfit : ¬(max (decimal P) 1 > uint32Max / factor) := by
      rwa [gt_iff_lt, not_lt, Nat.le_div_iff_mul_le hfactor]
    rw [hdata]
    unfold rnNumericParseRate
    rw [rateDigits_append _ hD (by decide) hDmax]
    simp only [if_neg (show decimal D ≠ 0 by omega), rateDigits_append _ hP hU hPmax,
      rateFactor_iff.mpr hunit, window_eq, if_neg hfit]

/-- The digit loop at a position is the digit loop on the bytes from there on. -/
theorem rateLoop_eq : ∀ (s pre : Bytes) (v : ℕ), rateLoop (pre ++ s) pre.length v =
    (rateDigits s v).map fun x => (x.1, pre.length + s.length - x.2.length)
  | [], pre, v => by
    rw [rateLoop]
    simp [rateDigits]
  | c :: s, pre, v => by
    have hlt : pre.length < (pre ++ c :: s).length := by simp
    have hget : (pre ++ c :: s)[pre.length] = c := by simp
    rw [rateLoop, dif_pos hlt, hget]
    by_cases hc : isDigit c = true
    · rcases hpush : (pushDigit v c).val with _ | w
      · simp [rateDigits, hc, hpush]
      · have ih := rateLoop_eq s (pre ++ [c]) w
        rw [List.append_assoc, List.singleton_append, List.length_append,
          List.length_singleton] at ih
        simp [rateDigits, hc, hpush, ih, Nat.add_comm, Nat.add_left_comm]
    · simp [rateDigits, hc]

/-- The numbers before a byte that is no digit, as the loop at a position reads them. -/
theorem rateLoop_append {D : Bytes} {c : UInt8} (pre rest : Bytes) (hD : Digits D)
    (hc : isDigit c = false) (hmax : decimal D ≤ uint32Max) :
    rateLoop (pre ++ (D ++ c :: rest)) pre.length 0 = some (decimal D, pre.length + D.length) := by
  rw [rateLoop_eq, rateDigits_append rest hD hc hmax]
  simp only [Option.map_some, List.length_append, List.length_cons, Option.some.injEq,
    Prod.mk.injEq, true_and]
  omega

/-- What the digit loop at a position has read when it succeeds. -/
theorem rateLoop_some {data : Bytes} {pos pos' n : ℕ} (hpos : pos ≤ data.length)
    (h : rateLoop data pos 0 = some (n, pos')) :
    ∃ D, data.drop pos = D ++ data.drop pos' ∧ Digits D ∧ decimal D = n ∧ n ≤ uint32Max ∧
      pos' ≤ data.length := by
  have hloop := rateLoop_eq (data.drop pos) (data.take pos) 0
  rw [List.take_append_drop, List.length_take_of_le hpos, h] at hloop
  obtain ⟨⟨n', rest⟩, hdigits, heq⟩ := Option.map_eq_some_iff.mp hloop.symm
  obtain ⟨rfl, rfl⟩ := Prod.mk.inj heq
  obtain ⟨D, hD, hrest⟩ := rateDigits_some hdigits
  have hlen := congrArg List.length hD
  simp only [List.length_drop, List.length_append] at hlen ⊢
  refine ⟨D, ?_, hrest.1, hrest.2.1, hrest.2.2, by omega⟩
  have hdata : data = data.take pos ++ D ++ rest := by
    rw [List.append_assoc, ← hD, List.take_append_drop]
  have hsplit : (data.take pos ++ D).length = pos + (data.length - pos) - rest.length := by
    rw [List.length_append, List.length_take_of_le hpos]
    omega
  rw [hD, ← hsplit]
  nth_rewrite 2 [hdata]
  rw [List.drop_left]

/-- The bytes from a position on begin with the byte there. -/
theorem drop_of_getElem? {data : Bytes} {i : ℕ} {c : UInt8} (h : data[i]? = some c) :
    data.drop i = c :: data.drop (i + 1) := by
  obtain ⟨hi, rfl⟩ := List.getElem?_eq_some_iff.mp h
  exact List.drop_eq_getElem_cons hi

/-- A call that does not fail has read a rate. -/
theorem rnNumericParseRateInto_cases (data : Bytes) (out : RateOut) :
    rnNumericParseRateInto data out = (-1, out) ∨ ∃ rate window, IsRate data rate window := by
  unfold rnNumericParseRateInto
  split_ifs with hempty
  · exact .inl rfl
  split
  · exact .inl rfl
  next rate pos hrate =>
  split_ifs with hsep
  · exact .inl rfl
  split
  · exact .inl rfl
  next period pos' hperiod =>
  simp only [window_eq]
  split_ifs with hend
  · exact .inl rfl
  split
  · exact .inl rfl
  next factor hfactor =>
  split_ifs with hwindow
  · exact .inl rfl
  right
  push Not at hsep hend
  obtain ⟨hzero, hr, hslash⟩ := hsep
  obtain ⟨U, hU, hunit⟩ := Option.bind_eq_some_iff.mp hfactor
  obtain ⟨D, hD, hDdigits, rfl, hDmax, hpos⟩ := rateLoop_some (Nat.zero_le _) hrate
  obtain ⟨hlt, -⟩ := List.getElem?_eq_some_iff.mp hslash
  obtain ⟨P, hP, hPdigits, rfl, hPmax, -⟩ := rateLoop_some (by omega) hperiod
  have htext : data = D ++ ascii "r/" ++ P ++ [U] := by
    have hlast : data.drop (pos' + 1) = [] := by rw [hend, List.drop_length]
    rw [List.drop_zero, drop_of_getElem? hr, drop_of_getElem? hslash, hP, drop_of_getElem? hU,
      hlast] at hD
    simpa [ascii] using hD
  rw [gt_iff_lt, not_lt,
    Nat.le_div_iff_mul_le (periodUnits_pos (rateFactor_iff.mp hunit)).2] at hwindow
  refine ⟨decimal D, _, D, P, U, factor, htext, ⟨?_, hDdigits⟩, hPdigits, rateFactor_iff.mp hunit,
    ⟨rfl, by omega, hDmax⟩, hPmax, rfl, hwindow⟩
  rintro rfl
  exact hzero rfl

/-- On a rate the call succeeds and stores its values. -/
theorem rnNumericParseRateInto_of_isRate {data : Bytes} {rate window : ℕ} (out : RateOut)
    (h : IsRate data rate window) :
    rnNumericParseRateInto data out = (0, ⟨rate.toUInt32, window.toUInt32⟩) := by
  obtain ⟨D, P, U, factor, rfl, ⟨-, hD⟩, hP, hunit, ⟨rfl, hpos, hDmax⟩, hPmax, rfl, hwindow⟩ := h
  obtain ⟨hU, hfactor⟩ := periodUnits_pos hunit
  have htext : D ++ ascii "r/" ++ P ++ [U] = D ++ 114 :: 47 :: (P ++ [U]) := by simp [ascii]
  have hpre : D ++ 114 :: 47 :: (P ++ [U]) = (D ++ [114, 47]) ++ (P ++ [U]) := by simp
  have hfirst := rateLoop_append [] (47 :: (P ++ [U])) hD (c := 114) (by decide) hDmax
  have hsecond := rateLoop_append (D ++ [114, 47]) [] hP hU hPmax
  have hfit : ¬(max (decimal P) 1 > uint32Max / factor) := by
    rwa [gt_iff_lt, not_lt, Nat.le_div_iff_mul_le hfactor]
  simp only [List.nil_append, List.length_nil, Nat.zero_add] at hfirst
  simp only [List.length_append, List.length_cons, List.length_nil, Nat.zero_add,
    Nat.reduceAdd, ← hpre] at hsecond
  rw [htext]
  unfold rnNumericParseRateInto
  rw [if_neg (by simp), hfirst]
  have hsep : ¬(decimal D = 0 ∨ (D ++ 114 :: 47 :: (P ++ [U]))[D.length]? ≠ some 114 ∨
      (D ++ 114 :: 47 :: (P ++ [U]))[D.length + 1]? ≠ some 47) := by
    simp
    omega
  have hlast : (D ++ 114 :: 47 :: (P ++ [U]))[D.length + 2 + P.length]? = some U := by
    have hsplit : D ++ 114 :: 47 :: (P ++ [U]) = (D ++ 114 :: 47 :: P) ++ [U] := by simp
    have hpos : D.length + 2 + P.length = (D ++ 114 :: 47 :: P).length := by
      simp
      omega
    rw [hsplit, hpos, List.getElem?_concat_length]
  have hlen : D.length + 2 + P.length + 1 = (D ++ 114 :: 47 :: (P ++ [U])).length := by
    simp
    omega
  simp only [if_neg hsep, hsecond, hlast, hlen, window_eq, Option.bind_some,
    rateFactor_iff.mpr hunit, if_neg hfit, ne_eq, not_true_eq_false, if_false,
    Nat.toUInt32_eq, UInt32.ofNat_mul]

/-- The values of a rate fit their outputs. -/
theorem IsRate.toNat {data : Bytes} {rate window : ℕ} (h : IsRate data rate window) :
    rate.toUInt32.toNat = rate ∧ window.toUInt32.toNat = window := by
  obtain ⟨D, P, U, factor, -, -, -, -, ⟨-, -, hrate⟩, -, -, hwindow⟩ := h
  exact ⟨toNat_toUInt32 hrate, toNat_toUInt32 hwindow⟩

/-- What the callers of the parser get : the stored values of a call that succeeds. -/
theorem rnNumericParseRate_eq (data : Bytes) (out : RateOut) :
    rnNumericParseRate data =
      if (rnNumericParseRateInto data out).1 = 0 then
        some ((rnNumericParseRateInto data out).2.rate.toNat,
          (rnNumericParseRateInto data out).2.windowMs.toNat)
      else none := by
  rcases hparse : rnNumericParseRate data with _ | ⟨rate, window⟩
  · rcases rnNumericParseRateInto_cases data out with hfail | ⟨rate, window, hrate⟩
    · rw [hfail]
      rfl
    · rw [rnNumericParseRate_iff.mpr hrate] at hparse
      cases hparse
  · have hrate := rnNumericParseRate_iff.mp hparse
    rw [rnNumericParseRateInto_of_isRate out hrate, if_pos rfl, hrate.toNat.1, hrate.toNat.2]

/-- The call succeeds exactly on the rate grammar and then stores exactly the rate and the
window. On every other text it leaves both outputs as they were. The callers of the parser work
with what it stores. -/
theorem rate_grammar (data : Bytes) (out : RateOut) :
    ((rnNumericParseRateInto data out).1 = 0 ↔ ∃ rate window, IsRate data rate window) ∧
    (∀ rate window, IsRate data rate window →
      (rnNumericParseRateInto data out).2.rate.toNat = rate ∧
      (rnNumericParseRateInto data out).2.windowMs.toNat = window) ∧
    ((rnNumericParseRateInto data out).1 ≠ 0 → (rnNumericParseRateInto data out).2 = out) ∧
    rnNumericParseRate data =
      if (rnNumericParseRateInto data out).1 = 0 then
        some ((rnNumericParseRateInto data out).2.rate.toNat,
          (rnNumericParseRateInto data out).2.windowMs.toNat)
      else none := by
  refine ⟨⟨fun hzero => ?_, ?_⟩, fun rate window hrate => ?_, fun hnonzero => ?_,
    rnNumericParseRate_eq data out⟩
  · rcases rnNumericParseRateInto_cases data out with hfail | hrate
    · rw [hfail] at hzero
      simp at hzero
    · exact hrate
  · rintro ⟨rate, window, hrate⟩
    rw [rnNumericParseRateInto_of_isRate out hrate]
  · rw [rnNumericParseRateInto_of_isRate out hrate]
    exact hrate.toNat
  · rcases rnNumericParseRateInto_cases data out with hfail | ⟨rate, window, hrate⟩
    · rw [hfail]
    · rw [rnNumericParseRateInto_of_isRate out hrate] at hnonzero
      exact absurd rfl hnonzero

/-! ## Schedules -/

/-- A nonempty string of digits with its value, at most `UINT32_MAX`. -/
def IsNumber (s : Bytes) (n : UInt32) : Prop :=
  s ≠ [] ∧ Digits s ∧ decimal s = n.toNat

/-- The schedule grammar, with the schedule each text stands for. -/
inductive IsSchedule : Bytes → Schedule → Prop where
  | fixed {A : Bytes} {a : UInt32} (ha : IsNumber A a) :
    IsSchedule (ascii "fixed:" ++ A) ⟨.fixed, a, a, 0, 0⟩
  | linear {A G M : Bytes} {a g m : UInt32} (ha : IsNumber A a) (hg : IsNumber G g)
      (hm : IsNumber M m) (hgrowth : 1 ≤ g.toNat) (hle : a.toNat ≤ m.toNat) :
    IsSchedule (ascii "linear:" ++ A ++ ascii ":" ++ G ++ ascii ":" ++ M) ⟨.linear, a, m, g, 0⟩
  | exponential {A G M : Bytes} {a g m : UInt32} (ha : IsNumber A a) (hg : IsNumber G g)
      (hm : IsNumber M m) (hgrowth : 2 ≤ g.toNat) (hle : a.toNat ≤ m.toNat) :
    IsSchedule (ascii "exponential:" ++ A ++ ascii ":" ++ G ++ ascii ":" ++ M)
      ⟨.exponential, a, m, 0, g⟩

/-- `rn_numeric_parse_u32` reads the numbers of the grammar. -/
theorem rnNumericParseU32_number {s : Bytes} {n : ℕ} :
    (rnNumericParseU32 s).val = some n ↔ IsNumber s n.toUInt32 ∧ n ≤ uint32Max := by
  rw [rnNumericParseU32_iff]
  constructor
  · rintro ⟨hs, hd, hv, hmax⟩
    exact ⟨⟨hs, hd, by rw [hv, toNat_toUInt32 hmax]⟩, hmax⟩
  · rintro ⟨⟨hs, hd, hv⟩, hmax⟩
    exact ⟨hs, hd, by rw [hv, toNat_toUInt32 hmax], hmax⟩

/-- The digits of a number hold no separator. -/
theorem IsNumber.no_separator {s : Bytes} {n : UInt32} (h : IsNumber s n) :
    ∀ c ∈ s, decide (c ≠ 58) = true := by
  intro c hc
  have hdigit := h.2.1 c hc
  refine decide_eq_true ?_
  rintro rfl
  exact absurd hdigit (by decide)

/-- A number that must have a separator after it. -/
theorem rnParseScheduleNumber_separator {cursor rest : Bytes} {n : ℕ} :
    rnParseScheduleNumber cursor true = some (n, rest) ↔
      ∃ A, cursor = A ++ 58 :: rest ∧ IsNumber A n.toUInt32 ∧ n ≤ uint32Max := by
  unfold rnParseScheduleNumber
  constructor
  · intro h
    have hempty : cursor ≠ [] := by
      rintro rfl
      simp at h
    simp only [if_neg hempty, if_true] at h
    split at h
    · cases h
    next c rest' hrest =>
    obtain ⟨m, hm, heq⟩ := Option.map_eq_some_iff.mp h
    obtain ⟨rfl, rfl⟩ := Prod.mk.inj heq
    have hhead := List.head?_dropWhile_not (fun c => decide (c ≠ (58 : UInt8))) cursor
    rw [hrest] at hhead
    obtain rfl : c = 58 := by simpa using hhead
    refine ⟨cursor.takeWhile (· ≠ 58), ?_, rnNumericParseU32_number.mp hm⟩
    rw [← hrest, List.takeWhile_append_dropWhile]
  · rintro ⟨A, rfl, hA, hmax⟩
    have htake : (A ++ 58 :: rest).takeWhile (· ≠ 58) = A := by
      rw [List.takeWhile_append_of_pos hA.no_separator]
      simp
    have hdrop : (A ++ 58 :: rest).dropWhile (· ≠ 58) = 58 :: rest := by
      rw [List.dropWhile_append_of_pos hA.no_separator]
      simp
    rw [if_neg (by simp)]
    simp only [if_true, htake, hdrop, rnNumericParseU32_number.mpr ⟨hA, hmax⟩, Option.map_some]

/-- A number that must end the text. -/
theorem rnParseScheduleNumber_end {cursor rest : Bytes} {n : ℕ} :
    rnParseScheduleNumber cursor false = some (n, rest) ↔
      rest = [] ∧ IsNumber cursor n.toUInt32 ∧ n ≤ uint32Max := by
  unfold rnParseScheduleNumber
  constructor
  · intro h
    have hempty : cursor ≠ [] := by
      rintro rfl
      simp at h
    simp only [if_neg hempty, Bool.false_eq_true, if_false] at h
    split_ifs at h with hrest
    obtain ⟨m, hm, heq⟩ := Option.map_eq_some_iff.mp h
    obtain ⟨rfl, rfl⟩ := Prod.mk.inj heq
    rw [List.takeWhile_eq_self_iff.mpr (List.dropWhile_eq_nil_iff.mp hrest)] at hm
    exact ⟨rfl, rnNumericParseU32_number.mp hm⟩
  · rintro ⟨rfl, hA, hmax⟩
    have htake := List.takeWhile_eq_self_iff.mpr hA.no_separator
    have hdrop := List.dropWhile_eq_nil_iff.mpr hA.no_separator
    simp only [if_neg hA.1, Bool.false_eq_true, if_false, htake, hdrop, if_true,
      rnNumericParseU32_number.mpr ⟨hA, hmax⟩, Option.map_some]

/-- The three numbers of a growing schedule. -/
theorem parseGrowing_iff {cursor : Bytes} {a g m : ℕ} :
    parseGrowing cursor = some (a, g, m) ↔ ∃ A G M,
      cursor = A ++ 58 :: (G ++ 58 :: M) ∧ (IsNumber A a.toUInt32 ∧ a ≤ uint32Max) ∧
      (IsNumber G g.toUInt32 ∧ g ≤ uint32Max) ∧ IsNumber M m.toUInt32 ∧ m ≤ uint32Max := by
  unfold parseGrowing
  constructor
  · intro h
    split at h
    · cases h
    next a' cursor₁ ha =>
    split at h
    · cases h
    next g' cursor₂ hg =>
    split at h
    · cases h
    next m' cursor₃ hm =>
    simp only [Option.some.injEq, Prod.mk.injEq] at h
    obtain ⟨rfl, rfl, rfl⟩ := h
    obtain ⟨A, rfl, hA⟩ := rnParseScheduleNumber_separator.mp ha
    obtain ⟨G, rfl, hG⟩ := rnParseScheduleNumber_separator.mp hg
    obtain ⟨-, hM⟩ := rnParseScheduleNumber_end.mp hm
    exact ⟨A, G, cursor₂, rfl, hA, hG, hM⟩
  · rintro ⟨A, G, M, rfl, hA, hG, hM⟩
    simp only [rnParseScheduleNumber_separator.mpr ⟨A, rfl, hA⟩,
      rnParseScheduleNumber_separator.mpr ⟨G, rfl, hG⟩, rnParseScheduleNumber_end.mpr ⟨rfl, hM⟩]

/-- A form of the schedule grammar : text after its keyword. -/
theorem keyword_iff {p : String} (hp : NulFree (ascii p)) {value : Bytes} :
    (value.length > (ascii p).length && hasPrefix value p) = true ↔
      ∃ rest, rest ≠ [] ∧ value = ascii p ++ rest := by
  simp only [Bool.and_eq_true, decide_eq_true_eq, hasPrefix, ngxStrncmp_prefix_iff value hp]
  constructor
  · rintro ⟨hlen, rest, rfl⟩
    refine ⟨rest, ?_, rfl⟩
    rintro rfl
    simp at hlen
  · rintro ⟨rest, hrest, rfl⟩
    refine ⟨?_, rest, rfl⟩
    simpa using List.length_pos_iff.mpr hrest

/-- `parseFixed` reads one number. -/
theorem parseFixed_iff {cursor : Bytes} {schedule : Schedule} :
    parseFixed cursor = some schedule ↔
      ∃ a : UInt32, IsNumber cursor a ∧ schedule = ⟨.fixed, a, a, 0, 0⟩ := by
  unfold parseFixed
  constructor
  · intro h
    split at h
    · cases h
    next a rest ha =>
    obtain ⟨-, hA, -⟩ := rnParseScheduleNumber_end.mp ha
    exact ⟨a.toUInt32, hA, (Option.some.inj h).symm⟩
  · rintro ⟨a, hA, rfl⟩
    have ha : rnParseScheduleNumber cursor false = some (a.toNat, []) := by
      refine rnParseScheduleNumber_end.mpr ⟨rfl, ?_, ?_⟩
      · simpa using hA
      · have := a.toNat_lt
        simp only [uint32Max]
        omega
    simp [ha]

/-- A growing branch of the parser : `low` is the least growth it takes, `out` the schedule
it fills. -/
def growingBranch (low : ℕ) (out : UInt32 → UInt32 → UInt32 → Schedule) (cursor : Bytes) :
    Option Schedule :=
  (parseGrowing cursor).bind fun n =>
    if n.2.1 < low ∨ n.1 > n.2.2 then none
    else some (out n.1.toUInt32 n.2.1.toUInt32 n.2.2.toUInt32)

/-- A growing schedule : its three numbers, with the bounds its branch checks. -/
theorem growingBranch_iff {cursor : Bytes} {low : ℕ} {out : UInt32 → UInt32 → UInt32 → Schedule}
    {schedule : Schedule} :
    growingBranch low out cursor = some schedule ↔
      ∃ (A G M : Bytes) (a g m : UInt32), cursor = A ++ 58 :: (G ++ 58 :: M) ∧
        IsNumber A a ∧ IsNumber G g ∧ IsNumber M m ∧ low ≤ g.toNat ∧ a.toNat ≤ m.toNat ∧
        schedule = out a g m := by
  unfold growingBranch
  constructor
  · intro h
    obtain ⟨⟨a, g, m⟩, hnumbers, hbranch⟩ := Option.bind_eq_some_iff.mp h
    obtain ⟨A, G, M, rfl, ⟨hA, ha⟩, ⟨hG, hg⟩, hM, hm⟩ := parseGrowing_iff.mp hnumbers
    simp only at hbranch
    split_ifs at hbranch with hbad
    push Not at hbad
    refine ⟨A, G, M, _, _, _, rfl, hA, hG, hM, ?_, ?_, (Option.some.inj hbranch).symm⟩
    · rw [toNat_toUInt32 hg]
      exact hbad.1
    · rw [toNat_toUInt32 ha, toNat_toUInt32 hm]
      exact hbad.2
  · rintro ⟨A, G, M, a, g, m, rfl, hA, hG, hM, hg, hle, rfl⟩
    have hmax : ∀ n : UInt32, n.toNat ≤ uint32Max := by
      intro n
      have := n.toNat_lt
      simp only [uint32Max]
      omega
    have hnumbers : parseGrowing (A ++ 58 :: (G ++ 58 :: M)) = some (a.toNat, g.toNat, m.toNat) :=
      parseGrowing_iff.mpr ⟨A, G, M, rfl, ⟨by simpa using hA, hmax a⟩, ⟨by simpa using hG, hmax g⟩,
        by simpa using hM, hmax m⟩
    rw [hnumbers, Option.bind_some, if_neg (by simp only; omega)]
    simp

theorem rnParsePolicySchedule_fixed {rest : Bytes} (h : rest ≠ []) :
    rnParsePolicySchedule (ascii "fixed:" ++ rest) = parseFixed rest := by
  have hkey := (keyword_iff (p := "fixed:") (by decide)).mpr ⟨rest, h, rfl⟩
  simp only [rnParsePolicySchedule, hkey, if_true, afterPrefix, List.drop_left]

theorem rnParsePolicySchedule_linear {rest : Bytes} (h : rest ≠ []) :
    rnParsePolicySchedule (ascii "linear:" ++ rest) =
      growingBranch 1 (fun a g m => ⟨.linear, a, m, g, 0⟩) rest := by
  have hkey := (keyword_iff (p := "linear:") (by decide)).mpr ⟨rest, h, rfl⟩
  have hfixed : hasPrefix (ascii "linear:" ++ rest) "fixed:" = false := rfl
  simp only [rnParsePolicySchedule, hfixed, hkey, Bool.and_false, Bool.false_eq_true, if_false,
    if_true, afterPrefix, List.drop_left, growingBranch, Nat.lt_one_iff]
  rcases parseGrowing rest with _ | ⟨a, g, m⟩ <;> rfl

theorem rnParsePolicySchedule_exponential {rest : Bytes} (h : rest ≠ []) :
    rnParsePolicySchedule (ascii "exponential:" ++ rest) =
      growingBranch 2 (fun a g m => ⟨.exponential, a, m, 0, g⟩) rest := by
  have hkey := (keyword_iff (p := "exponential:") (by decide)).mpr ⟨rest, h, rfl⟩
  have hfixed : hasPrefix (ascii "exponential:" ++ rest) "fixed:" = false := rfl
  have hlinear : hasPrefix (ascii "exponential:" ++ rest) "linear:" = false := rfl
  simp only [rnParsePolicySchedule, hfixed, hlinear, hkey, Bool.and_false, Bool.false_eq_true,
    if_false, if_true, afterPrefix, List.drop_left, growingBranch]
  rcases parseGrowing rest with _ | ⟨a, g, m⟩ <;> rfl

/-- A schedule is one of the three forms. -/
theorem rnParsePolicySchedule_keyword {value : Bytes} {schedule : Schedule}
    (h : rnParsePolicySchedule value = some schedule) :
    ∃ rest, rest ≠ [] ∧ (value = ascii "fixed:" ++ rest ∨ value = ascii "linear:" ++ rest ∨
      value = ascii "exponential:" ++ rest) := by
  unfold rnParsePolicySchedule at h
  split_ifs at h with hfixed hlinear hexponential
  · obtain ⟨rest, hrest, hvalue⟩ := (keyword_iff (by decide)).mp hfixed
    exact ⟨rest, hrest, .inl hvalue⟩
  · obtain ⟨rest, hrest, hvalue⟩ := (keyword_iff (by decide)).mp hlinear
    exact ⟨rest, hrest, .inr (.inl hvalue)⟩
  · obtain ⟨rest, hrest, hvalue⟩ := (keyword_iff (by decide)).mp hexponential
    exact ⟨rest, hrest, .inr (.inr hvalue)⟩

/-- `rn_parse_policy_schedule` accepts exactly the schedule grammar, with its schedule. -/
theorem rnParsePolicySchedule_iff {value : Bytes} {schedule : Schedule} :
    rnParsePolicySchedule value = some schedule ↔ IsSchedule value schedule := by
  have hcolon : ascii ":" = [58] := rfl
  constructor
  · intro h
    obtain ⟨rest, hrest, rfl | rfl | rfl⟩ := rnParsePolicySchedule_keyword h
    · rw [rnParsePolicySchedule_fixed hrest] at h
      obtain ⟨a, hA, rfl⟩ := parseFixed_iff.mp h
      exact .fixed hA
    · rw [rnParsePolicySchedule_linear hrest] at h
      obtain ⟨A, G, M, a, g, m, rfl, hA, hG, hM, hg, hle, rfl⟩ :=
        growingBranch_iff.mp h
      simpa [hcolon] using IsSchedule.linear hA hG hM hg hle
    · rw [rnParsePolicySchedule_exponential hrest] at h
      obtain ⟨A, G, M, a, g, m, rfl, hA, hG, hM, hg, hle, rfl⟩ :=
        growingBranch_iff.mp h
      simpa [hcolon] using IsSchedule.exponential hA hG hM hg hle
  · rintro (@⟨A, a, hA⟩ | @⟨A, G, M, a, g, m, hA, hG, hM, hg, hle⟩ |
      @⟨A, G, M, a, g, m, hA, hG, hM, hg, hle⟩)
    · rw [rnParsePolicySchedule_fixed hA.1]
      exact parseFixed_iff.mpr ⟨a, hA, rfl⟩
    · simp only [hcolon, List.append_assoc, List.singleton_append]
      rw [rnParsePolicySchedule_linear (by simp)]
      exact growingBranch_iff.mpr
        ⟨A, G, M, a, g, m, rfl, hA, hG, hM, hg, hle, rfl⟩
    · simp only [hcolon, List.append_assoc, List.singleton_append]
      rw [rnParsePolicySchedule_exponential (by simp)]
      exact growingBranch_iff.mpr
        ⟨A, G, M, a, g, m, rfl, hA, hG, hM, hg, hle, rfl⟩

/-- A schedule of the grammar is one `rn_policy_schedule_units` evaluates. -/
theorem IsSchedule.wellFormed {value : Bytes} {schedule : Schedule}
    (h : IsSchedule value schedule) : schedule.WellFormed := by
  rcases h with _ | ⟨-, -, -, hg, hle⟩ | ⟨-, -, -, hg, hle⟩
  · exact ⟨le_rfl, by simp, by simp⟩
  · exact ⟨hle, fun _ => hg, by simp⟩
  · exact ⟨hle, by simp, fun _ => hg⟩

/-- The gap of a round lies between the initial and the maximal number of units. -/
theorem Schedule.WellFormed.gap_le {s : Schedule} (h : s.WellFormed) (k : ℕ) :
    s.gap k ≤ s.maxUnits.toNat := by
  unfold Schedule.gap
  split
  · exact h.initial_le
  · exact min_le_left _ _
  · exact min_le_left _ _

theorem Schedule.WellFormed.gap_zero {s : Schedule} (h : s.WellFormed) :
    s.gap 0 = s.initialUnits.toNat := by
  have hle := h.initial_le
  unfold Schedule.gap
  split <;> simp [hle]

/-- Later rounds wait at least as long. -/
theorem Schedule.WellFormed.gap_mono {s : Schedule} (h : s.WellFormed) {j k : ℕ} (hjk : j ≤ k) :
    s.gap j ≤ s.gap k := by
  unfold Schedule.gap
  split
  · exact le_rfl
  · exact min_le_min_left _ (Nat.add_le_add_left (Nat.mul_le_mul_right _ hjk) _)
  next hkind =>
    have hfactor : 0 < s.exponentialFactor.toNat := by
      have := h.factor_ge hkind
      omega
    exact min_le_min_left _ (Nat.mul_le_mul_left _ (Nat.pow_le_pow_right hfactor hjk))

/-- The parser accepts exactly the schedule grammar, the schedule carries the numbers of
the text, and `rn_policy_schedule_units` evaluates it at every round : from the initial
number of units, never decreasing, up to the maximum. -/
theorem schedule_grammar (value : Bytes) :
    (∀ schedule, rnParsePolicySchedule value = some schedule ↔ IsSchedule value schedule) ∧
    ∀ schedule, rnParsePolicySchedule value = some schedule → ∃ units : ℕ → ℕ,
      (∀ round, (rnPolicyScheduleUnits schedule round).val = some (units round)) ∧
      units 0 = schedule.initialUnits.toNat ∧ Monotone units ∧
      ∀ round, units round ≤ schedule.maxUnits.toNat := by
  refine ⟨fun schedule => rnParsePolicySchedule_iff, ?_⟩
  intro schedule h
  have hwf := (rnParsePolicySchedule_iff.mp h).wellFormed
  exact ⟨schedule.gap, rnPolicyScheduleUnits_val hwf, hwf.gap_zero, fun _ _ => hwf.gap_mono,
    hwf.gap_le⟩

end RlNginx
