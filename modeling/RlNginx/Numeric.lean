import RlNginx.Bytes
import RlNginx.Lib.Word

/-!
# Numbers

`rn_numeric.c` : decimal parsing into 32 bits, TTLs and the rate grammar. A cursor into
the text is the list of bytes still to read.

`rnNumericParseRate` is what a caller gets from the rate parser. The call itself, with its
position and the two output parameters it writes through, is `rnNumericParseRateInto`. In the
same way `rnNumericParseU32Into` is the call of `rn_numeric_parse_u32`.
-/

open Word

namespace RlNginx

/-- `UINT32_MAX`. -/
def uint32Max : ℕ := 2 ^ 32 - 1

/-- `c >= '0' && c <= '9'`. -/
def isDigit (c : UInt8) : Bool :=
  48 ≤ c.toNat && c.toNat ≤ 57

/-- One digit of a number : `value * 10 + digit`, unless that would pass `UINT32_MAX`. -/
def pushDigit (value : ℕ) (c : UInt8) : Logged (Option ℕ) := do
  let digit := c.toNat - 48
  let room ← arith 32 (uint32Max - digit)
  if value > room / 10 then pure none
  else do
    let scaled ← arith 32 (value * 10 : ℕ)
    let value ← arith 32 (scaled + digit : ℕ)
    pure (some value)

/-- The loop of `rn_numeric_parse_u32`. -/
def parseU32Loop : Bytes → ℕ → Logged (Option ℕ)
  | [], value => pure (some value)
  | c :: s, value =>
    if isDigit c then do
      match ← pushDigit value c with
      | none => pure none
      | some value => parseU32Loop s value
    else pure none

/-- `rn_numeric_parse_u32`. -/
def rnNumericParseU32 (data : Bytes) : Logged (Option ℕ) :=
  if data = [] then pure none else parseU32Loop data 0

/-- `rn_numeric_parse_u32` : the code it returns, and `*out` after it. -/
def rnNumericParseU32Into (data : Bytes) (out : UInt32) : Logged (ℤ × UInt32) := do
  if data = [] then pure (-1, out)
  else
    match ← parseU32Loop data 0 with
    | none => pure (-1, out)
    | some value => pure (0, value.toUInt32)

/-- `rn_numeric_u32_from_u64`. -/
def rnNumericU32FromU64 (value : ℕ) : Option ℕ :=
  if value > uint32Max then none else some value

/-- `rn_numeric_ttl_ms_until`. -/
def rnNumericTtlMsUntil (expiresAtS nowS : UInt64) : UInt32 :=
  if expiresAtS ≤ nowS then 0
  else
    let remainingS := expiresAtS - nowS
    if remainingS.toNat > uint32Max / 1000 then uint32Max.toUInt32
    else remainingS.toUInt32 * 1000

/-- The time left in milliseconds, as far as 32 bits can hold it. -/
theorem rnNumericTtlMsUntil_eq (expiresAtS nowS : UInt64) :
    (rnNumericTtlMsUntil expiresAtS nowS).toNat =
      min ((expiresAtS.toNat - nowS.toNat) * 1000) uint32Max := by
  have hmax : uint32Max = 4294967295 := rfl
  simp only [rnNumericTtlMsUntil, UInt64.le_iff_toNat_le]
  by_cases hle : expiresAtS.toNat ≤ nowS.toNat
  · rw [if_pos hle, Nat.sub_eq_zero_of_le hle, Nat.zero_mul, Nat.zero_min]
    rfl
  have hsub : (expiresAtS - nowS).toNat = expiresAtS.toNat - nowS.toNat :=
    UInt64.toNat_sub_of_le _ _ (UInt64.le_iff_toNat_le.mpr (by omega))
  rw [if_neg hle, hsub]
  split_ifs with hlong
  · have hword : uint32Max.toUInt32.toNat = uint32Max := rfl
    rw [hword]
    omega
  · rw [UInt32.toNat_mul, UInt64.toNat_toUInt32, hsub]
    change (expiresAtS.toNat - nowS.toNat) % 2 ^ 32 * 1000 % 2 ^ 32 = _
    omega

/-- A digit loop of `rn_numeric_parse_rate` : the value of the digits at the cursor, and
the cursor after them. -/
def rateDigits : Bytes → ℕ → Option (ℕ × Bytes)
  | [], value => some (value, [])
  | c :: s, value =>
    if isDigit c then
      match (pushDigit value c).val with
      | none => none
      | some value => rateDigits s value
    else some (value, c :: s)

/-- `switch (data[pos])` : milliseconds of a period unit. -/
def rateFactor (c : UInt8) : Option ℕ :=
  if c = 115 then some 1000
  else if c = 109 then some 60000
  else if c = 104 then some 3600000
  else none

/-- `rn_numeric_parse_rate` : the rate and the window in milliseconds. -/
def rnNumericParseRate (data : Bytes) : Option (ℕ × ℕ) :=
  match rateDigits data 0 with
  | none => none
  | some (rate, rest) =>
    if rate = 0 then none
    else
      match rest with
      | 114 :: 47 :: rest =>
        match rateDigits rest 0 with
        | none => none
        | some (period, rest) =>
          let window := if period = 0 then 1 else period
          match rest with
          | [unit] =>
            match rateFactor unit with
            | none => none
            | some factor =>
              if window > uint32Max / factor then none else some (rate, window * factor)
          | _ => none
      | _ => none

/-- `*out_rate` and `*out_window_ms`. -/
structure RateOut where
  rate : UInt32
  windowMs : UInt32
  deriving DecidableEq, Repr

/-- A digit loop of `rn_numeric_parse_rate` at a position :
`while (pos < len && data[pos] >= '0' && data[pos] <= '9')`. -/
def rateLoop (data : Bytes) (pos value : ℕ) : Option (ℕ × ℕ) :=
  if h : pos < data.length then
    if isDigit data[pos] then
      match (pushDigit value data[pos]).val with
      | none => none
      | some value => rateLoop data (pos + 1) value
    else some (value, pos)
  else some (value, pos)
termination_by data.length - pos

/-- `rn_numeric_parse_rate` : the code it returns and its output parameters after it. -/
def rnNumericParseRateInto (data : Bytes) (out : RateOut) : ℤ × RateOut :=
  if data = [] then (-1, out)
  else
    match rateLoop data 0 0 with
    | none => (-1, out)
    | some (rate, pos) =>
      -- `pos` stands two bytes further when the condition is passed
      if rate = 0 ∨ data[pos]? ≠ some 114 ∨ data[pos + 1]? ≠ some 47 then (-1, out)
      else
        match rateLoop data (pos + 2) 0 with
        | none => (-1, out)
        | some (period, pos) =>
          let window := if period = 0 then 1 else period
          if pos + 1 ≠ data.length then (-1, out)
          else
            match data[pos]?.bind rateFactor with
            | none => (-1, out)
            | some factor =>
              if window > uint32Max / factor then (-1, out)
              else (0, ⟨rate.toUInt32, window.toUInt32 * factor.toUInt32⟩)

end RlNginx
