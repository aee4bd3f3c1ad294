import Mathlib.Data.Nat.Digits.Defs
import Mathlib.Tactic.Ring

/-!
# Positional numerals read under a bound

`value b ds v` is the number that the digits `ds` in base `b` stand for when they follow
the digits of `v`. A reader of bounded width keeps the number read so far and, before each
digit, compares it with `(max - d) / b` : that guard refuses exactly the digits that would
take the number past `max` (`guard_iff`). Numbers only grow while digits are read
(`le_value`), so a number refused midway is one whose whole value is past `max`.
-/

namespace Numeral

/-- The number of the digits `ds` in base `b`, read after `v`. -/
def value (b : ℕ) : List ℕ → ℕ → ℕ
  | [], v => v
  | d :: ds, v => value b ds (v * b + d)

@[simp] theorem value_nil (b v : ℕ) : value b [] v = v :=
  rfl

@[simp] theorem value_cons (b d : ℕ) (ds : List ℕ) (v : ℕ) :
    value b (d :: ds) v = value b ds (v * b + d) :=
  rfl

/-- In positional notation : the number so far, shifted, and the number of the digits. -/
theorem value_eq_ofDigits (b : ℕ) : ∀ (ds : List ℕ) (v : ℕ),
    value b ds v = v * b ^ ds.length + Nat.ofDigits b ds.reverse
  | [], v => by simp
  | d :: ds, v => by
    rw [value_cons, value_eq_ofDigits b ds, List.reverse_cons, Nat.ofDigits_append,
      Nat.ofDigits_singleton, List.length_reverse, List.length_cons]
    ring

/-- Reading more digits does not make the number smaller. -/
theorem le_value {b : ℕ} (hb : 0 < b) : ∀ (ds : List ℕ) (v : ℕ), v ≤ value b ds v
  | [], v => Nat.le_refl v
  | d :: ds, v => by
    have hscale : v * 1 ≤ v * b := Nat.mul_le_mul_left v hb
    have hrest := le_value hb ds (v * b + d)
    rw [value_cons]
    omega

/-- The guard before a digit : the number with the digit is past the bound. -/
theorem guard_iff {b d m v : ℕ} (hb : 0 < b) (hd : d ≤ m) :
    v > (m - d) / b ↔ v * b + d > m := by
  rw [gt_iff_lt, Nat.div_lt_iff_lt_mul hb]
  omega

end Numeral
