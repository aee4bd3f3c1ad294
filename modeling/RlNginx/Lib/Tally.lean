import Mathlib.Algebra.BigOperators.Group.List.Basic
import Mathlib.Algebra.Order.BigOperators.Group.List
import Mathlib.Algebra.Order.Ring.Nat

/-!
# Tallies over a table of records

A shared counter that every record of a table contributes to, such as a reference
count, is the sum of the contributions. Replacing one record moves the sum by
the difference of its contributions (`tally_set`), so an operation on one record
keeps the counter equal to the sum as soon as it moves the counter by as much.
-/

namespace Tally

variable {α : Type*}

/-- Sum of the contributions `f` over the table. -/
def tally (f : α → ℕ) (l : List α) : ℕ :=
  (l.map f).sum

@[simp] theorem tally_nil (f : α → ℕ) : tally f [] = 0 :=
  List.sum_nil

@[simp] theorem tally_cons (f : α → ℕ) (a : α) (l : List α) :
    tally f (a :: l) = f a + tally f l :=
  List.sum_cons

@[simp] theorem tally_append (f : α → ℕ) (l m : List α) :
    tally f (l ++ m) = tally f l + tally f m := by
  rw [tally, List.map_append, List.sum_append, tally, tally]

/-- Replacing a record moves the tally by the difference of the contributions. -/
theorem tally_set (f : α → ℕ) {a : α} (b : α) {l : List α} {i : ℕ} (h : l[i]? = some a) :
    tally f (l.set i b) + f a = tally f l + f b := by
  obtain ⟨hlt, ha⟩ := List.getElem?_eq_some_iff.mp h
  have hsplit : tally f l = ((l.map f).take i).sum + (f a + ((l.map f).drop (i + 1)).sum) := by
    rw [tally, ← List.sum_take_add_sum_drop (l.map f) i,
      List.drop_eq_getElem_cons (by simpa using hlt), List.sum_cons, List.getElem_map, ha]
  rw [hsplit, tally, List.map_set, List.sum_set, if_pos (by simpa using hlt)]
  omega

/-- A record contributes no more than the whole table. -/
theorem le_tally (f : α → ℕ) {a : α} {l : List α} {i : ℕ} (h : l[i]? = some a) : f a ≤ tally f l :=
  List.le_sum_of_mem (List.mem_map_of_mem (List.mem_of_getElem? h))

/-- A tally of flags counts the records whose flag is set. -/
theorem tally_toNat (p : α → Bool) : ∀ l : List α, tally (fun a => (p a).toNat) l = l.countP p
  | [] => rfl
  | x :: l => by
    rw [tally_cons, tally_toNat p l, List.countP_cons]
    cases p x <;> simp [Nat.add_comm]

/-- The tally of a table of tables is the tally of their records together. -/
theorem tally_flatMap {β : Type*} (f : β → ℕ) (g : α → List β) (l : List α) :
    tally f (l.flatMap g) = tally (fun a => tally f (g a)) l := by
  rw [tally, List.map_flatMap, List.flatMap_def, List.sum_flatten, List.map_map]
  rfl

/-- A positive tally has a record that contributes. -/
theorem exists_of_tally_pos (f : α → ℕ) {l : List α} (h : 0 < tally f l) :
    ∃ (i : ℕ) (a : α), l[i]? = some a ∧ 0 < f a := by
  obtain ⟨n, hn, hpos⟩ := List.sum_pos_iff_exists_pos_nat.mp h
  obtain ⟨a, ha, rfl⟩ := List.mem_map.mp hn
  obtain ⟨i, hi⟩ := List.mem_iff_getElem?.mp ha
  exact ⟨i, a, hi, hpos⟩

end Tally
