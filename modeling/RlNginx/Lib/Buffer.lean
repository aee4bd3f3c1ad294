import Mathlib.Data.List.Basic
import Mathlib.Logic.Function.Basic

/-!
# Memory that remembers where it was written

A `Buffer` is what the cells of a memory hold, with the list of the cells that were written.
Everything that happens to it is a sequence of single writes : `put` writes one cell, and
`copy` writes a list of values to consecutive cells, as `memcpy` does.

A bound on the writes (`WrittenBelow`) is what a caller needs to know that its other data is
untouched, and `Holds` says that a range of cells carries a given list of values.
-/

/-- The cells of a memory, and which of them were written. -/
structure Buffer (α : Type*) where
  mem : ℕ → α
  writes : List ℕ

namespace Buffer

variable {α : Type*} {b b' : Buffer α} {i start cap : ℕ} {x : α} {xs : List α}

/-- One write. -/
def put (b : Buffer α) (i : ℕ) (x : α) : Buffer α :=
  ⟨Function.update b.mem i x, b.writes ++ [i]⟩

/-- Consecutive writes from cell `start` on. -/
def copy (b : Buffer α) (start : ℕ) : List α → Buffer α
  | [] => b
  | x :: xs => (b.put start x).copy (start + 1) xs

/-- The cells from `start` on carry the values `xs`. -/
def Holds (b : Buffer α) (start : ℕ) (xs : List α) : Prop :=
  ∀ j x, xs[j]? = some x → b.mem (start + j) = x

/-- From `b` to `b'`, only cells below `cap` were written, and the others are as they were. -/
structure WrittenBelow (cap : ℕ) (b b' : Buffer α) : Prop where
  writes : ∀ i ∈ b'.writes, i ∈ b.writes ∨ i < cap
  frame : ∀ i, cap ≤ i → b'.mem i = b.mem i

/-! ## What a write changes -/

@[simp] theorem put_mem_self (b : Buffer α) (i : ℕ) (x : α) : (b.put i x).mem i = x := by
  simp [put]

theorem put_mem_of_ne {k : ℕ} (h : k ≠ i) : (b.put i x).mem k = b.mem k := by
  simp [put, h]

/-- A copy leaves the cells in front of it as they were. -/
theorem copy_mem_of_lt : ∀ {xs : List α} {b : Buffer α} {start k : ℕ}, k < start →
    (b.copy start xs).mem k = b.mem k
  | [], _, _, _, _ => rfl
  | x :: xs, b, start, k, h => by
    rw [copy, copy_mem_of_lt (by omega), put_mem_of_ne (by omega)]

/-- After a copy the cells carry what was copied. -/
theorem holds_copy : ∀ (xs : List α) (b : Buffer α) (start : ℕ), (b.copy start xs).Holds start xs
  | [], _, _, j, y, h => by simp at h
  | x :: xs, b, start, 0, y, h => by
    obtain rfl : x = y := by simpa using h
    change (copy (b.put start x) (start + 1) xs).mem start = x
    rw [copy_mem_of_lt (Nat.lt_add_one start), put_mem_self]
  | x :: xs, b, start, j + 1, y, h => by
    have hj : xs[j]? = some y := by simpa using h
    rw [copy, show start + (j + 1) = start + 1 + j by omega]
    exact holds_copy xs (b.put start x) (start + 1) j y hj

/-- A write behind the values leaves them there. -/
theorem Holds.put (h : b.Holds start xs) (hi : start + xs.length ≤ i) :
    (b.put i x).Holds start xs := by
  intro j y hj
  obtain ⟨hlt, -⟩ := List.getElem?_eq_some_iff.mp hj
  rw [put_mem_of_ne (by omega)]
  exact h j y hj

/-- A value in front of the values. -/
theorem Holds.cons (h : b.Holds (start + 1) xs) (hx : b.mem start = x) :
    b.Holds start (x :: xs)
  | 0, y, hy => by
    obtain rfl : x = y := by simpa using hy
    exact hx
  | j + 1, y, hy => by
    rw [show start + (j + 1) = start + 1 + j by omega]
    exact h j y (by simpa using hy)

/-- A value behind the values. -/
theorem Holds.concat (h : b.Holds start xs) (hx : b.mem (start + xs.length) = x) :
    b.Holds start (xs ++ [x]) := by
  intro j y hj
  rcases Nat.lt_or_ge j xs.length with hlt | hge
  · rw [List.getElem?_append_left hlt] at hj
    exact h j y hj
  · rw [List.getElem?_append_right hge] at hj
    have hlen : j - xs.length = 0 := by
      obtain ⟨hlt, -⟩ := List.getElem?_eq_some_iff.mp hj
      simpa using hlt
    rw [hlen] at hj
    obtain rfl : x = y := by simpa using hj
    rw [show j = xs.length by omega]
    exact hx

/-- The values are what reading the cells one after the other gives. -/
theorem Holds.map_range (h : b.Holds 0 xs) : (List.range xs.length).map b.mem = xs := by
  refine List.ext_getElem (by simp) fun j hj hj' => ?_
  have hcell := h j xs[j] (List.getElem?_eq_getElem hj')
  rw [Nat.zero_add] at hcell
  simpa using hcell

/-! ## Bounds on the writes -/

theorem WrittenBelow.refl (cap : ℕ) (b : Buffer α) : WrittenBelow cap b b :=
  ⟨fun _ h => .inl h, fun _ _ => rfl⟩

theorem WrittenBelow.trans {b'' : Buffer α} (h : WrittenBelow cap b b')
    (h' : WrittenBelow cap b' b'') : WrittenBelow cap b b'' := by
  refine ⟨fun k hk => ?_, fun k hk => (h'.frame k hk).trans (h.frame k hk)⟩
  rcases h'.writes k hk with hk | hk
  · exact h.writes k hk
  · exact .inr hk

/-- A further write below the bound. -/
theorem WrittenBelow.put (h : WrittenBelow cap b b') (hi : i < cap) :
    WrittenBelow cap b (b'.put i x) := by
  refine ⟨fun k hk => ?_, fun k hk => ?_⟩
  · rcases List.mem_append.mp hk with hk | hk
    · exact h.writes k hk
    · rw [List.mem_singleton] at hk
      exact .inr (hk ▸ hi)
  · rw [put_mem_of_ne (by omega)]
    exact h.frame k hk

/-- A further copy below the bound. -/
theorem WrittenBelow.copy : ∀ {xs : List α} {b' : Buffer α} {start : ℕ},
    WrittenBelow cap b b' → start + xs.length ≤ cap → WrittenBelow cap b (b'.copy start xs)
  | [], _, _, h, _ => h
  | x :: xs, b', start, h, hlen => by
    rw [List.length_cons] at hlen
    have hput : WrittenBelow cap b (b'.put start x) := h.put (by omega)
    change WrittenBelow cap b ((b'.put start x).copy (start + 1) xs)
    exact hput.copy (by omega)

end Buffer
