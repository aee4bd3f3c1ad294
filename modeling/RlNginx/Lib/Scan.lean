import Mathlib.Data.List.TakeWhile

/-!
# The longest run of accepted symbols

`Scan p s run rest` : the text `s` begins with the run `run` of symbols that `p` accepts, and
`rest` is what follows, from the first symbol that `p` does not accept. A loop that advances a
pointer while a test holds computes it (`scan_takeWhile`), and nothing else does (`run_eq`,
`rest_eq`).
-/

variable {α : Type*} {p : α → Bool} {s run rest : List α}

/-- `run` is the longest run of accepted symbols `s` begins with, and `rest` what follows. -/
structure Scan (p : α → Bool) (s run rest : List α) : Prop where
  append : s = run ++ rest
  accepted : ∀ x ∈ run, p x = true
  stopped : ∀ x ∈ rest.head?, p x = false

namespace Scan

/-- Nothing more is accepted where the run ended. -/
theorem dropWhile_rest (h : Scan p s run rest) : rest.dropWhile p = rest := by
  rw [List.dropWhile_eq_self_iff]
  intro hlen hp
  have hhead : rest[0] ∈ rest.head? := by
    rw [Option.mem_def, List.head?_eq_getElem?, List.getElem?_eq_getElem hlen]
  rw [h.stopped _ hhead] at hp
  exact absurd hp (by decide)

theorem rest_eq (h : Scan p s run rest) : s.dropWhile p = rest := by
  rw [h.append, List.dropWhile_append_of_pos h.accepted, h.dropWhile_rest]

theorem run_eq (h : Scan p s run rest) : s.takeWhile p = run := by
  have happend : s.takeWhile p ++ rest = run ++ rest := by
    rw [← h.append, ← h.rest_eq, List.takeWhile_append_dropWhile]
  exact List.append_cancel_right happend

end Scan

/-- The loop computes the run. -/
theorem scan_takeWhile (p : α → Bool) (s : List α) : Scan p s (s.takeWhile p) (s.dropWhile p) where
  append := List.takeWhile_append_dropWhile.symm
  accepted := fun _ hx => List.mem_takeWhile_imp hx
  stopped := by
    intro x hx
    have hstop := List.head?_dropWhile_not p s
    rw [Option.mem_def] at hx
    rw [hx] at hstop
    exact hstop
