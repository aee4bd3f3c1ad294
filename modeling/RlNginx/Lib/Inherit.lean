import Mathlib.Data.List.Basic

/-!
# Values inherited along parents

Nodes are numbered so that a parent comes before its children; a node that is not after
its parent is a root. `lineage parent k` lists `k` and its ancestors, the nearest first,
and `nearest parent decl k` is what the nearest of them declares.

A table in which every node takes its own declaration, or else the value of its parent, is
`nearest` throughout (`eq_nearest`) : merging pairwise from the top down finds the nearest
declaration at any depth.
-/

namespace Inherit

variable {α : Type*}

/-- A node and its ancestors, the nearest first. -/
def lineage (parent : ℕ → ℕ) (k : ℕ) : List ℕ :=
  k :: if _h : parent k < k then lineage parent (parent k) else []
termination_by k

/-- What the nearest ancestor or self that declares something declares. -/
def nearest (parent : ℕ → ℕ) (decl : ℕ → Option α) (k : ℕ) : Option α :=
  (lineage parent k).findSome? decl

variable {parent : ℕ → ℕ} {decl : ℕ → Option α} {k : ℕ}

theorem lineage_of_lt (h : parent k < k) : lineage parent k = k :: lineage parent (parent k) := by
  rw [lineage, dif_pos h]

theorem lineage_of_root (h : ¬parent k < k) : lineage parent k = [k] := by
  rw [lineage, dif_neg h]

/-- Under a parent : the own declaration, or else what the parent has. -/
theorem nearest_of_lt (h : parent k < k) :
    nearest parent decl k = (decl k).or (nearest parent decl (parent k)) := by
  rw [nearest, lineage_of_lt h, List.findSome?_cons]
  rcases decl k with _ | a
  · rfl
  · rfl

theorem nearest_of_root (h : ¬parent k < k) : nearest parent decl k = decl k := by
  rw [nearest, lineage_of_root h, List.findSome?_cons]
  rcases decl k with _ | a
  · rfl
  · rfl

/-- A table that takes the own declaration or else the parent's value holds the nearest
declarations. -/
theorem eq_nearest {n : ℕ} {value : ℕ → Option α}
    (hroot : ∀ k < n, ¬parent k < k → value k = decl k)
    (hchild : ∀ k < n, parent k < k → value k = (decl k).or (value (parent k))) :
    ∀ k < n, value k = nearest parent decl k := by
  intro k
  induction k using Nat.strongRecOn with
  | _ k ih =>
    intro hk
    by_cases hlt : parent k < k
    · rw [hchild k hk hlt, nearest_of_lt hlt, ih (parent k) hlt (by omega)]
    · rw [hroot k hk hlt, nearest_of_root hlt]

end Inherit
