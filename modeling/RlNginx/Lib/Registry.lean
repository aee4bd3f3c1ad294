import Mathlib.Data.List.Basic

/-!
# Append-only registries

A registry is an array that only grows at its end, searched front to back for the
first entry that matches. `find` returns the entry with its index : the index is the
entry's address, so two results point at the same entry when their indices agree.

Growing the registry never changes what an earlier search found
(`find_append_of_some`), and a search fails exactly when no entry matches
(`find_eq_none_iff`), so an entry that is pushed only after a search for its own key
failed matches none before it.
-/

namespace Registry

variable {α : Type*}

/-- An entry with its index in the registry. -/
structure Ref (α : Type*) where
  idx : ℕ
  val : α
  deriving DecidableEq, Repr

/-- First match of `p`, counting indices from `i`. -/
def findFrom (p : α → Bool) : ℕ → List α → Option (Ref α)
  | _, [] => none
  | i, a :: l => if p a then some ⟨i, a⟩ else findFrom p (i + 1) l

/-- First match of `p`. -/
def find (p : α → Bool) (l : List α) : Option (Ref α) :=
  findFrom p 0 l

theorem findFrom_append (p : α → Bool) (m : List α) :
    ∀ (i : ℕ) (l : List α), findFrom p i (l ++ m) =
      (findFrom p i l).or (findFrom p (i + l.length) m)
  | i, [] => by simp [findFrom]
  | i, a :: l => by
    have ih := findFrom_append p m (i + 1) l
    simp only [List.cons_append, findFrom, List.length_cons]
    split
    · rfl
    · rw [ih, show i + 1 + l.length = i + (l.length + 1) by omega]

/-- Growing the registry does not change what a search found. -/
theorem find_append_of_some {p : α → Bool} {l : List α} {r : Ref α} (h : find p l = some r)
    (m : List α) : find p (l ++ m) = some r := by
  unfold find at h ⊢
  rw [findFrom_append, h]
  rfl

theorem findFrom_spec {p : α → Bool} {r : Ref α} :
    ∀ {i : ℕ} {l : List α}, findFrom p i l = some r →
      i ≤ r.idx ∧ l[r.idx - i]? = some r.val ∧ p r.val = true
  | i, [], h => by simp [findFrom] at h
  | i, a :: l, h => by
    simp only [findFrom] at h
    split at h
    · obtain rfl := Option.some.inj h
      simpa using ‹p a = true›
    · obtain ⟨hle, hget, hp⟩ := findFrom_spec h
      refine ⟨by omega, ?_, hp⟩
      rw [show r.idx - i = (r.idx - (i + 1)) + 1 by omega]
      simpa using hget

/-- A search returns an entry of the registry, at its index, that matches. -/
theorem find_spec {p : α → Bool} {l : List α} {r : Ref α} (h : find p l = some r) :
    l[r.idx]? = some r.val ∧ p r.val = true := by
  obtain ⟨-, hget, hp⟩ := findFrom_spec h
  exact ⟨by simpa using hget, hp⟩

theorem findFrom_eq_none_iff {p : α → Bool} :
    ∀ {i : ℕ} {l : List α}, findFrom p i l = none ↔ ∀ a ∈ l, p a = false
  | i, [] => by simp [findFrom]
  | i, a :: l => by
    have ih := findFrom_eq_none_iff (p := p) (i := i + 1) (l := l)
    simp only [findFrom, List.forall_mem_cons]
    split
    · simp [‹p a = true›]
    · simp [Bool.eq_false_iff.mpr ‹¬p a = true›, ih]

/-- A search fails exactly when no entry matches. -/
theorem find_eq_none_iff {p : α → Bool} {l : List α} :
    find p l = none ↔ ∀ a ∈ l, p a = false :=
  findFrom_eq_none_iff

end Registry
