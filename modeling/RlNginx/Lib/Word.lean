import Mathlib.Data.Int.ModEq
import Mathlib.Tactic.Ring

/-!
# Fixed-width arithmetic with a record of its operations

`Logged α` is a computation that also lists the fixed-width operations it made, each
with its width and its result in unbounded integers. `arith w x` is one operation : it
yields `x` modulo `2 ^ w` and records `x`. An operation that `Fits` yields its exact
result (`arith_val_of_fits`), so a computation whose record fits throughout computes
what its text says in unbounded integers.
-/

namespace Word

/-- One fixed-width operation : its width and its exact result. -/
structure Op where
  width : ℕ
  exact : ℤ
  deriving DecidableEq, Repr

/-- The exact result is representable : the operation does not wrap. -/
def Op.Fits (o : Op) : Prop :=
  0 ≤ o.exact ∧ o.exact < 2 ^ o.width

instance (o : Op) : Decidable o.Fits :=
  inferInstanceAs (Decidable (_ ∧ _))

/-- A value with the operations made on the way to it. -/
structure Logged (α : Type) where
  val : α
  ops : List Op

namespace Logged

variable {α β : Type}

instance : Monad Logged where
  pure a := ⟨a, []⟩
  bind x f := ⟨(f x.val).val, x.ops ++ (f x.val).ops⟩

@[simp] theorem pure_val (a : α) : (pure a : Logged α).val = a :=
  rfl

@[simp] theorem pure_ops (a : α) : (pure a : Logged α).ops = [] :=
  rfl

@[simp] theorem bind_val (x : Logged α) (f : α → Logged β) : (x >>= f).val = (f x.val).val :=
  rfl

@[simp] theorem bind_ops (x : Logged α) (f : α → Logged β) :
    (x >>= f).ops = x.ops ++ (f x.val).ops :=
  rfl

/-- Every operation of the computation satisfies `p`. -/
def All (p : Op → Prop) (x : Logged α) : Prop :=
  ∀ o ∈ x.ops, p o

theorem all_pure (p : Op → Prop) (a : α) : (pure a : Logged α).All p := by
  simp [All]

theorem all_bind {p : Op → Prop} {x : Logged α} {f : α → Logged β} (hx : x.All p)
    (hf : (f x.val).All p) : (x >>= f).All p := by
  intro o ho
  rcases List.mem_append.mp ho with h | h
  · exact hx o h
  · exact hf o h

end Logged

/-- One operation of width `w` whose exact result is `x`. -/
def arith (w : ℕ) (x : ℤ) : Logged ℕ :=
  ⟨(x % 2 ^ w).toNat, [⟨w, x⟩]⟩

/-- An operation that fits yields its exact result. -/
theorem arith_val_of_fits {w n : ℕ} (h : n < 2 ^ w) : (arith w (n : ℤ)).val = n := by
  have h' : ((n : ℤ) % 2 ^ w) = n := Int.emod_eq_of_lt (by omega) (by exact_mod_cast h)
  simp [arith, h']

theorem arith_all {p : Op → Prop} {w : ℕ} {x : ℤ} (h : p ⟨w, x⟩) : (arith w x).All p := by
  intro o ho
  obtain rfl := List.mem_singleton.mp ho
  exact h

theorem fits_of_lt {w n : ℕ} (h : n < 2 ^ w) : (⟨w, (n : ℤ)⟩ : Op).Fits := by
  refine ⟨Int.natCast_nonneg n, ?_⟩
  show (n : ℤ) < 2 ^ w
  exact_mod_cast h

end Word
