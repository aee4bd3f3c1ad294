import Mathlib.Data.List.Basic
import Mathlib.Data.List.Induction
import Mathlib.Data.List.Nodup
import Mathlib.Data.List.Perm.Basic
import Mathlib.Logic.Function.Basic

/-!
# Allocations and releases

A `Ledger` is an allocator seen by the program that uses it. Its calls are numbered, `grants`
says which of them get a block, and a block has the number of its call. A release of a block
that is not there, or a write to one, is a fault.

`Accounted L` : every block that was handed out is there, or was released, and none was released
twice. `stack L bs` are calls one after the other, with what is there of the block of each.

`Grown L L' ps` : from `L` to `L'` exactly the blocks `ps` were allocated, and all of them are
still there. `Restored L L' ps` : exactly the blocks `ps` were allocated, and each was released
once. A program that allocates some blocks and releases the same blocks in any order goes from
the first to the second (`Grown.freeAll`).
-/

/-- An allocator : which calls it grants, the number of calls, the content of the blocks that are
there, the releases, and the faults. -/
structure Ledger (β : Type*) where
  grants : ℕ → Bool
  calls : ℕ
  block : ℕ → Option β
  freed : List ℕ
  faults : ℕ
  fresh : ∀ p, calls ≤ p → block p = none

namespace Ledger

variable {β : Type*} {L L' : Ledger β} {p : ℕ} {x y : β} {ps qs : List ℕ}

theorem lt_calls (h : L.block p = some x) : p < L.calls := by
  by_contra hle
  rw [L.fresh p (by omega)] at h
  exact absurd h (by simp)

/-! ## Operations -/

/-- A call that gets a block with content `x`. -/
def grant (L : Ledger β) (x : β) : Ledger β where
  grants := L.grants
  calls := L.calls + 1
  block := Function.update L.block L.calls (some x)
  freed := L.freed
  faults := L.faults
  fresh := fun p hp => by
    rw [Function.update_of_ne (by omega)]
    exact L.fresh p (by omega)

/-- A call that gets nothing. -/
def refuse (L : Ledger β) : Ledger β where
  grants := L.grants
  calls := L.calls + 1
  block := L.block
  freed := L.freed
  faults := L.faults
  fresh := fun p hp => L.fresh p (by omega)

/-- A call of the allocator. -/
def alloc (L : Ledger β) (x : β) : Option ℕ × Ledger β :=
  if L.grants L.calls then (some L.calls, L.grant x) else (none, L.refuse)

/-- A use of a block that is not there. -/
def fault (L : Ledger β) : Ledger β :=
  { L with faults := L.faults + 1 }

/-- A block of an earlier call gets new content, or goes. -/
def put (L : Ledger β) (p : ℕ) (b : Option β) : Ledger β where
  grants := L.grants
  calls := L.calls
  block := fun n => if n = p ∧ p < L.calls then b else L.block n
  freed := L.freed
  faults := L.faults
  fresh := fun n hn => by
    rw [if_neg (by omega)]
    exact L.fresh n hn

/-- A write, which the content it finds may not admit. -/
def write (L : Ledger β) (p : ℕ) (f : β → Option β) : Ledger β :=
  match (L.block p).bind f with
  | none => L.fault
  | some y => L.put p (some y)

/-- A release. -/
def free (L : Ledger β) (p : ℕ) : Ledger β :=
  match L.block p with
  | none => L.fault
  | some _ => { L.put p none with freed := L.freed ++ [p] }

/-- A release of what a call returned, if that is a block. -/
def release (L : Ledger β) : Option ℕ → Ledger β
  | none => L
  | some p => L.free p

/-- Releases, one after the other. -/
def freeAll (L : Ledger β) (ps : List ℕ) : Ledger β :=
  ps.foldl free L

/-! ## What an operation changes -/

theorem alloc_of_grants (h : L.grants L.calls = true) : L.alloc x = (some L.calls, L.grant x) :=
  if_pos h

theorem alloc_of_not_grants (h : L.grants L.calls = false) : L.alloc x = (none, L.refuse) :=
  if_neg (by simp [h])

theorem alloc_isNone (L : Ledger β) (x : β) : (L.alloc x).1.isNone = !L.grants L.calls := by
  unfold alloc
  cases L.grants L.calls <;> rfl

/-- Every call counts, whatever becomes of it. -/
theorem alloc_calls (L : Ledger β) (x : β) : (L.alloc x).2.calls = L.calls + 1 := by
  unfold alloc
  cases L.grants L.calls <;> rfl

theorem alloc_grants (L : Ledger β) (x : β) : (L.alloc x).2.grants = L.grants := by
  unfold alloc
  cases L.grants L.calls <;> rfl

/-- A new block. -/
@[simp] theorem grant_block_self (L : Ledger β) (x : β) : (L.grant x).block L.calls = some x := by
  simp [grant]

/-- The other blocks. -/
theorem grant_block_of_ne (h : p ≠ L.calls) : (L.grant x).block p = L.block p := by
  simp [grant, h]

@[simp] theorem grant_calls (L : Ledger β) (x : β) : (L.grant x).calls = L.calls + 1 := rfl

@[simp] theorem grant_grants (L : Ledger β) (x : β) : (L.grant x).grants = L.grants := rfl

theorem put_block_self {b : Option β} (h : L.block p = some x) : (L.put p b).block p = b :=
  if_pos ⟨rfl, lt_calls h⟩

theorem put_block_of_ne {n : ℕ} {b : Option β} (h : n ≠ p) :
    (L.put p b).block n = L.block n :=
  if_neg fun hn => h hn.1

/-- A write that is admitted. -/
theorem write_eq {f : β → Option β} (h : L.block p = some x) (hf : f x = some y) :
    L.write p f = L.put p (some y) := by
  rw [write, h, Option.bind_some, hf]

/-- A release of a block that is there. -/
theorem free_eq (h : L.block p = some x) :
    L.free p = { L.put p none with freed := L.freed ++ [p] } := by
  rw [free, h]

/-- A write makes no call. -/
@[simp] theorem write_calls (L : Ledger β) (p : ℕ) (f : β → Option β) :
    (L.write p f).calls = L.calls := by
  unfold write
  split <;> rfl

@[simp] theorem write_grants (L : Ledger β) (p : ℕ) (f : β → Option β) :
    (L.write p f).grants = L.grants := by
  unfold write
  split <;> rfl

/-- The releases of blocks that are there, each named once. -/
theorem freeAll_eq : ∀ {ps : List ℕ} {L : Ledger β}, ps.Nodup →
    (∀ p ∈ ps, (L.block p).isSome = true) →
    (∀ n, (L.freeAll ps).block n = if n ∈ ps then none else L.block n) ∧
    (L.freeAll ps).grants = L.grants ∧ (L.freeAll ps).calls = L.calls ∧
    (L.freeAll ps).freed = L.freed ++ ps ∧ (L.freeAll ps).faults = L.faults
  | [], L, _, _ => by simp [freeAll]
  | p :: ps, L, hnodup, hlive => by
    obtain ⟨hp, hps⟩ := List.nodup_cons.mp hnodup
    obtain ⟨x, hx⟩ := Option.isSome_iff_exists.mp (hlive p List.mem_cons_self)
    have hrest : ∀ q ∈ ps, ((L.free p).block q).isSome = true := by
      intro q hq
      have hne : q ≠ p := fun h => hp (h ▸ hq)
      rw [free_eq hx]
      change ((L.put p none).block q).isSome = true
      rw [put_block_of_ne hne]
      exact hlive q (List.mem_cons_of_mem _ hq)
    obtain ⟨hblock, hgrants, hcalls, hfreed, hfaults⟩ := freeAll_eq hps hrest
    have hstep : L.freeAll (p :: ps) = (L.free p).freeAll ps := rfl
    rw [hstep, hgrants, hcalls, hfreed, hfaults, free_eq hx]
    refine ⟨fun n => ?_, rfl, rfl, by simp, rfl⟩
    rw [free_eq hx] at hblock
    rw [hblock n]
    change (if n ∈ ps then none else (L.put p none).block n) = _
    by_cases hn : n = p
    · subst hn
      rw [if_neg hp, put_block_self hx, if_pos List.mem_cons_self]
    · rw [put_block_of_ne hn]
      simp [hn]

/-! ## Balances -/

/-- From `L` to `L'`, the blocks `ps` were allocated and are there; nothing was released, and
the other blocks are as they were. -/
structure Grown (L L' : Ledger β) (ps : List ℕ) : Prop where
  grants : L'.grants = L.grants
  calls : L.calls ≤ L'.calls
  nodup : ps.Nodup
  made : ∀ p, p ∈ ps ↔ L.calls ≤ p ∧ p < L'.calls ∧ L.grants p = true
  live : ∀ p ∈ ps, (L'.block p).isSome = true
  frame : ∀ p, p ∉ ps → L'.block p = L.block p
  freed : L'.freed = L.freed
  faults : L'.faults = L.faults

/-- From `L` to `L'`, the blocks `ps` were allocated, each was released once, and the other blocks
are as they were. -/
structure Restored (L L' : Ledger β) (ps : List ℕ) : Prop where
  grants : L'.grants = L.grants
  calls : L.calls ≤ L'.calls
  nodup : ps.Nodup
  made : ∀ p, p ∈ ps ↔ L.calls ≤ p ∧ p < L'.calls ∧ L.grants p = true
  block : L'.block = L.block
  freed : L'.freed = L.freed ++ ps
  faults : L'.faults = L.faults

theorem Grown.refl (L : Ledger β) : Grown L L [] where
  grants := rfl
  calls := Nat.le_refl _
  nodup := List.nodup_nil
  made := fun p => by
    simp only [List.not_mem_nil, false_iff]
    omega
  live := by simp
  frame := fun _ _ => rfl
  freed := rfl
  faults := rfl

/-- A granted call adds its block. -/
theorem Grown.grant (h : Grown L L' ps) (hgrants : L'.grants L'.calls = true) (x : β) :
    Grown L (L'.grant x) (ps ++ [L'.calls]) where
  grants := h.grants
  calls := Nat.le_succ_of_le h.calls
  nodup := by
    have hnew : L'.calls ∉ ps := fun hmem => by
      obtain ⟨-, hlt, -⟩ := (h.made _).mp hmem
      omega
    rw [← List.concat_eq_append]
    exact h.nodup.concat hnew
  made := by
    intro p
    rw [List.mem_append, List.mem_singleton, h.made p]
    change _ ↔ _ ∧ p < L'.calls + 1 ∧ _
    constructor
    · rintro (⟨hle, hlt, hp⟩ | rfl)
      · exact ⟨hle, by omega, hp⟩
      · exact ⟨h.calls, by omega, h.grants ▸ hgrants⟩
    · rintro ⟨hle, hlt, hp⟩
      rcases Nat.lt_succ_iff_lt_or_eq.mp hlt with hlt | rfl
      · exact .inl ⟨hle, hlt, hp⟩
      · exact .inr rfl
  live := by
    intro p hp
    rcases List.mem_append.mp hp with hp | hp
    · obtain ⟨-, hlt, -⟩ := (h.made p).mp hp
      rw [grant_block_of_ne (by omega)]
      exact h.live p hp
    · rw [List.mem_singleton.mp hp, grant_block_self]
      rfl
  frame := by
    intro p hp
    rw [List.mem_append, List.mem_singleton, not_or] at hp
    rw [grant_block_of_ne hp.2]
    exact h.frame p hp.1
  freed := h.freed
  faults := h.faults

/-- A refused call adds nothing. -/
theorem Grown.refuse (h : Grown L L' ps) (hgrants : L'.grants L'.calls = false) :
    Grown L L'.refuse ps where
  grants := h.grants
  calls := Nat.le_succ_of_le h.calls
  nodup := h.nodup
  made := by
    intro p
    rw [h.made p]
    change _ ↔ _ ∧ p < L'.calls + 1 ∧ _
    constructor
    · rintro ⟨hle, hlt, hp⟩
      exact ⟨hle, by omega, hp⟩
    · rintro ⟨hle, hlt, hp⟩
      rcases Nat.lt_succ_iff_lt_or_eq.mp hlt with hlt | rfl
      · exact ⟨hle, hlt, hp⟩
      · rw [h.grants, hp] at hgrants
        exact absurd hgrants (by decide)
  live := h.live
  frame := h.frame
  freed := h.freed
  faults := h.faults

/-- A write to one of the new blocks. -/
theorem Grown.put (h : Grown L L' ps) (hp : p ∈ ps) (y : β) : Grown L (L'.put p (some y)) ps where
  grants := h.grants
  calls := h.calls
  nodup := h.nodup
  made := h.made
  live := by
    intro q hq
    by_cases hqp : q = p
    · obtain ⟨x, hx⟩ := Option.isSome_iff_exists.mp (h.live p hp)
      rw [hqp, put_block_self hx]
      rfl
    · rw [put_block_of_ne hqp]
      exact h.live q hq
  frame := by
    intro q hq
    have hne : q ≠ p := fun heq => hq (heq ▸ hp)
    rw [put_block_of_ne hne]
    exact h.frame q hq
  freed := h.freed
  faults := h.faults

/-- Releasing what was allocated, in any order, restores what was there. -/
theorem Grown.freeAll (h : Grown L L' ps) (hperm : qs.Perm ps) :
    Restored L (L'.freeAll qs) qs := by
  have hmem : ∀ p, p ∈ qs ↔ p ∈ ps := fun p => hperm.mem_iff
  obtain ⟨hblock, hgrants, hcalls, hfreed, hfaults⟩ := freeAll_eq (hperm.nodup_iff.mpr h.nodup)
    fun p hp => h.live p ((hmem p).mp hp)
  refine ⟨hgrants.trans h.grants, hcalls.symm ▸ h.calls, hperm.nodup_iff.mpr h.nodup,
    fun p => ?_, ?_, ?_, hfaults.trans h.faults⟩
  · rw [hmem, hcalls]
    exact h.made p
  · funext n
    rw [hblock n]
    split_ifs with hn
    · obtain ⟨hle, -⟩ := (h.made n).mp ((hmem n).mp hn)
      exact (L.fresh n hle).symm
    · exact h.frame n fun hps => hn ((hmem n).mpr hps)
  · rw [hfreed, h.freed]

/-- Nothing happened. -/
theorem Restored.refl (L : Ledger β) : Restored L L [] :=
  (Grown.refl L).freeAll (.refl [])

/-- A refused call leaves nothing to release. -/
theorem Restored.refuse (h : L.grants L.calls = false) : Restored L L.refuse [] :=
  ((Grown.refl L).refuse h).freeAll (.refl [])

/-- One balanced part after another. -/
theorem Restored.trans {L'' : Ledger β} (h : Restored L L' ps) (h' : Restored L' L'' qs) :
    Restored L L'' (ps ++ qs) := by
  have hcalls := h.calls
  have hcalls' := h'.calls
  refine ⟨h'.grants.trans h.grants, by omega, ?_, fun p => ?_, h'.block.trans h.block, ?_,
    h'.faults.trans h.faults⟩
  · refine h.nodup.append h'.nodup fun p hp hq => ?_
    obtain ⟨-, hlt, -⟩ := (h.made p).mp hp
    obtain ⟨hle, -⟩ := (h'.made p).mp hq
    omega
  · rw [List.mem_append, h.made, h'.made, h.grants]
    constructor
    · rintro (⟨hle, hlt, hp⟩ | ⟨hle, hlt, hp⟩)
      · exact ⟨hle, by omega, hp⟩
      · exact ⟨by omega, hlt, hp⟩
    · rintro ⟨hle, hlt, hp⟩
      rcases Nat.lt_or_ge p L'.calls with hmid | hmid
      · exact .inl ⟨hle, hmid, hp⟩
      · exact .inr ⟨hmid, hlt, hp⟩
  · rw [h'.freed, h.freed, List.append_assoc]

/-- A block around a balanced part, released behind it. -/
theorem Restored.around (hgrants : L.grants L.calls = true) (h : Restored (L.grant x) L' ps) :
    Restored L (L'.free L.calls) (ps ++ [L.calls]) := by
  have hx : L'.block L.calls = some x := by rw [h.block, grant_block_self]
  have hlt := lt_calls hx
  have hmade : ∀ p, p ∈ ps ↔ L.calls + 1 ≤ p ∧ p < L'.calls ∧ L.grants p = true := h.made
  have hnew : L.calls ∉ ps := fun hmem => by
    obtain ⟨hle, -⟩ := (hmade _).mp hmem
    omega
  rw [free_eq hx]
  refine ⟨h.grants, Nat.le_of_lt hlt, ?_, fun p => ?_, ?_, ?_, h.faults⟩
  · rw [← List.concat_eq_append]
    exact h.nodup.concat hnew
  · rw [List.mem_append, List.mem_singleton, hmade p]
    change _ ↔ _ ∧ p < L'.calls ∧ _
    constructor
    · rintro (⟨hle, hlt, hp⟩ | rfl)
      · exact ⟨by omega, hlt, hp⟩
      · exact ⟨Nat.le_refl _, hlt, hgrants⟩
    · rintro ⟨hle, hlt, hp⟩
      rcases Nat.eq_or_lt_of_le hle with heq | hlt'
      · exact .inr heq.symm
      · exact .inl ⟨hlt', hlt, hp⟩
  · funext n
    change (L'.put L.calls none).block n = L.block n
    by_cases hn : n = L.calls
    · rw [hn, put_block_self hx, L.fresh _ (Nat.le_refl _)]
    · rw [put_block_of_ne hn, h.block, grant_block_of_ne hn]
  · change L'.freed ++ [L.calls] = _
    rw [h.freed, List.append_assoc]
    rfl

/-- A call and the release of what it returned, with a balanced part in between. -/
theorem Restored.alloc_release (h : Restored (L.alloc x).2 L' ps) :
    ∃ qs, Restored L (L'.release (L.alloc x).1) qs := by
  cases hgrants : L.grants L.calls with
  | false =>
    rw [alloc_of_not_grants hgrants] at h ⊢
    exact ⟨_, (Restored.refuse hgrants).trans h⟩
  | true =>
    rw [alloc_of_grants hgrants] at h ⊢
    exact ⟨_, h.around hgrants⟩

/-! ## Consecutive calls -/

theorem eq_of_fields (hgrants : L'.grants = L.grants) (hcalls : L'.calls = L.calls)
    (hblock : L'.block = L.block) (hfreed : L'.freed = L.freed) (hfaults : L'.faults = L.faults) :
    L' = L := by
  obtain ⟨grants, calls, block, freed, faults, fresh⟩ := L
  obtain ⟨grants', calls', block', freed', faults', fresh'⟩ := L'
  subst hgrants hcalls hblock hfreed hfaults
  rfl

/-- A call, for a block with this content or refused. -/
def call (L : Ledger β) : Option β → Ledger β
  | none => L.refuse
  | some x => L.grant x

theorem call_block_self (L : Ledger β) (b : Option β) : (L.call b).block L.calls = b := by
  cases b with
  | none => exact L.fresh _ (Nat.le_refl _)
  | some x => exact grant_block_self L x

theorem call_block_of_ne (b : Option β) (h : p ≠ L.calls) :
    (L.call b).block p = L.block p := by
  cases b with
  | none => rfl
  | some x => exact grant_block_of_ne h

/-- Calls one after the other. What such a call got may be gone again. -/
def stack (L : Ledger β) (bs : List (Option β)) : Ledger β :=
  bs.foldl call L

/-- Releases are put on record. -/
def logged (L : Ledger β) (ps : List ℕ) : Ledger β :=
  { L with freed := L.freed ++ ps }

@[simp] theorem logged_calls (L : Ledger β) (ps : List ℕ) : (L.logged ps).calls = L.calls := rfl

theorem logged_nil (L : Ledger β) : L.logged [] = L :=
  eq_of_fields rfl rfl rfl (List.append_nil _) rfl

theorem logged_logged (L : Ledger β) (ps qs : List ℕ) :
    (L.logged ps).logged qs = L.logged (ps ++ qs) :=
  eq_of_fields rfl rfl rfl (List.append_assoc ..) rfl

section Stack

variable {bs : List (Option β)} {i : ℕ}

theorem stack_concat (L : Ledger β) (bs : List (Option β)) (b : Option β) :
    L.stack (bs ++ [b]) = (L.stack bs).call b := by
  simp [stack]

/-- What calls leave alone, beside counting. -/
theorem stack_fields (L : Ledger β) (bs : List (Option β)) :
    (L.stack bs).grants = L.grants ∧ (L.stack bs).calls = L.calls + bs.length ∧
      (L.stack bs).freed = L.freed ∧ (L.stack bs).faults = L.faults := by
  induction bs using List.reverseRecOn with
  | nil => exact ⟨rfl, rfl, rfl, rfl⟩
  | append_singleton bs b ih =>
    obtain ⟨hgrants, hcalls, hfreed, hfaults⟩ := ih
    rw [stack_concat]
    refine ⟨?_, ?_, ?_, ?_⟩
    · rw [← hgrants]
      cases b <;> rfl
    · rw [List.length_append, List.length_singleton, ← Nat.add_assoc, ← hcalls]
      cases b <;> rfl
    · rw [← hfreed]
      cases b <;> rfl
    · rw [← hfaults]
      cases b <;> rfl

@[simp] theorem stack_grants (L : Ledger β) (bs : List (Option β)) :
    (L.stack bs).grants = L.grants :=
  (stack_fields L bs).1

@[simp] theorem stack_calls (L : Ledger β) (bs : List (Option β)) :
    (L.stack bs).calls = L.calls + bs.length :=
  (stack_fields L bs).2.1

@[simp] theorem stack_freed (L : Ledger β) (bs : List (Option β)) :
    (L.stack bs).freed = L.freed :=
  (stack_fields L bs).2.2.1

@[simp] theorem stack_faults (L : Ledger β) (bs : List (Option β)) :
    (L.stack bs).faults = L.faults :=
  (stack_fields L bs).2.2.2

/-- The blocks in front of the new ones. -/
theorem stack_block_of_lt (bs : List (Option β)) (hp : p < L.calls) :
    (L.stack bs).block p = L.block p := by
  induction bs using List.reverseRecOn with
  | nil => rfl
  | append_singleton bs b ih =>
    have hcalls := stack_calls L bs
    rw [stack_concat, call_block_of_ne b (by omega), ih]

/-- The new blocks. -/
theorem stack_block (L : Ledger β) (bs : List (Option β)) (i : ℕ) :
    (L.stack bs).block (L.calls + i) = bs[i]?.join := by
  induction bs using List.reverseRecOn with
  | nil => exact L.fresh _ (Nat.le_add_right _ _)
  | append_singleton bs b ih =>
    have hcalls := stack_calls L bs
    rw [stack_concat]
    rcases Nat.lt_trichotomy i bs.length with hi | rfl | hi
    · rw [call_block_of_ne b (by omega), ih, List.getElem?_append_left hi]
    · rw [← hcalls, call_block_self, List.getElem?_concat_length]
      rfl
    · rw [call_block_of_ne b (by omega), ih, List.getElem?_eq_none (by omega),
        List.getElem?_eq_none (by rw [List.length_append, List.length_singleton]; omega)]

/-- A change of one of the new blocks. -/
theorem stack_put (hx : bs[i]? = some (some x)) (b : Option β) :
    (L.stack bs).put (L.calls + i) b = L.stack (bs.set i b) := by
  have hblock : (L.stack bs).block (L.calls + i) = some x := by rw [stack_block, hx]; rfl
  obtain ⟨hi, -⟩ := List.getElem?_eq_some_iff.mp hx
  refine eq_of_fields (by simp [put]) (by simp [put]) (funext fun p => ?_) (by simp [put])
    (by simp [put])
  by_cases hp : p = L.calls + i
  · rw [hp, put_block_self hblock, stack_block, List.getElem?_set_self hi]
    rfl
  · rw [put_block_of_ne hp]
    rcases Nat.lt_or_ge p L.calls with hlt | hle
    · rw [stack_block_of_lt _ hlt, stack_block_of_lt _ hlt]
    · obtain ⟨j, rfl⟩ := Nat.exists_eq_add_of_le hle
      rw [stack_block, stack_block, List.getElem?_set_ne (by omega)]

/-- A write to one of them. -/
theorem stack_write {f : β → Option β} (hx : bs[i]? = some (some x)) (hf : f x = some y) :
    (L.stack bs).write (L.calls + i) f = L.stack (bs.set i (some y)) := by
  have hblock : (L.stack bs).block (L.calls + i) = some x := by rw [stack_block, hx]; rfl
  rw [write_eq hblock hf, stack_put hx]

/-- A release of one of them. -/
theorem stack_free (hx : bs[i]? = some (some x)) :
    (L.stack bs).free (L.calls + i) = (L.logged [L.calls + i]).stack (bs.set i none) := by
  have hblock : (L.stack bs).block (L.calls + i) = some x := by rw [stack_block, hx]; rfl
  have hput := stack_put (L := L) hx none
  rw [free_eq hblock, hput, stack_freed]
  refine eq_of_fields (by simp [logged]) (by simp) (funext fun p => ?_) (by simp [logged])
    (by simp [logged])
  rcases Nat.lt_or_ge p L.calls with hlt | hle
  · exact (stack_block_of_lt _ hlt).trans (stack_block_of_lt (L := L.logged _) _ hlt).symm
  · obtain ⟨j, rfl⟩ := Nat.exists_eq_add_of_le hle
    exact (stack_block L _ j).trans (stack_block (L.logged [L.calls + i]) _ j).symm

/-- A further call. -/
theorem stack_alloc (L : Ledger β) (bs : List (Option β)) (x : β) :
    (L.stack bs).alloc x =
      if L.grants (L.calls + bs.length) then
        (some (L.calls + bs.length), L.stack (bs ++ [some x]))
      else (none, L.stack (bs ++ [none])) := by
  rw [stack_concat, stack_concat, alloc, stack_grants, stack_calls]
  rfl

end Stack

/-! ## Every block accounted for -/

/-- A block that was handed out is there, or was released once. -/
structure Accounted (L : Ledger β) : Prop where
  nodup : L.freed.Nodup
  apart : ∀ p ∈ L.freed, L.block p = none
  all : ∀ p, p < L.calls ∧ L.grants p = true ↔ p ∈ L.freed ∨ (L.block p).isSome = true

namespace Accounted

theorem lt_calls (h : L.Accounted) (hp : p ∈ L.freed) : p < L.calls :=
  ((h.all p).mpr (.inl hp)).1

theorem grant (h : L.Accounted) (hgrants : L.grants L.calls = true) (x : β) :
    (L.grant x).Accounted := by
  refine ⟨h.nodup, fun p hp => ?_, fun p => ?_⟩
  · have hlt := h.lt_calls hp
    rw [grant_block_of_ne (by omega)]
    exact h.apart p hp
  · change p < L.calls + 1 ∧ L.grants p = true ↔ p ∈ L.freed ∨ _
    by_cases hp : p = L.calls
    · subst hp
      simp [hgrants]
    · rw [grant_block_of_ne hp, ← h.all p]
      exact and_congr_left fun _ => by omega

theorem refuse (h : L.Accounted) (hgrants : L.grants L.calls = false) : L.refuse.Accounted := by
  refine ⟨h.nodup, h.apart, fun p => ?_⟩
  change p < L.calls + 1 ∧ L.grants p = true ↔ p ∈ L.freed ∨ (L.block p).isSome = true
  rw [← h.all p]
  refine and_congr_left fun hp => ?_
  have hne : p ≠ L.calls := fun heq => by
    rw [heq, hgrants] at hp
    cases hp
  omega

theorem alloc (h : L.Accounted) (x : β) : (L.alloc x).2.Accounted := by
  cases hgrants : L.grants L.calls with
  | false =>
    rw [alloc_of_not_grants hgrants]
    exact h.refuse hgrants
  | true =>
    rw [alloc_of_grants hgrants]
    exact h.grant hgrants x

theorem put (h : L.Accounted) (hx : L.block p = some x) (y : β) :
    (L.put p (some y)).Accounted := by
  refine ⟨h.nodup, fun q hq => ?_, fun q => ?_⟩
  · have hne : q ≠ p := fun heq => by
      rw [← heq, h.apart q hq] at hx
      cases hx
    rw [put_block_of_ne hne]
    exact h.apart q hq
  · refine (h.all q).trans ?_
    by_cases hq : q = p
    · rw [hq, put_block_self hx, hx]
      rfl
    · rw [put_block_of_ne hq]
      rfl

theorem write (h : L.Accounted) (p : ℕ) (f : β → Option β) : (L.write p f).Accounted := by
  unfold Ledger.write
  split
  · exact ⟨h.nodup, h.apart, h.all⟩
  · next y hy =>
    obtain ⟨x, hx, -⟩ := Option.bind_eq_some_iff.mp hy
    exact h.put hx y

theorem free (h : L.Accounted) (p : ℕ) : (L.free p).Accounted := by
  cases hx : L.block p with
  | none =>
    have hfault : L.free p = L.fault := by rw [Ledger.free, hx]
    rw [hfault]
    exact ⟨h.nodup, h.apart, h.all⟩
  | some x =>
    rw [free_eq hx]
    have hnew : p ∉ L.freed := fun hp => by
      rw [h.apart p hp] at hx
      cases hx
    refine ⟨?_, fun q hq => ?_, fun q => ?_⟩
    · change (L.freed ++ [p]).Nodup
      rw [← List.concat_eq_append]
      exact h.nodup.concat hnew
    · change (L.put p none).block q = none
      by_cases hqp : q = p
      · rw [hqp, put_block_self hx]
      · rw [put_block_of_ne hqp]
        exact h.apart q (by simpa [hqp] using hq)
    · change q < L.calls ∧ L.grants q = true ↔
        q ∈ L.freed ++ [p] ∨ ((L.put p none).block q).isSome = true
      rw [h.all q, List.mem_append, List.mem_singleton]
      by_cases hqp : q = p
      · rw [hqp, put_block_self hx, hx]
        simp
      · rw [put_block_of_ne hqp]
        simp [hqp]

end Accounted

end Ledger
