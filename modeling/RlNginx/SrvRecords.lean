import Mathlib.Algebra.Group.Nat.Defs
import RlNginx.Lib.Ledger
import RlNginx.Numeric
import RlNginx.Resolver

/-!
# SRV records for the client

`rn_srv_records_build` turns the SRV answer of nginx's resolver into the records the C client
reads : an array of records, an array with the target buffers, and one buffer for each target.
Each of these is an allocation of its own and may fail, and a source in the middle of the answer
may be invalid. `rn_srv_records_free` releases what there is at that point, which it finds in
the array of targets : the part that is not reached yet is zero.

The allocator is a `Ledger`, so a leak, a second release and a write outside of a block show.
`sizeof(r_srv_record_t)` is a parameter, since the header of the C client is not part of this
repository, and `size_t` has 64 bits.
-/

open Ledger

namespace RlNginx

/-- `SIZE_MAX`. -/
def sizeMax : ℕ := 2 ^ 64 - 1

/-- `rn_srv_source_t`. `target` is the memory at the pointer, which has at least `target_len`
bytes, or `none` for a null pointer. -/
structure SrvSource where
  target : Option Bytes
  targetLen : UInt64
  port : UInt16
  priority : UInt16
  weight : UInt16
  ttlMs : UInt32
  readable : ∀ bytes ∈ target, targetLen.toNat ≤ bytes.length

/-- The bytes of the target. -/
def SrvSource.bytes (s : SrvSource) : Bytes :=
  (s.target.getD []).take s.targetLen.toNat

/-- `r_srv_record_t`, with the block its target points to. -/
structure SrvRecord where
  target : Option ℕ
  port : UInt16
  priority : UInt16
  weight : UInt16
  ttlMs : UInt32
  deriving DecidableEq, Repr

/-- A record after `memset`. -/
def SrvRecord.zero : SrvRecord := ⟨none, 0, 0, 0, 0⟩

/-- What a block holds : nothing yet, the records, the target pointers, or a target. -/
inductive SrvBlock where
  | raw (size : ℕ)
  | records (rs : List SrvRecord)
  | targets (ts : List (Option ℕ))
  | text (bytes : Bytes)
  deriving DecidableEq, Repr

/-- `rn_srv_records_t`. -/
structure SrvRecords where
  records : Option ℕ
  targets : Option ℕ
  count : ℕ
  deriving DecidableEq, Repr

/-- The output after `memset`. -/
def SrvRecords.zero : SrvRecords := ⟨none, none, 0⟩

/-! ## The writes -/

/-- `memset(out->records, 0, count * sizeof(r_srv_record_t))`, with room for all records. -/
def zeroRecords (recordSize count : ℕ) : SrvBlock → Option SrvBlock
  | .raw size =>
    if count * recordSize ≤ size then some (.records (List.replicate count .zero)) else none
  | _ => none

/-- `memset(out->targets, 0, count * sizeof(char *))`, with room for all pointers. -/
def zeroTargets (count : ℕ) : SrvBlock → Option SrvBlock
  | .raw size => if count * 8 ≤ size then some (.targets (List.replicate count none)) else none
  | _ => none

/-- `out->targets[i] = t`. -/
def setTarget (i t : ℕ) : SrvBlock → Option SrvBlock
  | .targets ts => if i < ts.length then some (.targets (ts.set i (some t))) else none
  | _ => none

/-- The copy of a target and its NUL. -/
def copyTarget (bytes : Bytes) : SrvBlock → Option SrvBlock
  | .raw size => if bytes.length + 1 ≤ size then some (.text (bytes ++ [0])) else none
  | _ => none

/-- The assignments to `out->records[i]`. -/
def setRecord (i : ℕ) (r : SrvRecord) : SrvBlock → Option SrvBlock
  | .records rs => if i < rs.length then some (.records (rs.set i r)) else none
  | _ => none

/-! ## The functions -/

/-- The loop of `rn_srv_records_free` over the target buffers. -/
def freeTargets (L : Ledger SrvBlock) : List (Option ℕ) → Ledger SrvBlock
  | [] => L
  | none :: ts => freeTargets L ts
  | some t :: ts => freeTargets (L.free t) ts

/-- `rn_srv_records_free`. -/
def rnSrvRecordsFree (records : SrvRecords) (L : Ledger SrvBlock) : SrvRecords × Ledger SrvBlock :=
  let L := match records.targets with
    | none => L
    | some q =>
      match L.block q with
      | some (.targets ts) => (freeTargets L (ts.take records.count)).free q
      | _ => L.fault
  let L := match records.records with
    | none => L
    | some p => L.free p
  (.zero, L)

/-- The record of a source with its target in block `t`. -/
def recordOf (s : SrvSource) (t : ℕ) : SrvRecord :=
  ⟨some t, s.port, s.priority, s.weight, s.ttlMs⟩

/-- The loop of `rn_srv_records_build` from source `i` on, with the records in block `p` and the
target pointers in block `q`, and whether it reached the end. -/
def buildLoop (p q : ℕ) : ℕ → List SrvSource → Ledger SrvBlock → Bool × Ledger SrvBlock
  | _, [], L => (true, L)
  | i, s :: rest, L =>
    if s.target.isNone || s.targetLen == 0 || s.targetLen.toNat == sizeMax then (false, L)
    else
      match L.alloc (.raw (s.targetLen + 1).toNat) with
      | (none, L) => (false, L)
      | (some t, L) =>
        let L := L.write q (setTarget i t)
        let L := L.write t (copyTarget s.bytes)
        let L := L.write p (setRecord i (recordOf s t))
        buildLoop p q (i + 1) rest L

/-- What `rn_srv_records_build` returns and leaves. -/
structure SrvResult where
  rc : Int
  out : SrvRecords
  ledger : Ledger SrvBlock

/-- `rn_srv_records_free(out, free_fn, alloc_ctx); return -1;`. -/
def buildFailed (out : SrvRecords) (L : Ledger SrvBlock) : SrvResult :=
  let (out, L) := rnSrvRecordsFree out L
  ⟨-1, out, L⟩

/-- `rn_srv_records_build`, for a caller that passes the arrays and the functions. -/
def rnSrvRecordsBuild (recordSize : ℕ) (sources : List SrvSource) (L : Ledger SrvBlock) :
    SrvResult :=
  let count := sources.length
  if count == 0 || decide (count > sizeMax / recordSize) || decide (count > sizeMax / 8) then
    ⟨-1, .zero, L⟩
  else
    match L.alloc (.raw (count * recordSize % 2 ^ 64)) with
    | (none, L) => ⟨-1, .zero, L⟩
    | (some p, L) =>
      let L := L.write p (zeroRecords recordSize count)
      match L.alloc (.raw (count * 8 % 2 ^ 64)) with
      | (none, L) => buildFailed ⟨some p, none, 0⟩ L
      | (some q, L) =>
        let L := L.write q (zeroTargets count)
        match buildLoop p q 0 sources L with
        | (true, L) => ⟨0, ⟨some p, some q, count⟩, L⟩
        | (false, L) => buildFailed ⟨some p, some q, count⟩ L

/-! ## What the loop keeps -/

/-- A source the conversion accepts. -/
def SrvSource.Valid (s : SrvSource) : Prop :=
  s.target ≠ none ∧ s.targetLen ≠ 0 ∧ s.targetLen.toNat ≠ sizeMax

/-- The sources `done` are converted, with their targets in the blocks `ts`; the rest of both
arrays is zero. -/
structure Filled (L : Ledger SrvBlock) (count p q : ℕ) (done : List SrvSource) (ts : List ℕ)
    (L' : Ledger SrvBlock) : Prop where
  grown : Grown L L' (p :: q :: ts)
  length : ts.length = done.length
  bound : done.length ≤ count
  records : L'.block p = some (.records
    (List.zipWith recordOf done ts ++ List.replicate (count - done.length) .zero))
  targets : L'.block q = some (.targets
    (ts.map some ++ List.replicate (count - done.length) none))
  texts : ∀ (i : ℕ) (s : SrvSource) (t : ℕ), done[i]? = some s → ts[i]? = some t →
    L'.block t = some (.text (s.bytes ++ [0]))

section Loop

variable {L L' : Ledger SrvBlock} {count p q : ℕ} {done rest : List SrvSource} {ts : List ℕ}
  {s : SrvSource}

/-- The next entry of an array whose rest is zero. -/
theorem set_next {α : Type*} (xs : List α) (z y : α) {n : ℕ} (hn : 0 < n) :
    (xs ++ List.replicate n z).set xs.length y = (xs ++ [y]) ++ List.replicate (n - 1) z := by
  obtain ⟨n, rfl⟩ := Nat.exists_eq_succ_of_ne_zero (Nat.ne_of_gt hn)
  simp [List.replicate_succ]

theorem setTarget_next (ts : List ℕ) (t : ℕ) {n : ℕ} (hn : 0 < n) :
    setTarget ts.length t (.targets (ts.map some ++ List.replicate n none)) =
      some (.targets ((ts ++ [t]).map some ++ List.replicate (n - 1) none)) := by
  have hset := set_next (ts.map some) none (some t) hn
  rw [List.length_map] at hset
  rw [setTarget, if_pos (by simp; omega), hset, List.map_append]
  rfl

theorem setRecord_next (rs : List SrvRecord) (r : SrvRecord) {n : ℕ} (hn : 0 < n) :
    setRecord rs.length r (.records (rs ++ List.replicate n .zero)) =
      some (.records ((rs ++ [r]) ++ List.replicate (n - 1) .zero)) := by
  rw [setRecord, if_pos (by simp; omega), set_next rs .zero r hn]

/-- The allocation of a target has room for it and its NUL. -/
theorem SrvSource.Valid.room (h : s.Valid) : s.bytes.length + 1 ≤ (s.targetLen + 1).toNat := by
  have hlen : s.bytes.length ≤ s.targetLen.toNat := by
    rw [SrvSource.bytes, List.length_take]
    exact Nat.min_le_left _ _
  have hlt := s.targetLen.toNat_lt
  have hne : s.targetLen.toNat ≠ 2 ^ 64 - 1 := h.2.2
  rw [UInt64.toNat_add]
  change _ ≤ (s.targetLen.toNat + 1) % 2 ^ 64
  omega

/-- The guard of the loop. -/
theorem SrvSource.valid_iff : s.Valid ↔
    (s.target.isNone || s.targetLen == 0 || s.targetLen.toNat == sizeMax) = false := by
  rw [SrvSource.Valid]
  rcases s.target with _ | bytes <;> simp

/-- One round of the loop. -/
theorem Filled.next (h : Filled L count p q done ts L') (hcount : done.length < count)
    (hvalid : s.Valid) (hgrants : L'.grants L'.calls = true) :
    Filled L count p q (done ++ [s]) (ts ++ [L'.calls])
      ((((L'.grant (.raw (s.targetLen + 1).toNat)).write q (setTarget done.length L'.calls)).write
        L'.calls (copyTarget s.bytes)).write p (setRecord done.length (recordOf s L'.calls))) := by
  have hlt : ∀ b ∈ p :: q :: ts, b < L'.calls := fun b hb => ((h.grown.made b).mp hb).2.1
  have hpt := hlt p (by simp)
  have hqt := hlt q (by simp)
  obtain ⟨hp, hq, -⟩ : p ∉ q :: ts ∧ q ∉ ts ∧ ts.Nodup := by
    simpa [List.nodup_cons] using h.grown.nodup
  have hpq : p ≠ q := fun heq => hp (heq ▸ List.mem_cons_self)
  have hpts : ∀ b ∈ ts, b ≠ p ∧ b ≠ q ∧ b ≠ L'.calls := fun b hb =>
    ⟨fun heq => hp (heq ▸ List.mem_cons_of_mem _ hb), fun heq => hq (heq ▸ hb),
      Nat.ne_of_lt (hlt b (by simp [hb]))⟩
  have hleft : 0 < count - done.length := by omega
  have hgrown := h.grown.grant hgrants (.raw (s.targetLen + 1).toNat)
  -- the pointer to the new block, its text, and the record
  have htargets : (L'.grant (.raw (s.targetLen + 1).toNat)).block q = _ :=
    (grant_block_of_ne (by omega)).trans h.targets
  have hptr := setTarget_next ts L'.calls hleft
  rw [h.length] at hptr
  have htext : ((L'.grant (.raw (s.targetLen + 1).toNat)).put q (some (.targets
      ((ts ++ [L'.calls]).map some ++ List.replicate (count - done.length - 1) none)))).block
        L'.calls = _ :=
    (put_block_of_ne (by omega)).trans (grant_block_self L' _)
  have hcopy : copyTarget s.bytes (.raw (s.targetLen + 1).toNat) =
      some (.text (s.bytes ++ [0])) := if_pos hvalid.room
  have hlen : (List.zipWith recordOf done ts).length = done.length := by simp [h.length]
  have hrec := setRecord_next (List.zipWith recordOf done ts) (recordOf s L'.calls) hleft
  rw [hlen] at hrec
  have hrecords : (((L'.grant (.raw (s.targetLen + 1).toNat)).put q (some (.targets
      ((ts ++ [L'.calls]).map some ++ List.replicate (count - done.length - 1) none)))).put
        L'.calls (some (.text (s.bytes ++ [0])))).block p = _ :=
    (put_block_of_ne (by omega)).trans
      ((put_block_of_ne hpq).trans ((grant_block_of_ne (by omega)).trans h.records))
  rw [write_eq htargets hptr, write_eq htext hcopy, write_eq hrecords hrec]
  have hnext : count - (done ++ [s]).length = count - done.length - 1 := by
    rw [List.length_append, List.length_singleton]
    omega
  refine ⟨?_, by simp [h.length], by simpa using Nat.succ_le_of_lt hcount,
    ?_, ?_, ?_⟩
  · exact ((hgrown.put (by simp) _).put (by simp) _).put (by simp) _
  · rw [put_block_self hrecords, hnext, List.zipWith_append h.length.symm]
    rfl
  · rw [put_block_of_ne hpq.symm, put_block_of_ne (by omega), put_block_self htargets, hnext]
  · intro i s' t hs ht
    rcases Nat.lt_or_ge i done.length with hi | hi
    · rw [List.getElem?_append_left hi] at hs
      rw [List.getElem?_append_left (h.length ▸ hi)] at ht
      obtain ⟨htp, htq, htc⟩ := hpts t (List.mem_of_getElem? ht)
      rw [put_block_of_ne htp, put_block_of_ne htc, put_block_of_ne htq, grant_block_of_ne htc]
      exact h.texts i s' t hs ht
    · obtain rfl : i = done.length := by
        obtain ⟨hlast, -⟩ := List.getElem?_eq_some_iff.mp hs
        rw [List.length_append, List.length_singleton] at hlast
        omega
      obtain rfl : s = s' := by simpa using hs
      obtain rfl : L'.calls = t := by simpa [← h.length] using ht
      rw [put_block_of_ne (by omega), put_block_self htext]

/-- An allocation that fails leaves the arrays as they are. -/
theorem Filled.refuse (h : Filled L count p q done ts L') (hgrants : L'.grants L'.calls = false) :
    Filled L count p q done ts L'.refuse :=
  ⟨h.grown.refuse hgrants, h.length, h.bound, h.records, h.targets, h.texts⟩

/-- An invalid source stops the loop. -/
theorem buildLoop_invalid (i : ℕ) (hvalid : ¬s.Valid) :
    buildLoop p q i (s :: rest) L = (false, L) := by
  rw [SrvSource.valid_iff, Bool.not_eq_false] at hvalid
  rw [buildLoop, if_pos hvalid]

/-- So does an allocation that fails. -/
theorem buildLoop_refused (i : ℕ) (hvalid : s.Valid) (hgrants : L.grants L.calls = false) :
    buildLoop p q i (s :: rest) L = (false, L.refuse) := by
  rw [buildLoop, SrvSource.valid_iff.mp hvalid, if_neg (by decide), alloc_of_not_grants hgrants]

/-- Otherwise it goes on. -/
theorem buildLoop_granted (i : ℕ) (hvalid : s.Valid) (hgrants : L.grants L.calls = true) :
    buildLoop p q i (s :: rest) L = buildLoop p q (i + 1) rest
      ((((L.grant (.raw (s.targetLen + 1).toNat)).write q (setTarget i L.calls)).write
        L.calls (copyTarget s.bytes)).write p (setRecord i (recordOf s L.calls))) := by
  rw [buildLoop, SrvSource.valid_iff.mp hvalid, if_neg (by decide), alloc_of_grants hgrants]

/-- The loop has converted some of the sources, and all of them when it reaches the end. -/
theorem buildLoop_filled (hcount : count = done.length + rest.length)
    (h : Filled L count p q done ts L') :
    ∃ done' ts', Filled L count p q done' ts' (buildLoop p q done.length rest L').2 ∧
      ((buildLoop p q done.length rest L').1 = true → done' = done ++ rest) := by
  induction rest generalizing done ts L' with
  | nil => exact ⟨done, ts, h, fun _ => (List.append_nil done).symm⟩
  | cons s rest ih =>
    rw [List.length_cons] at hcount
    by_cases hvalid : s.Valid
    · cases hgrants : L'.grants L'.calls with
      | false =>
        rw [buildLoop_refused _ hvalid hgrants]
        exact ⟨done, ts, h.refuse hgrants, fun hend => absurd hend Bool.false_ne_true⟩
      | true =>
        have hnext := h.next (by omega) hvalid hgrants
        have hlen : (done ++ [s]).length = done.length + 1 := by simp
        obtain ⟨done', ts', hfilled, hend⟩ := ih (by omega) hnext
        rw [hlen] at hfilled hend
        rw [buildLoop_granted _ hvalid hgrants]
        exact ⟨done', ts', hfilled, fun htrue => (hend htrue).trans (List.append_assoc ..)⟩
    · rw [buildLoop_invalid _ hvalid]
      exact ⟨done, ts, h, fun hend => absurd hend Bool.false_ne_true⟩

/-- The loop reaches the end exactly when every source is valid and every allocation succeeds. -/
theorem buildLoop_true_iff : ∀ {rest : List SrvSource} {i : ℕ} {L : Ledger SrvBlock},
    (buildLoop p q i rest L).1 = true ↔
      (∀ s ∈ rest, s.Valid) ∧ ∀ k < rest.length, L.grants (L.calls + k) = true
  | [], _, _ => by simp [buildLoop]
  | s :: rest, i, L => by
    by_cases hvalid : s.Valid
    · cases hgrants : L.grants L.calls with
      | false =>
        rw [buildLoop_refused _ hvalid hgrants]
        refine iff_of_false (by simp) fun hall => ?_
        rw [← Nat.add_zero L.calls, hall.2 0 (by simp)] at hgrants
        exact absurd hgrants (by decide)
      | true =>
        rw [buildLoop_granted _ hvalid hgrants, buildLoop_true_iff, List.forall_mem_cons,
          List.length_cons, Nat.forall_lt_succ_left]
        simp [hvalid, hgrants, Nat.add_assoc, Nat.add_comm 1]
    · rw [buildLoop_invalid _ hvalid]
      exact iff_of_false (by simp) fun hall => hvalid (hall.1 s List.mem_cons_self)

/-- The target buffers are released, and the part that is zero is passed over. -/
theorem freeTargets_eq (n : ℕ) : ∀ (ts : List ℕ) (L : Ledger SrvBlock),
    freeTargets L (ts.map some ++ List.replicate n none) = L.freeAll ts
  | [], L => by
    induction n with
    | zero => rfl
    | succ n ih => exact ih
  | t :: ts, L => freeTargets_eq n ts (L.free t)

/-- A release finds every block the loop allocated. -/
theorem Filled.free_eq (h : Filled L count p q done ts L') :
    rnSrvRecordsFree ⟨some p, some q, count⟩ L' = (.zero, L'.freeAll (ts ++ [q, p])) := by
  have hall : (ts.map some ++ List.replicate (count - done.length) none).length ≤ count := by
    have hlen := h.length
    have hbound := h.bound
    rw [List.length_append, List.length_map, List.length_replicate]
    omega
  simp only [rnSrvRecordsFree, h.targets]
  rw [List.take_of_length_le hall, freeTargets_eq]
  simp [freeAll]

/-- The blocks in the order of their release. -/
theorem release_perm (p q : ℕ) (ts : List ℕ) : (ts ++ [q, p]).Perm (p :: q :: ts) := by
  have hswap : [q, p].Perm [p, q] := List.Perm.swap p q []
  exact List.perm_append_comm.trans (hswap.append_right ts)

/-- A release leaves nothing of them. -/
theorem Filled.restored (h : Filled L count p q done ts L') :
    Restored L (L'.freeAll (ts ++ [q, p])) (ts ++ [q, p]) :=
  h.grown.freeAll (release_perm p q ts)

end Loop

/-! ## The whole conversion -/

/-- The conversion succeeded : with one record for each source, in their order, and the blocks
`ps` for them. -/
structure SrvBuilt (sources : List SrvSource) (L : Ledger SrvBlock) (r : SrvResult)
    (rs : List SrvRecord) (ps : List ℕ) : Prop where
  rc : r.rc = 0
  grown : Grown L r.ledger ps
  allocations : ps.length = sources.length + 2
  count : r.out.count = sources.length
  records : ∃ p, r.out.records = some p ∧ r.ledger.block p = some (.records rs)
  length : rs.length = sources.length
  record : ∀ (i : ℕ) (s : SrvSource), sources[i]? = some s →
    ∃ t, rs[i]? = some ⟨some t, s.port, s.priority, s.weight, s.ttlMs⟩ ∧
      r.ledger.block t = some (.text (s.bytes ++ [0]))

/-- The conversion failed, and nothing is left of it. -/
structure SrvUndone (L : Ledger SrvBlock) (r : SrvResult) : Prop where
  rc : r.rc = -1
  out : r.out = .zero
  restored : ∃ ps, Restored L r.ledger ps

/-- The sizes of the arrays do not overflow. -/
def SizesFit (recordSize count : ℕ) : Prop :=
  count * recordSize ≤ sizeMax ∧ count * 8 ≤ sizeMax

section Build

variable {recordSize count p q : ℕ} {sources done : List SrvSource} {L L' : Ledger SrvBlock}
  {ts : List ℕ}

/-- The guard of `rn_srv_records_build`. -/
theorem build_guard (hsize : 0 < recordSize) : sources ≠ [] ∧ SizesFit recordSize sources.length ↔
    (sources.length == 0 || decide (sources.length > sizeMax / recordSize) ||
      decide (sources.length > sizeMax / 8)) = false := by
  simp [SizesFit, Nat.le_div_iff_mul_le hsize, Nat.le_div_iff_mul_le (show 0 < 8 by decide),
    and_assoc]

/-- The ledger with the array of records, zeroed. -/
def withRecords (recordSize count : ℕ) (L : Ledger SrvBlock) : Ledger SrvBlock :=
  (L.grant (.raw (count * recordSize % 2 ^ 64))).write L.calls (zeroRecords recordSize count)

/-- The ledger with both arrays, zeroed. -/
def withArrays (recordSize count : ℕ) (L : Ledger SrvBlock) : Ledger SrvBlock :=
  ((withRecords recordSize count L).grant (.raw (count * 8 % 2 ^ 64))).write (L.calls + 1)
    (zeroTargets count)

theorem withRecords_calls (recordSize count : ℕ) (L : Ledger SrvBlock) :
    (withRecords recordSize count L).calls = L.calls + 1 := by
  simp [withRecords]

theorem withRecords_grants (recordSize count : ℕ) (L : Ledger SrvBlock) :
    (withRecords recordSize count L).grants = L.grants := by
  simp [withRecords]

theorem withArrays_calls (recordSize count : ℕ) (L : Ledger SrvBlock) :
    (withArrays recordSize count L).calls = L.calls + 2 := by
  simp [withArrays, withRecords_calls]

theorem withArrays_grants (recordSize count : ℕ) (L : Ledger SrvBlock) :
    (withArrays recordSize count L).grants = L.grants := by
  simp [withArrays, withRecords_grants]

/-- The array of records. -/
theorem withRecords_grown (hfit : SizesFit recordSize count) (hp : L.grants L.calls = true) :
    Grown L (withRecords recordSize count L) [L.calls] ∧
    (withRecords recordSize count L).block L.calls =
      some (.records (List.replicate count .zero)) := by
  have hmax : sizeMax < 2 ^ 64 := by decide
  have hzero : zeroRecords recordSize count (.raw (count * recordSize % 2 ^ 64)) =
      some (.records (List.replicate count .zero)) := by
    have hsize := hfit.1
    rw [zeroRecords, Nat.mod_eq_of_lt (by omega), if_pos (Nat.le_refl _)]
  have hraw := grant_block_self L (.raw (count * recordSize % 2 ^ 64))
  rw [withRecords, write_eq hraw hzero]
  exact ⟨((Grown.refl L).grant hp _).put (by simp) _, put_block_self hraw⟩

/-- Both arrays, before the loop. -/
theorem withArrays_filled (hfit : SizesFit recordSize count) (hp : L.grants L.calls = true)
    (hq : L.grants (L.calls + 1) = true) :
    Filled L count L.calls (L.calls + 1) [] [] (withArrays recordSize count L) := by
  obtain ⟨hgrown, hrecords⟩ := withRecords_grown hfit hp
  have hcalls := withRecords_calls recordSize count L
  have hmax : sizeMax < 2 ^ 64 := by decide
  have hnull : zeroTargets count (.raw (count * 8 % 2 ^ 64)) =
      some (.targets (List.replicate count none)) := by
    have hsize := hfit.2
    rw [zeroTargets, Nat.mod_eq_of_lt (by omega), if_pos (Nat.le_refl _)]
  have hraw := grant_block_self (withRecords recordSize count L) (.raw (count * 8 % 2 ^ 64))
  have hgrown' := hgrown.grant (by rw [hgrown.grants, hcalls, hq]) (.raw (count * 8 % 2 ^ 64))
  rw [hcalls] at hraw hgrown'
  rw [withArrays, write_eq hraw hnull]
  refine ⟨hgrown'.put (by simp) _, rfl, Nat.zero_le _, ?_, put_block_self hraw, by simp⟩
  rw [put_block_of_ne (by omega), grant_block_of_ne (by omega)]
  exact hrecords

/-- A conversion that stops in the loop releases everything. -/
theorem Filled.undone (h : Filled L count p q done ts L') :
    SrvUndone L (buildFailed ⟨some p, some q, count⟩ L') := by
  rw [buildFailed, h.free_eq]
  exact ⟨rfl, rfl, _, h.restored⟩

/-- So does one that stops before the second array. -/
theorem undone_of_grown (h : Grown L L' [p]) : SrvUndone L (buildFailed ⟨some p, none, 0⟩ L') :=
  ⟨rfl, rfl, [p], h.freeAll (List.Perm.refl [p])⟩

/-- A conversion that reaches the end has built the records. -/
theorem Filled.built (h : Filled L sources.length p q sources ts L') :
    SrvBuilt sources L ⟨0, ⟨some p, some q, sources.length⟩, L'⟩
      (List.zipWith recordOf sources ts) (p :: q :: ts) where
  rc := rfl
  grown := h.grown
  allocations := by simp [h.length]
  count := rfl
  records := by
    refine ⟨p, rfl, ?_⟩
    simpa using h.records
  length := by simp [h.length]
  record := by
    intro i s hs
    obtain ⟨hi, -⟩ := List.getElem?_eq_some_iff.mp hs
    have hi' : i < ts.length := h.length ▸ hi
    have ht : ts[i]? = some ts[i] := List.getElem?_eq_getElem hi'
    refine ⟨_, ?_, h.texts i s _ hs ht⟩
    rw [List.getElem?_zipWith, hs, ht]
    rfl

/-- The conditions of a conversion : a nonempty answer of valid sources, sizes that do not
overflow, and no allocation that fails. -/
def Convertible (recordSize : ℕ) (sources : List SrvSource) (L : Ledger SrvBlock) : Prop :=
  sources ≠ [] ∧ (∀ s ∈ sources, s.Valid) ∧ SizesFit recordSize sources.length ∧
    ∀ k < sources.length + 2, L.grants (L.calls + k) = true

theorem Convertible.grants_first (h : Convertible recordSize sources L) :
    L.grants L.calls = true :=
  h.2.2.2 0 (by omega)

theorem Convertible.grants_second (h : Convertible recordSize sources L) :
    L.grants (L.calls + 1) = true :=
  h.2.2.2 1 (by omega)

/-- Past the two arrays, the sources and the allocations of the targets decide. -/
theorem convertible_iff (hne : sources ≠ []) (hfit : SizesFit recordSize sources.length)
    (hp : L.grants L.calls = true) (hq : L.grants (L.calls + 1) = true) :
    Convertible recordSize sources L ↔ (∀ s ∈ sources, s.Valid) ∧
      ∀ k < sources.length, L.grants (L.calls + 2 + k) = true := by
  rw [Convertible, Nat.forall_lt_succ_left, Nat.forall_lt_succ_left]
  simp [hne, hfit, hp, hq, Nat.add_assoc, Nat.add_comm 2]

/-- Arguments that the guards refuse : nothing is allocated. -/
theorem rnSrvRecordsBuild_guarded (hsize : 0 < recordSize)
    (hguard : ¬(sources ≠ [] ∧ SizesFit recordSize sources.length)) :
    rnSrvRecordsBuild recordSize sources L = ⟨-1, .zero, L⟩ := by
  rw [build_guard hsize, Bool.not_eq_false] at hguard
  rw [rnSrvRecordsBuild, if_pos hguard]

/-- The record array cannot be had. -/
theorem rnSrvRecordsBuild_noRecords (hsize : 0 < recordSize)
    (hguard : sources ≠ [] ∧ SizesFit recordSize sources.length)
    (hp : L.grants L.calls = false) :
    rnSrvRecordsBuild recordSize sources L = ⟨-1, .zero, L.refuse⟩ := by
  rw [rnSrvRecordsBuild, (build_guard hsize).mp hguard, if_neg Bool.false_ne_true,
    alloc_of_not_grants hp]

/-- The array of target pointers cannot be had : the record array goes back. -/
theorem rnSrvRecordsBuild_noTargets (hsize : 0 < recordSize)
    (hguard : sources ≠ [] ∧ SizesFit recordSize sources.length)
    (hp : L.grants L.calls = true) (hq : L.grants (L.calls + 1) = false) :
    rnSrvRecordsBuild recordSize sources L =
      buildFailed ⟨some L.calls, none, 0⟩ (withRecords recordSize sources.length L).refuse := by
  have hsecond : (withRecords recordSize sources.length L).grants
      (withRecords recordSize sources.length L).calls = false := by
    rw [withRecords_grants, withRecords_calls, hq]
  rw [rnSrvRecordsBuild, (build_guard hsize).mp hguard, if_neg Bool.false_ne_true,
    alloc_of_grants hp]
  dsimp only
  rw [← withRecords, alloc_of_not_grants hsecond]

/-- With both arrays there, the loop decides. -/
theorem rnSrvRecordsBuild_loop (hsize : 0 < recordSize)
    (hguard : sources ≠ [] ∧ SizesFit recordSize sources.length)
    (hp : L.grants L.calls = true) (hq : L.grants (L.calls + 1) = true) {result : Bool}
    (hloop : buildLoop L.calls (L.calls + 1) 0 sources (withArrays recordSize sources.length L) =
      (result, L')) :
    rnSrvRecordsBuild recordSize sources L =
      if result then ⟨0, ⟨some L.calls, some (L.calls + 1), sources.length⟩, L'⟩
      else buildFailed ⟨some L.calls, some (L.calls + 1), sources.length⟩ L' := by
  have hsecond : (withRecords recordSize sources.length L).grants
      (withRecords recordSize sources.length L).calls = true := by
    rw [withRecords_grants, withRecords_calls, hq]
  rw [rnSrvRecordsBuild, (build_guard hsize).mp hguard, if_neg Bool.false_ne_true,
    alloc_of_grants hp]
  dsimp only
  rw [← withRecords, alloc_of_grants hsecond, withRecords_calls]
  dsimp only
  rw [← withArrays, hloop]
  rcases result with _ | _ <;> rfl

/-- The conversion is complete under its conditions, and undone otherwise. -/
theorem rnSrvRecordsBuild_outcome (hsize : 0 < recordSize) (sources : List SrvSource)
    (L : Ledger SrvBlock) :
    (Convertible recordSize sources L ∧ ∃ p q ts L', Filled L sources.length p q sources ts L' ∧
      rnSrvRecordsBuild recordSize sources L = ⟨0, ⟨some p, some q, sources.length⟩, L'⟩) ∨
    (¬Convertible recordSize sources L ∧ SrvUndone L (rnSrvRecordsBuild recordSize sources L)) := by
  by_cases hguard : sources ≠ [] ∧ SizesFit recordSize sources.length
  swap
  · rw [rnSrvRecordsBuild_guarded hsize hguard]
    exact .inr ⟨fun h => hguard ⟨h.1, h.2.2.1⟩, rfl, rfl, [], Restored.refl L⟩
  rcases hp : L.grants L.calls with _ | _
  · rw [rnSrvRecordsBuild_noRecords hsize hguard hp]
    refine .inr ⟨fun h => ?_, rfl, rfl, [], Restored.refuse hp⟩
    exact Bool.false_ne_true (hp.symm.trans h.grants_first)
  obtain ⟨hgrown, -⟩ := withRecords_grown hguard.2 hp
  rcases hq : L.grants (L.calls + 1) with _ | _
  · rw [rnSrvRecordsBuild_noTargets hsize hguard hp hq]
    have hrefuse := hgrown.refuse (by rw [withRecords_grants, withRecords_calls, hq])
    refine .inr ⟨fun h => ?_, undone_of_grown hrefuse⟩
    exact Bool.false_ne_true (hq.symm.trans h.grants_second)
  obtain ⟨done, ts, hfilled, hend⟩ :=
    buildLoop_filled (Nat.zero_add sources.length).symm (withArrays_filled hguard.2 hp hq)
  have hall : (buildLoop L.calls (L.calls + 1) 0 sources
      (withArrays recordSize sources.length L)).1 = true ↔ Convertible recordSize sources L := by
    rw [buildLoop_true_iff, withArrays_calls, withArrays_grants,
      convertible_iff hguard.1 hguard.2 hp hq]
  rw [List.length_nil] at hfilled hend
  rcases hloop : buildLoop L.calls (L.calls + 1) 0 sources
    (withArrays recordSize sources.length L) with ⟨_ | _, L'⟩
  · rw [hloop] at hall hfilled
    rw [rnSrvRecordsBuild_loop hsize hguard hp hq hloop]
    exact .inr ⟨fun h => Bool.false_ne_true (hall.mpr h), hfilled.undone⟩
  · rw [hloop] at hall hfilled hend
    obtain rfl : done = sources := hend rfl
    rw [rnSrvRecordsBuild_loop hsize hguard hp hq hloop]
    exact .inl ⟨hall.mp rfl, _, _, ts, L', hfilled, rfl⟩

end Build

/-- The conversion of an SRV answer is atomic. It returns zero with one record for each source,
in their order, and `count + 2` blocks that a release gives back, each once; or it returns `-1`
with a zero output, and has released each block it got once. A release of a zero output does
nothing. -/
theorem srv_conversion_atomic (recordSize : ℕ) (hsize : 0 < recordSize)
    (sources : List SrvSource) (L : Ledger SrvBlock) :
    ((∃ rs ps, SrvBuilt sources L (rnSrvRecordsBuild recordSize sources L) rs ps ∧
        ∃ L' qs, rnSrvRecordsFree (rnSrvRecordsBuild recordSize sources L).out
            (rnSrvRecordsBuild recordSize sources L).ledger = (.zero, L') ∧
          Restored L L' qs ∧ qs.Perm ps) ∨
      SrvUndone L (rnSrvRecordsBuild recordSize sources L)) ∧
    ((rnSrvRecordsBuild recordSize sources L).rc = 0 ↔
      sources ≠ [] ∧
      (∀ s ∈ sources, s.target ≠ none ∧ s.targetLen ≠ 0 ∧ s.targetLen.toNat ≠ sizeMax) ∧
      (sources.length * recordSize ≤ sizeMax ∧ sources.length * 8 ≤ sizeMax) ∧
      ∀ k < sources.length + 2, L.grants (L.calls + k) = true) ∧
    ∀ L' : Ledger SrvBlock, rnSrvRecordsFree .zero L' = (.zero, L') := by
  refine ⟨?_, ?_, fun _ => rfl⟩
  · rcases rnSrvRecordsBuild_outcome hsize sources L with
      ⟨-, p, q, ts, L', hfilled, heq⟩ | ⟨-, hundone⟩
    · rw [heq]
      exact .inl ⟨_, _, hfilled.built, _, _, hfilled.free_eq, hfilled.restored,
        release_perm p q ts⟩
    · exact .inr hundone
  · change _ ↔ Convertible recordSize sources L
    rcases rnSrvRecordsBuild_outcome hsize sources L with
      ⟨hconv, p, q, ts, L', -, heq⟩ | ⟨hconv, hundone⟩
    · rw [heq]
      exact iff_of_true rfl hconv
    · rw [hundone.rc]
      exact iff_of_false (by decide) hconv

/-- Two sources. -/
def sampleSources : List SrvSource :=
  [⟨some (ascii "s-1.localhost"), 13, 19080, 10, 50, 30000, by decide⟩,
    ⟨some (ascii "s-2.localhost"), 13, 19081, 11, 51, 31000, by decide⟩]

/-- An allocator before its first call. -/
def emptyLedger (grants : ℕ → Bool) : Ledger SrvBlock :=
  ⟨grants, 0, fun _ => none, [], 0, fun _ _ => rfl⟩

/-- Two sources are converted, unless the last of the four allocations fails. -/
theorem last_allocation_fails :
    (rnSrvRecordsBuild 24 sampleSources (emptyLedger fun _ => true)).rc = 0 ∧
    SrvUndone (emptyLedger (· != 3))
      (rnSrvRecordsBuild 24 sampleSources (emptyLedger (· != 3))) := by
  obtain ⟨-, hall, -⟩ :=
    srv_conversion_atomic 24 (by decide) sampleSources (emptyLedger fun _ => true)
  obtain ⟨hcases, hiff, -⟩ :=
    srv_conversion_atomic 24 (by decide) sampleSources (emptyLedger (· != 3))
  refine ⟨hall.mpr (by decide), ?_⟩
  rcases hcases with ⟨rs, ps, hbuilt, -⟩ | hundone
  · exact absurd ((hiff.mp hbuilt.rc).2.2.2 3 (by decide)) (by decide)
  · exact hundone

/-! ## The handler -/

/-- `ngx_resolver_srv_name_t`, as far as the handler reads it. -/
structure ResolverSrv where
  name : Option Bytes
  nameLen : UInt64
  port : UInt16
  priority : UInt16
  weight : UInt16
  readable : ∀ bytes ∈ name, nameLen.toNat ≤ bytes.length

/-- The TTL of `rn_resolve_srv_handler`, from `ctx->valid` and `ngx_time`. -/
def srvTtlMs (valid now : UInt64) : UInt32 :=
  if valid > now then rnNumericTtlMsUntil valid now else 0

/-- The time until the answer expires. -/
theorem srvTtlMs_eq (valid now : UInt64) :
    (srvTtlMs valid now).toNat = min ((valid.toNat - now.toNat) * 1000) uint32Max := by
  unfold srvTtlMs
  split_ifs with hvalid
  · exact rnNumericTtlMsUntil_eq valid now
  · rw [gt_iff_lt, UInt64.lt_iff_toNat_lt] at hvalid
    rw [Nat.sub_eq_zero_of_le (by omega), Nat.zero_mul, Nat.zero_min]
    rfl

/-- One entry of the array of sources. -/
def ResolverSrv.source (ttlMs : UInt32) (srv : ResolverSrv) : SrvSource where
  target := srv.name
  targetLen := srv.nameLen
  port := srv.port
  priority := srv.priority
  weight := srv.weight
  ttlMs := ttlMs
  readable := srv.readable

/-- The answer of a lookup, as `rn_resolve_srv_handler` finds it in its context : `ctx->state` is
zero, `ctx->valid`, and `ctx->srvs`. -/
structure SrvAnswer where
  success : Bool
  valid : UInt64
  srvs : List ResolverSrv

/-- The sources of an answer. -/
def SrvAnswer.sources (a : SrvAnswer) (now : UInt64) : List SrvSource :=
  a.srvs.map (ResolverSrv.source (srvTtlMs a.valid now))

/-- The memory of `rn_resolve_srv_handler` : the array of sources, the conversion, and the
releases behind the callback, with the status the callback is given. `sourceSize` is
`sizeof(rn_srv_source_t)`. -/
def srvHandlerMemory (sourceSize recordSize : ℕ) (a : SrvAnswer) (now : UInt64)
    (L : Ledger SrvBlock) : DnsStatus × Ledger SrvBlock :=
  let nsrvs := a.srvs.length
  if !a.success || nsrvs == 0 then (.failed, L)
  else if nsrvs > sizeMax / sourceSize then (.failed, L)
  else
    match L.alloc (.raw (nsrvs * sourceSize % 2 ^ 64)) with
    | (none, L) => (.failed, L)
    | (some sources, L) =>
      let r := rnSrvRecordsBuild recordSize (a.sources now) L
      let status := if r.rc ≠ 0 then DnsStatus.failed else .ok
      (status, (rnSrvRecordsFree r.out r.ledger).2.free sources)

/-- The answer as `rnResolveSrvHandler` meets it. -/
def SrvAnswer.toAnswer (sourceSize recordSize : ℕ) (a : SrvAnswer) (now : UInt64)
    (L : Ledger SrvBlock) (reaction : Reaction) : Answer where
  success := a.success
  count := a.srvs.length
  fits := decide (a.srvs.length ≤ sizeMax / sourceSize)
  allocSources := L.grants L.calls
  allocAddrs := true
  convert := decide ((rnSrvRecordsBuild recordSize (a.sources now)
    (L.grant (.raw (a.srvs.length * sourceSize % 2 ^ 64)))).rc = 0)
  reaction := reaction

/-- A conversion and the release behind it leave nothing, whether it succeeded or not. -/
theorem rnSrvRecordsBuild_released {recordSize : ℕ} (hsize : 0 < recordSize)
    (sources : List SrvSource) (L : Ledger SrvBlock) :
    ∃ ps, Restored L (rnSrvRecordsFree (rnSrvRecordsBuild recordSize sources L).out
      (rnSrvRecordsBuild recordSize sources L).ledger).2 ps := by
  rcases rnSrvRecordsBuild_outcome hsize sources L with
    ⟨-, p, q, ts, L', hfilled, heq⟩ | ⟨-, hundone⟩
  · rw [heq, hfilled.free_eq]
    exact ⟨_, hfilled.restored⟩
  · obtain ⟨ps, hrestored⟩ := hundone.restored
    rw [hundone.out]
    exact ⟨ps, hrestored⟩

/-- The handler gives the client the status of its answer, and keeps no memory. -/
theorem srvHandlerMemory_spec {recordSize : ℕ} (hsize : 0 < recordSize) (sourceSize : ℕ)
    (a : SrvAnswer) (now : UInt64) (L : Ledger SrvBlock) (reaction : Reaction) :
    (srvHandlerMemory sourceSize recordSize a now L).1 =
      (a.toAnswer sourceSize recordSize now L reaction).srvStatus ∧
    ∃ ps, Restored L (srvHandlerMemory sourceSize recordSize a now L).2 ps := by
  have hstatus : (a.toAnswer sourceSize recordSize now L reaction).srvStatus =
      if !a.success || a.srvs.length == 0 then .failed
      else if !decide (a.srvs.length ≤ sizeMax / sourceSize) then .failed
      else if !L.grants L.calls then .failed
      else if !decide ((rnSrvRecordsBuild recordSize (a.sources now)
        (L.grant (.raw (a.srvs.length * sourceSize % 2 ^ 64)))).rc = 0) then .failed
      else .ok := rfl
  rw [hstatus, srvHandlerMemory]
  by_cases hempty : (!a.success || a.srvs.length == 0) = true
  · rw [if_pos hempty, if_pos hempty]
    exact ⟨rfl, [], Restored.refl L⟩
  rw [if_neg hempty, if_neg hempty]
  by_cases hfits : a.srvs.length ≤ sizeMax / sourceSize
  swap
  · rw [if_pos (by omega), if_pos (by simpa using hfits)]
    exact ⟨rfl, [], Restored.refl L⟩
  rw [if_neg (by omega), if_neg (by simpa using hfits)]
  cases hgrants : L.grants L.calls with
  | false =>
    rw [alloc_of_not_grants hgrants]
    exact ⟨rfl, [], Restored.refuse hgrants⟩
  | true =>
    obtain ⟨ps, hrestored⟩ := rnSrvRecordsBuild_released hsize (a.sources now)
      (L.grant (.raw (a.srvs.length * sourceSize % 2 ^ 64)))
    rw [alloc_of_grants hgrants]
    exact ⟨by simp, _, hrestored.around hgrants⟩

end RlNginx
