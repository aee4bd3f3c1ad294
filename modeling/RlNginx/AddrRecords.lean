import RlNginx.Lib.Buffer
import RlNginx.Lib.Ledger
import RlNginx.SrvRecords

/-!
# Addresses for the client

`rn_addr_records_compact` copies the usable addresses of nginx's answer to consecutive entries
of an array, and `rn_resolve_addr_handler` gives that array to the C client. The entries behind
the ones it counts are left as they were, so the count must be the number of addresses that were
written. `handlers_answer` connects both handlers, with the memory they work in, to the lookups
of `rnResolve`, which take an answer as its status.

`sizeof(r_addr_t)` and the size of its address field are parameters, since the header of the C
client is not part of this repository.
-/

open Ledger

namespace RlNginx

/-- `rn_addr_source_t`. `sockaddr` is the memory at the pointer, which has at least `socklen`
bytes, or `none` for a null pointer. -/
structure AddrSource where
  sockaddr : Option Bytes
  socklen : UInt64
  readable : ∀ bytes ∈ sockaddr, socklen.toNat ≤ bytes.length

/-- `r_addr_t`. -/
structure AddrSlot where
  sa : Bytes
  len : UInt32
  deriving DecidableEq, Repr

/-! ## Compaction -/

/-- `memset(&out[out_count], 0, sizeof(out[out_count]))`. -/
def AddrSlot.zero (saSize : ℕ) : AddrSlot := ⟨List.replicate saSize 0, 0⟩

/-- `memcpy(&slot.sa, bytes, len)` with `len` bytes in `bytes`. -/
def AddrSlot.copySa (slot : AddrSlot) (bytes : Bytes) : AddrSlot :=
  { slot with sa := bytes ++ slot.sa.drop bytes.length }

/-- The bytes of the address. -/
def AddrSource.bytes (s : AddrSource) : Bytes :=
  (s.sockaddr.getD []).take s.socklen.toNat

/-- The writes for one usable source. -/
def storeAddr (saSize k : ℕ) (s : AddrSource) (out : Buffer AddrSlot) : Buffer AddrSlot :=
  let out := out.put k (.zero saSize)
  let out := out.put k ((out.mem k).copySa s.bytes)
  out.put k { out.mem k with len := s.socklen.toUInt32 }

/-- The loop of `rn_addr_records_compact`, from `out_count` on. -/
def compactLoop (saSize outCapacity : ℕ) :
    List AddrSource → ℕ → Buffer AddrSlot → ℕ × Buffer AddrSlot
  | [], outCount, out => (outCount, out)
  | s :: rest, outCount, out =>
    if outCount < outCapacity then
      if s.sockaddr.isNone || s.socklen == 0 || decide (s.socklen.toNat > saSize) then
        compactLoop saSize outCapacity rest outCount out
      else compactLoop saSize outCapacity rest (outCount + 1) (storeAddr saSize outCount s out)
    else (outCount, out)

/-- `rn_addr_records_compact` : the number of addresses, and the array. The pointers are those of
the caller's arrays. -/
def rnAddrRecordsCompact (saSize : ℕ) (sources : List AddrSource) (outCapacity : ℕ)
    (out : Buffer AddrSlot) : ℕ × Buffer AddrSlot :=
  if sources.length == 0 || outCapacity == 0 then (0, out)
  else compactLoop saSize outCapacity sources 0 out

/-- An address that fits an entry of the array. -/
def AddrSource.usable (saSize : ℕ) (s : AddrSource) : Bool :=
  s.sockaddr.isSome && decide (1 ≤ s.socklen.toNat) && decide (s.socklen.toNat ≤ saSize)

/-- The entry for an address : its bytes, zeroes behind them, and its own length. -/
def AddrSource.slot (saSize : ℕ) (s : AddrSource) : AddrSlot :=
  ⟨s.bytes ++ List.replicate (saSize - s.socklen.toNat) 0, s.socklen.toUInt32⟩

/-- From `outCount` on, the sources `used` were written, and nothing else was. -/
structure Compacted (saSize outCount : ℕ) (used : List AddrSource) (out : Buffer AddrSlot)
    (r : ℕ × Buffer AddrSlot) : Prop where
  count : r.1 = outCount + used.length
  holds : r.2.Holds outCount (used.map (AddrSource.slot saSize))
  front : ∀ i < outCount, r.2.mem i = out.mem i
  within : Buffer.WrittenBelow (outCount + used.length) out r.2

section Compaction

variable {saSize : ℕ} {s : AddrSource}

/-- The test of the loop. -/
theorem AddrSource.usable_eq (s : AddrSource) :
    (s.sockaddr.isNone || s.socklen == 0 || decide (s.socklen.toNat > saSize)) =
      !s.usable saSize := by
  have hzero : (s.socklen == 0) = !decide (1 ≤ s.socklen.toNat) := by
    rw [Bool.eq_iff_iff, beq_iff_eq, ← UInt64.toNat_inj]
    simp
  have hlong : decide (s.socklen.toNat > saSize) = !decide (s.socklen.toNat ≤ saSize) := by
    rw [Bool.eq_iff_iff]
    simp
  rw [AddrSource.usable, hzero, hlong]
  cases s.sockaddr <;> simp

/-- An address is usable when there is one and its length lies between 1 and the size of the
entry. -/
theorem AddrSource.usable_iff (s : AddrSource) : s.usable saSize = true ↔
    s.sockaddr ≠ none ∧ 1 ≤ s.socklen.toNat ∧ s.socklen.toNat ≤ saSize := by
  rw [AddrSource.usable, Bool.and_eq_true, Bool.and_eq_true, decide_eq_true_iff,
    decide_eq_true_iff, Option.isSome_iff_ne_none, and_assoc]

theorem AddrSource.length_bytes (hs : s.usable saSize = true) :
    s.bytes.length = s.socklen.toNat := by
  simp only [AddrSource.usable, Bool.and_eq_true] at hs
  obtain ⟨bytes, hbytes⟩ := Option.isSome_iff_exists.mp hs.1.1
  rw [AddrSource.bytes, List.length_take, hbytes]
  exact Nat.min_eq_left (s.readable bytes hbytes)

/-- One entry is written, with the address and its length. -/
theorem storeAddr_mem (hs : s.usable saSize = true) (k : ℕ) (out : Buffer AddrSlot) :
    (storeAddr saSize k s out).mem k = s.slot saSize := by
  have hlen := s.length_bytes hs
  simp [storeAddr, AddrSlot.copySa, AddrSlot.zero, AddrSource.slot, hlen]

theorem storeAddr_mem_of_ne {i k : ℕ} (hi : i ≠ k) (out : Buffer AddrSlot) :
    (storeAddr saSize k s out).mem i = out.mem i := by
  simp [storeAddr, Buffer.put_mem_of_ne hi]

theorem storeAddr_within {k cap : ℕ} (hk : k < cap) (out : Buffer AddrSlot) :
    Buffer.WrittenBelow cap out (storeAddr saSize k s out) :=
  (((Buffer.WrittenBelow.refl cap out).put hk).put hk).put hk

/-- Nothing was written. -/
theorem compacted_nil (saSize outCount : ℕ) (out : Buffer AddrSlot) :
    Compacted saSize outCount [] out (outCount, out) :=
  ⟨rfl, by simp [Buffer.Holds], fun _ _ => rfl, Buffer.WrittenBelow.refl _ out⟩

/-- One source was written, and then others. -/
theorem Compacted.cons {outCount : ℕ} {used : List AddrSource} {out : Buffer AddrSlot}
    {r : ℕ × Buffer AddrSlot} (hs : s.usable saSize = true)
    (h : Compacted saSize (outCount + 1) used (storeAddr saSize outCount s out) r) :
    Compacted saSize outCount (s :: used) out r := by
  have hlen : outCount + (s :: used).length = outCount + 1 + used.length := by
    rw [List.length_cons]
    omega
  refine ⟨hlen ▸ h.count, ?_, fun i hi => ?_, ?_⟩
  · refine h.holds.cons ?_
    rw [h.front outCount (by omega), storeAddr_mem hs]
  · rw [h.front i (by omega), storeAddr_mem_of_ne (by omega)]
  · rw [hlen]
    exact (storeAddr_within (by omega) out).trans h.within

/-- The loop writes the usable sources, as far as there is room. -/
theorem compactLoop_compacted (saSize outCapacity : ℕ) : ∀ (sources : List AddrSource)
    (outCount : ℕ) (out : Buffer AddrSlot), Compacted saSize outCount
      ((sources.filter (AddrSource.usable saSize)).take (outCapacity - outCount)) out
      (compactLoop saSize outCapacity sources outCount out)
  | [], outCount, out => by
    rw [List.filter_nil, List.take_nil]
    exact compacted_nil saSize outCount out
  | s :: rest, outCount, out => by
    rw [compactLoop, s.usable_eq]
    by_cases hroom : outCount < outCapacity
    · rw [if_pos hroom]
      cases hs : s.usable saSize with
      | false =>
        rw [List.filter_cons_of_neg (by simp [hs])]
        exact compactLoop_compacted saSize outCapacity rest outCount out
      | true =>
        rw [List.filter_cons_of_pos hs,
          show outCapacity - outCount = outCapacity - (outCount + 1) + 1 by omega,
          List.take_succ_cons]
        exact (compactLoop_compacted saSize outCapacity rest (outCount + 1) _).cons hs
    · rw [if_neg hroom, show outCapacity - outCount = 0 by omega, List.take_zero]
      exact compacted_nil saSize outCount out

/-- The function writes the first usable sources, up to the capacity. -/
theorem rnAddrRecordsCompact_compacted (saSize : ℕ) (sources : List AddrSource)
    (outCapacity : ℕ) (out : Buffer AddrSlot) :
    Compacted saSize 0 ((sources.filter (AddrSource.usable saSize)).take outCapacity) out
      (rnAddrRecordsCompact saSize sources outCapacity out) := by
  unfold rnAddrRecordsCompact
  split_ifs with hempty
  · have hnone : (sources.filter (AddrSource.usable saSize)).take outCapacity = [] := by
      simp only [Bool.or_eq_true, beq_iff_eq] at hempty
      rcases hempty with hsources | hcap
      · rw [List.length_eq_zero_iff.mp hsources, List.filter_nil, List.take_nil]
      · rw [hcap, List.take_zero]
    rw [hnone]
    exact compacted_nil saSize 0 out
  · exact compactLoop_compacted saSize outCapacity sources 0 out

/-- With as much room as there are sources, no usable one is dropped. -/
theorem take_usable_length (saSize : ℕ) (sources : List AddrSource) :
    (sources.filter (AddrSource.usable saSize)).take sources.length =
      sources.filter (AddrSource.usable saSize) :=
  List.take_of_length_le (List.length_filter_le _ sources)

end Compaction

/-! ## The handler -/

/-- What `rn_resolve_addr_handler` tells the client once both arrays are there : the status, and
the addresses. `addrs` is the memory of the array before the compaction. -/
def addrReport (saSize : ℕ) (sources : List AddrSource) (addrs : Buffer AddrSlot) :
    DnsStatus × List AddrSlot :=
  let (addrCount, addrs) := rnAddrRecordsCompact saSize sources sources.length addrs
  if addrCount == 0 then (.failed, []) else (.ok, (List.range addrCount).map addrs.mem)

/-- The arrays of `rn_resolve_addr_handler` and what it tells the client : `sources` are the
entries of `ctx->addrs`, `addrSize` is `sizeof(r_addr_t)`, and a block of the ledger holds its
size. Both arrays are asked for before either is looked at. -/
def addrHandlerMemory (addrSize saSize : ℕ) (success : Bool) (sources : List AddrSource)
    (addrs : Buffer AddrSlot) (L : Ledger ℕ) : (DnsStatus × List AddrSlot) × Ledger ℕ :=
  let naddrs := sources.length
  if !success || naddrs == 0 then ((.failed, []), L)
  else if naddrs > sizeMax / addrSize ∨ naddrs > sizeMax / 16 then ((.failed, []), L)
  else
    let (a, L) := L.alloc (naddrs * addrSize % 2 ^ 64)
    let (s, L) := L.alloc (naddrs * 16 % 2 ^ 64)
    let report := if a.isNone || s.isNone then (.failed, []) else addrReport saSize sources addrs
    (report, (L.release s).release a)

/-- The two arrays can be had : their sizes do not overflow, and neither allocation fails. -/
def ArraysGranted (addrSize naddrs : ℕ) (L : Ledger ℕ) : Prop :=
  (naddrs * addrSize ≤ sizeMax ∧ naddrs * 16 ≤ sizeMax) ∧
    L.grants L.calls = true ∧ L.grants (L.calls + 1) = true

/-- The addresses of an answer reach the client : one of them is usable, and both arrays can be
had. -/
def Deliverable (addrSize saSize : ℕ) (sources : List AddrSource) (L : Ledger ℕ) : Prop :=
  (∃ s ∈ sources, s.usable saSize = true) ∧ ArraysGranted addrSize sources.length L

section Handler

variable {addrSize : ℕ} {success : Bool} {sources : List AddrSource}

/-- The compaction keeps an address exactly when one is usable. -/
theorem rnAddrRecordsCompact_pos (saSize : ℕ) (sources : List AddrSource)
    (addrs : Buffer AddrSlot) :
    (rnAddrRecordsCompact saSize sources sources.length addrs).1 ≠ 0 ↔
      ∃ s ∈ sources, s.usable saSize = true := by
  obtain ⟨hcount, -⟩ := rnAddrRecordsCompact_compacted saSize sources sources.length addrs
  rw [take_usable_length, Nat.zero_add] at hcount
  rw [hcount, Ne, List.length_eq_zero_iff, List.filter_eq_nil_iff]
  simp

/-- The report has the usable addresses, if there is one. -/
theorem addrReport_eq (saSize : ℕ) (sources : List AddrSource) (addrs : Buffer AddrSlot) :
    addrReport saSize sources addrs =
      if sources.any (AddrSource.usable saSize) then
        (.ok, (sources.filter (AddrSource.usable saSize)).map (AddrSource.slot saSize))
      else (.failed, []) := by
  have hcompact := rnAddrRecordsCompact_compacted saSize sources sources.length addrs
  rw [take_usable_length] at hcompact
  obtain ⟨hcount, hholds, -, -⟩ := hcompact
  have hread := hholds.map_range
  rw [List.length_map] at hread
  simp only [addrReport]
  have hpos := rnAddrRecordsCompact_pos saSize sources addrs
  rw [← List.any_eq_true] at hpos
  by_cases hany : sources.any (AddrSource.usable saSize) = true
  · rw [if_pos hany, if_neg (by simpa using hpos.mpr hany), hcount, Nat.zero_add, hread]
  · rw [if_neg hany, if_pos (by simpa using mt hpos.mp hany)]

/-- The guard of the handler against sizes that overflow. -/
theorem sizes_guard (haddr : 0 < addrSize) (naddrs : ℕ) :
    (naddrs > sizeMax / addrSize ∨ naddrs > sizeMax / 16) ↔
      ¬(naddrs * addrSize ≤ sizeMax ∧ naddrs * 16 ≤ sizeMax) := by
  rw [gt_iff_lt, gt_iff_lt, ← Nat.not_le, ← Nat.not_le, Nat.le_div_iff_mul_le haddr,
    Nat.le_div_iff_mul_le (by decide), not_and_or]

/-- The handler keeps no memory, whichever of the arrays it gets. -/
theorem addrHandlerMemory_restored (addrSize saSize : ℕ) (success : Bool)
    (sources : List AddrSource) (addrs : Buffer AddrSlot) (L : Ledger ℕ) :
    ∃ ps, Restored L (addrHandlerMemory addrSize saSize success sources addrs L).2 ps := by
  simp only [addrHandlerMemory]
  split_ifs
  · exact ⟨[], Restored.refl L⟩
  · exact ⟨[], Restored.refl L⟩
  all_goals
    obtain ⟨ps, hinner⟩ := (Restored.refl ((L.alloc (sources.length * addrSize % 2 ^ 64)).2.alloc
      (sources.length * 16 % 2 ^ 64)).2).alloc_release
    exact hinner.alloc_release

/-- The client is told of the usable addresses when they can reach it, and of a failure
otherwise. -/
theorem addrHandlerMemory_report (haddr : 0 < addrSize) (saSize : ℕ) (success : Bool)
    (sources : List AddrSource) (addrs : Buffer AddrSlot) (L : Ledger ℕ) :
    (success = true ∧ Deliverable addrSize saSize sources L) ∧
      (addrHandlerMemory addrSize saSize success sources addrs L).1 =
        (.ok, (sources.filter (AddrSource.usable saSize)).map (AddrSource.slot saSize)) ∨
    ¬(success = true ∧ Deliverable addrSize saSize sources L) ∧
      (addrHandlerMemory addrSize saSize success sources addrs L).1 = (.failed, []) := by
  simp only [addrHandlerMemory]
  split_ifs with hempty hsizes hnull
  · refine .inr ⟨?_, rfl⟩
    rintro ⟨rfl, ⟨s, hs, -⟩, -⟩
    obtain rfl : sources = [] := by simpa using hempty
    exact absurd hs List.not_mem_nil
  · exact .inr ⟨fun h => (sizes_guard haddr _).mp hsizes h.2.2.1, rfl⟩
  · refine .inr ⟨?_, rfl⟩
    rintro ⟨-, -, -, hp, hq⟩
    simp [alloc_isNone, alloc_calls, alloc_grants, hp, hq] at hnull
  · have hsuccess : success = true := by
      rw [Bool.or_eq_true, not_or] at hempty
      simpa using hempty.1
    obtain ⟨hp, hq⟩ : L.grants L.calls = true ∧ L.grants (L.calls + 1) = true := by
      simpa [alloc_isNone, alloc_calls, alloc_grants] using hnull
    rw [sizes_guard haddr, not_not] at hsizes
    rw [addrReport_eq]
    by_cases hany : sources.any (AddrSource.usable saSize) = true
    · rw [if_pos hany]
      exact .inl ⟨⟨hsuccess, List.any_eq_true.mp hany, hsizes, hp, hq⟩, rfl⟩
    · rw [if_neg hany]
      exact .inr ⟨fun h => hany (List.any_eq_true.mpr h.2.1), rfl⟩

/-- The answer as `rnResolveAddrHandler` meets it. -/
def addrAnswer (addrSize saSize : ℕ) (success : Bool) (sources : List AddrSource)
    (addrs : Buffer AddrSlot) (L : Ledger ℕ) (reaction : Reaction) : Answer where
  success := success
  count := sources.length
  fits := !decide (sources.length > sizeMax / addrSize ∨ sources.length > sizeMax / 16)
  allocSources := L.grants (L.calls + 1)
  allocAddrs := L.grants L.calls
  convert := decide ((rnAddrRecordsCompact saSize sources sources.length addrs).1 ≠ 0)
  reaction := reaction

/-- When the handler reports success. -/
theorem Answer.addrStatus_eq (a : Answer) : a.addrStatus =
    if a.success = true ∧ a.count ≠ 0 ∧ a.fits = true ∧ a.allocAddrs = true ∧
      a.allocSources = true ∧ a.convert = true then .ok else .failed := by
  unfold Answer.addrStatus
  split_ifs <;> simp_all

/-- The handler gives the client the status of its answer. -/
theorem addrHandlerMemory_status (haddr : 0 < addrSize) (saSize : ℕ) (success : Bool)
    (sources : List AddrSource) (addrs : Buffer AddrSlot) (L : Ledger ℕ) (reaction : Reaction) :
    (addrHandlerMemory addrSize saSize success sources addrs L).1.1 =
      (addrAnswer addrSize saSize success sources addrs L reaction).addrStatus := by
  have hiff : (success = true ∧ sources.length ≠ 0 ∧
      (!decide (sources.length > sizeMax / addrSize ∨ sources.length > sizeMax / 16)) = true ∧
      L.grants L.calls = true ∧ L.grants (L.calls + 1) = true ∧
      decide ((rnAddrRecordsCompact saSize sources sources.length addrs).1 ≠ 0) = true) ↔
        success = true ∧ Deliverable addrSize saSize sources L := by
    rw [← decide_not, decide_eq_true_iff, decide_eq_true_iff, sizes_guard haddr, not_not,
      rnAddrRecordsCompact_pos]
    constructor
    · rintro ⟨hsuccess, -, hsizes, hp, hq, hany⟩
      exact ⟨hsuccess, hany, hsizes, hp, hq⟩
    · rintro ⟨hsuccess, ⟨s, hs, husable⟩, hsizes, hp, hq⟩
      have hlen := List.length_pos_of_mem hs
      exact ⟨hsuccess, by omega, hsizes, hp, hq, s, hs, husable⟩
  rw [Answer.addrStatus_eq]
  rcases addrHandlerMemory_report haddr saSize success sources addrs L with
    ⟨hdeliver, heq⟩ | ⟨hnot, heq⟩
  · rw [heq]
    exact (if_pos (hiff.mpr hdeliver)).symm
  · rw [heq]
    exact (if_neg (mt hiff.mp hnot)).symm

end Handler

/-- The compaction writes the first usable addresses up to the capacity, each padded with zeroes
and with its own length, and nothing else. With the capacity of the handler none is dropped, and
the handler reports success for an answer exactly when one is usable and both arrays can be had,
with the addresses that were written. -/
theorem address_compaction (saSize addrSize : ℕ) (hsa : saSize < 2 ^ 32) (haddr : 0 < addrSize) :
    (∀ sources outCapacity out,
      (rnAddrRecordsCompact saSize sources outCapacity out).1 =
        ((sources.filter (AddrSource.usable saSize)).take outCapacity).length ∧
      (rnAddrRecordsCompact saSize sources outCapacity out).2.Holds 0
        (((sources.filter (AddrSource.usable saSize)).take outCapacity).map
          (AddrSource.slot saSize)) ∧
      Buffer.WrittenBelow (rnAddrRecordsCompact saSize sources outCapacity out).1 out
        (rnAddrRecordsCompact saSize sources outCapacity out).2) ∧
    (∀ s : AddrSource, (s.usable saSize = true ↔
        s.sockaddr ≠ none ∧ 1 ≤ s.socklen.toNat ∧ s.socklen.toNat ≤ saSize) ∧
      (s.usable saSize = true → (s.slot saSize).sa.length = saSize ∧
        (s.slot saSize).sa = s.bytes ++ List.replicate (saSize - s.socklen.toNat) 0 ∧
        (s.slot saSize).len.toNat = s.socklen.toNat)) ∧
    (∀ sources out, (rnAddrRecordsCompact saSize sources sources.length out).1 =
      (sources.filter (AddrSource.usable saSize)).length) ∧
    ∀ sources addrs L,
      ((addrHandlerMemory addrSize saSize true sources addrs L).1.1 = .ok ↔
        (∃ s ∈ sources, s.usable saSize = true) ∧ ArraysGranted addrSize sources.length L) ∧
      ((addrHandlerMemory addrSize saSize true sources addrs L).1.1 = .ok →
        (addrHandlerMemory addrSize saSize true sources addrs L).1.2 =
          (sources.filter (AddrSource.usable saSize)).map (AddrSource.slot saSize)) := by
  refine ⟨fun sources outCapacity out => ?_, fun s => ⟨?_, fun hs => ⟨?_, rfl, ?_⟩⟩,
    fun sources out => ?_, fun sources addrs L => ?_⟩
  · obtain ⟨hcount, hholds, -, hwithin⟩ :=
      rnAddrRecordsCompact_compacted saSize sources outCapacity out
    rw [Nat.zero_add] at hcount hwithin
    exact ⟨hcount, hholds, hcount ▸ hwithin⟩
  · exact s.usable_iff
  · rw [AddrSource.slot, List.length_append, s.length_bytes hs, List.length_replicate]
    exact Nat.add_sub_cancel' (s.usable_iff.mp hs).2.2
  · have hle := (s.usable_iff.mp hs).2.2
    rw [AddrSource.slot, UInt64.toNat_toUInt32]
    exact Nat.mod_eq_of_lt (by omega)
  · obtain ⟨hcount, -⟩ := rnAddrRecordsCompact_compacted saSize sources sources.length out
    rwa [take_usable_length, Nat.zero_add] at hcount
  · rcases addrHandlerMemory_report haddr saSize true sources addrs L with
      ⟨⟨-, hdeliver⟩, heq⟩ | ⟨hnot, heq⟩
    · rw [heq]
      exact ⟨iff_of_true rfl hdeliver, fun _ => rfl⟩
    · rw [heq]
      exact ⟨iff_of_false (by decide) fun h => hnot ⟨rfl, h⟩, fun h => absurd h (by decide)⟩

/-- The sources of an answer : an address of 16 bytes, one that is too long, a null pointer, an
address of 28 bytes, and one without a length. -/
def sampleAddrs : List AddrSource :=
  [⟨some (List.replicate 16 2), 16, by simp⟩, ⟨some (List.replicate 129 90), 129, by simp⟩,
    ⟨none, 16, by simp⟩, ⟨some (List.replicate 28 10), 28, by simp⟩,
    ⟨some (List.replicate 16 2), 0, by simp⟩]

/-- Two of five addresses are kept, in entries of 128 bytes, and the client is told of them. -/
theorem two_addresses_kept :
    (rnAddrRecordsCompact 128 sampleAddrs 3 ⟨fun _ => ⟨[], 165⟩, []⟩).1 = 2 ∧
    (addrHandlerMemory 136 128 true sampleAddrs ⟨fun _ => ⟨[], 165⟩, []⟩
      ⟨fun _ => true, 0, fun _ => none, [], 0, fun _ _ => rfl⟩).1.1 = .ok := by
  obtain ⟨hcompact, -, -, hhandler⟩ := address_compaction 128 136 (by decide) (by decide)
  obtain ⟨hcount, -⟩ := hcompact sampleAddrs 3 ⟨fun _ => ⟨[], 165⟩, []⟩
  refine ⟨hcount.trans (by decide), (hhandler _ _ _).1.mpr ⟨by decide, ?_⟩⟩
  exact ⟨by decide, rfl, rfl⟩

/-! ## Both handlers and their answers -/

/-- Whatever nginx's resolver answers and the allocator refuses : each handler, with the memory it
works in, gives the client the status that the lookup has from its answer, and keeps none of the
blocks it was given. The TTL of the SRV records is the time until the answer expires. -/
theorem handlers_answer {recordSize addrSize : ℕ} (hrecord : 0 < recordSize)
    (haddr : 0 < addrSize) (sourceSize saSize : ℕ) :
    (∀ (a : SrvAnswer) (now : UInt64) (L : Ledger SrvBlock) (reaction : Reaction),
      (srvHandlerMemory sourceSize recordSize a now L).1 =
        (a.toAnswer sourceSize recordSize now L reaction).srvStatus ∧
      (∃ ps, Restored L (srvHandlerMemory sourceSize recordSize a now L).2 ps) ∧
      ∀ source ∈ a.sources now,
        source.ttlMs.toNat = min ((a.valid.toNat - now.toNat) * 1000) uint32Max) ∧
    ∀ (success : Bool) (sources : List AddrSource) (addrs : Buffer AddrSlot) (L : Ledger ℕ)
      (reaction : Reaction),
      (addrHandlerMemory addrSize saSize success sources addrs L).1.1 =
        (addrAnswer addrSize saSize success sources addrs L reaction).addrStatus ∧
      ∃ ps, Restored L (addrHandlerMemory addrSize saSize success sources addrs L).2 ps := by
  refine ⟨fun a now L reaction => ?_, fun success sources addrs L reaction => ?_⟩
  · obtain ⟨hstatus, hrestored⟩ := srvHandlerMemory_spec hrecord sourceSize a now L reaction
    refine ⟨hstatus, hrestored, fun source hsource => ?_⟩
    obtain ⟨srv, -, rfl⟩ := List.mem_map.mp hsource
    exact srvTtlMs_eq a.valid now
  · exact ⟨addrHandlerMemory_status haddr saSize success sources addrs L reaction,
      addrHandlerMemory_restored addrSize saSize success sources addrs L⟩

/-- An SRV answer with one record, which expires in 30 seconds. -/
def sampleSrvAnswer : SrvAnswer :=
  ⟨true, 1030, [⟨some (ascii "s-3.localhost"), 13, 19080, 10, 50, by decide⟩]⟩

/-- The last allocation of its handler fails. The other three blocks are released. -/
theorem sample_handlers_answer :
    (srvHandlerMemory 40 24 sampleSrvAnswer 1000 (emptyLedger (· != 3))).1 = .failed ∧
    (srvHandlerMemory 40 24 sampleSrvAnswer 1000 (emptyLedger (· != 3))).2.freed.length = 3 ∧
    (∃ ps, Restored (emptyLedger (· != 3))
      (srvHandlerMemory 40 24 sampleSrvAnswer 1000 (emptyLedger (· != 3))).2 ps) ∧
    ∀ source ∈ sampleSrvAnswer.sources 1000, source.ttlMs.toNat = 30000 := by
  obtain ⟨-, hrestored, httl⟩ := (handlers_answer (by decide : 0 < 24) (by decide : 0 < 136) 40
    128).1 sampleSrvAnswer 1000 (emptyLedger (· != 3)) .done
  refine ⟨by decide +kernel, by decide +kernel, hrestored, fun source hsource => ?_⟩
  exact (httl source hsource).trans (by decide +kernel)

end RlNginx
