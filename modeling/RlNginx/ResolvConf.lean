import Mathlib.Data.List.TakeWhile
import RlNginx.Lib.Lines
import RlNginx.Bytes

/-!
# System DNS : the nameservers of `/etc/resolv.conf`

`rn_create_system_dns_resolver` reads the file with `fgets` into a buffer of 256 bytes and
hands every read to `rn_resolv_conf_nameserver` as if it were a line. A line of more than
255 bytes is handed over in pieces, and a piece from the middle of a comment may begin with
the word `nameserver` (`comment_becomes_nameserver`).

`nameservers_by_line` says when the nameservers taken are those of the complete lines, each
from its own line : when every line that is reached yields, piece by piece, what it yields
as a whole. A line that fits the buffer does.
-/

open Lines

namespace RlNginx

/-- `RN_RESOLV_NAMESERVER_MAX`. -/
def rnResolvNameserverMax : ℕ := 256

/-! ## One line -/

/-- `rn_resolv_nameserver_t`. -/
inductive ResolvNameserver where
  | none
  | inet
  | inet6
  | unusable
  deriving DecidableEq, Repr

/-- `rn_resolv_is_blank`. -/
def rnResolvIsBlank (c : UInt8) : Bool :=
  c == 32 || c == 9

/-- `rn_resolv_ends_field` : blanks, NUL, line endings, and the comment markers. -/
def rnResolvEndsField (c : UInt8) : Bool :=
  rnResolvIsBlank c || c == 0 || c == 13 || c == 10 || c == 35 || c == 59

/-- `rn_resolv_store` : the stored address, and whether it is complete. -/
def rnResolvStore (address : Bytes) (outCapacity : ℕ) : Bytes × Bool :=
  if address.length + 1 ≤ outCapacity then (address, true)
  else (address.take (outCapacity - 1), false)

/-- `rn_resolv_conf_nameserver` past the keyword : its address field. -/
def rnResolvConfAddress (address : Bytes) (outCapacity : ℕ) : ResolvNameserver × Bytes :=
  let stored := rnResolvStore address outCapacity
  let bracketed := address.head? == some 91
  if address = [] then (.unusable, [])
  else if 37 ∈ address then (.unusable, stored.1)
  else if bracketed && (address.length < 3 || address.getLast? != some 93) then
    (.unusable, stored.1)
  else if bracketed || 58 ∉ address then
    if !stored.2 then (.unusable, stored.1)
    else (if bracketed then .inet6 else .inet, stored.1)
  else if address.length + 3 > outCapacity then (.unusable, stored.1)
  else (.inet6, 91 :: address ++ [93])

/-- `rn_resolv_conf_nameserver` : the kind, and what is written to `out`. -/
def rnResolvConfNameserver (line : Bytes) (outCapacity : ℕ) : ResolvNameserver × Bytes :=
  let directive := ascii "nameserver"
  if outCapacity = 0 then (.none, [])
  else
    let p := line.dropWhile rnResolvIsBlank
    if p.take directive.length ≠ directive then (.none, [])
    else
      let p := p.drop directive.length
      if p.head?.any (!rnResolvEndsField ·) then (.none, [])
      else
        rnResolvConfAddress
          ((p.dropWhile rnResolvIsBlank).takeWhile (!rnResolvEndsField ·)) outCapacity

/-! ## The file -/

/-- The string that `ngx_strlen` measures in a buffer. -/
def cString (buffer : Bytes) : Bytes :=
  buffer.takeWhile (· != 0)

/-- The results of `fgets(line, sizeof(line), fp)` until it returns `NULL`, with
`char line[256]`. -/
def fgetsLines (content : Bytes) : List Bytes :=
  reads 10 255 content

/-- The loop of `rn_create_system_dns_resolver` over the results of `fgets`. `alloc n` says
that the allocation for name `n` succeeds, and `inet6` is `NGX_HAVE_INET6`. -/
def nameserverLoop (inet6 : Bool) (alloc : ℕ → Bool) :
    List Bytes → List Bytes → Option (List Bytes)
  | [], names => some names
  | line :: rest, names =>
    if names.length < 16 then
      match rnResolvConfNameserver (cString line) rnResolvNameserverMax with
      | (.none, _) => nameserverLoop inet6 alloc rest names
      | (.unusable, _) => nameserverLoop inet6 alloc rest names
      | (kind, address) =>
        if kind = .inet6 && !inet6 then nameserverLoop inet6 alloc rest names
        else if alloc names.length then nameserverLoop inet6 alloc rest (names ++ [address])
        else none
    else some names

/-- `rn_create_system_dns_resolver` : the names it passes to `ngx_resolver_create`, if it gets
there. `file` is the content of `/etc/resolv.conf`, when it can be opened. -/
def rnCreateSystemDnsResolver (inet6 : Bool) (alloc : ℕ → Bool) (file : Option Bytes) :
    Option (List Bytes) :=
  let names := match file with
    | none => some []
    | some content => nameserverLoop inet6 alloc (fgetsLines content) []
  names.map fun names => if names.length = 0 then [ascii "127.0.0.1"] else names

/-! ## Complete lines -/

/-- The usable nameserver of a line, if it names one. -/
def nameserverOf (line : Bytes) : Option Bytes :=
  match rnResolvConfNameserver line rnResolvNameserverMax with
  | (.inet, address) => some address
  | (.inet6, address) => some address
  | _ => none

/-- The names that complete lines give : the first 16 usable ones, or the local host. -/
def expectedNames (content : Bytes) : List Bytes :=
  let names := ((lines 10 content).filterMap nameserverOf).take 16
  if names.length = 0 then [ascii "127.0.0.1"] else names

/-- The nameservers the code takes, each with the number of the line it was read from. -/
def takenByLine (content : Bytes) : List (Bytes × ℕ) :=
  (labelled (fun line => (fgetsLines line).filterMap nameserverOf) 0 (lines 10 content)).take 16

/-- The nameservers of the complete lines, each with the number of its line. -/
def namedByLine (content : Bytes) : List (Bytes × ℕ) :=
  (labelled (fun line => (nameserverOf line).toList) 0 (lines 10 content)).take 16

/-- The resolver gets the names of the complete lines, and each of them was read from its own
line : no part of a comment or of another directive, and no truncated address. -/
def NamesWholeLines (content : Bytes) : Prop :=
  takenByLine content = namedByLine content ∧
  rnCreateSystemDnsResolver true (fun _ => true) (some content) = some (expectedNames content) ∧
  ∀ alloc names, rnCreateSystemDnsResolver true alloc (some content) = some names →
    names = expectedNames content

/-- Every line that is reached before 16 nameservers are found yields, read by read, what it
yields as a whole. -/
def ReadsWhole (content : Bytes) : Prop :=
  ∀ k line, (lines 10 content)[k]? = some line →
    (((lines 10 content).take k).filterMap nameserverOf).length < 16 →
    ((fgetsLines line).filterMap nameserverOf).take
      (16 - (((lines 10 content).take k).filterMap nameserverOf).length) =
        (nameserverOf line).toList

section Loop

variable {content : Bytes}

theorem cString_of_nulFree {line : Bytes} (h : NulFree line) : cString line = line := by
  rw [cString, List.takeWhile_eq_self_iff]
  intro b hb
  simpa using h b hb

/-- The reads are made of the bytes of the file. -/
theorem fgetsLines_nulFree (h : NulFree content) : ∀ line ∈ fgetsLines content, NulFree line := by
  intro line hline b hb
  refine h b ?_
  rw [← reads_flatten (by decide : 0 < 255) content]
  exact List.mem_flatten.mpr ⟨line, hline, hb⟩

/-- One round of the loop : it stops with 16 names, passes a read over, or takes its
nameserver. -/
theorem nameserverLoop_cases {inet6 : Bool} {alloc : ℕ → Bool} {line : Bytes}
    {reads names out : List Bytes}
    (h : nameserverLoop inet6 alloc (line :: reads) names = some out) :
    (16 ≤ names.length ∧ out = names) ∨
    (names.length < 16 ∧ (inet6 = true → nameserverOf (cString line) = none) ∧
      nameserverLoop inet6 alloc reads names = some out) ∨
    (names.length < 16 ∧ ∃ address, nameserverOf (cString line) = some address ∧
      nameserverLoop inet6 alloc reads (names ++ [address]) = some out) := by
  rw [nameserverLoop] at h
  unfold nameserverOf
  by_cases hlen : names.length < 16
  · rw [if_pos hlen] at h
    generalize rnResolvConfNameserver (cString line) rnResolvNameserverMax = result at h ⊢
    rcases result with ⟨_ | _ | _ | _, address⟩
    · exact .inr (.inl ⟨hlen, fun _ => rfl, h⟩)
    · simp only [reduceCtorEq, decide_false, Bool.false_and, Bool.false_eq_true, if_false] at h
      split_ifs at h
      exact .inr (.inr ⟨hlen, address, rfl, h⟩)
    · dsimp only at h
      split_ifs at h with hno
      · exact .inr (.inl ⟨hlen, fun hyes => absurd hno (by simp [hyes]), h⟩)
      · exact .inr (.inr ⟨hlen, address, rfl, h⟩)
    · exact .inr (.inl ⟨hlen, fun _ => rfl, h⟩)
  · rw [if_neg hlen] at h
    exact .inl ⟨by omega, (Option.some.inj h).symm⟩

/-- What the loop collects : the first 16 usable nameservers of what it is given. -/
theorem nameserverLoop_eq (alloc : ℕ → Bool) : ∀ {reads names out : List Bytes},
    (∀ line ∈ reads, NulFree line) → nameserverLoop true alloc reads names = some out →
      out = names ++ (reads.filterMap nameserverOf).take (16 - names.length)
  | [], names, out, _, h => by
    rw [nameserverLoop] at h
    simpa using (Option.some.inj h).symm
  | line :: reads, names, out, hnul, h => by
    have hrest : ∀ l ∈ reads, NulFree l := fun l hl => hnul l (List.mem_cons_of_mem _ hl)
    have hline := cString_of_nulFree (hnul line List.mem_cons_self)
    rcases nameserverLoop_cases h with
      ⟨hlen, rfl⟩ | ⟨hlen, hnone, hloop⟩ | ⟨hlen, address, hsome, hloop⟩
    · rw [show 16 - out.length = 0 by omega]
      simp
    · rw [hline] at hnone
      rw [List.filterMap_cons_none (hnone rfl)]
      exact nameserverLoop_eq alloc hrest hloop
    · rw [hline] at hsome
      rw [List.filterMap_cons_some hsome, nameserverLoop_eq alloc hrest hloop,
        show 16 - names.length = 16 - (names.length + 1) + 1 by omega, List.take_succ_cons]
      simp

/-- The reads of the file are those of its lines. -/
theorem fgetsLines_eq (content : Bytes) :
    fgetsLines content = (lines 10 content).flatMap fgetsLines :=
  reads_eq_flatMap (by decide) content

/-- What the resolver gets : the nameservers taken, without their line numbers. -/
theorem rnCreateSystemDnsResolver_taken (hnul : NulFree content) {alloc : ℕ → Bool}
    {names : List Bytes} (h : rnCreateSystemDnsResolver true alloc (some content) = some names) :
    names = if ((takenByLine content).map Prod.fst).length = 0 then [ascii "127.0.0.1"]
      else (takenByLine content).map Prod.fst := by
  obtain ⟨out, hout, rfl⟩ := Option.map_eq_some_iff.mp h
  have hloop := nameserverLoop_eq alloc (fgetsLines_nulFree hnul) hout
  have htaken : (takenByLine content).map Prod.fst = out := by
    rw [hloop, takenByLine, List.map_take, labelled_fst, fgetsLines_eq, List.filterMap_flatMap]
    rfl
  rw [htaken]

/-- Without a failing allocation, the resolver is created. -/
theorem nameserverLoop_total : ∀ (reads names : List Bytes),
    ∃ out, nameserverLoop true (fun _ => true) reads names = some out
  | [], names => ⟨names, rfl⟩
  | line :: reads, names => by
    rw [nameserverLoop]
    by_cases hlen : names.length < 16
    · rw [if_pos hlen]
      rcases rnResolvConfNameserver (cString line) rnResolvNameserverMax with ⟨kind, address⟩
      rcases kind with _ | _ | _ | _
      · exact nameserverLoop_total reads names
      · exact nameserverLoop_total reads (names ++ [address])
      · exact nameserverLoop_total reads (names ++ [address])
      · exact nameserverLoop_total reads names
    · rw [if_neg hlen]
      exact ⟨names, rfl⟩

/-- The names of the complete lines, without their line numbers. -/
theorem namedByLine_fst (content : Bytes) : (namedByLine content).map Prod.fst =
    ((lines 10 content).filterMap nameserverOf).take 16 := by
  rw [namedByLine, List.map_take, labelled_fst, List.filterMap_eq_flatMap_toList]

end Loop

/-- A line names one nameserver at most. -/
theorem take_nameserverOf (line : Bytes) {N : ℕ} (hN : 0 < N) :
    (nameserverOf line).toList.take N = (nameserverOf line).toList := by
  refine List.take_of_length_le ?_
  rcases nameserverOf line with _ | address
  · exact Nat.zero_le _
  · exact hN

/-- The resolver gets the nameservers of the complete lines, each from its own line, exactly
when every line that is reached yields, read by read, what it yields as a whole. -/
theorem nameservers_by_line (content : Bytes) (hnul : NulFree content) :
    NamesWholeLines content ↔ ReadsWhole content := by
  have hcount : ∀ k, ((lines 10 content).take k).flatMap (fun line => (nameserverOf line).toList) =
      ((lines 10 content).take k).filterMap nameserverOf :=
    fun k => (List.filterMap_eq_flatMap_toList _ _).symm
  have hlabels : takenByLine content = namedByLine content ↔ ReadsWhole content := by
    rw [takenByLine, namedByLine, take_labelled_eq_iff]
    refine forall_congr' fun k => forall_congr' fun line => ?_
    rw [hcount]
    refine forall_congr' fun hline => forall_congr' fun hlt => ?_
    rw [take_nameserverOf line (by omega)]
  constructor
  · exact fun h => hlabels.mp h.1
  · intro h
    have hsame := hlabels.mpr h
    have hnames : ∀ alloc names,
        rnCreateSystemDnsResolver true alloc (some content) = some names →
        names = expectedNames content := by
      intro alloc names hnames
      rw [rnCreateSystemDnsResolver_taken hnul hnames, hsame, namedByLine_fst]
      rfl
    obtain ⟨out, hout⟩ := nameserverLoop_total (fgetsLines content) []
    have hcreated : rnCreateSystemDnsResolver true (fun _ => true) (some content) =
        some (if out.length = 0 then [ascii "127.0.0.1"] else out) :=
      congrArg (Option.map _) hout
    refine ⟨hsame, ?_, hnames⟩
    rw [hcreated, hnames _ _ hcreated]

/-- A line that fits the buffer yields, read by read, what it yields as a whole. -/
theorem filterMap_of_fits {content line : Bytes} (hline : line ∈ lines 10 content)
    (hfits : line.length ≤ 255) :
    (fgetsLines line).filterMap nameserverOf = (nameserverOf line).toList := by
  rw [fgetsLines, reads_of_fits (by decide) hline hfits, List.filterMap_eq_flatMap_toList,
    List.flatMap_singleton]

/-- Lines that fit the buffer are read whole. -/
theorem readsWhole_of_fits {content : Bytes}
    (h : ∀ line ∈ lines 10 content, line.length ≤ 255) : ReadsWhole content := by
  intro k line hline hlt
  have hmem := List.mem_of_getElem? hline
  rw [filterMap_of_fits hmem (h line hmem)]
  exact take_nameserverOf line (by omega)

/-- A file with short lines. -/
theorem two_nameservers : NamesWholeLines
    (ascii "# resolvers\nnameserver 10.0.0.1\nnameserver fd7a:115c:a1e0::53\n") :=
  (nameservers_by_line _ (by decide)).mpr (readsWhole_of_fits (by decide))

/-- A comment of 255 bytes runs into the word `nameserver`. -/
def commentConf : Bytes :=
  ascii "#" ++ List.replicate 254 120 ++ ascii "nameserver 6.6.6.6\n"

/-- A part of the comment becomes the only nameserver, where the file names none. -/
theorem comment_becomes_nameserver : NulFree commentConf ∧
    rnCreateSystemDnsResolver true (fun _ => true) (some commentConf) =
      some [ascii "6.6.6.6"] ∧
    expectedNames commentConf = [ascii "127.0.0.1"] ∧ ¬NamesWholeLines commentConf := by
  have hconf : NulFree commentConf ∧
      rnCreateSystemDnsResolver true (fun _ => true) (some commentConf) =
        some [ascii "6.6.6.6"] ∧
      expectedNames commentConf = [ascii "127.0.0.1"] := by
    decide +kernel
  obtain ⟨hnul, hnames, hexpected⟩ := hconf
  refine ⟨hnul, hnames, hexpected, ?_⟩
  rintro ⟨-, hright, -⟩
  rw [hnames, hexpected] at hright
  exact absurd hright (by decide)

end RlNginx
