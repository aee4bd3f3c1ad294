import RlNginx.Lib.Buffer
import RlNginx.Lib.Scan
import RlNginx.ResolvConf

/-!
# System DNS : one line, byte by byte

`rn_resolv_conf_nameserver` scans a line of known length, which need not end with a NUL, and
writes the nameserver it names to a buffer of the caller. `rnResolvConfNameserverInto` has
every write of it; what is written is what `rnResolvConfNameserver` returns
(`rnResolvConfNameserverInto_leaves`), and all of it lies below the capacity.

The format of the line is stated without the scanning loops : `AfterKeyword` for the keyword
as a whole field, `FirstField` for the address. `nameserver_conversion` says what is made of
every address. The code tells an IPv6 literal from its `':'` or its brackets alone, so a text
such as `dns.example:53` is passed on as if it were one (`hostPort_passed_as_literal`), and
`literals_only_iff` says when that does not happen.

`readsWhole_iff` states in the same terms when a line that is longer than the buffer of
`rn_create_system_dns_resolver` is read as one.
-/

open Lines

namespace RlNginx

/-! ## The writes -/

/-- The output of `rn_resolv_conf_nameserver` : the bytes at `out`, and `*out_len`. -/
structure NameserverOut where
  out : Buffer UInt8
  outLen : ℕ

/-- `rn_resolv_store` : whether the address fits, and the output. -/
def rnResolvStoreInto (address : Bytes) (outCapacity : ℕ) (o : NameserverOut) :
    Bool × NameserverOut :=
  let complete : Bool := address.length + 1 ≤ outCapacity
  let len := if !complete then outCapacity - 1 else address.length
  (complete, ⟨(o.out.copy 0 (address.take len)).put len 0, len⟩)

/-- `rn_resolv_conf_nameserver` past the keyword : its address field. -/
def rnResolvConfAddressInto (address : Bytes) (outCapacity : ℕ) (o : NameserverOut) :
    ResolvNameserver × NameserverOut :=
  let len := address.length
  let stored := rnResolvStoreInto address outCapacity o
  let bracketed := address.head? == some 91
  if len = 0 then (.unusable, o)
  else if 37 ∈ address then (.unusable, stored.2)
  else if bracketed && (len < 3 || address.getLast? != some 93) then (.unusable, stored.2)
  else if bracketed || 58 ∉ address then
    if !stored.1 then (.unusable, stored.2)
    else (if bracketed then .inet6 else .inet, stored.2)
  else if len + 3 > outCapacity then (.unusable, stored.2)
  else
    let out := ((o.out.put 0 91).copy 1 address).put (len + 1) 93
    (.inet6, ⟨out.put (len + 2) 0, len + 2⟩)

/-- `rn_resolv_conf_nameserver`, for a caller that passes `out` and `out_len`. `line` is
`none` for a null pointer. -/
def rnResolvConfNameserverInto (line : Option Bytes) (outCapacity : ℕ) (o : NameserverOut) :
    ResolvNameserver × NameserverOut :=
  let directive := ascii "nameserver"
  if outCapacity = 0 then (.none, o)
  else
    let o : NameserverOut := ⟨o.out.put 0 0, 0⟩
    match line with
    | none => (.none, o)
    | some line =>
      let p := line.dropWhile rnResolvIsBlank
      if p.take directive.length ≠ directive then (.none, o)
      else
        let p := p.drop directive.length
        if p.head?.any (!rnResolvEndsField ·) then (.none, o)
        else
          rnResolvConfAddressInto
            ((p.dropWhile rnResolvIsBlank).takeWhile (!rnResolvEndsField ·)) outCapacity o

/-- The output is `text`, ended by its only NUL and inside the capacity, and from `b` on
nothing was written but that. -/
structure LeavesText (outCapacity : ℕ) (b : Buffer UInt8) (o : NameserverOut) (text : Bytes) :
    Prop where
  within : Buffer.WrittenBelow outCapacity b o.out
  holds : o.out.Holds 0 text
  terminated : o.out.mem o.outLen = 0
  length : o.outLen = text.length
  fits : text.length < outCapacity
  nulFree : NulFree text

section Writes

variable {address : Bytes} {outCapacity : ℕ} {b : Buffer UInt8} {o : NameserverOut}

/-- A text that fits, copied to the start of the buffer and ended with a NUL. -/
theorem leavesText_copy (text : Bytes) (hfits : text.length < outCapacity) (hnul : NulFree text)
    (hwritten : Buffer.WrittenBelow outCapacity b o.out) :
    LeavesText outCapacity b ⟨(o.out.copy 0 text).put text.length 0, text.length⟩ text where
  within := (hwritten.copy (by omega)).put hfits
  holds := (Buffer.holds_copy text o.out 0).put (by omega)
  terminated := Buffer.put_mem_self _ _ _
  length := rfl
  fits := hfits
  nulFree := hnul

/-- `rn_resolv_store` keeps what fits, and says whether that is all. -/
theorem rnResolvStoreInto_leaves (hcap : 1 ≤ outCapacity) (hnul : NulFree address)
    (hwritten : Buffer.WrittenBelow outCapacity b o.out) :
    (rnResolvStoreInto address outCapacity o).1 = (rnResolvStore address outCapacity).2 ∧
    LeavesText outCapacity b (rnResolvStoreInto address outCapacity o).2
      (rnResolvStore address outCapacity).1 := by
  by_cases hfits : address.length + 1 ≤ outCapacity
  · simp only [rnResolvStoreInto, rnResolvStore, hfits, decide_true, Bool.not_true,
      Bool.false_eq_true, if_true, if_false, List.take_length, true_and]
    exact leavesText_copy address hfits hnul hwritten
  · have hlen : (address.take (outCapacity - 1)).length = outCapacity - 1 := by
      rw [List.length_take]
      omega
    have hleaves := leavesText_copy (address.take (outCapacity - 1)) (by omega)
      (fun b hb => hnul b (List.mem_of_mem_take hb)) hwritten
    rw [hlen] at hleaves
    simp only [rnResolvStoreInto, rnResolvStore, hfits, decide_false, Bool.not_false, if_true,
      if_false, true_and]
    exact hleaves

theorem length_brackets (s : Bytes) : (91 :: s ++ [93] : Bytes).length = s.length + 2 := by
  simp

/-- A literal put in brackets. -/
theorem leavesText_bracketed (hfits : address.length + 2 < outCapacity) (hnul : NulFree address)
    (hwritten : Buffer.WrittenBelow outCapacity b o.out) :
    LeavesText outCapacity b
      ⟨(((o.out.put 0 91).copy 1 address).put (address.length + 1) 93).put
        (address.length + 2) 0, address.length + 2⟩ (91 :: address ++ [93]) where
  within := (((hwritten.put (by omega)).copy (by omega)).put (by omega)).put hfits
  holds := by
    have hbody : (((o.out.put 0 91).copy 1 address).put (address.length + 1) 93).Holds 0
        (91 :: address) := by
      refine ((Buffer.holds_copy address _ 1).put (by omega)).cons ?_
      rw [Buffer.put_mem_of_ne (by omega), Buffer.copy_mem_of_lt (by omega), Buffer.put_mem_self]
    refine (hbody.concat ?_).put (by simp)
    rw [List.length_cons, Nat.zero_add, Buffer.put_mem_self]
  terminated := Buffer.put_mem_self _ _ _
  length := (length_brackets address).symm
  fits := length_brackets address ▸ hfits
  nulFree := by
    intro c hc
    simp only [List.cons_append, List.mem_cons, List.mem_append, List.not_mem_nil, or_false] at hc
    rcases hc with rfl | hc | rfl
    · decide
    · exact hnul c hc
    · decide

/-- The writes for an address leave the text that `rnResolvConfAddress` returns. -/
theorem rnResolvConfAddressInto_leaves (hcap : 1 ≤ outCapacity) (hnul : NulFree address)
    (ho : LeavesText outCapacity b o []) :
    (rnResolvConfAddressInto address outCapacity o).1 =
      (rnResolvConfAddress address outCapacity).1 ∧
    LeavesText outCapacity b (rnResolvConfAddressInto address outCapacity o).2
      (rnResolvConfAddress address outCapacity).2 := by
  obtain ⟨hcomplete, hstored⟩ := rnResolvStoreInto_leaves hcap hnul ho.within
  simp only [rnResolvConfAddressInto, rnResolvConfAddress, hcomplete, List.length_eq_zero_iff]
  split_ifs
  · exact ⟨rfl, ho⟩
  · exact ⟨rfl, hstored⟩
  · exact ⟨rfl, hstored⟩
  · exact ⟨rfl, hstored⟩
  · exact ⟨rfl, hstored⟩
  · exact ⟨rfl, hstored⟩
  · exact ⟨rfl, hstored⟩
  · exact ⟨rfl, leavesText_bracketed (by omega) hnul ho.within⟩

/-- The output a call starts with. -/
theorem leavesText_cleared (hcap : 1 ≤ outCapacity) (o : NameserverOut) :
    LeavesText outCapacity o.out ⟨o.out.put 0 0, 0⟩ [] :=
  leavesText_copy [] hcap (by simp [NulFree]) (Buffer.WrittenBelow.refl _ o.out)

/-- The writes for a line leave the text that `rnResolvConfNameserver` returns. -/
theorem rnResolvConfNameserverInto_leaves (hcap : 1 ≤ outCapacity) (line : Bytes)
    (o : NameserverOut) :
    (rnResolvConfNameserverInto (some line) outCapacity o).1 =
      (rnResolvConfNameserver line outCapacity).1 ∧
    LeavesText outCapacity o.out (rnResolvConfNameserverInto (some line) outCapacity o).2
      (rnResolvConfNameserver line outCapacity).2 := by
  have hcleared := leavesText_cleared hcap o
  simp only [rnResolvConfNameserverInto, rnResolvConfNameserver]
  split_ifs with hzero hkeyword hfield
  · omega
  · exact ⟨rfl, hcleared⟩
  · exact ⟨rfl, hcleared⟩
  · refine rnResolvConfAddressInto_leaves hcap ?_ hcleared
    -- a NUL ends the field
    rintro c hc rfl
    exact absurd (List.mem_takeWhile_imp hc) (by decide)

end Writes

/-! ## The format of a line -/

/-- After leading blanks, the line has the keyword `nameserver` as a whole field : `tail` is
what follows it, and begins with the end of a field unless the line ends there. -/
def AfterKeyword (line tail : Bytes) : Prop :=
  (∃ indent, Scan rnResolvIsBlank line indent (ascii "nameserver" ++ tail)) ∧
  ∀ c ∈ tail.head?, rnResolvEndsField c = true

/-- `address` is the text of `tail` after blanks, up to the end of the field or of the line. -/
def FirstField (tail address : Bytes) : Prop :=
  ∃ gap rest, Scan rnResolvIsBlank tail gap (address ++ rest) ∧
    Scan (!rnResolvEndsField ·) (address ++ rest) address rest

section Format

variable {line tail address : Bytes} {outCapacity : ℕ}

/-- The first field is what the two loops delimit. -/
theorem firstField_iff : FirstField tail address ↔
    address = (tail.dropWhile rnResolvIsBlank).takeWhile (!rnResolvEndsField ·) := by
  constructor
  · rintro ⟨gap, rest, hgap, hfield⟩
    rw [hgap.rest_eq, hfield.run_eq]
  · rintro rfl
    refine ⟨tail.takeWhile rnResolvIsBlank,
      (tail.dropWhile rnResolvIsBlank).dropWhile (!rnResolvEndsField ·), ?_, ?_⟩
    · rw [List.takeWhile_append_dropWhile]
      exact scan_takeWhile _ _
    · rw [List.takeWhile_append_dropWhile]
      exact scan_takeWhile _ _

/-- The keyword is where the comparison finds it. -/
theorem afterKeyword_iff : AfterKeyword line tail ↔
    line.dropWhile rnResolvIsBlank = ascii "nameserver" ++ tail ∧
    tail.head?.any (!rnResolvEndsField ·) = false := by
  have hhead : (∀ c ∈ tail.head?, rnResolvEndsField c = true) ↔
      tail.head?.any (!rnResolvEndsField ·) = false := by
    rcases tail.head? with _ | c <;> simp
  rw [AfterKeyword, hhead]
  refine and_congr_left fun _ => ?_
  constructor
  · rintro ⟨indent, hindent⟩
    exact hindent.rest_eq
  · intro h
    rw [← h]
    exact ⟨_, scan_takeWhile rnResolvIsBlank line⟩

/-- The text behind the keyword is determined by the line. -/
theorem AfterKeyword.tail_eq {tail' : Bytes} (h : AfterKeyword line tail)
    (h' : AfterKeyword line tail') : tail = tail' := by
  obtain ⟨hline, -⟩ := afterKeyword_iff.mp h
  obtain ⟨hline', -⟩ := afterKeyword_iff.mp h'
  exact List.append_cancel_left (hline.symm.trans hline')

/-- With the keyword, the address decides. -/
theorem rnResolvConfNameserver_of_field (hcap : 1 ≤ outCapacity) (hkey : AfterKeyword line tail)
    (hfield : FirstField tail address) :
    rnResolvConfNameserver line outCapacity = rnResolvConfAddress address outCapacity := by
  obtain ⟨hline, hends⟩ := afterKeyword_iff.mp hkey
  simp only [rnResolvConfNameserver]
  rw [if_neg (by omega), hline, List.take_left, if_neg (by simp), List.drop_left, hends,
    if_neg (by decide), ← firstField_iff.mp hfield]

/-- Without it, the line is not a nameserver directive. -/
theorem rnResolvConfNameserver_of_not_keyword (hkey : ¬∃ tail, AfterKeyword line tail) :
    rnResolvConfNameserver line outCapacity = (.none, []) := by
  simp only [rnResolvConfNameserver]
  split_ifs with hzero hkeyword hends
  · rfl
  · rfl
  · rfl
  · refine absurd ⟨(line.dropWhile rnResolvIsBlank).drop (ascii "nameserver").length, ?_⟩ hkey
    refine afterKeyword_iff.mpr ⟨?_, by simpa using hends⟩
    have hsplit := List.take_append_drop (ascii "nameserver").length
      (line.dropWhile rnResolvIsBlank)
    rw [not_not.mp hkeyword] at hsplit
    exact hsplit.symm

/-- A line without the keyword, or one with an address. -/
theorem rnResolvConfNameserver_cases (hcap : 1 ≤ outCapacity) (line : Bytes) :
    ((¬∃ tail, AfterKeyword line tail) ∧
      rnResolvConfNameserver line outCapacity = (.none, [])) ∨
    ∃ tail address, AfterKeyword line tail ∧ FirstField tail address ∧
      rnResolvConfNameserver line outCapacity = rnResolvConfAddress address outCapacity := by
  by_cases hkey : ∃ tail, AfterKeyword line tail
  · obtain ⟨tail, htail⟩ := hkey
    have hfield : FirstField tail _ := firstField_iff.mpr rfl
    exact .inr ⟨tail, _, htail, hfield, rnResolvConfNameserver_of_field hcap htail hfield⟩
  · exact .inl ⟨hkey, rnResolvConfNameserver_of_not_keyword hkey⟩

end Format

/-! ## What is made of an address -/

/-- The bytes of an IPv6 literal : hexadecimal digits, `':'` and `'.'`. -/
def literalByte (c : UInt8) : Bool :=
  (48 ≤ c && c ≤ 57) || (97 ≤ c && c ≤ 102) || (65 ≤ c && c ≤ 70) || c == 58 || c == 46

/-- What an IPv6 literal must satisfy : only such bytes, and at least two `':'`. -/
def LiteralText (text : Bytes) : Prop :=
  text.all literalByte = true ∧ 2 ≤ text.count 58

instance (text : Bytes) : Decidable (LiteralText text) :=
  inferInstanceAs (Decidable (_ ∧ _))

/-- The form in which an address is passed on. -/
def converted (address : Bytes) : Bytes :=
  if address.head? = some 91 ∨ 58 ∉ address then address else 91 :: address ++ [93]

/-- An address that is not passed on : it is empty, has a zone index or broken brackets, or
does not fit. -/
def UnusableAddress (outCapacity : ℕ) (address : Bytes) : Prop :=
  address = [] ∨ 37 ∈ address ∨
  (address.head? = some 91 ∧ (address.length < 3 ∨ address.getLast? ≠ some 93)) ∨
  outCapacity < (converted address).length + 1

/-- The kind and the text for every address. -/
structure Classified (outCapacity : ℕ) (address : Bytes) (kind : ResolvNameserver)
    (text : Bytes) : Prop where
  unusable : kind = .unusable ↔ UnusableAddress outCapacity address
  inet : kind = .inet ↔ address ≠ [] ∧ 37 ∉ address ∧ 58 ∉ address ∧ address.head? ≠ some 91 ∧
    address.length + 1 ≤ outCapacity
  inetText : kind = .inet → text = address
  inet6 : ∀ literal, LiteralText literal → address = literal ∨ address = 91 :: literal ++ [93] →
    (converted address).length + 1 ≤ outCapacity → kind = .inet6
  inet6Text : kind = .inet6 →
    text = if address.head? = some 91 then address else 91 :: address ++ [93]
  unusableText : kind = .unusable → text <+: address ∧ text.length + 1 ≤ outCapacity ∧
    ∀ shorter, shorter <+: address → shorter.length + 1 ≤ outCapacity → shorter <+: text

section Address

variable {address : Bytes} {outCapacity : ℕ}

/-- What `rn_resolv_store` keeps is a beginning of the address. -/
theorem rnResolvStore_fst (address : Bytes) (outCapacity : ℕ) :
    (rnResolvStore address outCapacity).1 = address.take (outCapacity - 1) := by
  unfold rnResolvStore
  split_ifs with h
  · change address = _
    rw [List.take_of_length_le (by omega)]
  · rfl

/-- What makes an address usable. -/
theorem not_unusable (hne : address ≠ []) (hzone : 37 ∉ address)
    (hclosed : address.head? = some 91 → 3 ≤ address.length ∧ address.getLast? = some 93)
    (hfits : (converted address).length + 1 ≤ outCapacity) :
    ¬UnusableAddress outCapacity address := by
  rintro (hempty | hzone' | ⟨hopen, hshort | hlast⟩ | hcap)
  · exact hne hempty
  · exact hzone hzone'
  · obtain ⟨hlong, -⟩ := hclosed hopen
    omega
  · exact hlast (hclosed hopen).2
  · omega

/-- The three outcomes of an address. -/
theorem rnResolvConfAddress_cases (address : Bytes) (outCapacity : ℕ) :
    (UnusableAddress outCapacity address ∧
      rnResolvConfAddress address outCapacity = (.unusable, address.take (outCapacity - 1))) ∨
    (¬UnusableAddress outCapacity address ∧ (address.head? = some 91 ∨ 58 ∈ address) ∧
      rnResolvConfAddress address outCapacity = (.inet6, converted address)) ∨
    (¬UnusableAddress outCapacity address ∧ address.head? ≠ some 91 ∧ 58 ∉ address ∧
      rnResolvConfAddress address outCapacity = (.inet, address)) := by
  simp only [rnResolvConfAddress, rnResolvStore_fst]
  by_cases hempty : address = []
  · exact .inl ⟨.inl hempty, by simp [hempty]⟩
  by_cases hzone : 37 ∈ address
  · exact .inl ⟨.inr (.inl hzone), by simp [hempty, hzone]⟩
  by_cases hopen : address.head? = some 91
  · have hconv : converted address = address := if_pos (.inl hopen)
    by_cases hbroken : address.length < 3 ∨ address.getLast? ≠ some 93
    · exact .inl ⟨.inr (.inr (.inl ⟨hopen, hbroken⟩)), by simp [hempty, hzone, hopen, hbroken]⟩
    by_cases hfits : address.length + 1 ≤ outCapacity
    · have hall : address.take (outCapacity - 1) = address := List.take_of_length_le (by omega)
      obtain ⟨hlong, hlast⟩ := not_or.mp hbroken
      refine .inr (.inl ⟨?_, .inl hopen, ?_⟩)
      · exact not_unusable hempty hzone (fun _ => ⟨by omega, not_not.mp hlast⟩) (by rwa [hconv])
      · simp [hempty, hzone, hopen, hbroken, rnResolvStore, hfits, hconv, hall]
    · refine .inl ⟨.inr (.inr (.inr ?_)), ?_⟩
      · rw [hconv]
        omega
      · simp [hempty, hzone, hopen, hbroken, rnResolvStore, hfits]
  by_cases hcolon : 58 ∈ address
  · have hconv : converted address = 91 :: address ++ [93] :=
      if_neg (by simp [hopen, hcolon])
    by_cases hfits : address.length + 3 > outCapacity
    · refine .inl ⟨.inr (.inr (.inr ?_)), ?_⟩
      · rw [hconv, length_brackets]
        omega
      · simp [hempty, hzone, hopen, hcolon, hfits]
    · refine .inr (.inl ⟨?_, .inr hcolon, ?_⟩)
      · refine not_unusable hempty hzone (fun h => absurd h hopen) ?_
        rw [hconv, length_brackets]
        omega
      · simp [hempty, hzone, hopen, hcolon, hfits, hconv]
  · have hconv : converted address = address := if_pos (.inr hcolon)
    by_cases hfits : address.length + 1 ≤ outCapacity
    · have hall : address.take (outCapacity - 1) = address := List.take_of_length_le (by omega)
      refine .inr (.inr ⟨?_, hopen, hcolon, ?_⟩)
      · exact not_unusable hempty hzone (fun h => absurd h hopen) (by rwa [hconv])
      · simp [hempty, hzone, hopen, hcolon, rnResolvStore, hfits, hall]
    · refine .inl ⟨.inr (.inr (.inr ?_)), ?_⟩
      · rw [hconv]
        omega
      · simp [hempty, hzone, hopen, hcolon, rnResolvStore, hfits]

/-- An address is a nameserver, usable or not. -/
theorem rnResolvConfAddress_ne_none (address : Bytes) (outCapacity : ℕ) :
    (rnResolvConfAddress address outCapacity).1 ≠ .none := by
  rcases rnResolvConfAddress_cases address outCapacity with ⟨-, h⟩ | ⟨-, -, h⟩ | ⟨-, -, -, h⟩
  all_goals
    rw [h]
    simp

/-- A literal, bare or in brackets, has no zone index and no broken brackets. -/
theorem literal_usable {literal : Bytes} (hliteral : LiteralText literal)
    (haddress : address = literal ∨ address = 91 :: literal ++ [93])
    (hfits : (converted address).length + 1 ≤ outCapacity) :
    ¬UnusableAddress outCapacity address ∧ (address.head? = some 91 ∨ 58 ∈ address) := by
  obtain ⟨hbytes, hcolons⟩ := hliteral
  have hmem : ∀ c ∈ literal, literalByte c = true := by simpa using hbytes
  have hcolon : 58 ∈ literal := List.count_pos_iff.mp (by omega)
  have hzone : 37 ∉ literal := fun h => absurd (hmem 37 h) (by decide)
  have hlen : 2 ≤ literal.length := le_trans hcolons List.count_le_length
  rcases haddress with rfl | rfl
  · have hopen : address.head? ≠ some 91 := fun h =>
      absurd (hmem 91 (List.mem_of_mem_head? h)) (by decide)
    have hne : address ≠ [] := List.ne_nil_of_mem hcolon
    exact ⟨not_unusable hne hzone (fun h => absurd h hopen) hfits, .inr hcolon⟩
  · have hzone' : 37 ∉ (91 :: literal ++ [93] : Bytes) := by simp [hzone]
    refine ⟨not_unusable (by simp) hzone' (fun _ => ⟨?_, List.getLast?_concat⟩) hfits, .inl rfl⟩
    rw [length_brackets]
    omega

/-- What is passed on without brackets. -/
theorem inet_iff : (address ≠ [] ∧ 37 ∉ address ∧ 58 ∉ address ∧ address.head? ≠ some 91 ∧
      address.length + 1 ≤ outCapacity) ↔
    ¬UnusableAddress outCapacity address ∧ address.head? ≠ some 91 ∧ 58 ∉ address := by
  constructor
  · rintro ⟨hne, hzone, hcolon, hopen, hfits⟩
    have hconv : converted address = address := if_pos (.inr hcolon)
    exact ⟨not_unusable hne hzone (fun h => absurd h hopen) (by rwa [hconv]), hopen, hcolon⟩
  · rintro ⟨hgood, hopen, hcolon⟩
    have hconv : converted address = address := if_pos (.inr hcolon)
    have hfits : address.length + 1 ≤ outCapacity := by
      by_contra hcap
      exact hgood (.inr (.inr (.inr (by rw [hconv]; omega))))
    exact ⟨fun h => hgood (.inl h), fun h => hgood (.inr (.inl h)), hcolon, hopen, hfits⟩

/-- What is passed on in brackets. -/
theorem converted_of_literal (h : address.head? = some 91 ∨ 58 ∈ address) :
    converted address = if address.head? = some 91 then address else 91 :: address ++ [93] := by
  by_cases hopen : address.head? = some 91
  · rw [if_pos hopen, converted, if_pos (.inl hopen)]
  · rw [if_neg hopen, converted, if_neg (by simp [hopen, h.resolve_left hopen])]

/-- Every address gets the kind and the text it should. -/
theorem rnResolvConfAddress_classified (hcap : 1 ≤ outCapacity) (address : Bytes) :
    Classified outCapacity address (rnResolvConfAddress address outCapacity).1
      (rnResolvConfAddress address outCapacity).2 := by
  rcases rnResolvConfAddress_cases address outCapacity with
    ⟨hbad, heq⟩ | ⟨hgood, hsix, heq⟩ | ⟨hgood, hopen, hcolon, heq⟩
  · rw [heq]
    refine ⟨by simp [hbad], ?_, by simp, ?_, by simp, fun _ => ?_⟩
    · rw [inet_iff]
      simp [hbad]
    · exact fun literal hliteral haddress hfits =>
        absurd hbad (literal_usable hliteral haddress hfits).1
    · refine ⟨List.take_prefix _ _, by rw [List.length_take]; omega, ?_⟩
      intro shorter hshorter hfits
      exact List.prefix_take_iff.mpr ⟨hshorter, by omega⟩
  · rw [heq]
    refine ⟨by simp [hgood], ?_, by simp, by simp, fun _ => converted_of_literal hsix, by simp⟩
    rw [inet_iff]
    exact iff_of_false (by simp) (fun h => hsix.elim h.2.1 h.2.2)
  · rw [heq]
    refine ⟨by simp [hgood], ?_, by simp, ?_, by simp, by simp⟩
    · rw [inet_iff]
      simp [hgood, hopen, hcolon]
    · intro literal hliteral haddress hfits
      exact absurd (literal_usable hliteral haddress hfits).2 (by simp [hopen, hcolon])

end Address

/-- Every line is converted inside the capacity : to nothing when it does not have the keyword,
and otherwise as its address demands. -/
theorem nameserver_conversion (line : Option Bytes) (outCapacity : ℕ) (o : NameserverOut)
    (hcap : 1 ≤ outCapacity) :
    ∃ kind text, (rnResolvConfNameserverInto line outCapacity o).1 = kind ∧
      LeavesText outCapacity o.out (rnResolvConfNameserverInto line outCapacity o).2 text ∧
      (kind = .none ↔ ¬∃ bytes ∈ line, ∃ tail, AfterKeyword bytes tail) ∧
      (kind = .none → text = []) ∧
      ∀ bytes ∈ line, ∀ tail, AfterKeyword bytes tail →
        ∃ address, FirstField tail address ∧ Classified outCapacity address kind text ∧
          ∀ other, FirstField tail other → other = address := by
  rcases line with _ | line
  · have hnull : rnResolvConfNameserverInto none outCapacity o =
        (.none, ⟨o.out.put 0 0, 0⟩) := if_neg (by omega)
    rw [hnull]
    exact ⟨.none, [], rfl, leavesText_cleared hcap o, by simp, fun _ => rfl, by simp⟩
  obtain ⟨hkind, hleaves⟩ := rnResolvConfNameserverInto_leaves hcap line o
  rcases rnResolvConfNameserver_cases hcap line with
    ⟨hkey, heq⟩ | ⟨tail, address, htail, hfield, heq⟩
  · rw [heq] at hkind hleaves
    refine ⟨_, _, hkind, hleaves, by simpa using hkey, fun _ => rfl, ?_⟩
    intro bytes hbytes tail htail
    obtain rfl : line = bytes := by simpa using hbytes
    exact absurd ⟨tail, htail⟩ hkey
  · rw [heq] at hkind hleaves
    have hne := rnResolvConfAddress_ne_none address outCapacity
    refine ⟨_, _, hkind, hleaves, ?_, fun h => absurd h hne, ?_⟩
    · exact iff_of_false hne (not_not.mpr ⟨line, rfl, tail, htail⟩)
    · intro bytes hbytes tail' htail'
      obtain rfl : line = bytes := by simpa using hbytes
      obtain rfl := htail.tail_eq htail'
      exact ⟨address, hfield, rnResolvConfAddress_classified hcap address, fun other hother =>
        (firstField_iff.mp hother).trans (firstField_iff.mp hfield).symm⟩

/-- A bare literal that fills a buffer of 11 bytes with its brackets and the NUL. -/
theorem literal_fills_buffer : 1 ≤ 11 ∧
    LeavesText 11 ⟨fun _ => 255, []⟩
      (rnResolvConfNameserverInto (some (ascii " nameserver\tfd7a::53#dns")) 11
        ⟨⟨fun _ => 255, []⟩, 7⟩).2 (ascii "[fd7a::53]") := by
  obtain ⟨kind, text, -, hleaves, -, -, hkey⟩ := nameserver_conversion
    (some (ascii " nameserver\tfd7a::53#dns")) 11 ⟨⟨fun _ => 255, []⟩, 7⟩ (by decide)
  obtain ⟨address, -, hclass, hunique⟩ := hkey _ rfl (ascii "\tfd7a::53#dns")
    (afterKeyword_iff.mpr (by decide))
  obtain rfl := hunique (ascii "fd7a::53") (firstField_iff.mpr (by decide))
  have hsix := hclass.inet6 (ascii "fd7a::53") (by decide) (.inl rfl) (by decide)
  obtain rfl : text = ascii "[fd7a::53]" := (hclass.inet6Text hsix).trans (by decide)
  exact ⟨by decide, hleaves⟩

/-! ## What is passed on as a literal -/

/-- The text inside the brackets, if there are any. -/
def literalOf (address : Bytes) : Bytes :=
  if address.head? = some 91 then address.tail.dropLast else address

/-- Only literals are passed on as such : what a line reports as IPv6 satisfies the conditions
of a literal between its brackets, and every other address with a `':'` or an opening bracket
is reported as unusable. -/
def LiteralsOnly (line : Bytes) (outCapacity : ℕ) : Prop :=
  ((rnResolvConfNameserver line outCapacity).1 = .inet6 →
    ∃ literal, (rnResolvConfNameserver line outCapacity).2 = 91 :: literal ++ [93] ∧
      LiteralText literal) ∧
  ∀ tail address, AfterKeyword line tail → FirstField tail address →
    address.head? = some 91 ∨ 58 ∈ address →
    (rnResolvConfNameserver line outCapacity).1 ≠ .inet6 →
    (rnResolvConfNameserver line outCapacity).1 = .unusable

/-- No address looks like a literal without being one : an address with a `':'` or an opening
bracket that has no zone index, no broken brackets and fits consists of hexadecimal digits,
`':'` and `'.'`, with at least two `':'`, apart from its brackets. -/
def NoFalseLiteral (line : Bytes) (outCapacity : ℕ) : Prop :=
  ∀ tail address, AfterKeyword line tail → FirstField tail address →
    address.head? = some 91 ∨ 58 ∈ address → ¬UnusableAddress outCapacity address →
    LiteralText (literalOf address)

/-- A name that `ngx_resolver_create` would parse as an IPv6 address, or as a host with a port,
has the form of a literal in brackets. -/
def ProperName (name : Bytes) : Prop :=
  name.head? = some 91 ∨ 58 ∈ name →
    ∃ literal, name = 91 :: literal ++ [93] ∧ LiteralText literal

section Literals

variable {line address : Bytes} {outCapacity : ℕ}

/-- What is passed on is the inner text in brackets. -/
theorem converted_eq_brackets (hgood : ¬UnusableAddress outCapacity address)
    (hsix : address.head? = some 91 ∨ 58 ∈ address) :
    converted address = 91 :: literalOf address ++ [93] := by
  rw [converted_of_literal hsix, literalOf]
  split_ifs with hopen
  · obtain ⟨rest, rfl⟩ := List.head?_eq_some_iff.mp hopen
    have hclosed : ¬((91 :: rest).length < 3 ∨ (91 :: rest).getLast? ≠ some 93) :=
      fun h => hgood (.inr (.inr (.inl ⟨hopen, h⟩)))
    obtain ⟨hlong, hlast⟩ := not_or.mp hclosed
    have hne : rest ≠ [] := by
      rintro rfl
      exact hlong (by simp)
    have hrest : 93 ∈ rest.getLast? := by
      rw [not_not, List.getLast?_cons_of_ne_nil hne] at hlast
      exact hlast
    rw [List.tail_cons, List.cons_append, List.dropLast_append_getLast? _ hrest]
  · rfl

/-- A line passes on only literals exactly when no address in it looks like one without being
one. -/
theorem literalsOnly_iff_noFalseLiteral (line : Bytes) (hcap : 1 ≤ outCapacity) :
    LiteralsOnly line outCapacity ↔ NoFalseLiteral line outCapacity := by
  constructor
  · rintro ⟨hliteral, -⟩ tail address htail hfield hsix hgood
    rw [rnResolvConfNameserver_of_field hcap htail hfield] at hliteral
    rcases rnResolvConfAddress_cases address outCapacity with
      ⟨hbad, -⟩ | ⟨-, -, heq⟩ | ⟨-, hopen, hcolon, -⟩
    · exact absurd hbad hgood
    · rw [heq] at hliteral
      obtain ⟨literal, htext, hok⟩ := hliteral rfl
      rw [converted_eq_brackets hgood hsix, List.append_cancel_right_eq, List.cons.injEq] at htext
      exact htext.2 ▸ hok
    · exact absurd hsix (by simp [hopen, hcolon])
  · intro hline
    refine ⟨fun hkind => ?_, fun tail address htail hfield hsix hkind => ?_⟩
    · rcases rnResolvConfNameserver_cases hcap line with
        ⟨-, heq⟩ | ⟨tail, address, htail, hfield, heq⟩
      · rw [heq] at hkind
        exact absurd hkind (by simp)
      rw [heq] at hkind ⊢
      rcases rnResolvConfAddress_cases address outCapacity with
        ⟨-, heq⟩ | ⟨hgood, hsix, heq⟩ | ⟨-, -, -, heq⟩
      · rw [heq] at hkind
        exact absurd hkind (by simp)
      · rw [heq]
        exact ⟨_, converted_eq_brackets hgood hsix, hline tail address htail hfield hsix hgood⟩
      · rw [heq] at hkind
        exact absurd hkind (by simp)
    · rw [rnResolvConfNameserver_of_field hcap htail hfield] at hkind ⊢
      rcases rnResolvConfAddress_cases address outCapacity with
        ⟨-, heq⟩ | ⟨-, -, heq⟩ | ⟨-, hopen, hcolon, -⟩
      · rw [heq]
      · exact absurd (congrArg Prod.fst heq) hkind
      · exact absurd hsix (by simp [hopen, hcolon])

/-- What is passed on without brackets neither begins with one nor has a `':'`. -/
theorem rnResolvConfNameserver_inet {text : Bytes} (hcap : 1 ≤ outCapacity)
    (h : rnResolvConfNameserver line outCapacity = (.inet, text)) :
    text.head? ≠ some 91 ∧ 58 ∉ text := by
  rcases rnResolvConfNameserver_cases hcap line with ⟨-, heq⟩ | ⟨tail, address, -, -, heq⟩
  · exact absurd (heq.symm.trans h) (by simp)
  · rw [heq] at h
    rcases rnResolvConfAddress_cases address outCapacity with
      ⟨-, heq⟩ | ⟨-, -, heq⟩ | ⟨-, hopen, hcolon, heq⟩
    · exact absurd (heq.symm.trans h) (by simp)
    · exact absurd (heq.symm.trans h) (by simp)
    · obtain rfl : address = text := congrArg Prod.snd (heq.symm.trans h)
      exact ⟨hopen, hcolon⟩

/-- Without false literals, the nameserver of a line is proper. -/
theorem NoFalseLiteral.properName {name : Bytes}
    (hline : NoFalseLiteral line rnResolvNameserverMax) (hname : nameserverOf line = some name) :
    ProperName name := by
  have hcap : 1 ≤ rnResolvNameserverMax := by decide
  obtain ⟨hliteral, -⟩ := (literalsOnly_iff_noFalseLiteral line hcap).mpr hline
  unfold nameserverOf at hname
  rcases hresult : rnResolvConfNameserver line rnResolvNameserverMax with ⟨kind, text⟩
  rw [hresult] at hname hliteral
  rcases kind with _ | _ | _ | _
  · simp at hname
  · obtain rfl : text = name := by simpa using hname
    obtain ⟨hopen, hcolon⟩ := rnResolvConfNameserver_inet hcap hresult
    exact fun h => absurd h (by simp [hopen, hcolon])
  · obtain rfl : text = name := by simpa using hname
    exact fun _ => hliteral rfl
  · simp at hname

/-- Whatever holds of the nameserver of every read holds of all names that are collected. -/
theorem nameserverLoop_forall {P : Bytes → Prop} {inet6 : Bool} {alloc : ℕ → Bool} :
    ∀ {reads names out : List Bytes},
      (∀ read ∈ reads, ∀ name, nameserverOf (cString read) = some name → P name) →
      (∀ name ∈ names, P name) → nameserverLoop inet6 alloc reads names = some out →
      ∀ name ∈ out, P name
  | [], names, out, _, hnames, h => by
    rw [nameserverLoop] at h
    obtain rfl := Option.some.inj h
    exact hnames
  | read :: reads, names, out, hreads, hnames, h => by
    have hrest := fun r hr => hreads r (List.mem_cons_of_mem _ hr)
    rcases nameserverLoop_cases h with ⟨-, rfl⟩ | ⟨-, -, hloop⟩ | ⟨-, address, hsome, hloop⟩
    · exact hnames
    · exact nameserverLoop_forall hrest hnames hloop
    · refine nameserverLoop_forall hrest (fun name hname => ?_) hloop
      rcases List.mem_append.mp hname with hname | hname
      · exact hnames name hname
      · rw [List.mem_singleton.mp hname]
        exact hreads read List.mem_cons_self address hsome

end Literals

/-- A line passes on only literals as IPv6 exactly when it has no false literal, and a file whose
reads have none gives the resolver proper names only. -/
theorem literals_only_iff (line : Bytes) (outCapacity : ℕ) (hcap : 1 ≤ outCapacity) :
    (LiteralsOnly line outCapacity ↔ NoFalseLiteral line outCapacity) ∧
    ∀ inet6 alloc content names,
      rnCreateSystemDnsResolver inet6 alloc (some content) = some names →
      (∀ read ∈ fgetsLines content, NoFalseLiteral (cString read) rnResolvNameserverMax) →
      ∀ name ∈ names, ProperName name := by
  refine ⟨literalsOnly_iff_noFalseLiteral line hcap, ?_⟩
  intro inet6 alloc content names hcreated hreads
  obtain ⟨out, hloop, rfl⟩ := Option.map_eq_some_iff.mp hcreated
  have hall : ∀ name ∈ out, ProperName name :=
    nameserverLoop_forall (fun read hread name hname => (hreads read hread).properName hname)
      (by simp) hloop
  split_ifs
  · intro name hname
    rw [List.mem_singleton.mp hname]
    exact fun h => absurd h (by decide)
  · exact hall

/-- A bare literal has no false literal. -/
theorem literal_passed_on : LiteralsOnly (ascii "nameserver fd7a::53") 256 := by
  refine (literals_only_iff _ 256 (by decide)).1.mpr ?_
  intro tail address htail hfield _ _
  obtain rfl := htail.tail_eq (afterKeyword_iff.mpr (by decide) : AfterKeyword
    (ascii "nameserver fd7a::53") (ascii " fd7a::53"))
  obtain rfl := firstField_iff.mp hfield
  decide

/-- A host with a port is passed to the resolver as if it were an IPv6 literal. -/
theorem hostPort_passed_as_literal :
    rnResolvConfNameserver (ascii "nameserver dns.example:53") 256 =
      (.inet6, ascii "[dns.example:53]") ∧
    ¬LiteralsOnly (ascii "nameserver dns.example:53") 256 ∧
    rnCreateSystemDnsResolver true (fun _ => true)
      (some (ascii "nameserver 10.0.0.1\nnameserver dns.example:53\n")) =
        some [ascii "10.0.0.1", ascii "[dns.example:53]"] := by
  have hresult : rnResolvConfNameserver (ascii "nameserver dns.example:53") 256 =
      (.inet6, ascii "[dns.example:53]") := by decide
  refine ⟨hresult, ?_, by decide +kernel⟩
  rintro ⟨hliteral, -⟩
  rw [hresult] at hliteral
  obtain ⟨literal, htext, hok⟩ := hliteral rfl
  obtain rfl : ascii "dns.example:53" = literal := by
    have hsplit : ascii "[dns.example:53]" = 91 :: ascii "dns.example:53" ++ [93] := by decide
    rw [hsplit, List.append_cancel_right_eq, List.cons.injEq] at htext
    exact htext.2
  exact absurd hok (by decide)

/-! ## Long lines -/

/-- The text names a nameserver : the keyword as its first field, then a usable address. -/
def NamesServer (text name : Bytes) : Prop :=
  ∃ tail address, AfterKeyword text tail ∧ FirstField tail address ∧
    ¬UnusableAddress rnResolvNameserverMax address ∧ name = converted address

theorem nameserverOf_eq_some_iff {text name : Bytes} :
    nameserverOf text = some name ↔ NamesServer text name := by
  have hcap : 1 ≤ rnResolvNameserverMax := by decide
  have haddress : ∀ tail address, AfterKeyword text tail → FirstField tail address →
      (nameserverOf text = some name ↔ ¬UnusableAddress rnResolvNameserverMax address ∧
        name = converted address) := by
    intro tail address hkey hfield
    rw [nameserverOf, rnResolvConfNameserver_of_field hcap hkey hfield]
    rcases rnResolvConfAddress_cases address rnResolvNameserverMax with
      ⟨hbad, heq⟩ | ⟨hgood, -, heq⟩ | ⟨hgood, hopen, hcolon, heq⟩
    · simp [heq, hbad]
    · simp [heq, hgood, eq_comm]
    · simp [heq, hgood, eq_comm, converted, hcolon]
  constructor
  · intro h
    rcases rnResolvConfNameserver_cases hcap text with ⟨-, heq⟩ | ⟨tail, address, hkey, hfield, -⟩
    · rw [nameserverOf, heq] at h
      cases h
    · obtain ⟨hgood, hname⟩ := (haddress tail address hkey hfield).mp h
      exact ⟨tail, address, hkey, hfield, hgood, hname⟩
  · rintro ⟨tail, address, hkey, hfield, hgood, hname⟩
    exact (haddress tail address hkey hfield).mpr ⟨hgood, hname⟩

theorem nameserverOf_eq_none_iff {text : Bytes} :
    nameserverOf text = none ↔ ∀ name, ¬NamesServer text name := by
  simp only [← nameserverOf_eq_some_iff]
  exact Option.eq_none_iff_forall_ne_some

/-- Cut every 255 bytes, the line yields what it yields as a whole : its nameserver is the first
that a stretch of it names, and the only one while `N` leaves room for another. -/
structure CutsWhole (N : ℕ) (line : Bytes) : Prop where
  named : ∀ name, NamesServer line name → ∃ j, NamesServer (stretch 255 j line) name ∧
    (∀ i < j, ∀ other, ¬NamesServer (stretch 255 i line) other) ∧
    (1 < N → ∀ i > j, ∀ other, ¬NamesServer (stretch 255 i line) other)
  unnamed : (∀ name, ¬NamesServer line name) → ∀ j name, ¬NamesServer (stretch 255 j line) name

/-- The reads of a line, and the stretches of its text. -/
theorem fgetsLines_bind {content line : Bytes} (hline : line ∈ lines 10 content) (j : ℕ) :
    ((fgetsLines line)[j]?).bind nameserverOf = nameserverOf (stretch 255 j line) := by
  rw [fgetsLines, getElem?_reads (by decide) (lines_spec hline).2]
  split_ifs with hlt
  · rfl
  · rw [stretch, List.drop_eq_nil_of_le (not_lt.mp hlt)]
    rfl

/-- In terms of the text : a line is read as one when it fits the buffer, or when the stretches
that it is cut into name what it names. -/
theorem readsWhole_iff (content : Bytes) : ReadsWhole content ↔
    ∀ k line, (lines 10 content)[k]? = some line →
      (((lines 10 content).take k).filterMap nameserverOf).length < 16 → 255 < line.length →
      CutsWhole (16 - (((lines 10 content).take k).filterMap nameserverOf).length) line := by
  refine forall_congr' fun k => forall_congr' fun line => forall_congr' fun hline =>
    forall_congr' fun hlt => ?_
  have hmem := List.mem_of_getElem? hline
  generalize hN : 16 - (((lines 10 content).take k).filterMap nameserverOf).length = N
  have hpos : 0 < N := by omega
  have hcut : ((fgetsLines line).filterMap nameserverOf).take N = (nameserverOf line).toList ↔
      CutsWhole N line := by
    cases hname : nameserverOf line with
    | none =>
      have hnone := nameserverOf_eq_none_iff.mp hname
      rw [Option.toList_none, List.take_eq_nil_iff, filterMap_eq_nil_iff_getElem?]
      simp only [fgetsLines_bind hmem, nameserverOf_eq_none_iff]
      exact ⟨fun h => ⟨fun name hnamed => absurd hnamed (hnone name),
        fun _ => h.resolve_left (by omega)⟩, fun h => .inr (h.unnamed hnone)⟩
    | some name =>
      have hnamed := nameserverOf_eq_some_iff.mp hname
      rw [Option.toList_some, take_filterMap_eq_singleton hpos]
      simp only [fgetsLines_bind hmem, nameserverOf_eq_none_iff, nameserverOf_eq_some_iff]
      constructor
      · intro h
        refine ⟨fun name' hnamed' => ?_, fun hnone => absurd hnamed (hnone name)⟩
        have hsame := nameserverOf_eq_some_iff.mpr hnamed'
        obtain rfl := Option.some.inj (hname.symm.trans hsame)
        exact h
      · exact fun h => h.named name hnamed
  rw [hcut]
  constructor
  · exact fun h _ => h
  · intro h
    by_cases hlong : 255 < line.length
    · exact h hlong
    · rw [← hcut, filterMap_of_fits hmem (not_lt.mp hlong)]
      exact take_nameserverOf line hpos

end RlNginx
