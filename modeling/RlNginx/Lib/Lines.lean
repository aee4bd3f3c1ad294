import Mathlib.Data.List.Basic

/-!
# Text read through a bounded buffer

`gets nl n s` is one read into a buffer with room for `n` symbols : it stops behind the
separator `nl`, when the buffer is full, or at the end of the text. `reads nl n` is the
list of all reads, and `lines nl` the separated lines, each with its separator.

The reads of a text are those of its lines, one line after the other
(`reads_eq_flatMap`), a line that fits is read at once (`reads_of_fits`), and a longer one
stretch by stretch (`getElem?_reads`). When what is
made of the reads is compared with what is made of the whole lines, under a bound on the
number of results, `take_labelled_eq_iff` reduces the comparison to single lines.
-/

namespace Lines

variable {α : Type*} [DecidableEq α] {nl : α} {n : ℕ}

/-! ## Reads and lines -/

/-- One read with room for `n` symbols, and what is left. -/
def gets (nl : α) : ℕ → List α → List α × List α
  | 0, s => ([], s)
  | _ + 1, [] => ([], [])
  | n + 1, c :: s =>
    if c = nl then ([c], s)
    else
      let (l, rest) := gets nl n s
      (c :: l, rest)

/-- Read until the text ends, at most `fuel` times. -/
def readsFuel (nl : α) (n : ℕ) : ℕ → List α → List (List α)
  | 0, _ => []
  | fuel + 1, s =>
    if s = [] then []
    else
      let (l, rest) := gets nl n s
      l :: readsFuel nl n fuel rest

/-- All reads of a text. -/
def reads (nl : α) (n : ℕ) (s : List α) : List (List α) :=
  readsFuel nl n s.length s

/-- A symbol in front of the first piece. -/
def consHead (c : α) : List (List α) → List (List α)
  | [] => [[c]]
  | l :: ls => (c :: l) :: ls

/-- The separated lines, each with its separator. -/
def lines (nl : α) : List α → List (List α)
  | [] => []
  | c :: s => if c = nl then [c] :: lines nl s else consHead c (lines nl s)

/-- The reads of a text with room for `room` more symbols in the first. -/
def pieces (nl : α) (n : ℕ) : ℕ → List α → List (List α)
  | _, [] => []
  | room, c :: s =>
    if c = nl ∨ room ≤ 1 then [c] :: pieces nl n n s
    else consHead c (pieces nl n (room - 1) s)

/-- The `j`-th stretch of `n` symbols. -/
def stretch (n j : ℕ) (l : List α) : List α :=
  (l.drop (n * j)).take n

@[simp] theorem gets_nil (nl : α) (room : ℕ) : gets nl room [] = ([], []) := by
  cases room <;> rfl

omit [DecidableEq α] in
@[simp] theorem consHead_ne_nil (c : α) (ls : List (List α)) : consHead c ls ≠ [] := by
  cases ls <;> simp [consHead]

omit [DecidableEq α] in
theorem consHead_append (c : α) {ls ms : List (List α)} (h : ls ≠ []) :
    consHead c (ls ++ ms) = consHead c ls ++ ms := by
  cases ls with
  | nil => exact absurd rfl h
  | cons l ls => rfl

theorem pieces_ne_nil {room : ℕ} {s : List α} (h : s ≠ []) : pieces nl n room s ≠ [] := by
  cases s with
  | nil => exact absurd rfl h
  | cons c s =>
    rw [pieces]
    split_ifs <;> simp

/-- The first piece is one read. -/
theorem pieces_eq_cons : ∀ {s : List α} {room : ℕ}, 0 < room → s ≠ [] →
    pieces nl n room s = (gets nl room s).1 :: pieces nl n n (gets nl room s).2
  | [], _, _, h => absurd rfl h
  | c :: s, room + 1, _, _ => by
    rw [pieces, gets]
    by_cases hc : c = nl
    · simp [hc]
    · rcases Nat.eq_zero_or_pos room with rfl | hroom
      · simp [hc, gets]
      · have hlt : ¬(c = nl ∨ room + 1 ≤ 1) := by
          rw [not_or]
          exact ⟨hc, by omega⟩
        rw [if_neg hlt, if_neg hc, Nat.add_sub_cancel]
        by_cases hs : s = []
        · subst hs
          simp [pieces, consHead]
        · rw [pieces_eq_cons hroom hs, consHead]

theorem gets_append (nl : α) : ∀ (s : List α) (room : ℕ),
    (gets nl room s).1 ++ (gets nl room s).2 = s
  | s, 0 => by simp [gets]
  | [], room + 1 => rfl
  | c :: s, room + 1 => by
    rw [gets]
    split_ifs
    · rfl
    · exact congrArg (c :: ·) (gets_append nl s room)

/-- A read takes at least one symbol. -/
theorem gets_length_lt (nl : α) : ∀ {s : List α} {room : ℕ}, 0 < room → s ≠ [] →
    (gets nl room s).2.length < s.length
  | [], _, _, h => absurd rfl h
  | c :: s, room + 1, _, _ => by
    rw [gets]
    split_ifs
    · simp
    · rcases Nat.eq_zero_or_pos room with rfl | hroom
      · simp [gets]
      · by_cases hs : s = []
        · subst hs
          simp
        · have hlt := gets_length_lt nl hroom hs
          simp only [List.length_cons]
          omega

/-- The reads make up the text. -/
theorem reads_flatten (hn : 0 < n) (s : List α) : (reads nl n s).flatten = s := by
  have hfuel : ∀ (fuel : ℕ) (s : List α), s.length ≤ fuel →
      (readsFuel nl n fuel s).flatten = s := by
    intro fuel
    induction fuel with
    | zero =>
      intro s hs
      obtain rfl := List.length_eq_zero_iff.mp (Nat.le_zero.mp hs)
      rfl
    | succ fuel ih =>
      intro s hs
      rw [readsFuel]
      split_ifs with hnil
      · rw [hnil]
        rfl
      · have hlt := gets_length_lt nl hn hnil
        rw [List.flatten_cons, ih _ (by omega), gets_append]
  exact hfuel s.length s (Nat.le_refl _)

theorem readsFuel_eq_pieces (hn : 0 < n) :
    ∀ {fuel : ℕ} {s : List α}, s.length ≤ fuel → readsFuel nl n fuel s = pieces nl n n s
  | 0, s, h => by
    obtain rfl := List.length_eq_zero_iff.mp (Nat.le_zero.mp h)
    rfl
  | fuel + 1, s, h => by
    rw [readsFuel]
    split_ifs with hs
    · rw [hs, pieces]
    · have hlt := gets_length_lt nl hn hs
      rw [pieces_eq_cons hn hs]
      exact congrArg _ (readsFuel_eq_pieces hn (by omega))

theorem reads_eq_pieces (hn : 0 < n) (s : List α) : reads nl n s = pieces nl n n s :=
  readsFuel_eq_pieces hn (Nat.le_refl _)

theorem eq_nil_of_lines {s : List α} (h : lines nl s = []) : s = [] := by
  cases s with
  | nil => rfl
  | cons c s =>
    rw [lines] at h
    split_ifs at h
    exact absurd h (consHead_ne_nil c _)

/-- A line has a symbol, and no separator before its last symbol. -/
theorem lines_spec : ∀ {s l : List α}, l ∈ lines nl s → l ≠ [] ∧ nl ∉ l.dropLast
  | [], l, h => by simp [lines] at h
  | c :: s, l, h => by
    rw [lines] at h
    split_ifs at h with hc
    · rcases List.mem_cons.mp h with rfl | h
      · simp
      · exact lines_spec h
    · rcases hs : lines nl s with _ | ⟨l', ls⟩
      · rw [hs, consHead, List.mem_singleton] at h
        simp [h]
      · rw [hs, consHead] at h
        rcases List.mem_cons.mp h with rfl | h
        · obtain ⟨hne, hnl⟩ := lines_spec (s := s) (l := l') (by simp [hs])
          rw [List.dropLast_cons_of_ne_nil hne, List.mem_cons, not_or]
          exact ⟨by simp, fun heq => hc heq.symm, hnl⟩
        · exact lines_spec (s := s) (by simp [hs, h])

/-- The pieces of a text are those of its lines. -/
theorem pieces_of_lines : ∀ {s l : List α} {ls : List (List α)} {room : ℕ},
    lines nl s = l :: ls → pieces nl n room s = pieces nl n room l ++ ls.flatMap (pieces nl n n)
  | [], _, _, _, h => by simp [lines] at h
  | c :: s, l, ls, room, h => by
    have hall : pieces nl n n s = (lines nl s).flatMap (pieces nl n n) := by
      rcases hs : lines nl s with _ | ⟨l', ls'⟩
      · rw [eq_nil_of_lines hs]
        rfl
      · rw [pieces_of_lines hs, List.flatMap_cons]
    rw [lines] at h
    rw [pieces]
    split_ifs at h with hc
    · obtain ⟨rfl, rfl⟩ := List.cons.inj h
      simp [hc, hall, pieces]
    · rcases hs : lines nl s with _ | ⟨l', ls'⟩
      · rw [hs, consHead] at h
        obtain ⟨rfl, rfl⟩ := List.cons.inj h
        simp [eq_nil_of_lines hs, pieces]
      · have hl' : l' ≠ [] := (lines_spec (by simp [hs] : l' ∈ lines nl s)).1
        rw [hs, consHead] at h
        obtain ⟨rfl, rfl⟩ := List.cons.inj h
        rw [pieces]
        split_ifs
        · rw [hall, hs, List.flatMap_cons]
          rfl
        · rw [pieces_of_lines hs, consHead_append c (pieces_ne_nil hl')]

/-- The reads of a text are those of its lines. -/
theorem reads_eq_flatMap (hn : 0 < n) (s : List α) :
    reads nl n s = (lines nl s).flatMap (reads nl n) := by
  have hfun : reads nl n = pieces nl n n := funext (reads_eq_pieces hn)
  rw [hfun]
  rcases hs : lines nl s with _ | ⟨l, ls⟩
  · rw [eq_nil_of_lines hs]
    rfl
  · rw [pieces_of_lines hs, List.flatMap_cons]

theorem pieces_of_fits : ∀ {l : List α} {room : ℕ}, l ≠ [] → nl ∉ l.dropLast →
    l.length ≤ room → pieces nl n room l = [l]
  | [], _, h, _, _ => absurd rfl h
  | [c], room, _, _, _ => by
    rw [pieces]
    split_ifs <;> simp [pieces, consHead]
  | c :: d :: l, room, _, hnl, hlen => by
    rw [List.dropLast_cons_of_ne_nil (by simp), List.mem_cons, not_or] at hnl
    have hc : ¬(c = nl ∨ room ≤ 1) := by
      simp only [List.length_cons] at hlen
      rw [not_or]
      exact ⟨fun heq => hnl.1 heq.symm, by omega⟩
    have hrest : (d :: l).length ≤ room - 1 := by
      simp only [List.length_cons] at hlen ⊢
      omega
    rw [pieces, if_neg hc, pieces_of_fits (by simp) hnl.2 hrest, consHead]

/-- A line that fits is read at once. -/
theorem reads_of_fits (hn : 0 < n) {s l : List α} (hl : l ∈ lines nl s) (hlen : l.length ≤ n) :
    reads nl n l = [l] := by
  obtain ⟨hne, hnl⟩ := lines_spec hl
  rw [reads_eq_pieces hn, pieces_of_fits hne hnl hlen]

theorem gets_of_line : ∀ {l : List α} (room : ℕ), nl ∉ l.dropLast →
    gets nl room l = (l.take room, l.drop room)
  | l, 0, _ => by simp [gets]
  | [], room + 1, _ => rfl
  | [c], room + 1, _ => by
    rw [gets]
    split_ifs <;> simp
  | c :: d :: l, room + 1, h => by
    rw [List.dropLast_cons_of_ne_nil (by simp), List.mem_cons, not_or] at h
    rw [gets, if_neg fun heq => h.1 heq.symm, gets_of_line room h.2]
    rfl

/-- The reads of a line are its stretches. -/
theorem getElem?_reads (hn : 0 < n) {l : List α} (hl : nl ∉ l.dropLast) (j : ℕ) :
    (reads nl n l)[j]? = if n * j < l.length then some (stretch n j l) else none := by
  rw [reads_eq_pieces hn]
  induction j generalizing l with
  | zero =>
    rcases Classical.em (l = []) with rfl | hne
    · simp [pieces]
    · rw [pieces_eq_cons hn hne, gets_of_line n hl]
      simp [stretch, List.length_pos_iff.mpr hne]
  | succ j ih =>
    rcases Classical.em (l = []) with rfl | hne
    · simp [pieces]
    · have hdrop : nl ∉ (l.drop n).dropLast := by
        have hsame : (l.drop n).dropLast = l.dropLast.drop n := by
          rw [List.dropLast_eq_take, List.dropLast_eq_take, List.drop_take, List.length_drop]
          congr 1
          omega
        rw [hsame]
        exact fun hmem => hl (List.mem_of_mem_drop hmem)
      rw [pieces_eq_cons hn hne, gets_of_line n hl, List.getElem?_cons_succ, ih hdrop, stretch,
        stretch, List.drop_drop, List.length_drop, Nat.mul_succ, Nat.add_comm (n * j)]
      have hiff : n * j < l.length - n ↔ n + n * j < l.length := by omega
      simp only [hiff]

/-! ## Labelled results -/

section Labelled

variable {β γ : Type*}

/-- The results of each element, labelled with its place. -/
def labelled (f : β → List γ) : ℕ → List β → List (γ × ℕ)
  | _, [] => []
  | k, b :: bs => (f b).map (·, k) ++ labelled f (k + 1) bs

theorem labelled_fst (f : β → List γ) : ∀ (k : ℕ) (bs : List β),
    (labelled f k bs).map Prod.fst = bs.flatMap f
  | _, [] => rfl
  | k, b :: bs => by
    simp only [labelled, List.map_append, labelled_fst, List.flatMap_cons, List.map_map]
    congr 1
    exact List.map_id _

theorem labelled_le (f : β → List γ) : ∀ {k : ℕ} {bs : List β}, ∀ p ∈ labelled f k bs, k ≤ p.2
  | _, [], p, h => by simp [labelled] at h
  | k, b :: bs, p, h => by
    rcases List.mem_append.mp h with h | h
    · obtain ⟨c, -, rfl⟩ := List.mem_map.mp h
      exact Nat.le_refl _
    · exact Nat.le_of_succ_le (labelled_le f p h)

/-- The first results of one element, read off the labels. -/
theorem filter_take_labelled (f : β → List γ) (N k : ℕ) (b : β) (bs : List β) :
    ((labelled f k (b :: bs)).take N).filter (·.2 == k) = ((f b).take N).map (·, k) := by
  rw [labelled, List.take_append, List.filter_append]
  have hown : (((f b).map (·, k)).take N).filter (·.2 == k) = ((f b).take N).map (·, k) := by
    rw [List.filter_eq_self.mpr, List.map_take]
    intro p hp
    obtain ⟨c, -, rfl⟩ := List.mem_map.mp (List.mem_of_mem_take hp)
    simp
  have hrest : ((labelled f (k + 1) bs).take (N - ((f b).map (·, k)).length)).filter
      (·.2 == k) = [] := by
    rw [List.filter_eq_nil_iff]
    intro p hp
    have hle := labelled_le f p (List.mem_of_mem_take hp)
    simp only [beq_iff_eq]
    omega
  rw [hown, hrest, List.append_nil]

/-- Two labelled lists of results agree up to a bound when they do at the first element and, if
the bound leaves room, after it. -/
theorem take_labelled_cons_iff (f g : β → List γ) (N k : ℕ) (b : β) (bs : List β) :
    (labelled f k (b :: bs)).take N = (labelled g k (b :: bs)).take N ↔
      (f b).take N = (g b).take N ∧ ((g b).length < N →
        (labelled f (k + 1) bs).take (N - (g b).length) =
          (labelled g (k + 1) bs).take (N - (g b).length)) := by
  have hlength : (f b).take N = (g b).take N → (g b).length < N →
      (f b).length = (g b).length := by
    intro hb hlt
    have hcount := congrArg List.length hb
    simp only [List.length_take] at hcount
    omega
  constructor
  · intro h
    have hb : (f b).take N = (g b).take N := by
      have hinj : Function.Injective fun c : γ => (c, k) :=
        fun c c' hc => (Prod.mk.inj hc).1
      refine List.map_injective_iff.mpr hinj ?_
      rw [← filter_take_labelled f N k b bs, h, filter_take_labelled]
    refine ⟨hb, fun hlt => ?_⟩
    have hfg : f b = g b := by
      have hlen := hlength hb hlt
      rwa [List.take_of_length_le (by omega), List.take_of_length_le (by omega)] at hb
    rw [labelled, labelled, hfg, List.take_append, List.take_append] at h
    simpa using List.append_cancel_left h
  · rintro ⟨hb, hrest⟩
    rw [labelled, labelled, List.take_append, List.take_append, ← List.map_take, ← List.map_take,
      hb]
    congr 1
    rcases Nat.lt_or_ge (g b).length N with hlt | hge
    · simpa only [List.length_map, hlength hb hlt] using hrest hlt
    · have hcount := congrArg List.length hb
      simp only [List.length_take] at hcount
      have hgef : N ≤ (f b).length := by omega
      simp [Nat.sub_eq_zero_of_le hge, Nat.sub_eq_zero_of_le hgef]

/-- They agree up to a bound when they do at each element that the bound leaves room for. -/
theorem take_labelled_eq_iff (f g : β → List γ) : ∀ (bs : List β) (N k : ℕ),
    (labelled f k bs).take N = (labelled g k bs).take N ↔
      ∀ j b, bs[j]? = some b → ((bs.take j).flatMap g).length < N →
        (f b).take (N - ((bs.take j).flatMap g).length) =
          (g b).take (N - ((bs.take j).flatMap g).length)
  | [], N, k => by simp [labelled]
  | b :: bs, N, k => by
    have ih := take_labelled_eq_iff f g bs (N - (g b).length) (k + 1)
    rw [take_labelled_cons_iff, ih]
    constructor
    · rintro ⟨hb, hrest⟩ j b' hj hlt
      rcases j with _ | j
      · obtain rfl : b = b' := by simpa using hj
        simpa using hb
      · simp only [List.take_succ_cons, List.flatMap_cons, List.length_append] at hlt ⊢
        rw [← Nat.sub_sub]
        exact hrest (by omega) j b' (by simpa using hj) (by omega)
    · intro h
      constructor
      · rcases Nat.eq_zero_or_pos N with rfl | hN
        · simp
        · simpa using h 0 b rfl (by simpa using hN)
      · intro hlt j b' hj hlt'
        have hnext := h (j + 1) b' (by simpa using hj)
        simp only [List.take_succ_cons, List.flatMap_cons, List.length_append] at hnext
        rw [← Nat.sub_sub] at hnext
        exact hnext (by omega)

/-- There is no result when no element has one. -/
theorem filterMap_eq_nil_iff_getElem? {f : β → Option γ} {L : List β} :
    L.filterMap f = [] ↔ ∀ j : ℕ, (L[j]?).bind f = none := by
  rw [List.filterMap_eq_nil_iff]
  constructor
  · intro h j
    rcases hj : L[j]? with _ | x
    · rfl
    · exact h x (List.mem_of_getElem? hj)
  · intro h x hx
    obtain ⟨j, hj⟩ := List.mem_iff_getElem?.mp hx
    simpa [hj] using h j

/-- The first `N` results are that of one element alone. -/
theorem take_filterMap_eq_singleton {f : β → Option γ} {a : γ} : ∀ {L : List β} {N : ℕ}, 0 < N →
    ((L.filterMap f).take N = [a] ↔ ∃ j : ℕ, (L[j]?).bind f = some a ∧
      (∀ i < j, (L[i]?).bind f = none) ∧ (1 < N → ∀ i > j, (L[i]?).bind f = none))
  | [], N, hN => by simp
  | x :: L, N + 1, hN => by
    cases hx : f x with
    | none =>
      rw [List.filterMap_cons_none hx, take_filterMap_eq_singleton hN]
      constructor
      · rintro ⟨j, hj, hbefore, hafter⟩
        refine ⟨j + 1, by simpa using hj, fun i hi => ?_, fun h i hi => ?_⟩
        · rcases i with _ | i
          · simpa using hx
          · simpa using hbefore i (by omega)
        · rcases i with _ | i
          · omega
          · simpa using hafter h i (by omega)
      · rintro ⟨_ | j, hj, hbefore, hafter⟩
        · simp [hx] at hj
        · exact ⟨j, by simpa using hj, fun i hi => by simpa using hbefore (i + 1) (by omega),
            fun h i hi => by simpa using hafter h (i + 1) (by omega)⟩
    | some b =>
      rw [List.filterMap_cons_some hx, List.take_succ_cons, List.cons.injEq, List.take_eq_nil_iff,
        filterMap_eq_nil_iff_getElem?]
      constructor
      · rintro ⟨rfl, hrest⟩
        refine ⟨0, by simpa using hx, by simp, fun h i hi => ?_⟩
        obtain ⟨i, rfl⟩ : ∃ k, i = k + 1 := ⟨i - 1, by omega⟩
        simpa using hrest.resolve_left (by omega) i
      · rintro ⟨j, hj, hbefore, hafter⟩
        obtain rfl : j = 0 := by
          by_contra hpos
          simpa [hx] using hbefore 0 (by omega)
        refine ⟨by simpa [hx] using hj, ?_⟩
        rcases Nat.eq_zero_or_pos N with rfl | hpos
        · exact .inl rfl
        · exact .inr fun i => by simpa using hafter (by omega) (i + 1) (by omega)

end Labelled

end Lines
