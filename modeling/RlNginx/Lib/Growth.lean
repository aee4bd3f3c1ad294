import Mathlib.Data.List.Basic

/-!
# Tables that grow while their entries change

A table is a list to which entries are only added, and whose entries may change in place. For
`R`, which says what may become of an entry, and `P`, which new entries meet, `Growth R P l l'`
says that `l'` comes from `l` by such steps.

A function that runs others in its middle is handled by its steps : `Growth.trans` chains
them, `Growth.set` and `Growth.append` are the two kinds of a single step, and `Growth.around`
is one that works on an entry while the table grows. Where `R` keeps `P`, a table whose entries
all meet `P` grows into one (`Growth.all`).
-/

variable {α : Type*}

/-- Every entry is kept in its place, and the new ones meet `P`. -/
structure Growth (R : α → α → Prop) (P : α → Prop) (l l' : List α) : Prop where
  length : l.length ≤ l'.length
  kept : ∀ (i : ℕ) (a : α), l[i]? = some a → ∃ a', l'[i]? = some a' ∧ R a a'
  fresh : ∀ (i : ℕ) (a : α), l.length ≤ i → l'[i]? = some a → P a

namespace Growth

variable {R : α → α → Prop} {P : α → Prop} {l l' l'' : List α} {i : ℕ} {a b : α}

/-- An entry of before is there, and has become what it may. -/
theorem kept_of (h : Growth R P l l') (ha : l[i]? = some a) (hb : l'[i]? = some b) : R a b := by
  obtain ⟨a', ha', hR⟩ := h.kept i a ha
  obtain rfl : a' = b := Option.some.inj (ha'.symm.trans hb)
  exact hR

theorem trans (hR : ∀ a b c, R a b → R b c → R a c) (hP : ∀ a b, R a b → P a → P b)
    (h : Growth R P l l') (h' : Growth R P l' l'') : Growth R P l l'' where
  length := Nat.le_trans h.length h'.length
  kept := by
    intro i a ha
    obtain ⟨b, hb, hab⟩ := h.kept i a ha
    obtain ⟨c, hc, hbc⟩ := h'.kept i b hb
    exact ⟨c, hc, hR a b c hab hbc⟩
  fresh := by
    intro i c hi hc
    rcases Nat.lt_or_ge i l'.length with hlt | hge
    · have hb : l'[i]? = some l'[i] := List.getElem?_eq_getElem hlt
      exact hP _ c (h'.kept_of hb hc) (h.fresh i _ hi hb)
    · exact h'.fresh i c hge hc

/-- A table all of whose entries meet `P` grows into one. -/
theorem all (hP : ∀ a b, R a b → P a → P b) (h : Growth R P l l') (hall : ∀ a ∈ l, P a) :
    ∀ a ∈ l', P a := by
  intro b hb
  obtain ⟨i, hi⟩ := List.mem_iff_getElem?.mp hb
  rcases Nat.lt_or_ge i l.length with hlt | hge
  · have ha : l[i]? = some l[i] := List.getElem?_eq_getElem hlt
    exact hP _ b (h.kept_of ha hi) (hall _ (List.getElem_mem hlt))
  · exact h.fresh i b hge hi

section Single

variable (hR : ∀ a, R a a)

include hR

theorem refl (l : List α) : Growth R P l l where
  length := Nat.le_refl _
  kept := fun _ a ha => ⟨a, ha, hR a⟩
  fresh := fun i a hi ha => by
    obtain ⟨hlt, -⟩ := List.getElem?_eq_some_iff.mp ha
    omega

/-- A new entry. -/
theorem append (l : List α) (ha : P a) : Growth R P l (l ++ [a]) where
  length := by simp
  kept := fun i b hb => by
    obtain ⟨hlt, -⟩ := List.getElem?_eq_some_iff.mp hb
    exact ⟨b, (List.getElem?_append_left hlt).trans hb, hR b⟩
  fresh := by
    intro i b hi hb
    rw [List.getElem?_append_right hi] at hb
    exact List.mem_singleton.mp (List.mem_of_getElem? hb) ▸ ha

/-- One entry changes. -/
theorem set (ha : l[i]? = some a) (hab : R a b) : Growth R P l (l.set i b) where
  length := by simp
  kept := by
    intro j c hc
    by_cases hij : i = j
    · subst hij
      obtain rfl : a = c := Option.some.inj (ha.symm.trans hc)
      obtain ⟨hlt, -⟩ := List.getElem?_eq_some_iff.mp ha
      exact ⟨b, List.getElem?_set_self hlt, hab⟩
    · exact ⟨c, (List.getElem?_set_ne hij).trans hc, hR c⟩
  fresh := by
    intro j c hj hc
    obtain ⟨hlt, -⟩ := List.getElem?_eq_some_iff.mp hc
    rw [List.length_set] at hlt
    omega

end Single

/-- One entry leaves the table for a while : it is set aside as `b`, the table grows around it,
and it comes back as what `f` makes of it. -/
theorem around {f : α → α} (ha : l[i]? = some a) (h : Growth R P (l.set i b) l')
    (hf : ∀ b', R b b' → R a (f b')) : Growth R P l (l'.modify i f) where
  length := by simpa using h.length
  kept := by
    intro j c hc
    obtain ⟨hlt, -⟩ := List.getElem?_eq_some_iff.mp ha
    by_cases hij : i = j
    · subst hij
      obtain rfl : a = c := Option.some.inj (ha.symm.trans hc)
      obtain ⟨b', hb', hR'⟩ := h.kept i b (List.getElem?_set_self hlt)
      exact ⟨f b', by rw [List.getElem?_modify_eq, hb']; rfl, hf b' hR'⟩
    · obtain ⟨c', hc', hR'⟩ := h.kept j c ((List.getElem?_set_ne hij).trans hc)
      exact ⟨c', by rw [List.getElem?_modify_ne _ _ hij, hc'], hR'⟩
  fresh := by
    intro j c hj hc
    obtain ⟨hlt, -⟩ := List.getElem?_eq_some_iff.mp ha
    rw [List.getElem?_modify_ne _ _ (by omega)] at hc
    exact h.fresh j c (by simpa using hj) hc

/-- The same for a new entry. -/
theorem append_around {f : α → α} (h : Growth R P (l ++ [b]) l') (hf : ∀ b', R b b' → P (f b')) :
    Growth R P l (l'.modify l.length f) where
  length := by
    have hlen := h.length
    rw [List.length_append, List.length_singleton] at hlen
    rw [List.length_modify]
    omega
  kept := by
    intro j c hc
    obtain ⟨hlt, -⟩ := List.getElem?_eq_some_iff.mp hc
    obtain ⟨c', hc', hR⟩ := h.kept j c ((List.getElem?_append_left hlt).trans hc)
    exact ⟨c', by rw [List.getElem?_modify_ne _ _ (by omega), hc'], hR⟩
  fresh := by
    intro j c hj hc
    rcases Nat.eq_or_lt_of_le hj with rfl | hlt
    · obtain ⟨b', hb', hR⟩ := h.kept l.length b (by simp)
      rw [List.getElem?_modify_eq, hb'] at hc
      obtain rfl := Option.some.inj hc
      exact hf b' hR
    · rw [List.getElem?_modify_ne _ _ (by omega)] at hc
      exact h.fresh j c (by rw [List.length_append, List.length_singleton]; omega) hc

end Growth
