import Mathlib.Data.List.Perm.Basic
import Mathlib.Data.Set.Operations

/-!
# Steps that may be taken in either order

A list of elements is read by partial steps. Two elements are `Independent` when their steps
may be taken in either order, from every state. Two lists of the same elements then read the
same when every two elements that are not independent stand in the same order in both, that
is when the lists have one projection to these two (`foldlM_reorder`).

Independence comes from footprints. `Footprint` says which components of the state a step
looks at and which it may change, and two steps are independent when neither changes what
the other looks at and they agree on what both change (`Footprint.independent`).
-/

namespace Shuffle

variable {S A : Type*}

section Order

variable (step : S → A → Option S)

/-- The two elements may be read in either order. -/
def Independent (a b : A) : Prop :=
  ∀ s, (step s a).bind (step · b) = (step s b).bind (step · a)

variable {step}

/-- An element may be read before those it is independent of. -/
theorem foldlM_move {a : A} {after : List A} : ∀ {before : List A} {s : S},
    (∀ b ∈ before, Independent step b a) →
      (before ++ a :: after).foldlM step s = (a :: (before ++ after)).foldlM step s
  | [], s, _ => rfl
  | b :: before, s, h => by
    have hrest : ∀ s, (before ++ a :: after).foldlM step s =
        (a :: (before ++ after)).foldlM step s :=
      fun s => foldlM_move fun x hx => h x (List.mem_cons_of_mem b hx)
    have hswap := congrArg (·.bind fun t => (before ++ after).foldlM step t) (h b (by simp) s)
    simp only [Option.bind_assoc] at hswap
    calc (b :: before ++ a :: after).foldlM step s
        = (step s b).bind fun t => (before ++ a :: after).foldlM step t := rfl
      _ = (step s b).bind fun t => (step t a).bind fun t => (before ++ after).foldlM step t := by
        simp only [hrest]
        rfl
      _ = (step s a).bind fun t => (step t b).bind fun t => (before ++ after).foldlM step t :=
        hswap
      _ = (a :: (b :: before ++ after)).foldlM step s := rfl

variable [DecidableEq A]

/-- The elements of a list that are one of two. -/
def pick (a b : A) (l : List A) : List A :=
  l.filter fun x => x = a ∨ x = b

theorem pick_append (a b : A) (l l' : List A) : pick a b (l ++ l') = pick a b l ++ pick a b l' :=
  List.filter_append l l'

theorem mem_pick {a b x : A} {l : List A} : x ∈ pick a b l ↔ x ∈ l ∧ (x = a ∨ x = b) := by
  simp [pick]

theorem pick_cons_of {a b x : A} (h : x = a ∨ x = b) (l : List A) :
    pick a b (x :: l) = x :: pick a b l :=
  List.filter_cons_of_pos (by simpa using h)

theorem pick_cons_of_not {a b x : A} (h : ¬(x = a ∨ x = b)) (l : List A) :
    pick a b (x :: l) = pick a b l :=
  List.filter_cons_of_neg (by simpa using h)

/-- Where one list starts with an element that the other has later, nothing before that
place is picked with it. -/
theorem pick_eq_nil {a b x : A} {l before after : List A} (hx : x = a ∨ x = b)
    (hfirst : x ∉ before) (h : pick a b (x :: l) = pick a b (before ++ x :: after)) :
    pick a b before = [] := by
  rw [pick_cons_of hx, pick_append] at h
  rcases hbefore : pick a b before with _ | ⟨y, ys⟩
  · rfl
  · rw [hbefore, List.cons_append, List.cons.injEq] at h
    have hy : y ∈ pick a b before := by simp [hbefore]
    exact absurd (h.1 ▸ (mem_pick.mp hy).1) hfirst

/-- The elements that are not independent of one another stand in the same order in both
lists. -/
def SameOrder (step : S → A → Option S) (l l' : List A) : Prop :=
  ∀ a ∈ l, ∀ b ∈ l, Independent step a b ∨ pick a b l = pick a b l'

/-- Lists of the same elements that agree on the order of those that are not independent read
the same. -/
theorem foldlM_reorder : ∀ {l l' : List A} {s : S}, l.Perm l' → SameOrder step l l' →
    l.foldlM step s = l'.foldlM step s
  | [], l', s, hperm, _ => by
    rw [List.nil_perm.mp hperm]
  | a :: l, l', s, hperm, horder => by
    obtain ⟨before, after, rfl, hfirst⟩ :=
      List.eq_append_cons_of_mem (hperm.mem_iff.mp List.mem_cons_self)
    -- what stands before the first `a` of the other list is independent of it
    have hfree : ∀ b ∈ before, Independent step b a := by
      intro b hb
      have hmem : b ∈ a :: l := hperm.mem_iff.mpr (by simp [hb])
      rcases horder b hmem a List.mem_cons_self with hind | hpick
      · exact hind
      · have hnil := pick_eq_nil (.inr rfl) hfirst hpick
        have hmem' : b ∈ pick b a before := mem_pick.mpr ⟨hb, .inl rfl⟩
        rw [hnil] at hmem'
        cases hmem'
    have hperm' : l.Perm (before ++ after) :=
      List.Perm.cons_inv (hperm.trans List.perm_middle)
    have horder' : SameOrder step l (before ++ after) := by
      intro x hx y hy
      rcases horder x (List.mem_cons_of_mem a hx) y (List.mem_cons_of_mem a hy) with hind | hpick
      · exact .inl hind
      · refine .inr ?_
        by_cases ha : a = x ∨ a = y
        · have hnil := pick_eq_nil ha hfirst hpick
          rw [pick_cons_of ha, pick_append, hnil, pick_cons_of ha, List.nil_append,
            List.cons.injEq] at hpick
          rw [pick_append, hnil, List.nil_append, hpick.2]
        · rw [pick_cons_of_not ha, pick_append, pick_cons_of_not ha, ← pick_append] at hpick
          exact hpick
    rw [foldlM_move hfree, List.foldlM_cons, List.foldlM_cons]
    exact bind_congr fun t => foldlM_reorder hperm' horder'

end Order

/-! ## Footprints -/

section Footprint

variable {K : Type*} {V : K → Type*} (get : S → ∀ k, V k)

/-- What a step looks at and what it may change : nothing else changes, and states that agree
on what it looks at are refused together, or get the same values. -/
structure Footprint (f : S → Option S) (reads writes : Set K) : Prop where
  frame : ∀ s s', f s = some s' → ∀ k ∉ writes, get s' k = get s k
  reads_only : ∀ s t s', (∀ k ∈ reads, get s k = get t k) → f s = some s' →
    ∃ t', f t = some t' ∧ ∀ k ∈ writes, get s' k = get t' k

variable {get} {f g : S → Option S} {reads writes reads' writes' : Set K}

/-- Half of `Footprint.independent` : what succeeds in one order does so in the other, with
the same result. -/
theorem Footprint.swap (hget : Function.Injective get) (hf : Footprint get f reads writes)
    (hg : Footprint get g reads' writes') (hfg : ∀ k ∈ writes, k ∉ reads')
    (hgf : ∀ k ∈ writes', k ∉ reads)
    (hboth : ∀ s s' t', f s = some s' → g s = some t' → ∀ k ∈ writes, k ∈ writes' →
      get s' k = get t' k) {s u : S} (h : (f s).bind g = some u) : (g s).bind f = some u := by
  obtain ⟨s', hs', hu⟩ := Option.bind_eq_some_iff.mp h
  have hsame : ∀ k ∈ reads', get s' k = get s k :=
    fun k hk => hf.frame s s' hs' k fun hw => hfg k hw hk
  obtain ⟨t', ht', hwrites'⟩ := hg.reads_only s' s u hsame hu
  have hsame' : ∀ k ∈ reads, get s k = get t' k :=
    fun k hk => (hg.frame s t' ht' k fun hw => hgf k hw hk).symm
  obtain ⟨u', hu', hwrites⟩ := hf.reads_only s t' s' hsame' hs'
  refine Option.bind_eq_some_iff.mpr ⟨t', ht', ?_⟩
  rw [hu']
  refine congrArg some (hget (funext fun k => ?_))
  rcases Classical.em (k ∈ writes) with hk | hk <;>
    rcases Classical.em (k ∈ writes') with hk' | hk'
  · rw [← hwrites k hk, hwrites' k hk', hboth s s' t' hs' ht' k hk hk']
  · rw [← hwrites k hk, hg.frame s' u hu k hk']
  · rw [hf.frame t' u' hu' k hk, hwrites' k hk']
  · rw [hf.frame t' u' hu' k hk, hg.frame s t' ht' k hk', hg.frame s' u hu k hk',
      hf.frame s s' hs' k hk]

/-- Steps of which neither changes what the other looks at, and which agree on what both
change, may be taken in either order. -/
theorem Footprint.independent (hget : Function.Injective get)
    (hf : Footprint get f reads writes) (hg : Footprint get g reads' writes')
    (hfg : ∀ k ∈ writes, k ∉ reads') (hgf : ∀ k ∈ writes', k ∉ reads)
    (hboth : ∀ s s' t', f s = some s' → g s = some t' → ∀ k ∈ writes, k ∈ writes' →
      get s' k = get t' k) (s : S) : (f s).bind g = (g s).bind f := by
  ext u
  exact ⟨hf.swap hget hg hfg hgf hboth, hg.swap hget hf hgf hfg
    fun s t' s' ht' hs' k hk' hk => (hboth s s' t' hs' ht' k hk hk').symm⟩

end Footprint

end Shuffle
