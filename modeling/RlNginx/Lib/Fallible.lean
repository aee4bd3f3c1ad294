import Mathlib.Data.List.Basic

/-!
# Folds that may fail

Inversion of a sequence of steps each of which may reject : the first step succeeded,
and so did the rest from its result. `foldlM_invariant` carries a property along the
steps that succeeded, `foldlM_seen` one of the elements seen so far, `foldlM_establish` gives
what each step establishes, `foldlM_total` runs steps that cannot fail,
`foldlM_error` finds the step that failed, `foldlM_append_ok` splits a run, and
`foldlM_reached` follows what one element establishes.
`foldlM_toOption` forgets why a run failed, and `toOption_cases` compares two computations
up to that. `sweep` is a run that also leaves the state of a failing step behind, and
`sweep_agrees` compares it with one that does not.
-/

namespace Fallible

variable {α β ε : Type*}

theorem foldlM_cons_ok {f : β → α → Except ε β} {a : α} {l : List α} {b c : β}
    (h : (a :: l).foldlM f b = .ok c) : ∃ b', f b a = .ok b' ∧ l.foldlM f b' = .ok c := by
  rw [List.foldlM_cons] at h
  cases hf : f b a with
  | error e => rw [hf] at h; cases h
  | ok b' => exact ⟨b', rfl, by rw [hf] at h; exact h⟩

/-- What each successful step keeps holds at the end. -/
theorem foldlM_invariant {f : β → α → Except ε β} {I : β → Prop} :
    ∀ {l : List α} {b c : β}, l.foldlM f b = .ok c → I b →
      (∀ b a b', a ∈ l → I b → f b a = .ok b' → I b') → I c
  | [], b, c, h, hb, _ => by
    cases h
    exact hb
  | a :: l, b, c, h, hb, hstep => by
    obtain ⟨b', hb', hrest⟩ := foldlM_cons_ok h
    exact foldlM_invariant hrest (hstep b a b' (by simp) hb hb')
      fun b a b' ha => hstep b a b' (by simp [ha])

/-- A property of the elements seen so far, kept by each successful step, holds of all of them
at the end. -/
theorem foldlM_seen {f : β → α → Except ε β} {I : List α → β → Prop}
    (hstep : ∀ seen b a b', I seen b → f b a = .ok b' → I (seen ++ [a]) b') :
    ∀ {l seen : List α} {b c : β}, l.foldlM f b = .ok c → I seen b → I (seen ++ l) c
  | [], seen, b, c, h, hb => by
    cases h
    simpa using hb
  | a :: l, seen, b, c, h, hb => by
    obtain ⟨b', hb', hrest⟩ := foldlM_cons_ok h
    simpa using foldlM_seen hstep hrest (hstep seen b a b' hb hb')

/-- Steps that all succeed, from wherever they start, make a run that does. -/
theorem foldlM_total {f : β → α → Except ε β} :
    ∀ {l : List α}, (∀ a ∈ l, ∀ b, ∃ b', f b a = .ok b') → ∀ b, ∃ c, l.foldlM f b = .ok c
  | [], _, b => ⟨b, rfl⟩
  | a :: l, h, b => by
    obtain ⟨b', hb'⟩ := h a (by simp) b
    obtain ⟨c, hc⟩ := foldlM_total (fun x hx => h x (List.mem_cons_of_mem a hx)) b'
    refine ⟨c, ?_⟩
    rw [List.foldlM_cons, hb']
    exact hc

/-- What every successful step establishes holds at the end of a run that has a step. -/
theorem foldlM_establish {f : β → α → Except ε β} {I K : β → Prop} {l : List α} {b c : β}
    (h : l.foldlM f b = .ok c) (hne : l ≠ []) (hb : I b) (hweak : ∀ b, K b → I b)
    (hstep : ∀ b a b', a ∈ l → I b → f b a = .ok b' → K b') : K c := by
  obtain ⟨a, l, rfl⟩ := List.exists_cons_of_ne_nil hne
  obtain ⟨b', hb', hrest⟩ := foldlM_cons_ok h
  exact foldlM_invariant hrest (hstep b a b' (by simp) hb hb')
    fun b a b' ha hK => hstep b a b' (by simp [ha]) (hweak b hK)

/-- A run that fails fails at one of its steps. -/
theorem foldlM_error {f : β → α → Except ε β} {e : ε} :
    ∀ {l : List α} {b : β}, l.foldlM f b = .error e → ∃ a ∈ l, ∃ b', f b' a = .error e
  | [], b, h => by cases h
  | a :: l, b, h => by
    rw [List.foldlM_cons] at h
    cases hf : f b a with
    | error e' =>
      rw [hf] at h
      cases h
      exact ⟨a, by simp, b, hf⟩
    | ok b' =>
      rw [hf] at h
      obtain ⟨x, hx, y, hy⟩ := foldlM_error (l := l) (b := b') h
      exact ⟨x, List.mem_cons_of_mem _ hx, y, hy⟩

/-- A run of steps is a run of the first ones, then of the others. -/
theorem foldlM_append_ok {f : β → α → Except ε β} :
    ∀ {l m : List α} {b c : β}, (l ++ m).foldlM f b = .ok c →
      ∃ b', l.foldlM f b = .ok b' ∧ m.foldlM f b' = .ok c
  | [], m, b, c, h => ⟨b, rfl, h⟩
  | a :: l, m, b, c, h => by
    obtain ⟨b₁, hb₁, hrest⟩ := foldlM_cons_ok (l := l ++ m) h
    obtain ⟨b', hl, hm⟩ := foldlM_append_ok hrest
    refine ⟨b', ?_, hm⟩
    rw [List.foldlM_cons, hb₁]
    exact hl

/-- What one element establishes, from wherever it is taken, and every step keeps, holds at the
end of a run that has the element. -/
theorem foldlM_reached {f : β → α → Except ε β} {I : β → Prop} {l : List α} {b c : β} {a : α}
    (h : l.foldlM f b = .ok c) (ha : a ∈ l) (hset : ∀ b b', f b a = .ok b' → I b')
    (hkeep : ∀ b x b', I b → f b x = .ok b' → I b') : I c := by
  obtain ⟨l₁, l₂, rfl⟩ := List.append_of_mem ha
  obtain ⟨b₁, -, hrest⟩ := foldlM_append_ok h
  obtain ⟨b₂, hb₂, hrest⟩ := foldlM_cons_ok hrest
  exact foldlM_invariant hrest (hset b₁ b₂ hb₂) fun b x b' _ => hkeep b x b'

/-- A run without its error is a run of the steps without theirs. -/
theorem foldlM_toOption {f : β → α → Except ε β} {g : β → α → Option β}
    (h : ∀ b a, (f b a).toOption = g b a) :
    ∀ (l : List α) (b : β), (l.foldlM f b).toOption = l.foldlM g b
  | [], b => rfl
  | a :: l, b => by
    rw [List.foldlM_cons, List.foldlM_cons, ← h]
    rcases f b a with e | b'
    · rfl
    · exact foldlM_toOption h l b'

/-- Computations that agree but for their errors both succeed or both fail. -/
theorem toOption_cases {x y : Except ε β} (h : x.toOption = y.toOption) :
    (∃ b, x = .ok b ∧ y = .ok b) ∨ ∃ e e', x = .error e ∧ y = .error e' := by
  rcases x with e | b <;> rcases y with e' | b' <;> simp_all [Except.toOption]

/-- Computations that succeed with the same values agree but for their errors. -/
theorem toOption_ext {x y : Except ε β} (h : ∀ b, x = .ok b ↔ y = .ok b) :
    x.toOption = y.toOption := by
  rcases x with e | b
  · rcases y with e' | b'
    · rfl
    · cases (h b').mpr rfl
  · rw [(h b).mp rfl]

/-! ## Loops that leave their state behind -/

section Sweep

variable {S : Type*}

/-- A loop over an explicit state that stops at the first error, with the state it reached. -/
def sweep (g : S → α → S × Option ε) : S → List α → S × Option ε
  | s, [] => (s, none)
  | s, a :: l =>
    match g s a with
    | (s', none) => sweep g s' l
    | (s', some e) => (s', some e)

/-- The same end, with related states after a success and `J` after a failure. -/
inductive Agrees (R : β → S → Prop) (J : S → Prop) : Except ε β → S × Option ε → Prop where
  | ok {b : β} {s : S} : R b s → Agrees R J (.ok b) (s, none)
  | error {e : ε} {s : S} : J s → Agrees R J (.error e) (s, some e)

/-- Steps that agree make runs that agree. `R` may depend on the elements still to come. -/
theorem sweep_agrees {f : β → α → Except ε β} {g : S → α → S × Option ε}
    {R : List α → β → S → Prop} {J : S → Prop}
    (hstep : ∀ a l b s, R (a :: l) b s → Agrees (R l) J (f b a) (g s a)) :
    ∀ {l : List α} {b : β} {s : S}, R l b s → Agrees (R []) J (l.foldlM f b) (sweep g s l)
  | [], b, s, h => .ok h
  | a :: l, b, s, h => by
    have ha := hstep a l b s h
    rw [List.foldlM_cons, sweep]
    generalize f b a = x, g s a = y at ha ⊢
    rcases ha with hR | hJ
    · exact sweep_agrees hstep hR
    · exact .error hJ

end Sweep

end Fallible
