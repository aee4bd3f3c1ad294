import RlNginx.Lib.Transition

/-!
# Machines on a clock

A machine some of whose states have armed timers, put on a clock. `Timers` reads off a state
which timers are armed, with which delay, and says which timers an event arms. In the timed
machine an event happens at the time it finds, and takes none; time goes on by ticks, and
passes the moment a timer is due by no more than the lateness of the event loop.

`Run.timers_within` bounds every armed timer. Where an event that arms a timer keeps the moment
it is due below a bound, and the others leave it armed as it was and lower no bound, no
timer is due after its bound, and time does not pass a bound by more than the lateness.
-/

namespace Transition

variable {S E K : Type*}

/-- The armed timers of a state with their delays, and the timers that an event arms. -/
structure Timers (S E K : Type*) where
  delay : S → K → Option ℕ
  arms : S → E → K → Bool

/-- A state on the clock, with the time at which each timer was armed last. -/
structure Timed (S K : Type*) where
  state : S
  now : ℕ
  armedAt : K → ℕ

/-- What happens on the clock. -/
inductive Clocked (E : Type*) where
  | tick
  | event (e : E)

/-- No timer is overdue by more than `late`. -/
def Timers.Punctual (T : Timers S E K) (late : ℕ) (t : Timed S K) : Prop :=
  ∀ k, ∀ d ∈ T.delay t.state k, t.now < t.armedAt k + d + late

/-- The machine on the clock. `happens` says which events can happen at which time. -/
def Machine.timed (M : Machine S E) (T : Timers S E K) (happens : ℕ → E → Prop) (late : ℕ) :
    Machine (Timed S K) (Clocked E) where
  enabled t
    | .tick => T.Punctual late t
    | .event e => M.enabled t.state e ∧ happens t.now e
  next t
    | .tick => { t with now := t.now + 1 }
    | .event e =>
      { t with
        state := M.next t.state e
        armedAt := fun k => if T.arms t.state e k then t.now else t.armedAt k }

section Runs

variable {M : Machine S E} {T : Timers S E K} {happens : ℕ → E → Prop} {late : ℕ}
  {t₀ t : Timed S K} {es : List (Clocked E)}

/-- What bounds the timers : where an event leaves a timer alone, the timer is as it was and
its bound no lower; where an event arms a timer at a time within the old bound, it is due
within the new one. -/
structure Timers.Bounded (T : Timers S E K) (M : Machine S E) (happens : ℕ → E → Prop) (late : ℕ)
    (I : S → Prop) (bound : S → K → ℕ) : Prop where
  step : ∀ {s e}, I s → M.enabled s e → I (M.next s e)
  alone : ∀ {s e k d}, I s → M.enabled s e → T.arms s e k = false →
    T.delay (M.next s e) k = some d → T.delay s k = some d ∧ bound s k ≤ bound (M.next s e) k
  armed : ∀ {s e k d n}, I s → M.enabled s e → happens n e → T.arms s e k = true →
    T.delay (M.next s e) k = some d → (∀ d' ∈ T.delay s k, n ≤ bound s k + late) →
    n + d ≤ bound (M.next s e) k

variable {I : S → Prop} {bound : S → K → ℕ}

/-- The timers of a state on the clock : none is overdue by more than the lateness, and none is
due after its bound. -/
def Timers.Within (T : Timers S E K) (late : ℕ) (bound : S → K → ℕ) (t : Timed S K) : Prop :=
  ∀ k, ∀ d ∈ T.delay t.state k, t.now ≤ t.armedAt k + d + late ∧
    t.armedAt k + d ≤ bound t.state k

theorem Timers.Bounded.next (hT : T.Bounded M happens late I bound) (hI : I t.state)
    (hwithin : T.Within late bound t) {e : Clocked E}
    (he : (M.timed T happens late).enabled t e) :
    T.Within late bound ((M.timed T happens late).next t e) := by
  cases e with
  | tick =>
    intro k d hd
    have hlt := he k d hd
    exact ⟨hlt, (hwithin k d hd).2⟩
  | event e =>
    obtain ⟨hen, hat⟩ := he
    intro k d hd
    have harmedAt : ((M.timed T happens late).next t (.event e)).armedAt k =
        if T.arms t.state e k then t.now else t.armedAt k := rfl
    rw [harmedAt]
    cases harms : T.arms t.state e k with
    | true =>
      have hdue : t.now + d ≤ bound (M.next t.state e) k := by
        refine hT.armed hI hen hat harms hd fun d' hd' => ?_
        have hold := hwithin k d' hd'
        omega
      exact ⟨by simp only [if_true]; exact Nat.le_add_right_of_le (Nat.le_add_right _ d), hdue⟩
    | false =>
      obtain ⟨hsame, hmono⟩ := hT.alone hI hen harms hd
      obtain ⟨hlate, hdue⟩ := hwithin k d hsame
      exact ⟨hlate, Nat.le_trans hdue hmono⟩

/-- In every state of a run that starts with no armed timer, the armed timers are within
their bounds. -/
theorem Run.timers_within (h : Run (M.timed T happens late) t₀ es t)
    (hT : T.Bounded M happens late I bound) (h0 : I t₀.state)
    (hnone : ∀ k, T.delay t₀.state k = none) :
    I t.state ∧ T.Within late bound t := by
  refine h.invariant (I := fun t => I t.state ∧ T.Within late bound t) ⟨h0, ?_⟩ ?_
  · intro k d hd
    rw [hnone k] at hd
    cases hd
  · rintro u e ⟨hI, hwithin⟩ he
    refine ⟨?_, hT.next hI hwithin he⟩
    cases e with
    | tick => exact hI
    | event e => exact hT.step hI he.1

end Runs

end Transition
