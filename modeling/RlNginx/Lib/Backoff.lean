import Mathlib.Data.List.Basic
import Mathlib.Data.Nat.Init

/-!
# Attempts with a growing pause

A caller may try something at every call, and pauses after a failure : the `k`-th failure in a
row is followed by a pause of `delay k`. A `Call` is one call with its time, whether it made an
attempt, and whether that succeeded.

`stateAfter` is what a history of calls leaves behind, and a history `Follows` the pauses when
every call makes an attempt exactly when that state asks for one. `Follows.law` says what this
means for the history alone : no attempt inside a pause, one at the first call after it, and
none after a success.
-/

namespace Backoff

/-- One call : its time, whether it made an attempt, and whether the attempt succeeded. -/
structure Call where
  now : ℕ
  attempted : Bool
  ok : Bool
  deriving DecidableEq, Repr

/-- Nothing was tried yet; the `k`-th failure in a row was at the given time; or it succeeded. -/
inductive State where
  | ready
  | waiting (k since : ℕ)
  | settled
  deriving DecidableEq, Repr

/-- The failures in a row so far. -/
def State.failures : State → ℕ
  | .ready => 0
  | .waiting k _ => k + 1
  | .settled => 0

variable {delay : ℕ → ℕ} {calls : List Call} {i j : ℕ} {c d : Call}

/-- A call at the given time is to make an attempt. -/
def State.attempts (delay : ℕ → ℕ) : State → ℕ → Bool
  | .ready, _ => true
  | .waiting k since, now => decide (since + delay k ≤ now)
  | .settled, _ => false

/-- What a call leaves behind. -/
def State.next (st : State) (c : Call) : State :=
  if c.attempted then (if c.ok then .settled else .waiting st.failures c.now) else st

/-- What a history leaves behind. -/
def stateAfter (calls : List Call) : State :=
  calls.foldl State.next .ready

/-- Every call makes an attempt exactly when the calls before it ask for one. -/
def Follows (delay : ℕ → ℕ) (calls : List Call) : Prop :=
  ∀ (i : ℕ) (c : Call), calls[i]? = some c →
    c.attempted = (stateAfter (calls.take i)).attempts delay c.now

/-- The failed attempts in a row at the end of a history. -/
def consecutive (calls : List Call) : ℕ :=
  calls.foldl (fun k c => if c.attempted then (if c.ok then 0 else k + 1) else k) 0

/-- The times do not decrease. -/
def Ordered (calls : List Call) : Prop :=
  ∀ (i j : ℕ) (c d : Call), i ≤ j → calls[i]? = some c → calls[j]? = some d → c.now ≤ d.now

/-- The `k`-th failure in a row is followed by no attempt during `delay k`, and by one at the
first call after that; a success is followed by none. -/
structure Law (delay : ℕ → ℕ) (calls : List Call) : Prop where
  pause : ∀ (i : ℕ) (c : Call), calls[i]? = some c → c.attempted = true → c.ok = false →
    ∀ (j : ℕ) (d : Call), i < j → calls[j]? = some d →
      d.now < c.now + delay (consecutive (calls.take i)) → d.attempted = false
  resume : ∀ (i : ℕ) (c : Call), calls[i]? = some c → c.attempted = true → c.ok = false →
    ∀ (j : ℕ) (d : Call), i < j → calls[j]? = some d →
      c.now + delay (consecutive (calls.take i)) ≤ d.now →
      (∀ (m : ℕ) (e : Call), i < m → m < j → calls[m]? = some e →
        e.now < c.now + delay (consecutive (calls.take i))) → d.attempted = true
  settled : ∀ (i : ℕ) (c : Call), calls[i]? = some c → c.attempted = true → c.ok = true →
    ∀ (j : ℕ) (d : Call), i < j → calls[j]? = some d → d.attempted = false

theorem ordered_of_pairwise (h : (calls.map Call.now).Pairwise (· ≤ ·)) : Ordered calls := by
  intro i j c d hij hc hd
  obtain ⟨hi, rfl⟩ := List.getElem?_eq_some_iff.mp hc
  obtain ⟨hj, rfl⟩ := List.getElem?_eq_some_iff.mp hd
  rcases Nat.eq_or_lt_of_le hij with rfl | hlt
  · exact Nat.le_refl _
  · have hpair := List.pairwise_iff_getElem.mp h i j (by simpa using hi) (by simpa using hj) hlt
    simpa using hpair

/-! ## The state of a history -/

/-- A history and the call behind it. -/
theorem stateAfter_take (h : calls[i]? = some c) :
    stateAfter (calls.take (i + 1)) = (stateAfter (calls.take i)).next c := by
  rw [stateAfter, List.take_add_one, h, List.foldl_append]
  rfl

/-- Behind the last call nothing changes. -/
theorem stateAfter_end (h : calls[i]? = none) :
    stateAfter (calls.take (i + 1)) = stateAfter (calls.take i) := by
  rw [List.take_add_one, h]
  simp

/-- The state counts the failures in a row. -/
theorem failures_stateAfter (calls : List Call) :
    (stateAfter calls).failures = consecutive calls := by
  have hstep : ∀ (calls : List Call) (st : State), (calls.foldl State.next st).failures =
      calls.foldl (fun k c => if c.attempted then (if c.ok then 0 else k + 1) else k)
        st.failures := by
    intro calls
    induction calls with
    | nil => exact fun _ => rfl
    | cons c calls ih =>
      intro st
      rw [List.foldl_cons, List.foldl_cons, ih]
      congr 1
      unfold State.next
      split_ifs <;> rfl
  exact hstep calls .ready

/-- Calls without an attempt change nothing. -/
theorem stateAfter_quiet {n : ℕ} (hn : n ≤ j)
    (hquiet : ∀ (m : ℕ) (e : Call), n ≤ m → m < j → calls[m]? = some e → e.attempted = false) :
    stateAfter (calls.take j) = stateAfter (calls.take n) := by
  induction j, hn using Nat.le_induction with
  | base => rfl
  | succ j hj ih =>
    have ih := ih fun m e hm hmj => hquiet m e hm (by omega)
    rcases hcall : calls[j]? with _ | e
    · rw [stateAfter_end hcall, ih]
    · rw [stateAfter_take hcall, State.next, hquiet j e hj (by omega) hcall, if_neg (by decide), ih]

/-- After a failure, until the next attempt. -/
theorem stateAfter_failed (hc : calls[i]? = some c) (hattempt : c.attempted = true)
    (hfail : c.ok = false) (hij : i < j)
    (hquiet : ∀ (m : ℕ) (e : Call), i < m → m < j → calls[m]? = some e → e.attempted = false) :
    stateAfter (calls.take j) = .waiting (consecutive (calls.take i)) c.now := by
  rw [stateAfter_quiet hij hquiet, stateAfter_take hc, State.next, hattempt, hfail, if_pos rfl,
    if_neg (by decide), failures_stateAfter]

/-- After a success. -/
theorem stateAfter_settled (h : Follows delay calls) (hc : calls[i]? = some c)
    (hattempt : c.attempted = true) (hok : c.ok = true) (hij : i < j) :
    stateAfter (calls.take j) = .settled := by
  induction j, hij using Nat.le_induction with
  | base => rw [stateAfter_take hc, State.next, hattempt, hok, if_pos rfl, if_pos rfl]
  | succ j hj ih =>
    rcases hcall : calls[j]? with _ | e
    · rw [stateAfter_end hcall, ih]
    · have hquiet : e.attempted = false := by
        rw [h j e hcall, ih]
        rfl
      rw [stateAfter_take hcall, State.next, hquiet, if_neg (by decide), ih]

/-! ## The law -/

/-- No attempt inside a pause. -/
theorem Follows.pause (h : Follows delay calls) (hordered : Ordered calls)
    (hc : calls[i]? = some c) (hattempt : c.attempted = true) (hfail : c.ok = false)
    (hij : i < j) (hd : calls[j]? = some d)
    (hnow : d.now < c.now + delay (consecutive (calls.take i))) : d.attempted = false := by
  -- by induction on the call : those in between are inside the pause as well
  induction j using Nat.strong_induction_on generalizing d with
  | _ j ih =>
    have hquiet : ∀ (m : ℕ) (e : Call), i < m → m < j → calls[m]? = some e →
        e.attempted = false := by
      intro m e him hmj he
      have hle := hordered m j e d (by omega) he hd
      exact ih m hmj him he (by omega)
    rw [h j d hd, stateAfter_failed hc hattempt hfail hij hquiet, State.attempts]
    exact decide_eq_false (by omega)

/-- A history that follows the pauses obeys the law. -/
theorem Follows.law (h : Follows delay calls) (hordered : Ordered calls) : Law delay calls where
  pause := fun i c hc hattempt hfail j d hij hd hnow =>
    h.pause hordered hc hattempt hfail hij hd hnow
  resume := by
    intro i c hc hattempt hfail j d hij hd hnow hbefore
    have hquiet : ∀ (m : ℕ) (e : Call), i < m → m < j → calls[m]? = some e →
        e.attempted = false := fun m e him hmj he =>
      h.pause hordered hc hattempt hfail him he (hbefore m e him hmj he)
    rw [h j d hd, stateAfter_failed hc hattempt hfail hij hquiet, State.attempts]
    exact decide_eq_true hnow
  settled := by
    intro i c hc hattempt hok j d hij hd
    rw [h j d hd, stateAfter_settled h hc hattempt hok hij]
    rfl

end Backoff
