import Mathlib.Data.List.Basic

/-!
# Runs of an event-driven machine

A `Machine` takes one event at a time : `enabled` says which events the environment
may deliver in a state, `next` what the program makes of one. `Run s es t` says that
the events `es`, each enabled where it is delivered, lead from `s` to `t`. Runs grow
at the end, so the state before the last event is at hand in every induction.

`Run.invariant` is the safety rule : what holds at the start and is kept by every
enabled event holds at the end. `Run.of_admits` makes a run of a list of events that can
be checked one by one, and `Run.lockstep` carries a run over to a machine that can follow it
event by event. `Machine.restrict` keeps only the events that meet a
condition on the state before them, so a run of the restricted machine is a run all
of whose steps meet the condition. `Run.since` finds the event with which something came to
hold that has held ever since.
-/

namespace Transition

/-- A machine that takes one event at a time. -/
structure Machine (S E : Type*) where
  enabled : S → E → Prop
  next : S → E → S

variable {S E : Type*}

/-- The events `es` lead from `s` to `t`. -/
inductive Run (M : Machine S E) (s : S) : List E → S → Prop where
  | nil : Run M s [] s
  | snoc {es : List E} {t : S} {e : E} :
      Run M s es t → M.enabled t e → Run M s (es ++ [e]) (M.next t e)

namespace Machine

/-- Only the events that meet `ok` in the state before them. -/
def restrict (M : Machine S E) (ok : S → E → Prop) : Machine S E where
  enabled s e := M.enabled s e ∧ ok s e
  next := M.next

instance (M : Machine S E) (ok : S → E → Prop) [∀ s e, Decidable (M.enabled s e)]
    [∀ s e, Decidable (ok s e)] (s : S) (e : E) : Decidable ((M.restrict ok).enabled s e) :=
  inferInstanceAs (Decidable (_ ∧ _))

/-- The events can be delivered one after the other from `s`. -/
def Admits (M : Machine S E) : S → List E → Prop
  | _, [] => True
  | s, e :: es => M.enabled s e ∧ M.Admits (M.next s e) es

instance Admits.decidable (M : Machine S E) [∀ s e, Decidable (M.enabled s e)] :
    (s : S) → (es : List E) → Decidable (M.Admits s es)
  | _, [] => inferInstanceAs (Decidable True)
  | s, e :: es =>
    have := Admits.decidable M (M.next s e) es
    inferInstanceAs (Decidable (M.enabled s e ∧ M.Admits (M.next s e) es))

end Machine

namespace Run

variable {M : Machine S E} {s t : S} {es : List E}

/-- The safety rule. -/
theorem invariant {I : S → Prop} (h : Run M s es t) (h0 : I s)
    (hstep : ∀ u e, I u → M.enabled u e → I (M.next u e)) : I t := by
  induction h with
  | nil => exact h0
  | snoc _ he ih => exact hstep _ _ ih he

/-- Runs compose. -/
theorem append {u : S} {fs : List E} (h : Run M s es t) (h' : Run M t fs u) :
    Run M s (es ++ fs) u := by
  induction h' with
  | nil => simpa using h
  | snoc _ he ih =>
    rw [← List.append_assoc]
    exact .snoc ih he

/-- A machine that can follow another event by event has a run of the same events. -/
theorem lockstep {S' : Type*} {M' : Machine S' E} {R : S → S' → Prop} {s' : S'}
    (h : Run M s es t) (h0 : R s s') (hstep : ∀ u u' e, R u u' → M.enabled u e →
      M'.enabled u' e ∧ R (M.next u e) (M'.next u' e)) : ∃ t', Run M' s' es t' ∧ R t t' := by
  induction h with
  | nil => exact ⟨s', .nil, h0⟩
  | snoc _ he ih =>
    obtain ⟨t', hrun, hR⟩ := ih
    obtain ⟨he', hR'⟩ := hstep _ t' _ hR he
    exact ⟨_, .snoc hrun he', hR'⟩

/-- Events that can be delivered make a run. -/
theorem of_admits : ∀ {s : S} {es : List E}, M.Admits s es → Run M s es (es.foldl M.next s)
  | _, [], _ => .nil
  | _, e :: _, h => append (.snoc .nil h.1 : Run M _ [e] _) (of_admits h.2)

/-- A condition that every step meets restricts nothing. -/
theorem to_restrict {ok : S → E → Prop} (h : Run M s es t)
    (hok : ∀ u e, M.enabled u e → ok u e) : Run (M.restrict ok) s es t := by
  induction h with
  | nil => exact .nil
  | snoc _ he ih => exact .snoc ih ⟨he, hok _ _ he⟩

/-- A run of the restricted machine is a run of the machine. -/
theorem of_restrict {ok : S → E → Prop} (h : Run (M.restrict ok) s es t) : Run M s es t := by
  induction h with
  | nil => exact .nil
  | snoc _ he ih => exact .snoc ih he.1

/-- A weaker condition restricts no more. -/
theorem mono {ok ok' : S → E → Prop} (h : Run (M.restrict ok) s es t)
    (hok : ∀ u e, M.enabled u e ∧ ok u e → M.enabled u e ∧ ok' u e) :
    Run (M.restrict ok') s es t := by
  induction h with
  | nil => exact .nil
  | snoc _ he ih => exact .snoc ih (hok _ _ he)

/-- Every event of a run was enabled where it was delivered. -/
theorem events (h : Run M s es t) : ∀ e ∈ es, ∃ u, M.enabled u e := by
  induction h with
  | nil => simp
  | @snoc es t e _ he ih =>
    intro e' he'
    rcases List.mem_append.mp he' with he' | he'
    · exact ih e' he'
    · obtain rfl := List.mem_singleton.mp he'
      exact ⟨t, he⟩

/-- A run of events that all meet a condition. -/
theorem restrict_of_mem {P : E → Prop} (h : Run M s es t) (hP : ∀ e ∈ es, P e) :
    Run (M.restrict fun _ e => P e) s es t := by
  induction h with
  | nil => exact .nil
  | snoc _ he ih =>
    exact .snoc (ih fun e' he' => hP e' (List.mem_append_left _ he')) ⟨he, hP _ (by simp)⟩

/-- What holds at the end of a run and not at its start came to hold with one of its events, and
has held since. -/
theorem since {P : S → Prop} (h : Run M s es t) (hs : ¬P s) (ht : P t) :
    ∃ (pre : List E) (e : E) (post : List E) (u : S), es = pre ++ e :: post ∧ Run M s pre u ∧
      M.enabled u e ∧ ¬P u ∧ P (M.next u e) ∧
      Run (M.restrict fun v _ => P v) (M.next u e) post t := by
  induction h with
  | nil => exact absurd ht hs
  | @snoc es u e hrun he ih =>
    by_cases hu : P u
    · obtain ⟨pre, e', post, v, rfl, hpre, he', hv, hnext, hpost⟩ := ih hu
      exact ⟨pre, e', post ++ [e], v, by simp, hpre, he', hv, hnext, .snoc hpost ⟨he, hu⟩⟩
    · exact ⟨es, e, [], u, rfl, hrun, he, hu, ht, .nil⟩

end Run

end Transition
