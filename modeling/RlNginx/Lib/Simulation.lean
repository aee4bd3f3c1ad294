import Mathlib.Data.List.Induction
import RlNginx.Lib.Transition

/-!
# Traces and forward simulations

A specification says what may be seen of a machine : `step a l b` lets the label `l` be seen
in the phase `a`, with the phase `b` after it. `Trace step a ls b` is a sequence of such
steps. `seen` is what an observer makes of the events of a run, given what shows of each.

`Simulates` relates the states of a machine to the phases of a specification : an event that
shows is matched by one step, an event that shows nothing changes no phase. By
`Simulates.trace` what is seen of a run is then a trace, so what holds of every trace of the
specification holds of every run. `Trace.turn` finds the label at which something became so.
-/

namespace Transition

section Trace

variable {A L : Type*} {step : A → L → A → Prop}

/-- The labels `ls` may be seen one after the other from `a`, and lead to `b`. -/
inductive Trace (step : A → L → A → Prop) (a : A) : List L → A → Prop where
  | nil : Trace step a [] a
  | snoc {ls : List L} {b c : A} {l : L} :
      Trace step a ls b → step b l c → Trace step a (ls ++ [l]) c

namespace Trace

variable {a b : A} {ls : List L}

/-- What every step keeps, a trace keeps. -/
theorem invariant {P : A → Prop} (h : Trace step a ls b) (ha : P a)
    (hstep : ∀ u l v, P u → step u l v → P v) : P b := by
  induction h with
  | nil => exact ha
  | snoc _ hl ih => exact hstep _ _ _ ih hl

/-- What holds at the end of a trace and not at its start came to hold at one of its labels. -/
theorem turn {P : A → Prop} (h : Trace step a ls b) (ha : ¬P a) (hb : P b) :
    ∃ (pre : List L) (l : L) (post : List L) (u v : A), ls = pre ++ l :: post ∧
      Trace step a pre u ∧ ¬P u ∧ step u l v ∧ P v := by
  induction h with
  | nil => exact absurd hb ha
  | @snoc ls b c l htrace hl ih =>
    by_cases hP : P b
    · obtain ⟨pre, l', post, u, v, rfl, htail⟩ := ih hP
      exact ⟨pre, l', post ++ [l], u, v, by simp, htail⟩
    · exact ⟨ls, l, [], b, c, rfl, htrace, hP, hl, hb⟩

/-- The last label of a trace is a step. -/
theorem last {l : L} (h : Trace step a (ls ++ [l]) b) : ∃ u, Trace step a ls u ∧ step u l b := by
  generalize hall : ls ++ [l] = all at h
  cases h with
  | nil => simp at hall
  | snoc htrace hl =>
    obtain ⟨rfl, hlast⟩ := List.append_inj' hall rfl
    obtain rfl := List.singleton_injective hlast
    exact ⟨_, htrace, hl⟩

/-- A trace can be cut anywhere. -/
theorem split {ms : List L} (h : Trace step a (ls ++ ms) b) :
    ∃ u, Trace step a ls u ∧ Trace step u ms b := by
  induction ms using List.reverseRecOn generalizing b with
  | nil => exact ⟨b, by simpa using h, .nil⟩
  | append_singleton ms l ih =>
    rw [← List.append_assoc] at h
    obtain ⟨c, htrace, hl⟩ := h.last
    obtain ⟨u, hpre, hpost⟩ := ih htrace
    exact ⟨u, hpre, hpost.snoc hl⟩

/-- The first label of a trace is a step. -/
theorem first {l : L} (h : Trace step a (l :: ls) b) : ∃ u, step a l u ∧ Trace step u ls b := by
  have hcut : Trace step a ([l] ++ ls) b := h
  obtain ⟨u, hone, hrest⟩ := hcut.split
  have hlast : Trace step a ([] ++ [l]) u := hone
  obtain ⟨v, hnil, hl⟩ := hlast.last
  generalize hempty : ([] : List L) = before at hnil
  cases hnil with
  | nil => exact ⟨u, hl, hrest⟩
  | snoc => simp at hempty

end Trace

end Trace

section Simulation

variable {S E A L : Type*} {M : Machine S E} {obs : S → E → Option L}
  {step : A → L → A → Prop} {R : S → A → Prop}

/-- What shows of the events `es`, delivered from `s` on. -/
def seen (next : S → E → S) (obs : S → E → Option L) : S → List E → List L
  | _, [] => []
  | s, e :: es => (obs s e).toList ++ seen next obs (next s e) es

theorem seen_append (next : S → E → S) (obs : S → E → Option L) :
    ∀ (s : S) (es fs : List E),
      seen next obs s (es ++ fs) = seen next obs s es ++ seen next obs (es.foldl next s) fs
  | _, [], _ => rfl
  | s, e :: es, fs => by
    rw [List.cons_append, seen, seen_append next obs (next s e) es fs, seen, List.append_assoc]
    rfl

/-- The state a run leads to is the one its events leave. -/
theorem Run.eq_foldl {s t : S} {es : List E} (h : Run M s es t) : t = es.foldl M.next s := by
  induction h with
  | nil => rfl
  | snoc _ _ ih => rw [List.foldl_append, ← ih]; rfl

/-- What shows of a run that is one event longer. -/
theorem Run.seen_snoc {s t : S} {es : List E} (h : Run M s es t) (e : E) :
    seen M.next obs s (es ++ [e]) = seen M.next obs s es ++ (obs t e).toList := by
  rw [seen_append, ← h.eq_foldl]
  simp [seen]

/-- The phases of the specification follow the states of the machine. -/
structure Simulates (M : Machine S E) (obs : S → E → Option L) (step : A → L → A → Prop)
    (R : S → A → Prop) : Prop where
  shows : ∀ {s a e l}, R s a → M.enabled s e → obs s e = some l →
    ∃ b, step a l b ∧ R (M.next s e) b
  silent : ∀ {s a e}, R s a → M.enabled s e → obs s e = none → R (M.next s e) a

/-- What is seen of a run is a trace of the specification. -/
theorem Simulates.trace (h : Simulates M obs step R) {s t : S} {es : List E} (hrun : Run M s es t)
    {a : A} (ha : R s a) : ∃ b, Trace step a (seen M.next obs s es) b ∧ R t b := by
  induction hrun with
  | nil => exact ⟨a, .nil, ha⟩
  | @snoc es t e hrun he ih =>
    obtain ⟨b, htrace, hb⟩ := ih
    rw [hrun.seen_snoc]
    cases hobs : obs t e with
    | none => exact ⟨b, by simpa using htrace, h.silent hb he hobs⟩
    | some l =>
      obtain ⟨c, hstep, hc⟩ := h.shows hb he hobs
      exact ⟨c, htrace.snoc hstep, hc⟩

end Simulation

end Transition
