import Mathlib.Data.List.Perm.Basic
import Mathlib.Data.List.Nodup
import Mathlib.Logic.Function.Basic

/-!
# Reading settings that may each be given once

A record is filled from a list of arguments. Each argument parses to one setting, a
setting has a key, and a key that was seen before is refused. `Settings` holds the parts
of such a reader with the two laws it needs : a setting marks its own key and no other,
and settings of different keys commute.

The order of the arguments then does not matter, neither for acceptance nor for the
record (`run_perm`). An accepted list parses to settings of pairwise different keys, and
its record holds exactly these settings (`run_eq_some_iff`).
-/

namespace Settings

/-- A reader of settings of type `V`, with keys in `K`, into a record `S`, from arguments
`A`. -/
structure Reader (S A K V : Type*) where
  parse : A → Option V
  key : V → K
  seen : S → K → Bool
  set : S → V → S
  seen_set : ∀ s v k, seen (set s v) k = true ↔ k = key v ∨ seen s k = true
  set_comm : ∀ s v w, key v ≠ key w → set (set s v) w = set (set s w) v

namespace Reader

variable {S A K V : Type*} (R : Reader S A K V)

/-- Read one argument. -/
def step (s : S) (a : A) : Option S :=
  (R.parse a).bind fun v => if R.seen s (R.key v) then none else some (R.set s v)

/-- Read a list of arguments. -/
def run (args : List A) (s : S) : Option S :=
  args.foldlM R.step s

variable {R}

theorem step_eq_some_iff {s t : S} {a : A} :
    R.step s a = some t ↔ ∃ v, R.parse a = some v ∧ R.seen s (R.key v) = false ∧ R.set s v = t := by
  unfold step
  rw [Option.bind_eq_some_iff]
  constructor
  · rintro ⟨v, hv, h⟩
    split_ifs at h with hseen
    exact ⟨v, hv, by simpa using hseen, Option.some.inj h⟩
  · rintro ⟨v, hv, hseen, rfl⟩
    exact ⟨v, hv, by simp [hseen]⟩

/-- Two arguments may be read in either order. -/
theorem step_comm (s : S) (a b : A) :
    (R.step s a).bind (R.step · b) = (R.step s b).bind (R.step · a) := by
  -- it is enough that one order does everything the other does
  have half : ∀ a b t, (R.step s a).bind (R.step · b) = some t →
      (R.step s b).bind (R.step · a) = some t := by
    intro a b t h
    obtain ⟨s₁, h₁, h₂⟩ := Option.bind_eq_some_iff.mp h
    obtain ⟨v, hv, hseen, rfl⟩ := step_eq_some_iff.mp h₁
    obtain ⟨w, hw, hseen', rfl⟩ := step_eq_some_iff.mp h₂
    have hfresh : ¬(R.key w = R.key v ∨ R.seen s (R.key w) = true) := by
      rw [← R.seen_set, hseen']
      simp
    push Not at hfresh
    refine Option.bind_eq_some_iff.mpr ⟨R.set s w,
      step_eq_some_iff.mpr ⟨w, hw, by simpa using hfresh.2, rfl⟩,
      step_eq_some_iff.mpr ⟨v, hv, ?_, R.set_comm s w v hfresh.1⟩⟩
    rw [← Bool.not_eq_true, R.seen_set, hseen]
    simpa using hfresh.1.symm
  ext t
  exact ⟨half a b t, half b a t⟩

/-- The order of the arguments does not matter. -/
theorem run_perm {args args' : List A} (h : args.Perm args') (s : S) :
    R.run args s = R.run args' s := by
  unfold run
  induction h generalizing s with
  | nil => rfl
  | cons a _ ih =>
    rw [List.foldlM_cons, List.foldlM_cons]
    exact bind_congr fun s' => ih s'
  | swap a b l =>
    simp only [List.foldlM_cons, ← bind_assoc]
    exact congrArg (· >>= fun s' => l.foldlM R.step s') (R.step_comm s b a)
  | trans _ _ ih₁ ih₂ => rw [ih₁, ih₂]

/-- The accepted lists : every argument parses, no key is given twice or was seen before,
and the record holds the settings. -/
theorem run_eq_some_iff : ∀ {args : List A} {s t : S}, R.run args s = some t ↔
    ∃ vs : List V, args.map R.parse = vs.map some ∧ (vs.map R.key).Nodup ∧
      (∀ v ∈ vs, R.seen s (R.key v) = false) ∧ vs.foldl R.set s = t
  | [], s, t => by
    constructor
    · rintro h
      exact ⟨[], rfl, by simp, by simp, Option.some.inj h⟩
    · rintro ⟨vs, hvs, -, -, rfl⟩
      obtain rfl := List.map_eq_nil_iff.mp hvs.symm
      rfl
  | a :: args, s, t => by
    have hrun : R.run (a :: args) s = (R.step s a).bind (R.run args) := rfl
    rw [hrun, Option.bind_eq_some_iff]
    constructor
    · rintro ⟨s', hstep, hrest⟩
      obtain ⟨v, hv, hseen, rfl⟩ := step_eq_some_iff.mp hstep
      obtain ⟨vs, hvs, hnodup, hfresh, hfold⟩ := run_eq_some_iff.mp hrest
      have hsplit : ∀ w ∈ vs, R.key w ≠ R.key v ∧ R.seen s (R.key w) = false := by
        intro w hw
        have hnot := hfresh w hw
        rw [← Bool.not_eq_true, R.seen_set] at hnot
        push Not at hnot
        exact ⟨hnot.1, by simpa using hnot.2⟩
      refine ⟨v :: vs, by simp [hv, hvs], ?_, ?_, hfold⟩
      · rw [List.map_cons, List.nodup_cons]
        refine ⟨?_, hnodup⟩
        rw [List.mem_map]
        rintro ⟨w, hw, hkey⟩
        exact (hsplit w hw).1 hkey
      · intro w hw
        rcases List.mem_cons.mp hw with rfl | hw
        · exact hseen
        · exact (hsplit w hw).2
    · rintro ⟨vs, hvs, hnodup, hfresh, hfold⟩
      rcases vs with _ | ⟨v, vs⟩
      · simp at hvs
      simp only [List.map_cons, List.cons.injEq] at hvs
      rw [List.map_cons, List.nodup_cons] at hnodup
      refine ⟨R.set s v, step_eq_some_iff.mpr ⟨v, hvs.1, hfresh v (by simp), rfl⟩,
        run_eq_some_iff.mpr ⟨vs, hvs.2, hnodup.2, ?_, hfold⟩⟩
      intro w hw
      rw [← Bool.not_eq_true, R.seen_set, hfresh w (by simp [hw])]
      have hne : R.key w ≠ R.key v := by
        intro hkey
        exact hnodup.1 (List.mem_map.mpr ⟨w, hw, hkey⟩)
      simp [hne]

/-- A key is seen at the end when it was before or one of the settings has it. -/
theorem seen_foldl {k : K} : ∀ {vs : List V} {s : S},
    R.seen (vs.foldl R.set s) k = true ↔ (∃ v ∈ vs, R.key v = k) ∨ R.seen s k = true
  | [], s => by simp
  | v :: vs, s => by
    rw [List.foldl_cons, seen_foldl, R.seen_set]
    simp only [List.mem_cons, exists_eq_or_imp, @eq_comm _ k, or_assoc]
    exact or_left_comm

end Reader

end Settings
