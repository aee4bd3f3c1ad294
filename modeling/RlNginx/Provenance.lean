import RlNginx.Gate

/-!
# Where a verdict comes from

A trace of a gate remembers everything : a gate that waits has asked for its check earlier in
the trace, and a settled one is settled by the answer to it (`Gate.Answered`) or by an outcome
that needed none. Nothing settled changes again. So the outcome of a gate can be read off its
trace in both directions, and through `gate_refines` off what was seen of a request in the
process.

Both results hold until the cleanup handlers of the request run. `verdict_iff_answer` is about
`$ratelimitly_verdict`, `passes_iff_answer` about the return code of the handler : where the
policy is to fail closed, `NGX_OK` is returned exactly when the answer to the check that the
request asked for came in and passes, and where it is to fail open,
`NGX_HTTP_TOO_MANY_REQUESTS` exactly when that answer does not pass.
-/

open Transition Relation

namespace RlNginx

/-! ## Traces of a gate -/

/-- The check is asked for, and answered later on. -/
def Gate.Answered (ls : List Label) (check : RateCheck) (status : RClient)
    (result : Option RateLimitResult) : Prop :=
  ∃ pre mid post, ls = pre ++ .handled true .again (some check) ::
    (mid ++ .answered status result :: post)

/-- A service result for the check comes in, and `P` holds of it. -/
def Gate.ResultFor (ls : List Label) (P : RateLimitResult → Prop) : Prop :=
  ∃ check result, Gate.Answered ls check .ok (some result) ∧ result.Answers check ∧ P result

section Traces

variable {mcf : MainConf} {ls : List Label} {g g' : Gate} {check : RateCheck}
  {outcome : AdmissionOutcome} {status : RClient} {result : Option RateLimitResult}

/-- What is settled stays so. -/
theorem Gate.Step.settled {l : Label} (h : Gate.Step mcf (.settled outcome) l g) :
    g = .settled outcome := by
  cases h <;> rfl

theorem Gate.settled_stays (h : Trace (Gate.Step mcf) (.settled outcome) ls g) :
    g = .settled outcome :=
  h.invariant (P := (· = .settled outcome)) rfl fun u l v hu hstep => by
    subst hu
    exact hstep.settled

/-- A gate that waits goes on waiting, or is settled. -/
theorem Gate.asked_stays (h : Trace (Gate.Step mcf) (.asked check) ls g) :
    g = .asked check ∨ ∃ outcome, g = .settled outcome := by
  refine h.invariant (P := fun g => g = .asked check ∨ ∃ outcome, g = .settled outcome)
    (.inl rfl) fun u l v hu hstep => ?_
  rcases hu with rfl | ⟨outcome, rfl⟩
  · cases hstep with
    | bypass | wait | redirect | read => exact .inl rfl
    | answer => exact .inr ⟨_, rfl⟩
  · exact .inr ⟨outcome, hstep.settled⟩

/-- A gate that waits has asked. -/
theorem Gate.asked_before (h : Trace (Gate.Step mcf) .fresh ls (.asked check)) :
    ∃ pre post, ls = pre ++ .handled true .again (some check) :: post := by
  obtain ⟨pre, l, post, u, v, rfl, -, hne, hstep, rfl⟩ :=
    h.turn (P := (· = .asked check)) nofun rfl
  cases hstep with
  | ask => exact ⟨pre, post, rfl⟩
  | bypass | wait | redirect | read => exact absurd rfl hne

/-- A settled gate has its outcome from the answer to the check that was asked for, or needed
none. -/
theorem Gate.settled_before (h : Trace (Gate.Step mcf) .fresh ls (.settled outcome)) :
    outcome.Unanswered mcf ∨ ∃ check status result rc, Gate.Answered ls check status result ∧
      Verdict.Right mcf check status result rc outcome ∧ outcome.decision = some rc := by
  obtain ⟨pre, l, post, u, v, rfl, hpre, hne, hstep, rfl⟩ :=
    h.turn (P := (· = .settled outcome)) nofun rfl
  cases hstep with
  | settle call _ hunanswered => exact .inl hunanswered
  | answer hdecision hright =>
    obtain ⟨pre', mid, rfl⟩ := Gate.asked_before hpre
    exact .inr ⟨_, _, _, _, ⟨pre', mid, post, by simp⟩, hright, hdecision⟩
  | bypass | replay | redirect | read => exact absurd rfl hne

/-- No outcome makes the handler ask again. -/
theorem AdmissionOutcome.decision_ne_again (outcome : AdmissionOutcome) :
    outcome.decision ≠ some .again := by
  cases outcome <;> simp [AdmissionOutcome.decision]

/-- An answer settles the gate for good. -/
theorem Gate.settled_of_answered (h : Trace (Gate.Step mcf) .fresh ls g)
    (hanswered : Gate.Answered ls check status result) :
    ∃ outcome rc, g = .settled outcome ∧ Verdict.Right mcf check status result rc outcome ∧
      outcome.decision = some rc := by
  obtain ⟨pre, mid, post, rfl⟩ := hanswered
  obtain ⟨u, -, hrest⟩ := h.split
  obtain ⟨v, hask, hrest⟩ := hrest.first
  obtain rfl : v = .asked check := by
    cases hask with
    | ask => rfl
    | settle _ hdecision => exact absurd hdecision (AdmissionOutcome.decision_ne_again _)
  obtain ⟨u', hmid, hrest⟩ := hrest.split
  obtain ⟨v', hanswer, hpost⟩ := hrest.first
  rcases Gate.asked_stays hmid with rfl | ⟨outcome, rfl⟩
  · cases hanswer with
    | answer hdecision hright =>
      exact ⟨_, _, Gate.settled_stays hpost, hright, hdecision⟩
  · nomatch hanswer

/-- The gate allows exactly when the answer passes. -/
theorem Gate.allow_iff (h : Trace (Gate.Step mcf) .fresh ls g) :
    g = .settled .validAllow ↔ Gate.ResultFor ls RateLimitResult.Passes := by
  constructor
  · rintro rfl
    rcases Gate.settled_before h with hnone | ⟨check, status, result, rc, hanswered, hright, hrc⟩
    · exact hnone.elim
    · obtain rfl : .ok = rc := Option.some.inj hrc
      obtain ⟨rfl, res, rfl, hanswers, hpasses⟩ := hright.allow.mp ⟨rfl, rfl⟩
      exact ⟨check, res, hanswered, hanswers, hpasses⟩
  · rintro ⟨check, res, hanswered, hanswers, hpasses⟩
    obtain ⟨outcome, rc, rfl, hright, -⟩ := Gate.settled_of_answered h hanswered
    rw [(hright.allow.mpr ⟨rfl, res, rfl, hanswers, hpasses⟩).2]

/-- The gate denies exactly when the answer does not pass. -/
theorem Gate.deny_iff (h : Trace (Gate.Step mcf) .fresh ls g) :
    g = .settled .validDeny ↔ Gate.ResultFor ls fun result => ¬result.Passes := by
  constructor
  · rintro rfl
    rcases Gate.settled_before h with hnone | ⟨check, status, result, rc, hanswered, hright, hrc⟩
    · exact hnone.elim
    · obtain rfl : .tooManyRequests = rc := Option.some.inj hrc
      obtain ⟨rfl, res, rfl, hanswers, hpasses⟩ := hright.deny.mp ⟨rfl, rfl⟩
      exact ⟨check, res, hanswered, hanswers, hpasses⟩
  · rintro ⟨check, res, hanswered, hanswers, hpasses⟩
    obtain ⟨outcome, rc, rfl, hright, -⟩ := Gate.settled_of_answered h hanswered
    rw [(hright.deny.mpr ⟨rfl, res, rfl, hanswers, hpasses⟩).2]

/-- The outcome of the fail policy is reached only under that policy. -/
theorem Gate.policy (h : Trace (Gate.Step mcf) .fresh ls g) :
    (g = .settled .failOpen → mcf.failOpen = true) ∧
      (g = .settled .failClose → mcf.failOpen = false) := by
  have hpolicy : ∀ {outcome}, g = .settled outcome →
      outcome = .failOpen ∨ outcome = .failClose → outcome.Unanswered mcf := by
    rintro outcome rfl hfail
    rcases Gate.settled_before h with hnone | ⟨check, status, result, rc, -, hright, hrc⟩
    · exact hnone
    · have hallow : outcome ≠ .validAllow ∧ outcome ≠ .validDeny := by
        rcases hfail with rfl | rfl <;> exact ⟨nofun, nofun⟩
      have hpolicy : outcome = if mcf.failOpen then .failOpen else .failClose := by
        refine (hright.fail ?_).2
        rintro ⟨rfl, res, rfl, hanswers⟩
        by_cases hpasses : res.Passes
        · exact hallow.1 (hright.allow.mpr ⟨rfl, res, rfl, hanswers, hpasses⟩).2
        · exact hallow.2 (hright.deny.mpr ⟨rfl, res, rfl, hanswers, hpasses⟩).2
      rw [hpolicy]
      exact failOutcome_unanswered mcf
  exact ⟨fun hg => hpolicy hg (.inl rfl), fun hg => hpolicy hg (.inr rfl)⟩

theorem AdmissionOutcome.decision_ok :
    outcome.decision = some .ok ↔ outcome = .validAllow ∨ outcome = .failOpen := by
  cases outcome <;> simp [AdmissionOutcome.decision]

theorem AdmissionOutcome.decision_tooManyRequests :
    outcome.decision = some .tooManyRequests ↔ outcome = .validDeny ∨ outcome = .failClose := by
  cases outcome <;> simp [AdmissionOutcome.decision]

/-- What a run of the handler returns in an active location, with the policy that never gives
that return code by itself. -/
theorem Gate.handled_iff (h : Trace (Gate.Step mcf) .fresh ls g) {rc : NgxRc}
    {call : Option RateCheck} (hstep : Gate.Step mcf g (.handled true rc call) g') :
    (mcf.failOpen = false → (rc = .ok ↔ g = .settled .validAllow)) ∧
      (mcf.failOpen = true → (rc = .tooManyRequests ↔ g = .settled .validDeny)) := by
  obtain ⟨hopen, hclose⟩ := Gate.policy h
  cases hstep with
  | noMemory | strand | pass | ask | wait => exact ⟨fun _ => by simp, fun _ => by simp⟩
  | settle _ hdecision hunanswered =>
    refine ⟨fun hpolicy => iff_of_false ?_ nofun, fun hpolicy => iff_of_false ?_ nofun⟩
    · rintro rfl
      rcases AdmissionOutcome.decision_ok.mp hdecision with rfl | rfl
      · exact hunanswered
      · exact absurd hunanswered (by simp [AdmissionOutcome.Unanswered, hpolicy])
    · rintro rfl
      rcases AdmissionOutcome.decision_tooManyRequests.mp hdecision with rfl | rfl
      · exact hunanswered
      · exact absurd hunanswered (by simp [AdmissionOutcome.Unanswered, hpolicy])
  | @replay outcome _ hdecision =>
    have hrc : ∀ {code : NgxRc}, rc = code ↔ outcome.decision = some code := by
      simp [hdecision]
    refine ⟨fun hpolicy => ?_, fun hpolicy => ?_⟩
    · rw [hrc, AdmissionOutcome.decision_ok, Gate.settled.injEq, or_iff_left]
      rintro rfl
      exact absurd (hopen rfl) (by simp [hpolicy])
    · rw [hrc, AdmissionOutcome.decision_tooManyRequests, Gate.settled.injEq, or_iff_left]
      rintro rfl
      exact absurd (hclose rfl) (by simp [hpolicy])

end Traces

/-! ## Requests of the process -/

section Requests

variable {s : Setup} {i : ℕ} {es : List Event} {w : World} {r : Request}

/-- What is seen of request `i` in a run of the process. -/
abbrev seenOf (s : Setup) (i : ℕ) (es : List Event) : List Label :=
  seen (World.next s) (World.shows s i) World.init es

theorem gate_of_run (h : KeepsRun s i World.init es w) (hr : w.reqs[i]? = some r) :
    ∃ g, Trace (Gate.Step s.conf.main) .fresh (seenOf s i es) g ∧ r.Stands s g := by
  obtain ⟨g, htrace, ⟨hnone, -⟩ | ⟨r', hr', hstands⟩⟩ :=
    (machine_simulates s i).trace h (.inl ⟨rfl, rfl⟩)
  · rw [hr] at hnone
    cases hnone
  · obtain rfl : r = r' := Option.some.inj (hr.symm.trans hr')
    exact ⟨g, htrace, hstands⟩

/-- `$ratelimitly_verdict` says `allow` exactly when the answer of the service to the check that
the request asked for came in and passes, and `deny` exactly when it came in and does not. -/
theorem verdict_iff_answer (h : KeepsRun s i World.init es w) (hr : w.reqs[i]? = some r) :
    ((ngxHttpRnVerdictVariable r).2 = .allow ↔
      Gate.ResultFor (seenOf s i es) RateLimitResult.Passes) ∧
    ((ngxHttpRnVerdictVariable r).2 = .deny ↔
      Gate.ResultFor (seenOf s i es) fun result => ¬result.Passes) := by
  obtain ⟨g, htrace, hstands⟩ := gate_of_run h hr
  rw [hstands.verdict, ← Gate.allow_iff htrace, ← Gate.deny_iff htrace]
  rcases g with _ | _ | _ | outcome
  · simp [Gate.verdict]
  · simp [Gate.verdict]
  · simp [Gate.verdict]
  · cases outcome <;> simp [Gate.verdict, AdmissionOutcome.verdict]

theorem sample_verdict_iff_answer :
    Gate.ResultFor (seenOf sampleSetup 0 redirectedEvents) RateLimitResult.Passes := by
  have hrun : KeepsRun sampleSetup 0 World.init redirectedEvents redirectedWorld :=
    Run.of_admits (by decide +kernel)
  have hallowed : ∃ r ∈ redirectedWorld.reqs[0]?, (ngxHttpRnVerdictVariable r).2 = .allow := by
    decide +kernel
  obtain ⟨r, hr, hallowed⟩ := hallowed
  exact (verdict_iff_answer hrun hr).1.mp hallowed

/-- In an active location, the handler of a module that fails closed returns `NGX_OK` exactly
when the answer to the check that the request asked for came in and passes; that of a module
that fails open returns `NGX_HTTP_TOO_MANY_REQUESTS` exactly when it came in and does not. -/
theorem passes_iff_answer (h : KeepsRun s i World.init es w) (hr : w.reqs[i]? = some r)
    (hactive : r.Active s) (env : HandlerEnv) :
    (s.conf.main.failOpen = false → ((ngxHttpRnHandler s env i ⟨w.proc, r⟩).2 = .ok ↔
      Gate.ResultFor (seenOf s i es) RateLimitResult.Passes)) ∧
    (s.conf.main.failOpen = true → ((ngxHttpRnHandler s env i ⟨w.proc, r⟩).2 = .tooManyRequests ↔
      Gate.ResultFor (seenOf s i es) fun result => ¬result.Passes)) := by
  obtain ⟨g, htrace, hstands⟩ := gate_of_run h hr
  obtain ⟨g', hstep, -⟩ := hstands.handled env i w.proc
  rw [decide_eq_true hactive] at hstep
  rw [← Gate.allow_iff htrace, ← Gate.deny_iff htrace]
  exact Gate.handled_iff htrace hstep

/-- A request whose check is answered with a resource that is used up. -/
def deniedEvents : List Event :=
  [.accept true protectedLoc 0, .handler 0 sampleHandlerEnv,
    .complete 0 0 .ok (some ⟨true, [true], [1]⟩), .redirect 0 protectedLoc]

/-- The process after it. -/
def deniedWorld : World :=
  deniedEvents.foldl (World.next sampleSetup) World.init

theorem sample_passes_iff_answer : (∃ r ∈ deniedWorld.reqs[0]?,
      (ngxHttpRnHandler sampleSetup sampleHandlerEnv 0 ⟨deniedWorld.proc, r⟩).2 =
        .tooManyRequests) ∧
    Gate.ResultFor (seenOf sampleSetup 0 deniedEvents) fun result => ¬result.Passes := by
  have hrun : KeepsRun sampleSetup 0 World.init deniedEvents deniedWorld :=
    Run.of_admits (by decide +kernel)
  have hdenied : ∃ r ∈ deniedWorld.reqs[0]?, r.Active sampleSetup ∧
      (ngxHttpRnHandler sampleSetup sampleHandlerEnv 0 ⟨deniedWorld.proc, r⟩).2 =
        .tooManyRequests := by decide +kernel
  obtain ⟨r, hr, hactive, hdenied⟩ := hdenied
  exact ⟨⟨r, hr, hdenied⟩, ((passes_iff_answer hrun hr hactive sampleHandlerEnv).2 rfl).mp hdenied⟩

end Requests

end RlNginx
