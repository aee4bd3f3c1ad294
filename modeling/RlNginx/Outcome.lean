import RlNginx.Request

/-!
# Outcome, cause and decision

A context that is done carries its decision three times : as the return code later runs of
the handler give, as the admission outcome the variable and the log phase read, and as the
completion cause. `ReqCtx.Decided` says that the three agree. Every exit of the handler and
every verdict of the callback assigns them by hand, so each gets a lemma here, and
`rnAdmit_exit` collects the exits of a run that starts with a new context.

The one exit that is not among them is the failed registration of the cleanup handler.
-/

namespace RlNginx

/-- The decision an outcome stands for. -/
def AdmissionOutcome.decision : AdmissionOutcome → Option NgxRc
  | .validAllow | .failOpen => some .ok
  | .validDeny | .failClose => some .tooManyRequests
  | .internalError => some .internalServerError
  | .none => some .declined
  | .waiting | .aborted => Option.none

/-- The completion causes of the fail policy. -/
def CompletionCause.Failure (cause : CompletionCause) : Prop :=
  cause = .startFailure ∨ cause = .dependencyError ∨ cause = .timeout ∨
    cause = .cardinalityMismatch

instance (cause : CompletionCause) : Decidable cause.Failure :=
  inferInstanceAs (Decidable (_ ∨ _ ∨ _ ∨ _))

/-- The cause says how the outcome came about. -/
structure ReqCtx.Caused (x : ReqCtx) : Prop where
  verdict : x.completionCause = .validVerdict ↔
    x.admissionOutcome = .validAllow ∨ x.admissionOutcome = .validDeny
  failure : x.completionCause.Failure ↔
    x.admissionOutcome = .failOpen ∨ x.admissionOutcome = .failClose
  error : x.completionCause = .nginxError ↔ x.admissionOutcome = .internalError

/-- Outcome, cause and decision agree. -/
structure ReqCtx.Decided (mcf : MainConf) (x : ReqCtx) : Prop where
  decision : x.admissionOutcome.decision = some x.decision
  failOpen : x.admissionOutcome = .failOpen → mcf.failOpen = true
  failClose : x.admissionOutcome = .failClose → mcf.failOpen = false
  caused : x.origin.admission = true → x.Caused

/-- The fields that `ReqCtx.Decided` reads. -/
structure ReqCtx.SameVerdict (x y : ReqCtx) : Prop where
  decision : y.decision = x.decision
  outcome : y.admissionOutcome = x.admissionOutcome
  cause : y.completionCause = x.completionCause
  done : y.done = x.done
  origin : y.origin = x.origin

theorem ReqCtx.Decided.congr {mcf : MainConf} {x y : ReqCtx} (h : x.Decided mcf)
    (hxy : x.SameVerdict y) : y.Decided mcf where
  decision := by rw [hxy.outcome, hxy.decision]; exact h.decision
  failOpen := by rw [hxy.outcome]; exact h.failOpen
  failClose := by rw [hxy.outcome]; exact h.failClose
  caused := by
    intro hadm
    rw [hxy.origin] at hadm
    obtain ⟨hverdict, hfailure, herror⟩ := h.caused hadm
    refine ⟨?_, ?_, ?_⟩
    · rwa [hxy.cause, hxy.outcome]
    · rwa [hxy.cause, hxy.outcome]
    · rwa [hxy.cause, hxy.outcome]

section Exits

variable {mcf : MainConf} {lcf : LocConf} {x : ReqCtx}

/-- The outcome of the fail policy, with its decision and one of its causes. -/
theorem ReqCtx.decided_of_fail (hdecision : x.decision = failRc mcf)
    (houtcome : x.admissionOutcome = failOutcome mcf) (hcause : x.completionCause.Failure) :
    x.Decided mcf := by
  have hne : x.completionCause ≠ .validVerdict ∧ x.completionCause ≠ .nginxError := by
    rcases hcause with h | h | h | h <;> simp [h]
  cases hopen : mcf.failOpen
  all_goals
    have hout := houtcome
    simp only [failOutcome, hopen, if_true, Bool.false_eq_true, if_false] at hout
    refine ⟨?_, by simp [hout, hopen], by simp [hout, hopen], fun _ => ⟨?_, ?_, ?_⟩⟩
    · simp [hout, hdecision, failRc, hopen, AdmissionOutcome.decision]
    · simp [hout, hne.1]
    · simp [hout, hcause]
    · simp [hout, hne.2]

theorem rnFinishPreflightFailure_decided {cause : CompletionCause} (hcause : cause.Failure) :
    (rnFinishPreflightFailure mcf cause x).Decided mcf :=
  ReqCtx.decided_of_fail rfl rfl hcause

theorem rnFinishInternalError_decided : (rnFinishInternalError x).Decided mcf where
  decision := rfl
  failOpen := nofun
  failClose := nofun
  caused := fun _ => ⟨by simp [rnFinishInternalError],
    by simp [rnFinishInternalError, CompletionCause.Failure], by simp [rnFinishInternalError]⟩

/-- The outcome without admission. -/
theorem ReqCtx.decided_of_none (hdecision : x.decision = .declined)
    (houtcome : x.admissionOutcome = .none)
    (hcause : x.origin.admission = true → x.completionCause = .none) : x.Decided mcf where
  decision := by simp [hdecision, houtcome, AdmissionOutcome.decision]
  failOpen := by simp [houtcome]
  failClose := by simp [houtcome]
  caused := fun hadm => ⟨by simp [hcause hadm, houtcome],
    by simp [hcause hadm, houtcome, CompletionCause.Failure], by simp [hcause hadm, houtcome]⟩

theorem failOutcome_ne (mcf : MainConf) :
    failOutcome mcf ≠ .none ∧ failOutcome mcf ≠ .waiting := by
  unfold failOutcome
  split_ifs <;> simp

/-- A verdict leaves a context done with an outcome, and the rest of it as it is. -/
theorem rnVerdict_eq (mcf : MainConf) (status : RClient) (result : Option RateLimitResult)
    (x : ReqCtx) : ∃ decision admissionOutcome completionCause,
      (admissionOutcome ≠ .none ∧ admissionOutcome ≠ .waiting) ∧
      rnVerdict mcf status result x = { x with
        decision, admissionOutcome, completionCause, done := true, waiting := false } := by
  unfold rnVerdict
  split
  · split_ifs
    · exact ⟨_, _, _, failOutcome_ne mcf, rfl⟩
    · exact ⟨_, _, _, by simp, rfl⟩
    · exact ⟨_, _, _, by simp, rfl⟩
  · exact ⟨_, _, _, failOutcome_ne mcf, rfl⟩

/-- The verdict of the callback agrees, whatever the context was. -/
theorem rnVerdict_decided (status : RClient) (result : Option RateLimitResult) :
    (rnVerdict mcf status result x).Decided mcf := by
  unfold rnVerdict
  split
  · rename_i result
    split_ifs with hcard hallow
    · exact ReqCtx.decided_of_fail rfl rfl (.inr (.inr (.inr rfl)))
    · exact ⟨rfl, nofun, nofun, fun _ => ⟨by simp, by simp [CompletionCause.Failure], by simp⟩⟩
    · exact ⟨rfl, nofun, nofun, fun _ => ⟨by simp, by simp [CompletionCause.Failure], by simp⟩⟩
  · refine ReqCtx.decided_of_fail rfl rfl ?_
    simp only [CompletionCause.Failure]
    split_ifs <;> simp

/-! ## The exits of the handler -/

/-- A context on its way through the handler. -/
structure ReqCtx.Fresh (mcf : MainConf) (lcf : LocConf) (x : ReqCtx) : Prop where
  r : x.r = true
  req : x.req = none
  decision : x.decision = .declined
  outcome : x.admissionOutcome = if lcf.admission then failOutcome mcf else .none
  cause : x.completionCause = .none
  waiting : x.waiting = false
  done : x.done = false
  sent : x.latReportSent = false
  origin : x.origin = lcf

theorem ReqCtx.new_fresh (mcf : MainConf) (lcf : LocConf) : (ReqCtx.new mcf lcf).Fresh mcf lcf :=
  ⟨rfl, rfl, rfl, rfl, rfl, rfl, rfl, rfl, rfl⟩

theorem rnAttachReport_fresh (h : x.Fresh mcf lcf) (env : ReqEnv) :
    (rnAttachReport mcf lcf env { x with worker := true }).Fresh mcf lcf := by
  have hx : ({ x with worker := true } : ReqCtx).Fresh mcf lcf :=
    ⟨h.r, h.req, h.decision, h.outcome, h.cause, h.waiting, h.done, h.sent, h.origin⟩
  unfold rnAttachReport
  split_ifs
  · split
    · exact hx
    · split
      · exact hx
      · exact ⟨h.r, h.req, h.decision, h.outcome, h.cause, h.waiting, h.done, h.sent, h.origin⟩
  · exact hx

/-- Attaching the report keeps the pointers of the context. -/
theorem rnAttachReport_linked (mcf : MainConf) (lcf : LocConf) (env : ReqEnv) (x : ReqCtx) :
    (rnAttachReport mcf lcf env x).r = x.r ∧ (rnAttachReport mcf lcf env x).worker = x.worker := by
  unfold rnAttachReport
  split_ifs
  · split
    · exact ⟨rfl, rfl⟩
    · split <;> exact ⟨rfl, rfl⟩
  · exact ⟨rfl, rfl⟩

/-- The rules of the location expand to nothing. -/
def NothingToCheck (mcf : MainConf) (lcf : LocConf) : Prop :=
  ∃ env, rnPreflight mcf lcf env = .error .noRules ∨
    rnPreflight mcf lcf env = .error .emptyRuleExpansion

/-- What a run of the handler leaves of a new context : it is done, with the decision the
run returns, or it waits for the check that the run asked for. -/
structure Exit (mcf : MainConf) (lcf : LocConf) (x : ReqCtx) (rc : NgxRc)
    (call : Option RateCheck) : Prop where
  r : x.r = true
  sent : x.latReportSent = false
  origin : x.origin = lcf
  asked : call ≠ none → lcf.admission = true
  linked : x.req ≠ none → x.worker = true ∧ lcf.admission = true
  settled : (x.done = true ∧ x.waiting = false ∧ x.req = none ∧ x.Decided mcf ∧ rc = x.decision) ∨
    (x.done = false ∧ x.waiting = true ∧ rc = .again ∧ call ≠ none)
  bypass : x.admissionOutcome = .none → lcf.admission = true → NothingToCheck mcf lcf
  declines : lcf.admission = false → x.decision = .declined

theorem rnNoWorker_exit (h : x.Fresh mcf lcf) :
    Exit mcf lcf (rnNoWorker mcf lcf x) (rnNoWorker mcf lcf x).decision none := by
  refine ⟨h.r, h.sent, h.origin, by simp, fun hreq => absurd h.req hreq,
    .inl ⟨rfl, h.waiting, h.req, ?_, rfl⟩, ?_, ?_⟩
  · cases hadm : lcf.admission
    · refine ReqCtx.decided_of_none ?_ ?_ ?_
      · simp [rnNoWorker, hadm]
      · simpa [rnNoWorker, hadm] using h.outcome
      · intro horigin
        rw [show (rnNoWorker mcf lcf x).origin = lcf from h.origin, hadm] at horigin
        cases horigin
    · refine ReqCtx.decided_of_fail ?_ ?_ (.inr (.inl rfl))
      · simp [rnNoWorker, hadm]
      · simpa [rnNoWorker, hadm] using h.outcome
  · intro hnone hadm
    have hout : failOutcome mcf = .none := by
      rw [← hnone, show (rnNoWorker mcf lcf x).admissionOutcome = x.admissionOutcome from rfl,
        h.outcome, if_pos hadm]
    unfold failOutcome at hout
    split_ifs at hout
  · intro hadm
    simp [rnNoWorker, hadm]

theorem reportOnly_exit (h : x.Fresh mcf lcf) (hadm : lcf.admission = false) :
    Exit mcf lcf { x with done := true } .declined none := by
  have hout : x.admissionOutcome = .none := by rw [h.outcome, hadm]; rfl
  refine ⟨h.r, h.sent, h.origin, by simp, fun hreq => absurd h.req hreq,
    .inl ⟨rfl, h.waiting, h.req, ?_, h.decision.symm⟩, ?_, fun _ => h.decision⟩
  · exact ReqCtx.decided_of_none h.decision hout fun _ => h.cause
  · intro _ hadm'
    rw [hadm] at hadm'
    cases hadm'

theorem rnFinishPreflightFailure_exit (h : x.Fresh mcf lcf) {cause : CompletionCause}
    (hcause : cause.Failure) {call : Option RateCheck} (hadm : lcf.admission = true) :
    Exit mcf lcf (rnFinishPreflightFailure mcf cause x)
      (rnFinishPreflightFailure mcf cause x).decision call := by
  refine ⟨h.r, h.sent, h.origin, fun _ => hadm, fun hreq => absurd h.req hreq,
    .inl ⟨rfl, h.waiting, h.req, rnFinishPreflightFailure_decided hcause, rfl⟩, ?_, by simp [hadm]⟩
  intro hout
  simp only [rnFinishPreflightFailure, failOutcome] at hout
  split_ifs at hout

theorem rnFinishInternalError_exit (h : x.Fresh mcf lcf) {call : Option RateCheck}
    (hadm : lcf.admission = true) :
    Exit mcf lcf (rnFinishInternalError x) .internalServerError call :=
  ⟨h.r, h.sent, h.origin, fun _ => hadm, fun hreq => absurd h.req hreq,
    .inl ⟨rfl, h.waiting, h.req, rnFinishInternalError_decided, rfl⟩, nofun, by simp [hadm]⟩

theorem rnFinishStop_exit (h : x.Fresh mcf lcf) (hadm : lcf.admission = true) {env : ReqEnv}
    {stop : Stop} (hstop : rnPreflight mcf lcf env = .error stop) :
    Exit mcf lcf (rnFinishStop mcf x stop) (rnFinishStop mcf x stop).decision none := by
  have hfail : Exit mcf lcf (rnFinishPreflightFailure mcf .dependencyError x)
      (rnFinishPreflightFailure mcf .dependencyError x).decision none :=
    rnFinishPreflightFailure_exit h (.inr (.inl rfl)) hadm
  have herror : Exit mcf lcf (rnFinishInternalError x) .internalServerError none :=
    rnFinishInternalError_exit h hadm
  have hnone : NothingToCheck mcf lcf → Exit mcf lcf
      { x with admissionOutcome := .none, decision := .declined, done := true } .declined none :=
    fun hnothing => ⟨h.r, h.sent, h.origin, by simp, fun hreq => absurd h.req hreq,
      .inl ⟨rfl, h.waiting, h.req, ReqCtx.decided_of_none rfl rfl fun _ => h.cause, rfl⟩,
      fun _ _ => hnothing, fun _ => rfl⟩
  cases stop with
  | noRules => exact hnone ⟨env, .inl hstop⟩
  | emptyRuleExpansion => exact hnone ⟨env, .inr hstop⟩
  | resourcesAlloc | guardsAlloc => exact herror
  | guardBuild e | zoneBuild e =>
    simp only [rnFinishStop]
    split_ifs
    · exact herror
    · exact hfail
  | unknownGroup | unknownGuard | unknownZone | labelRender | labelTooLong => exact hfail

theorem rnStart_exit {p : Proc} {n : ℕ} (h : x.Fresh mcf lcf) (hworker : x.worker = true)
    (hadm : lcf.admission = true) (env : HandlerEnv) (i : ℕ) (client : Client) (check : RateCheck) :
    Exit mcf lcf (rnStart mcf env i client check ⟨p, n, x⟩).live.ctx
      (rnStart mcf env i client check ⟨p, n, x⟩).rc
      (rnStart mcf env i client check ⟨p, n, x⟩).call := by
  have hx : ({ x with
      expectedGuardCount := check.guards.length
      expectedResourceCount := check.resources.length } : ReqCtx).Fresh mcf lcf :=
    ⟨h.r, h.req, h.decision, h.outcome, h.cause, h.waiting, h.done, h.sent, h.origin⟩
  simp only [rnStart]
  split_ifs
  · exact rnFinishPreflightFailure_exit hx (.inl rfl) hadm
  · exact ⟨h.r, h.sent, h.origin, fun _ => hadm, fun _ => ⟨hworker, hadm⟩,
      .inr ⟨h.done, rfl, rfl, by simp⟩, nofun, by simp [hadm]⟩
  · exact ⟨h.r, h.sent, h.origin, fun _ => hadm, fun hreq => absurd rfl hreq,
      .inl ⟨rfl, rfl, rfl, rnFinishInternalError_decided, rfl⟩, nofun, by simp [hadm]⟩

theorem rnCheck_exit {p : Proc} {n : ℕ} (h : x.Fresh mcf lcf) (env : HandlerEnv) (i : ℕ)
    (client : Client) :
    Exit mcf lcf (rnCheck mcf lcf env i client ⟨p, n, x⟩).live.ctx
      (rnCheck mcf lcf env i client ⟨p, n, x⟩).rc
      (rnCheck mcf lcf env i client ⟨p, n, x⟩).call := by
  have hx := rnAttachReport_fresh h env.values
  simp only [rnCheck]
  split_ifs with hadm
  · exact reportOnly_exit hx (by simpa using hadm)
  · have hadm : lcf.admission = true := by simpa using hadm
    split
    · rename_i stop hstop
      exact rnFinishStop_exit hx hadm hstop
    · exact rnStart_exit hx (rnAttachReport_linked mcf lcf env.values _).2 hadm env i client _

/-- The exits of a run with a new, registered context. -/
theorem rnAdmit_exit {s : Setup} {p : Proc} {n : ℕ} (h : x.Fresh s.conf.main lcf)
    (env : HandlerEnv) (i : ℕ) :
    Exit s.conf.main lcf (rnAdmit s lcf env i ⟨p, n, x⟩).live.ctx
      (rnAdmit s lcf env i ⟨p, n, x⟩).rc (rnAdmit s lcf env i ⟨p, n, x⟩).call := by
  unfold rnAdmit
  split
  · split
    · exact rnCheck_exit h env i _
    · exact rnNoWorker_exit h
  · exact rnNoWorker_exit h

end Exits

end RlNginx
