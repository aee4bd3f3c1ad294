import RlNginx.Expansion
import RlNginx.LogPhase

/-!
# Latency reports

A report is built when the handler makes a context, and sent when the log handler finds that
context in the slot. Between the two lie redirects, the completion, timers and cleanup, none of
which touches what a context holds of its report (`Request.SameReports`). The log handler marks
the context, and after the release nothing clears the slot, so it finds the same context each
time (`Request.ReportedOnce`).

`latency_reports` puts it together, for every run : at most one report, by the log handler of a
main request, with the values built where the context was made.
-/

open Transition Relation

namespace RlNginx

/-! ## What a context holds of its report -/

/-- The fields of a context that are about its report, and where it was made. -/
structure Reporting where
  enabled : Bool
  sent : Bool
  report : TrackerValues
  origin : LocConf

/-- Those of a context. -/
def ReqCtx.reporting (x : ReqCtx) : Reporting where
  enabled := x.latReportEnabled
  sent := x.latReportSent
  report := x.latReport
  origin := x.origin

/-- Two requests agree on their reports. -/
structure Request.SameReports (r r' : Request) : Prop where
  reports : r'.reports = r.reports
  main : r'.main = r.main
  ctxs : r'.ctxs.map ReqCtx.reporting = r.ctxs.map ReqCtx.reporting

section Same

variable {s : Setup} {f : Frame} {r r' : Request} {x : ReqCtx}

theorem Request.SameReports.refl (r : Request) : r.SameReports r :=
  ⟨rfl, rfl, rfl⟩

theorem Request.SameReports.trans {r'' : Request} (h : r.SameReports r')
    (h' : r'.SameReports r'') : r.SameReports r'' :=
  ⟨h'.reports.trans h.reports, h'.main.trans h.main, h'.ctxs.trans h.ctxs⟩

/-- Writing a context back with the same value of `g`. -/
theorem map_set_eq {α : Type*} {g : ReqCtx → α} {ctxs : List ReqCtx} {c : ℕ} {x x' : ReqCtx}
    (hx : ctxs[c]? = some x) (hsame : g x' = g x) : (ctxs.set c x').map g = ctxs.map g := by
  obtain ⟨hlt, rfl⟩ := List.getElem?_eq_some_iff.mp hx
  rw [List.map_set, hsame, ← List.getElem_map g (h := by simpa using hlt), List.set_getElem_self]

/-- The context of a request with the same reports. -/
theorem Request.SameReports.ctx (h : r.SameReports r') {c : ℕ} {x : ReqCtx}
    (hx : r.ctxs[c]? = some x) : ∃ x', r'.ctxs[c]? = some x' ∧ x'.reporting = x.reporting := by
  have hmap : (r'.ctxs[c]?).map ReqCtx.reporting = some x.reporting := by
    rw [← List.getElem?_map, h.ctxs, List.getElem?_map, hx, Option.map_some]
  exact Option.map_eq_some_iff.mp hmap

theorem rnGetRequestCtx_sameReports (r : Request) : r.SameReports (rnGetRequestCtx r) := by
  obtain ⟨slot, hget⟩ := rnGetRequestCtx_eq r
  rw [hget]
  exact ⟨rfl, rfl, rfl⟩

theorem ReqCtx.Move.reporting {mcf : MainConf} {x' : ReqCtx} (h : x.Move mcf x') :
    x'.reporting = x.reporting := by
  rcases h with ⟨t, b⟩ | ⟨q, status, result, -⟩
  · rfl
  · obtain ⟨decision, outcome, cause, -, heq⟩ := rnVerdict_eq mcf status result
      (ReqCtx.tornDown { x with timeoutCompleted := false })
    rw [heq]
    rfl

theorem Request.Move.sameReports (h : r.Move s r') : r.SameReports r' := by
  rcases h with _ | _ | _ | _ | ⟨count, hx, hmove⟩
  · exact rnGetRequestCtx_sameReports r
  · exact ⟨rfl, rfl, rfl⟩
  · exact ⟨rfl, rfl, rfl⟩
  · exact ⟨rfl, rfl, rfl⟩
  · exact ⟨rfl, rfl, map_set_eq hx hmove.reporting⟩

theorem Request.Moves.sameReports (h : r.Moves s r') : r.SameReports r' :=
  h.kept (I := r.SameReports) (fun hr hmove => hr.trans hmove.sameReports) (.refl r)

/-- Cleanup ends an admission and leaves the report. -/
theorem rnRequestCleanup_reporting (l : Live) :
    (rnRequestCleanup l).ctx.reporting = l.ctx.reporting := by
  simp only [rnRequestCleanup, rnRequestTeardown, Live.mapCtx_ctx, Bool.not_true, Bool.false_and,
    Bool.false_eq_true, if_false, ReqCtx.abort]
  split_ifs <;> rfl

theorem cleanup_sameReports (f : Frame) (c : ℕ) : f.req.SameReports (f.cleanup c).req := by
  unfold Frame.cleanup
  split
  · exact .refl _
  next x hx => exact ⟨rfl, rfl, map_set_eq hx (rnRequestCleanup_reporting _)⟩

theorem runCleanup_sameReports :
    ∀ (chain : List Cleanup) (f : Frame), f.req.SameReports (f.runCleanup chain).req
  | [], f => .refl f.req
  | .other :: chain, f => runCleanup_sameReports chain f
  | .rn c :: chain, f =>
    (cleanup_sameReports f c).trans (runCleanup_sameReports chain (f.cleanup c))

theorem release_sameReports (f : Frame) : f.req.SameReports f.release.req := by
  have h := runCleanup_sameReports f.req.cleanup f
  exact ⟨h.reports, h.main, h.ctxs⟩

end Same

/-! ## The slot -/

section Slot

variable {f : Frame}

theorem rnRateCb_slot (mcf : MainConf) (q : ℕ) (status : RClient)
    (result : Option RateLimitResult) :
    (rnRateCb mcf q status result f).1.req.slot = f.req.slot := by
  unfold rnRateCb
  split
  · rfl
  · split
    · rfl
    · split_ifs <;> rfl

theorem rnRequestTimeoutHandler_slot (mcf : MainConf) (env : TimeoutEnv) (c : ℕ) :
    (rnRequestTimeoutHandler mcf env c f).req.slot = f.req.slot := by
  refine rnRequestTimeoutHandler_keeps (I := fun g => g.req.slot = f.req.slot) (fun _ h => h) ?_ rfl
  intro x _ q _
  exact
    { update := fun g _ _ h => h
      retire := fun g q how h => h
      callback := fun g q status result h => (rnRateCb_slot mcf q status result).trans h }

theorem cleanup_slot (c : ℕ) : (f.cleanup c).req.slot = f.req.slot := by
  unfold Frame.cleanup
  split <;> rfl

theorem rnGetRequestCtx_slot {r : Request} {c : ℕ} (h : r.slot = some c) :
    (rnGetRequestCtx r).slot = some c := by
  simp only [rnGetRequestCtx, h]

end Slot

/-! ## What the handler builds -/

/-- The values of a tracker, for the service rendered under `env`. -/
structure TrackerValues.Of (env : ReqEnv) (tracker : Tracker) (v : TrackerValues) : Prop where
  ttlMs : v.ttlMs = tracker.ttlMs
  maxSamples : v.maxSamples = tracker.maxSamples
  minSampleThreshold : v.minSampleThreshold = tracker.minSampleThreshold
  id : ∃ service, env.complexValue tracker.serviceTemplate = some service ∧ service ≠ [] ∧
    service.length ≤ rnMaxServiceLen ∧ env.deriveLatencyTrackerId service tracker.ttlMs
      tracker.maxSamples tracker.minSampleThreshold = some v.id

/-- The report is that of the tracker its location names, under `env`. -/
structure Reporting.BuiltFrom (mcf : MainConf) (env : ReqEnv) (ρ : Reporting) : Prop where
  enabled : ρ.origin.reportEnabled = true
  tracker : ∃ tracker, rnFindTracker mcf ρ.origin.reportTrackerName = some tracker ∧
    ρ.report.Of env tracker.val

/-- A report that has not been sent, and was built in `lcf` if it was built. -/
structure Reporting.Fresh (mcf : MainConf) (env : ReqEnv) (lcf : LocConf) (ρ : Reporting) :
    Prop where
  unsent : ρ.sent = false
  origin : ρ.origin = lcf
  built : ρ.enabled = true → ρ.BuiltFrom mcf env

section Handler

variable {mcf : MainConf} {lcf : LocConf} {x : ReqCtx}

theorem rnBuildLatencyReport_of {env : ReqEnv} {tracker : Tracker} {v : TrackerValues}
    (h : rnBuildLatencyReport env tracker = .ok v) : v.Of env tracker := by
  obtain ⟨httl, hmax, hmin, service, hservice, hne, hlen, hid⟩ := rnBuildTrackerValues_ok_iff.mp h
  rw [httl, hmax, hmin] at hid
  exact ⟨httl, hmax, hmin, service, hservice, hne, hlen, hid⟩

/-- A context without a report, of location `lcf`. -/
theorem Reporting.Fresh.of_disabled (mcf : MainConf) (env : ReqEnv)
    (hdisabled : x.latReportEnabled = false) (hsent : x.latReportSent = false)
    (horigin : x.origin = lcf) : x.reporting.Fresh mcf env lcf where
  unsent := hsent
  origin := horigin
  built := by
    intro henabled
    exact absurd (hdisabled.symm.trans henabled) Bool.false_ne_true

/-- The report is enabled only with the values of the tracker of the location. -/
theorem rnAttachReport_reporting (mcf : MainConf) (env : ReqEnv)
    (hdisabled : x.latReportEnabled = false) (hsent : x.latReportSent = false)
    (horigin : x.origin = lcf) :
    (rnAttachReport mcf lcf env x).reporting.Fresh mcf env lcf := by
  have hsame := Reporting.Fresh.of_disabled mcf env hdisabled hsent horigin
  unfold rnAttachReport
  split_ifs with henabled
  · split
    · exact hsame
    next tracker htracker =>
      split
      · exact hsame
      next report hreport =>
        refine ⟨hsent, horigin, fun _ => ⟨?_, tracker, ?_, rnBuildLatencyReport_of hreport⟩⟩
        · exact (congrArg LocConf.reportEnabled horigin).trans henabled
        · exact (congrArg (rnFindTracker mcf ·.reportTrackerName) horigin).trans htracker
  · exact hsame

theorem rnAttachReport_decision (env : ReqEnv) (x : ReqCtx) :
    (rnAttachReport mcf lcf env x).decision = x.decision := by
  unfold rnAttachReport
  split_ifs
  · split
    · rfl
    · split <;> rfl
  · rfl

theorem rnFinishStop_reporting (stop : Stop) :
    (rnFinishStop mcf x stop).reporting = x.reporting := by
  rcases stop <;> rfl

theorem rnStart_reporting (env : HandlerEnv) (i : ℕ) (client : Client) (check : RateCheck)
    (l : Live) : (rnStart mcf env i client check l).live.ctx.reporting = l.ctx.reporting := by
  simp only [rnStart]
  split_ifs <;> rfl

/-- Rules, guards and the start leave the report as it was built. -/
theorem rnCheck_reporting (env : HandlerEnv) (i : ℕ) (client : Client) {l : Live}
    (hdisabled : l.ctx.latReportEnabled = false) (hsent : l.ctx.latReportSent = false)
    (horigin : l.ctx.origin = lcf) :
    (rnCheck mcf lcf env i client l).live.ctx.reporting.Fresh mcf env.values lcf := by
  have hbuilt := rnAttachReport_reporting (x := { l.ctx with worker := true }) mcf env.values
    hdisabled hsent horigin
  simp only [rnCheck]
  split_ifs
  · exact hbuilt
  · split
    · rw [Live.mapCtx_ctx, rnFinishStop_reporting]
      exact hbuilt
    · rw [rnStart_reporting]
      exact hbuilt

theorem rnAdmit_reporting (s : Setup) (env : HandlerEnv) (i : ℕ) {l : Live}
    (hdisabled : l.ctx.latReportEnabled = false) (hsent : l.ctx.latReportSent = false)
    (horigin : l.ctx.origin = lcf) :
    (rnAdmit s lcf env i l).live.ctx.reporting.Fresh s.conf.main env.values lcf := by
  have hnone : (rnNoWorker s.conf.main lcf l.ctx).reporting.Fresh s.conf.main env.values lcf :=
    .of_disabled _ env.values hdisabled hsent horigin
  unfold rnAdmit
  split
  · split
    · exact rnCheck_reporting env i _ hdisabled hsent horigin
    · exact hnone
  · exact hnone

/-- What a run of the handler does about reports : at most it appends a context. -/
structure HandlerReports (s : Setup) (env : HandlerEnv) (r r' : Request) : Prop where
  reports : r'.reports = r.reports
  main : r'.main = r.main
  ctxs : r'.ctxs = r.ctxs ∨ ∃ x, r'.ctxs = r.ctxs ++ [x] ∧
    x.reporting.Fresh s.conf.main env.values r.lcf

theorem ngxHttpRnHandler_reports (s : Setup) (env : HandlerEnv) (i : ℕ) (p : Proc) (r : Request) :
    HandlerReports s env r (ngxHttpRnHandler s env i ⟨p, r⟩).1.req := by
  have hleaves := ngxHttpRnHandler_leaves s env i p r
  generalize (ngxHttpRnHandler s env i ⟨p, r⟩).1 = f' at hleaves ⊢
  rcases hleaves with slot | _ | ⟨-, -, -, hadmit⟩
  · exact ⟨rfl, rfl, .inl rfl⟩
  · exact ⟨rfl, rfl, .inr ⟨_, rfl, .of_disabled _ env.values rfl rfl rfl⟩⟩
  · subst hadmit
    exact ⟨rfl, rfl, .inr ⟨_, rfl, rnAdmit_reporting s env i rfl rfl rfl⟩⟩

end Handler

/-! ## The log handler -/

section Log

variable {f : Frame} {x : ReqCtx} {connection : Connection} {client : Bool}

/-- It reads a report and marks it. -/
theorem log_reporting (x : ReqCtx) (connection : Connection) (client : Bool) :
    ∃ sent, (x.log connection client).1.reporting = { x.reporting with sent } := by
  unfold ReqCtx.log
  split_ifs <;> exact ⟨_, rfl⟩

theorem log_decision (x : ReqCtx) (connection : Connection) (client : Bool) :
    (x.log connection client).1.decision = x.decision := by
  unfold ReqCtx.log
  split_ifs <;> rfl

/-- A marked report is not sent again. -/
theorem log_sent (hsent : x.latReportSent = true) : x.log connection client = (x, false) := by
  simp [ReqCtx.log, hsent]

/-- A report that is sent was not marked, and is. -/
theorem log_called (hcall : (x.log connection client).2 = true) :
    x.latReportSent = false ∧ (x.log connection client).1.latReportSent = true := by
  have hunsent : x.latReportSent = false := by
    by_contra hsent
    rw [log_sent (by simpa using hsent)] at hcall
    cases hcall
  refine ⟨hunsent, ?_⟩
  unfold ReqCtx.log at hcall ⊢
  split_ifs at hcall ⊢
  rfl

/-- The latency is the time from start to end, at least 1 and within 32 bits. -/
theorem observedLatency_eq (startMs endMs : ℕ) :
    (observedLatency startMs endMs : ℤ) = max 1 (min (2 ^ 32 - 1) ((endMs : ℤ) - startMs)) := by
  simp only [observedLatency, uint32Max]
  omega

/-- The log handler leaves the request, or goes on with the context in its slot. -/
theorem ngxHttpRnLogHandler_cases (endMs : ℕ) (f : Frame) :
    (ngxHttpRnLogHandler endMs f).req = f.req ∨
    f.req.main = true ∧ ∃ c x, f.req.slot = some c ∧ f.req.ctxs[c]? = some x ∧
      (ngxHttpRnLogHandler endMs f).req = f.req.logged c x f.proc.client.isSome endMs := by
  unfold ngxHttpRnLogHandler
  split_ifs with hmain
  · exact .inl rfl
  · split
    · exact .inl rfl
    next c hslot =>
      split
      · exact .inl rfl
      next x hx => exact .inr ⟨by simpa using hmain, c, x, hslot, hx, rfl⟩

/-- The log handler leaves the decisions. -/
theorem ngxHttpRnLogHandler_decision (endMs : ℕ) (f : Frame) :
    (ngxHttpRnLogHandler endMs f).req.ctxs.map ReqCtx.decision =
      f.req.ctxs.map ReqCtx.decision := by
  rcases ngxHttpRnLogHandler_cases endMs f with heq | ⟨-, c, x, -, hx, heq⟩
  · rw [heq]
  · rw [heq]
    exact map_set_eq hx (log_decision x _ _)

end Log

/-! ## Steps -/

/-- What an event does to the reports of its request. -/
inductive ReportStep (s : Setup) (p : Proc) (i : ℕ) (r r' : Request) : Event → Prop where
  | same {e : Event} : r.SameReports r' → (r.released = true → r'.released = true) →
      (r.released = true → ∀ c, r.slot = some c → r'.slot = some c) → ReportStep s p i r r' e
  | handler {env : HandlerEnv} : r.released = false → HandlerReports s env r r' →
      ReportStep s p i r r' (.handler i env)
  | log {endMs c : ℕ} {x : ReqCtx} : r.released = true → r.main = true → r.slot = some c →
      r.ctxs[c]? = some x → r' = r.logged c x p.client.isSome endMs →
      ReportStep s p i r r' (.log i endMs)

/-- Once a request is released its slot stays filled. -/
theorem Event.run_slot {s : Setup} {w : World} {e : Event} {i : ℕ} {r : Request}
    (hen : e.Enabled s w) (hr : w.reqs[i]? = some r) (hmine : e.request = some i)
    (hreleased : r.released = true) {c : ℕ} (hslot : r.slot = some c) :
    (e.run s i ⟨w.proc, r⟩).req.slot = some c := by
  have hlive : ∀ j, some j = some i → ¬∃ r' ∈ w.reqs[j]?, r'.released = false := by
    rintro j hj ⟨r', hr', hnot⟩
    obtain rfl : j = i := Option.some.inj hj
    obtain rfl : r = r' := Option.some.inj (hr.symm.trans hr')
    exact Bool.false_ne_true (hnot.symm.trans hreleased)
  cases e with
  | handler j => exact absurd hen (hlive j hmine)
  | redirect j => exact absurd hen.2 (hlive j hmine)
  | release j => exact absurd hen (hlive j hmine)
  | verdict =>
    simp only [Event.run, ngxHttpRnVerdictVariable]
    split <;> exact rnGetRequestCtx_slot hslot
  | complete _ q status result => exact (rnRateCb_slot _ q status result).trans hslot
  | stray _ q status result => exact (rnRateCb_slot _ q status result).trans hslot
  | timeout _ c' env => exact (rnRequestTimeoutHandler_slot _ env c').trans hslot
  | cleanup _ c' => exact (cleanup_slot c').trans hslot
  | log _ endMs =>
    rcases ngxHttpRnLogHandler_cases endMs ⟨w.proc, r⟩ with heq | ⟨-, c', x, -, -, heq⟩
    · exact (congrArg Request.slot heq).trans hslot
    · exact (congrArg Request.slot heq).trans hslot
  | cleanupAdd | connection | retain | drop => exact hslot
  | accept | steering | udpBegin | udpEnd | rebind => cases hmine

/-- Every event of a request is one of the three. -/
theorem Event.run_reportStep {s : Setup} {w : World} {e : Event} {i : ℕ} {r : Request}
    (hen : e.Enabled s w) (hr : w.reqs[i]? = some r) (hmine : e.request = some i) :
    ReportStep s w.proc i r (e.run s i ⟨w.proc, r⟩).req e := by
  have hslot : r.released = true → ∀ c, r.slot = some c →
      (e.run s i ⟨w.proc, r⟩).req.slot = some c :=
    fun hreleased c hc => Event.run_slot hen hr hmine hreleased hc
  rcases e.run_requestMoves hen i w.proc r with ⟨j, env, rfl⟩ | hends | hmoves
  · obtain rfl : j = i := Option.some.inj hmine
    obtain ⟨r', hr', hlive⟩ := hen
    obtain rfl : r = r' := Option.some.inj (hr.symm.trans hr')
    exact .handler hlive (ngxHttpRnHandler_reports s env j w.proc r)
  · cases e with
    | cleanup j c =>
      refine .same (cleanup_sameReports ⟨w.proc, r⟩ c) (fun hreleased => ?_) hslot
      exact (cleanup_released ⟨w.proc, r⟩ c).trans hreleased
    | release => exact .same (release_sameReports ⟨w.proc, r⟩) (fun _ => rfl) hslot
    | log j endMs =>
      obtain rfl : j = i := Option.some.inj hmine
      obtain ⟨r', hr', hreleased⟩ := hen
      obtain rfl : r = r' := Option.some.inj (hr.symm.trans hr')
      rcases ngxHttpRnLogHandler_cases endMs ⟨w.proc, r⟩ with heq | ⟨hmain, c, x, hc, hx, heq⟩
      · have hrun : (Event.run s j ⟨w.proc, r⟩ (.log j endMs)).req = r := heq
        rw [hrun] at hslot ⊢
        exact .same (.refl r) id hslot
      · exact .log hreleased hmain hc hx heq
    | _ => exact hends.elim
  · exact .same hmoves.sameReports (fun hreleased => hmoves.released.trans hreleased) hslot

/-! ## Runs -/

/-- A request has no report, or one : that of the context in its slot, which is marked. -/
structure Request.ReportedOnce (r : Request) : Prop where
  unreleased : r.released = false → r.reports = []
  subrequest : r.main = false → r.reports = []
  once : r.reports = [] ∨ r.reports.length = 1 ∧ ∃ c x, r.slot = some c ∧
    r.ctxs[c]? = some x ∧ x.latReportSent = true

/-- The report of a context was built by a run of the handler, from the tracker that the
location of the request named then. -/
def EffectiveReport (s : Setup) (es : List Event) (i : ℕ) (ρ : Reporting) : Prop :=
  ∃ pre env post, es = pre ++ .handler i env :: post ∧ ∃ u, Reaches s pre u ∧
    ∃ r ∈ u.reqs[i]?, r.lcf = ρ.origin ∧ ρ.BuiltFrom s.conf.main env.values

section Runs

variable {s : Setup} {es : List Event} {w : World} {i : ℕ} {r r' : Request} {p : Proc} {e : Event}

theorem Request.ReportedOnce.new (main : Bool) (lcf : LocConf) (startMs : ℕ) :
    (Request.new main lcf startMs).ReportedOnce :=
  ⟨fun _ => rfl, fun _ => rfl, .inl rfl⟩

/-- A second run of the log handler finds the report marked. -/
theorem logged_reports {c : ℕ} {x : ReqCtx} (h : r.ReportedOnce) (hslot : r.slot = some c)
    (hx : r.ctxs[c]? = some x) (client : Bool) (endMs : ℕ) :
    (r.logged c x client endMs).reports = r.reports ∨
    r.reports = [] ∧ (x.log r.connection client).2 = true ∧
      (r.logged c x client endMs).reports = [(x.latReport, observedLatency r.startMs endMs)] := by
  by_cases hcall : (x.log r.connection client).2 = true
  · rcases h.once with hnone | ⟨-, c', x', hslot', hx', hsent⟩
    · exact .inr ⟨hnone, hcall, by simp [Request.logged, hcall, hnone]⟩
    · obtain rfl : c = c' := Option.some.inj (hslot.symm.trans hslot')
      obtain rfl : x = x' := Option.some.inj (hx.symm.trans hx')
      exact absurd ((log_called hcall).1.symm.trans hsent) Bool.false_ne_true
  · exact .inl (by simp [Request.logged, hcall])

theorem ReportStep.reportedOnce (h : r.ReportedOnce) (hstep : ReportStep s p i r r' e) :
    r'.ReportedOnce := by
  rcases hstep with ⟨hsame, hreleased, hslot⟩ | ⟨hlive, hrun⟩ |
    @⟨endMs, c, x, hreleased, hmain, hc, hx, rfl⟩
  · refine ⟨fun hlive => ?_, fun hsub => ?_, ?_⟩
    · refine hsame.reports.trans (h.unreleased ?_)
      by_contra hnot
      exact absurd (hlive.symm.trans (hreleased (by simpa using hnot))) Bool.false_ne_true
    · exact hsame.reports.trans (h.subrequest (hsame.main.symm.trans hsub))
    · rw [hsame.reports]
      rcases hr : r.released with _ | _
      · exact .inl (h.unreleased hr)
      · refine h.once.imp_right ?_
        rintro ⟨hlen, c, x, hc, hx, hsent⟩
        obtain ⟨x', hx', hsame'⟩ := hsame.ctx hx
        exact ⟨hlen, c, x', hslot hr c hc, hx', (congrArg Reporting.sent hsame').trans hsent⟩
  · have hnone : r'.reports = [] := hrun.reports.trans (h.unreleased hlive)
    exact ⟨fun _ => hnone, fun _ => hnone, .inl hnone⟩
  · have hlt : c < r.ctxs.length := (List.getElem?_eq_some_iff.mp hx).1
    have hx' : (r.logged c x p.client.isSome endMs).ctxs[c]? =
        some (x.log r.connection p.client.isSome).1 := by
      simp [Request.logged, hlt]
    refine ⟨fun hlive => ?_, fun hsub => ?_, ?_⟩
    · exact absurd (hlive.symm.trans hreleased) Bool.false_ne_true
    · exact absurd (hsub.symm.trans hmain) Bool.false_ne_true
    · rcases logged_reports h hc hx p.client.isSome endMs with hsame | ⟨-, hcall, hone⟩
      · rw [hsame]
        refine h.once.imp_right ?_
        rintro ⟨hlen, c', x', hc', hx'', hsent⟩
        obtain rfl : c = c' := Option.some.inj (hc.symm.trans hc')
        obtain rfl : x = x' := Option.some.inj (hx.symm.trans hx'')
        refine ⟨hlen, c, _, hc, hx', ?_⟩
        rw [log_sent hsent]
        exact hsent
      · rw [hone]
        exact .inr ⟨rfl, c, _, hc, hx', (log_called hcall).2⟩

/-- At most one report along every run. -/
theorem reported_once (h : Reaches s es w) (hr : w.reqs[i]? = some r) : r.ReportedOnce := by
  have hrun : Run ((machine s).restrict fun _ _ => True) World.init es w :=
    h.to_restrict fun _ _ _ => trivial
  refine request_invariant hrun (fun main startMs lcf _ => .new main lcf startMs) ?_ r hr
  intro u e r hr hmine hen _ hI
  exact (Event.run_reportStep hen hr hmine).reportedOnce hI

theorem EffectiveReport.later {ρ : Reporting} (h : EffectiveReport s es i ρ) (e : Event) :
    EffectiveReport s (es ++ [e]) i ρ := by
  obtain ⟨pre, env, post, rfl, hbuilt⟩ := h
  exact ⟨pre, env, post ++ [e], by simp, hbuilt⟩

/-- Whether a report was sent does not change what it was built from. -/
theorem EffectiveReport.mark {ρ : Reporting} (h : EffectiveReport s es i ρ) (sent : Bool) :
    EffectiveReport s es i { ρ with sent } := by
  obtain ⟨pre, env, post, hes, u, hreach, r, hr, hlcf, hbuilt⟩ := h
  exact ⟨pre, env, post, hes, u, hreach, r, hr, hlcf, hbuilt.enabled, hbuilt.tracker⟩

/-- A step keeps what was built, and a run of the handler builds from its own location. -/
theorem ReportStep.effective (hreach : Reaches s es w) (hr : w.reqs[i]? = some r)
    (h : ∀ x ∈ r.ctxs, x.latReportEnabled = true → EffectiveReport s es i x.reporting)
    (hstep : ReportStep s p i r r' e) :
    ∀ x ∈ r'.ctxs, x.latReportEnabled = true → EffectiveReport s (es ++ [e]) i x.reporting := by
  intro x hx henabled
  rcases hstep with ⟨hsame, -, -⟩ | @⟨env, -, hrun⟩ | @⟨endMs, c, y, -, -, -, hy, rfl⟩
  · have hmem : x.reporting ∈ r.ctxs.map ReqCtx.reporting :=
      hsame.ctxs ▸ List.mem_map_of_mem hx
    obtain ⟨y, hy, hyx⟩ := List.mem_map.mp hmem
    have henabled' : y.latReportEnabled = true := (congrArg Reporting.enabled hyx).trans henabled
    exact hyx ▸ (h y hy henabled').later e
  · rcases hrun.ctxs with hctxs | ⟨y, hctxs, hfresh⟩
    · exact (h x (hctxs ▸ hx) henabled).later _
    · rw [hctxs, List.mem_append, List.mem_singleton] at hx
      rcases hx with hx | rfl
      · exact (h x hx henabled).later _
      · exact ⟨es, env, [], rfl, w, hreach, r, hr, hfresh.origin.symm, hfresh.built henabled⟩
  · rcases List.mem_or_eq_of_mem_set hx with hx | rfl
    · exact (h x hx henabled).later _
    · obtain ⟨sent, hlog⟩ := log_reporting y r.connection p.client.isSome
      have henabled' : y.latReportEnabled = true :=
        (congrArg Reporting.enabled hlog).symm.trans henabled
      rw [hlog]
      exact ((h y (List.mem_of_getElem? hy) henabled').mark sent).later _

/-- Every report that is enabled was built by a run of the handler. -/
theorem effective_reports (h : Reaches s es w) (hr : w.reqs[i]? = some r) :
    ∀ x ∈ r.ctxs, x.latReportEnabled = true → EffectiveReport s es i x.reporting := by
  induction h generalizing r with
  | nil => simp [World.init] at hr
  | @snoc es u e hrun hen ih =>
    rcases hu : u.reqs[i]? with _ | r₀
    · obtain ⟨main, startMs, lcf, -, rfl⟩ := next_request_new hu hen hr
      simp [Request.new]
    · have hnext : (u.next s e).reqs[i]? = some r := hr
      rw [next_request hu] at hnext
      obtain rfl := Option.some.inj hnext
      split_ifs with hmine
      · exact (Event.run_reportStep hen hu hmine).effective hrun hu (ih hu)
      · exact fun x hx henabled => (ih hu x hx henabled).later e

/-- The log handler of a main request sends the first report of the request : that of the
context in the slot, which is due, with the latency up to `endMs`. -/
structure Request.Sends (w : World) (endMs : ℕ) (r r' : Request) (x : ReqCtx) : Prop where
  main : r.main = true
  ctx : r.ctx = some x
  due : x.Due r.connection w.proc.client.isSome
  first : r.reports = []
  report : ∃ v : ℕ, r'.reports = [(x.latReport, v)] ∧
    (v : ℤ) = max 1 (min (2 ^ 32 - 1) ((endMs : ℤ) - r.startMs))

/-- Only the log handler sends a report. -/
theorem ReportStep.sends (h : r.ReportedOnce) (hstep : ReportStep s w.proc i r r' e)
    (hnew : r'.reports ≠ r.reports) : ∃ endMs x, e = .log i endMs ∧ r.Sends w endMs r' x := by
  rcases hstep with ⟨hsame, -, -⟩ | ⟨-, hrun⟩ | @⟨endMs, c, x, -, hmain, hc, hx, rfl⟩
  · exact absurd hsame.reports hnew
  · exact absurd hrun.reports hnew
  · have hctx : r.ctx = some x := by
      rw [Request.ctx, hc, Option.bind_some, hx]
    rcases logged_reports h hc hx w.proc.client.isSome endMs with hsame | ⟨hfirst, hcall, hone⟩
    · exact absurd hsame hnew
    · have hdue := (log_iff_due (log_called hcall).1 _ _).mp hcall
      exact ⟨endMs, x, rfl, hmain, hctx, hdue, hfirst, _, hone, observedLatency_eq _ _⟩

/-- Latency reporting, along every run. A request has at most one report, and a subrequest
none. An event that adds one is a log handler whose report is due : the context in the slot
holds the values of the tracker in effect where a run of the handler made it, the connection is
up, and the outcome is one with which the work was done; the latency is that from start to
end, at least 1 and within 32 bits. Building and sending leave the decision. -/
theorem latency_reports (h : Reaches s es w) (hr : w.reqs[i]? = some r) :
    r.reports.length ≤ 1 ∧ (r.main = false → r.reports = []) ∧
    (∀ x ∈ r.ctxs, x.latReportEnabled = true → EffectiveReport s es i x.reporting) ∧
    (∀ e, e.Enabled s w → ∀ r' ∈ (w.next s e).reqs[i]?, r'.reports ≠ r.reports →
      ∃ endMs x, e = .log i endMs ∧ r.Sends w endMs r' x ∧ EffectiveReport s es i x.reporting) ∧
    (∀ mcf lcf env x, (rnAttachReport mcf lcf env x).decision = x.decision) ∧
    ∀ endMs f, (ngxHttpRnLogHandler endMs f).req.ctxs.map ReqCtx.decision =
      f.req.ctxs.map ReqCtx.decision := by
  have honce := reported_once h hr
  have hbuilt := effective_reports h hr
  refine ⟨?_, honce.subrequest, hbuilt, ?_, fun mcf lcf env x => rnAttachReport_decision env x,
    ngxHttpRnLogHandler_decision⟩
  · rcases honce.once with hnone | ⟨hlen, -⟩
    · simp [hnone]
    · exact hlen.le
  · intro e hen r' hr' hnew
    have hnext : (w.next s e).reqs[i]? = some r' := hr'
    rw [next_request hr] at hnext
    obtain rfl := Option.some.inj hnext
    split_ifs at hnew ⊢ with hmine
    · obtain ⟨endMs, x, he, hsends⟩ := (Event.run_reportStep hen hr hmine).sends honce hnew
      obtain ⟨c, -, hx⟩ := Option.bind_eq_some_iff.mp hsends.ctx
      exact ⟨endMs, x, he, hsends, hbuilt x (List.mem_of_getElem? hx) hsends.due.built⟩
    · exact absurd rfl hnew

end Runs

/-- A request to a location with a report, on a clock that is set back, logged twice. -/
def reportedEvents : List Event :=
  [.accept true reportLoc 10, .handler 0 sampleHandlerEnv, .release 0, .log 0 5, .log 0 9]

/-- It has one report, with a latency of 1. -/
theorem reported_with_clock_back :
    ∃ r ∈ (reportedEvents.foldl (World.next sampleSetup) World.init).reqs[0]?,
      r.reports.map Prod.snd = [1] ∧ r.reports.length ≤ 1 ∧
      ∃ x ∈ r.ctxs, x.latReportEnabled = true ∧
        EffectiveReport sampleSetup reportedEvents 0 x.reporting := by
  have hrun : Reaches sampleSetup reportedEvents
      (reportedEvents.foldl (World.next sampleSetup) World.init) :=
    Run.of_admits (by decide +kernel)
  have hstate : ∃ r ∈ (reportedEvents.foldl (World.next sampleSetup) World.init).reqs[0]?,
      r.reports.map Prod.snd = [1] ∧ ∃ x ∈ r.ctxs, x.latReportEnabled = true := by
    decide +kernel
  obtain ⟨r, hr, hone, x, hx, henabled⟩ := hstate
  obtain ⟨hlen, -, hbuilt, -⟩ := latency_reports hrun hr
  exact ⟨r, hr, hone, hlen, x, hx, henabled, hbuilt x hx henabled⟩

end RlNginx
