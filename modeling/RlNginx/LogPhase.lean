import RlNginx.Ownership
import RlNginx.Reuse

/-!
# The log phase

nginx releases a request in this order : it detaches the cleanup chain, runs the cleanup
handlers, and runs the log phase. By then the chain no longer leads to the context, so the
variable and the log handler see only what is in the slot. A redirect clears the slot, and
when no run of the handler refills it before the request is finalized, the log phase takes the
request for one without a context.

`log_phase_right_iff` says when that makes no difference : the slot holds the registered
context, or there was no verdict to show and no report to send.
-/

open Transition Relation

namespace RlNginx

/-! ## What the log phase should do -/

/-- The outcomes with which a report is sent. -/
def AdmissionOutcome.Reports (o : AdmissionOutcome) : Prop :=
  o = .none ∨ o = .validAllow ∨ o = .failOpen

/-- The report of a context is to be sent. -/
structure ReqCtx.Due (x : ReqCtx) (connection : Connection) (client : Bool) : Prop where
  built : x.latReportEnabled = true
  connected : connection.timedout = false ∧ connection.error = false ∧ connection.destroyed = false
  client : x.worker = true ∧ client = true
  outcome : x.admissionOutcome.Reports

/-- The outcome is a valid verdict. -/
def ReqCtx.Valid (x : ReqCtx) : Prop :=
  x.admissionOutcome = .validAllow ∨ x.admissionOutcome = .validDeny

/-- The variable shows the outcome of the context. -/
structure Request.Shows (r : Request) (x : ReqCtx) : Prop where
  allow : (ngxHttpRnVerdictVariable r).2 = .allow ↔ x.admissionOutcome = .validAllow
  deny : (ngxHttpRnVerdictVariable r).2 = .deny ↔ x.admissionOutcome = .validDeny

/-- The log phase sees context `c` : the variable shows its outcome, before the log handler
and after it, and the log handler attempts the report exactly when it is due. -/
def LogPhaseRight (c endMs : ℕ) (f : Frame) : Prop :=
  ∃ x ∈ f.req.ctxs[c]?, f.req.Shows x ∧
    ((ngxHttpRnLogHandler endMs f).req.reports ≠ f.req.reports ↔
      x.Due f.req.connection f.proc.client.isSome) ∧
    ∃ y ∈ (ngxHttpRnLogHandler endMs f).req.ctxs[c]?, (ngxHttpRnLogHandler endMs f).req.Shows y

/-! ## What it does -/

section Released

variable {f : Frame} {r : Request} {c : ℕ} {x y : ReqCtx}

theorem verdict_allow_iff (o : AdmissionOutcome) : o.verdict = .allow ↔ o = .validAllow := by
  cases o <;> simp [AdmissionOutcome.verdict]

theorem verdict_deny_iff (o : AdmissionOutcome) : o.verdict = .deny ↔ o = .validDeny := by
  cases o <;> simp [AdmissionOutcome.verdict]

/-- With the context in the slot the variable shows its outcome. -/
theorem shows_of_slot (hslot : r.slot = some c) (hx : r.ctxs[c]? = some x) : r.Shows x := by
  have hget : rnGetRequestCtx r = r := by simp [rnGetRequestCtx, hslot]
  have hctx : r.ctx = some x := by simp [Request.ctx, hslot, hx]
  have hvar : (ngxHttpRnVerdictVariable r).2 = x.admissionOutcome.verdict := by
    simp [ngxHttpRnVerdictVariable, hget, hctx]
  exact ⟨by rw [hvar, verdict_allow_iff], by rw [hvar, verdict_deny_iff]⟩

/-- With the slot and the chain empty the variable is not found. -/
theorem shows_of_empty (hslot : r.slot = none) (hchain : r.cleanup = []) :
    r.Shows x ↔ ¬x.Valid := by
  have hvar : (ngxHttpRnVerdictVariable r).2 = .notFound := by
    simp [ngxHttpRnVerdictVariable, rnGetRequestCtx, hslot, hchain, findCleanup, Request.ctx]
  constructor
  · rintro ⟨hallow, hdeny⟩ (hvalid | hvalid)
    · rw [hvar] at hallow
      exact absurd (hallow.mpr hvalid) (by simp)
    · rw [hvar] at hdeny
      exact absurd (hdeny.mpr hvalid) (by simp)
  · intro hvalid
    rw [ReqCtx.Valid, not_or] at hvalid
    exact ⟨by simp [hvar, hvalid.1], by simp [hvar, hvalid.2]⟩

/-- The log handler calls the client exactly when the report is due. -/
theorem log_iff_due (hunsent : x.latReportSent = false) (connection : Connection)
    (client : Bool) : (x.log connection client).2 = true ↔ x.Due connection client := by
  unfold ReqCtx.log
  split_ifs with hbuilt hgone hout hclient
  · refine iff_of_false (by simp) fun h => ?_
    simp [h.built, hunsent] at hbuilt
  · refine iff_of_false (by simp) fun h => ?_
    simp [h.connected] at hgone
  · refine iff_of_false (by simp) fun h => ?_
    rcases h.outcome with h | h | h <;> simp [h] at hout
  · refine iff_of_false (by simp) fun h => ?_
    simp [h.client] at hclient
  · refine iff_of_true rfl ⟨by simpa [hunsent] using hbuilt,
      by simpa [not_or, and_assoc] using hgone, by simpa using hclient, ?_⟩
    by_contra hnone
    exact hout (by simpa only [AdmissionOutcome.Reports, not_or] using hnone)

/-- With the context in the slot the log phase is right. -/
theorem right_of_slot (hmain : f.req.main = true) (hslot : f.req.slot = some c)
    (hx : f.req.ctxs[c]? = some x) (hunsent : x.latReportSent = false) (endMs : ℕ) :
    LogPhaseRight c endMs f := by
  have hlog : ngxHttpRnLogHandler endMs f =
      { f with req := f.req.logged c x f.proc.client.isSome endMs } := by
    simp [ngxHttpRnLogHandler, hmain, hslot, hx]
  have hlt : c < f.req.ctxs.length := (List.getElem?_eq_some_iff.mp hx).1
  have hy : (f.req.logged c x f.proc.client.isSome endMs).ctxs[c]? =
      some (x.log f.req.connection f.proc.client.isSome).1 := by
    simp [Request.logged, hlt]
  rw [LogPhaseRight, hlog]
  refine ⟨x, hx, shows_of_slot hslot hx, ?_, _, hy, shows_of_slot hslot hy⟩
  rw [← log_iff_due hunsent]
  simp only [Request.logged]
  split_ifs with hcall <;> simp [hcall]

/-- With the slot and the chain empty it is right when there is nothing to see. -/
theorem right_of_empty (hslot : f.req.slot = none) (hchain : f.req.cleanup = [])
    (hx : f.req.ctxs[c]? = some x) (endMs : ℕ) :
    LogPhaseRight c endMs f ↔ ¬x.Valid ∧ ¬x.Due f.req.connection f.proc.client.isSome := by
  have hlog : ngxHttpRnLogHandler endMs f = f := by
    simp [ngxHttpRnLogHandler, hslot]
  rw [LogPhaseRight, hlog]
  constructor
  · rintro ⟨y, hy, hshows, hreport, -⟩
    obtain rfl : x = y := Option.some.inj (hx.symm.trans hy)
    exact ⟨(shows_of_empty hslot hchain).mp hshows, fun hdue => hreport.mpr hdue rfl⟩
  · rintro ⟨hvalid, hdue⟩
    have hshows := (shows_of_empty hslot hchain).mpr hvalid
    exact ⟨x, hx, hshows, iff_of_false (fun h => h rfl) hdue, x, hx, hshows⟩

end Released

/-! ## The release -/

/-- What the log phase reads of a context is the same. -/
structure ReqCtx.SameLog (x y : ReqCtx) : Prop where
  built : y.latReportEnabled = x.latReportEnabled
  sent : y.latReportSent = x.latReportSent
  worker : y.worker = x.worker
  valid : y.Valid ↔ x.Valid
  reports : y.admissionOutcome.Reports ↔ x.admissionOutcome.Reports

theorem ReqCtx.SameLog.refl (x : ReqCtx) : x.SameLog x :=
  ⟨rfl, rfl, rfl, Iff.rfl, Iff.rfl⟩

theorem ReqCtx.SameLog.trans {x y z : ReqCtx} (h : x.SameLog y) (h' : y.SameLog z) : x.SameLog z :=
  ⟨h'.built.trans h.built, h'.sent.trans h.sent, h'.worker.trans h.worker, h'.valid.trans h.valid,
    h'.reports.trans h.reports⟩

theorem ReqCtx.SameLog.due {x y : ReqCtx} (h : x.SameLog y) (connection : Connection)
    (client : Bool) : y.Due connection client ↔ x.Due connection client := by
  constructor
  · rintro ⟨hbuilt, hconn, hclient, hout⟩
    exact ⟨h.built ▸ hbuilt, hconn, h.worker ▸ hclient, h.reports.mp hout⟩
  · rintro ⟨hbuilt, hconn, hclient, hout⟩
    exact ⟨h.built.trans hbuilt, hconn, ⟨h.worker.trans hclient.1, hclient.2⟩, h.reports.mpr hout⟩

/-- Cleanup turns a waiting outcome into an aborted one, and no other. -/
theorem cleaned_sameLog (x : ReqCtx) : x.SameLog { x.abort.tornDown with r := false } := by
  unfold ReqCtx.abort
  split_ifs with hwait
  · exact ⟨rfl, rfl, rfl, by simp [ReqCtx.Valid, ReqCtx.tornDown, hwait],
      by simp [AdmissionOutcome.Reports, ReqCtx.tornDown, hwait]⟩
  · exact ⟨rfl, rfl, rfl, Iff.rfl, Iff.rfl⟩

/-- What the log phase reads of the process and the request is the same. -/
structure Frame.SameLog (f g : Frame) : Prop where
  client : g.proc.client.isSome = f.proc.client.isSome
  main : g.req.main = f.req.main
  slot : g.req.slot = f.req.slot
  connection : g.req.connection = f.req.connection
  ctx : ∀ (c : ℕ), ∀ x ∈ f.req.ctxs[c]?, ∃ y ∈ g.req.ctxs[c]?, x.SameLog y

theorem Frame.SameLog.refl (f : Frame) : f.SameLog f :=
  ⟨rfl, rfl, rfl, rfl, fun _ x hx => ⟨x, hx, .refl x⟩⟩

theorem Frame.SameLog.trans {f g h : Frame} (hfg : f.SameLog g) (hgh : g.SameLog h) :
    f.SameLog h where
  client := hgh.client.trans hfg.client
  main := hgh.main.trans hfg.main
  slot := hgh.slot.trans hfg.slot
  connection := hgh.connection.trans hfg.connection
  ctx := by
    intro c x hx
    obtain ⟨y, hy, hxy⟩ := hfg.ctx c x hx
    obtain ⟨z, hz, hyz⟩ := hgh.ctx c y hy
    exact ⟨z, hz, hxy.trans hyz⟩

theorem cleanup_client (f : Frame) (c : ℕ) :
    (f.cleanup c).proc.client.isSome = f.proc.client.isSome := by
  unfold Frame.cleanup
  split
  · rfl
  · rename_i x _
    have hland : (rnRequestCleanup ⟨f.proc, f.req.count, x⟩).proc.client =
        (Live.cancelRequest ⟨f.proc, f.req.count, x.abort⟩).client :=
      landWorker_client x.abort _
    have hcancel : (Live.cancelRequest ⟨f.proc, f.req.count, x.abort⟩).client.isSome =
        f.proc.client.isSome := by
      unfold Live.cancelRequest
      split
      · split_ifs
        · rw [Proc.client_mapClient, Option.isSome_map]
        · rfl
      · rfl
    rw [Frame.store, hland, hcancel]

theorem cleanup_sameLog (f : Frame) (c : ℕ) : f.SameLog (f.cleanup c) := by
  refine ⟨cleanup_client f c, ?_, ?_, ?_, ?_⟩
  · unfold Frame.cleanup
    split <;> rfl
  · unfold Frame.cleanup
    split <;> rfl
  · unfold Frame.cleanup
    split <;> rfl
  · intro c' x hx
    unfold Frame.cleanup
    split
    · exact ⟨x, hx, .refl x⟩
    · rename_i y hy
      have hlt : c < f.req.ctxs.length := (List.getElem?_eq_some_iff.mp hy).1
      by_cases hc : c = c'
      · subst hc
        obtain rfl : x = y := Option.some.inj (hx.symm.trans hy)
        exact ⟨_, by simp [Frame.store, hlt]; rfl, cleaned_sameLog x⟩
      · exact ⟨x, by simpa [Frame.store, hc] using hx, .refl x⟩

theorem runCleanup_sameLog : ∀ (chain : List Cleanup) (f : Frame), f.SameLog (f.runCleanup chain)
  | [], f => .refl f
  | .other :: chain, f => runCleanup_sameLog chain f
  | .rn c :: chain, f => (cleanup_sameLog f c).trans (runCleanup_sameLog chain (f.cleanup c))

/-- The release leaves what the log phase reads, but for the chain. -/
theorem release_sameLog (f : Frame) : f.SameLog f.release := by
  have h := runCleanup_sameLog f.req.cleanup f
  exact ⟨h.client, h.main, h.slot, h.connection, h.ctx⟩

/-- For a request that has registered context `c` : after its release the log phase sees that
context exactly when the slot holds it at the release, or when it has no valid verdict to
show and no report to send. -/
theorem log_phase_right_iff {s : Setup} {i c : ℕ} {es : List Event} {w : World} {r : Request}
    {x : ReqCtx} (h : KeepsRun s i World.init es w) (hr : w.reqs[i]? = some r)
    (hchain : .rn c ∈ r.cleanup) (hx : r.ctxs[c]? = some x) (endMs : ℕ) :
    LogPhaseRight c endMs (Frame.release ⟨w.proc, r⟩) ↔
      r.slot = some c ∨ ¬x.Valid ∧ ¬x.Due r.connection w.proc.client.isSome := by
  have hreg : r.Registered s c x := by
    rcases clear_or_registered h hr with hclear | ⟨c', x', hreg⟩
    · exact absurd hchain (hclear.chain c)
    · obtain rfl : c = c' := hreg.only c hchain
      obtain rfl : x' = x := Option.some.inj (hreg.ctx.symm.trans hx)
      exact hreg
  have hsame := release_sameLog ⟨w.proc, r⟩
  obtain ⟨y, hy, hxy⟩ := hsame.ctx c x hx
  have hempty : (Frame.release ⟨w.proc, r⟩).req.cleanup = [] := rfl
  rcases hreg.slot with hslot | hslot
  · rw [right_of_empty (hsame.slot.trans hslot) hempty hy, hxy.valid, hsame.connection,
      hsame.client, hxy.due]
    simp [hslot]
  · refine iff_of_true ?_ (.inl hslot)
    exact right_of_slot (hsame.main.trans hreg.main) (hsame.slot.trans hslot) hy
      (hxy.sent.trans hreg.unsent) endMs

theorem sample_log_phase :
    ∃ r ∈ admittedWorld.reqs[0]?,
      LogPhaseRight 0 5 (Frame.release ⟨admittedWorld.proc, r⟩) := by
  have hrun : KeepsRun sampleSetup 0 World.init admittedEvents admittedWorld :=
    Run.of_admits (by decide +kernel)
  have hstate : ∃ r ∈ admittedWorld.reqs[0]?, .rn 0 ∈ r.cleanup ∧ r.slot = some 0 ∧
      ∃ x ∈ r.ctxs[0]?, x.done = true := by decide +kernel
  obtain ⟨r, hr, hchain, hslot, x, hx, -⟩ := hstate
  exact ⟨r, hr, (log_phase_right_iff hrun hr hchain hx 5).mpr (.inl hslot)⟩

/-- A request that is admitted, redirected, and finalized in a phase before the handler. -/
def redirectedAwayEvents : List Event :=
  [.accept true protectedLoc 0, .handler 0 sampleHandlerEnv,
    .complete 0 0 .ok (some ⟨true, [true], [0]⟩), .redirect 0 plainLoc, .release 0]

/-- Its outcome is a valid allow, and the variable is not found. -/
theorem redirect_hides_verdict :
    Reaches sampleSetup redirectedAwayEvents
      (redirectedAwayEvents.foldl (World.next sampleSetup) World.init) ∧
    ∃ r ∈ (redirectedAwayEvents.foldl (World.next sampleSetup) World.init).reqs[0]?,
      r.main = true ∧ r.released = true ∧ (∃ x ∈ r.ctxs[0]?, x.admissionOutcome = .validAllow) ∧
      (ngxHttpRnVerdictVariable r).2 = .notFound :=
  ⟨Run.of_admits (by decide +kernel), by decide +kernel⟩

end RlNginx
