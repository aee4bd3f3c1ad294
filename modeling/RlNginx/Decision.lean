import RlNginx.Interleaving
import RlNginx.Reuse

/-!
# The admission decision

`rn_rate_cb` reads the answer of the service against what the request sent. The lengths it
compares are those the context has carried since the start, and they are the lengths of the
arrays that the client holds under the handle (`Proc.Sent`), so the decision can be stated
in terms of the check itself.

An answer comes in by a completion, or inside the timeout handler : from a client that
completes the request there, or from the handler, which cancels a request that cannot go
on (`Event.Delivers`).
-/

open Transition Relation

namespace RlNginx

/-! ## The verdict of an answer -/

/-- As many results as the check has guards and resources. -/
def RateLimitResult.Answers (result : RateLimitResult) (check : RateCheck) : Prop :=
  result.guards.length = check.guards.length ∧ result.resources.length = check.resources.length

/-- Every part of the result is in favour. -/
def RateLimitResult.Passes (result : RateLimitResult) : Prop :=
  result.success = true ∧ (∀ passed ∈ result.guards, passed = true) ∧
    ∀ deficit ∈ result.resources, deficit = 0

theorem allowResult_iff (result : RateLimitResult) : allowResult result = true ↔ result.Passes := by
  simp [allowResult, RateLimitResult.Passes, and_assoc]

/-- What the answer of a check must lead to. -/
structure Verdict.Right (mcf : MainConf) (check : RateCheck) (status : RClient)
    (result : Option RateLimitResult) (rc : NgxRc) (outcome : AdmissionOutcome) : Prop where
  allow : rc = .ok ∧ outcome = .validAllow ↔
    status = .ok ∧ ∃ res ∈ result, res.Answers check ∧ res.Passes
  deny : rc = .tooManyRequests ∧ outcome = .validDeny ↔
    status = .ok ∧ ∃ res ∈ result, res.Answers check ∧ ¬res.Passes
  fail : ¬(status = .ok ∧ ∃ res ∈ result, res.Answers check) →
    rc = (if mcf.failOpen then .ok else .tooManyRequests) ∧
      outcome = if mcf.failOpen then .failOpen else .failClose

section Verdict

variable {mcf : MainConf} {check : RateCheck} {x : ReqCtx}

/-- The fail policy is right when no answer to the check came in. -/
theorem right_of_fail {status : RClient} {result : Option RateLimitResult}
    (h : ¬(status = .ok ∧ ∃ res ∈ result, res.Answers check)) :
    Verdict.Right mcf check status result (failRc mcf) (failOutcome mcf) := by
  have hallow : failOutcome mcf ≠ .validAllow ∧ failOutcome mcf ≠ .validDeny := by
    unfold failOutcome
    split_ifs <;> simp
  refine ⟨iff_of_false (by simp [hallow]) ?_, iff_of_false (by simp [hallow]) ?_,
    fun _ => ⟨rfl, rfl⟩⟩
  · rintro ⟨hok, res, hres, hanswers, -⟩
    exact h ⟨hok, res, hres, hanswers⟩
  · rintro ⟨hok, res, hres, hanswers, -⟩
    exact h ⟨hok, res, hres, hanswers⟩

/-- The verdict is right, for the lengths the context carries. -/
theorem rnVerdict_right (hguards : check.guards.length = x.expectedGuardCount)
    (hresources : check.resources.length = x.expectedResourceCount) (status : RClient)
    (result : Option RateLimitResult) :
    Verdict.Right mcf check status result (rnVerdict mcf status result x).decision
      (rnVerdict mcf status result x).admissionOutcome := by
  unfold rnVerdict
  split
  · rename_i res
    split_ifs with hcard hallow
    · refine right_of_fail ?_
      rintro ⟨-, res', hres', hanswers⟩
      obtain rfl : res = res' := Option.some.inj hres'
      rw [RateLimitResult.Answers, hguards, hresources] at hanswers
      rcases hcard with hcard | hcard
      · exact hcard hanswers.1
      · exact hcard hanswers.2
    all_goals
      have hanswers : res.Answers check := by
        rw [RateLimitResult.Answers, hguards, hresources]
        simpa [not_or] using hcard
    · have hpasses := (allowResult_iff res).mp hallow
      exact ⟨by simp [hanswers, hpasses], by simp [hanswers, hpasses], by simp [hanswers]⟩
    · have hpasses := mt (allowResult_iff res).mpr hallow
      exact ⟨by simp [hanswers, hpasses], by simp [hanswers, hpasses], by simp [hanswers]⟩
  · rename_i hother
    refine right_of_fail ?_
    rintro ⟨rfl, res, hres, -⟩
    exact hother res rfl hres

end Verdict

/-! ## What the request sent -/

/-- The client holds, under the handle, a check with the lengths the context carries. -/
def Proc.Sent (p : Proc) (i q : ℕ) (x : ReqCtx) : Prop :=
  ∃ cl ∈ p.client, ∃ cr ∈ cl.requests[q]?, cr.user = i ∧
    cr.check.guards.length = x.expectedGuardCount ∧
    cr.check.resources.length = x.expectedResourceCount

/-- Every handle of the request was sent with the lengths its context carries. -/
def Request.Sent (p : Proc) (i : ℕ) (r : Request) : Prop :=
  ∀ x ∈ r.ctxs, ∀ q ∈ x.req, p.Sent i q x

section Sent

variable {s : Setup} {p p' : Proc} {i : ℕ} {r r' : Request} {x : ReqCtx}

theorem Proc.Grows.sent (h : p.Grows p') {q : ℕ} (hq : p.Sent i q x) : p'.Sent i q x := by
  obtain ⟨cl, hcl, cr, hcr, hsent⟩ := hq
  obtain ⟨cl', hcl', more, hmore⟩ := h cl hcl
  refine ⟨cl', hcl', cr, ?_, hsent⟩
  have hlt : q < cl.requests.length := (List.getElem?_eq_some_iff.mp hcr).1
  rw [Option.mem_def, ← hmore, List.getElem?_append_left hlt]
  exact hcr

theorem Request.Sent.grows (h : r.Sent p i) (hgrows : p.Grows p') : r.Sent p' i :=
  fun x hx q hq => hgrows.sent (h x hx q hq)

theorem Request.Move.sent (h : r.Sent p i) (hmove : r.Move s r') : r'.Sent p i := by
  cases hmove with
  | recover =>
    rw [Request.Sent, rnGetRequestCtx_ctxs]
    exact h
  | redirect | chain | outside => exact h
  | @ctx c y y' count hy hmove =>
    intro x hx q hq
    rcases List.mem_or_eq_of_mem_set hx with hx | rfl
    · exact h x hx q hq
    · cases hmove with
      | timer => exact h y (List.mem_of_getElem? hy) q hq
      | verdict _ status result =>
        obtain ⟨d, o, k, -, heq⟩ := rnVerdict_eq s.conf.main status result
          (ReqCtx.tornDown { y with timeoutCompleted := false })
        rw [heq] at hq
        cases hq

/-- The client holds what the handler started. -/
theorem rnStart_sent {n : ℕ} (hx : x.req = none) {cl : Client} (hcl : p.client = some cl)
    (mcf : MainConf) (env : HandlerEnv) (check : RateCheck) :
    ∀ q ∈ (rnStart mcf env i cl check ⟨p, n, x⟩).live.ctx.req,
      (rnStart mcf env i cl check ⟨p, n, x⟩).live.proc.Sent i q
        (rnStart mcf env i cl check ⟨p, n, x⟩).live.ctx := by
  simp only [rnStart, Live.mapCtx]
  split_ifs
  · intro q hq
    rw [show (rnFinishPreflightFailure mcf .startFailure { x with
      expectedGuardCount := check.guards.length
      expectedResourceCount := check.resources.length }).req = none from hx] at hq
    cases hq
  · intro q hq
    obtain rfl : cl.requests.length = q := Option.some.inj hq
    have hpublish : ((p.mapClient (·.start i check)).mapWorker fun v =>
        { v with inflight := v.inflight + 1 }).client = (p.mapClient (·.start i check)).client :=
      Proc.client_mapWorker _ fun _ => rfl
    have hclient : (p.mapClient (·.start i check)).client = some (cl.start i check) := by
      rw [Proc.client_mapClient, hcl]
      rfl
    exact ⟨cl.start i check, hpublish.trans hclient, ⟨i, check⟩, by simp [Client.start], rfl, rfl,
      rfl⟩
  · intro q hq
    cases hq

/-- The handle of a new context was sent by the run that made it. -/
theorem rnCheck_sent {mcf : MainConf} {lcf : LocConf} {n : ℕ} (hx : x.Fresh mcf lcf) {cl : Client}
    (hcl : p.client = some cl) (env : HandlerEnv) :
    ∀ q ∈ (rnCheck mcf lcf env i cl ⟨p, n, x⟩).live.ctx.req,
      (rnCheck mcf lcf env i cl ⟨p, n, x⟩).live.proc.Sent i q
        (rnCheck mcf lcf env i cl ⟨p, n, x⟩).live.ctx := by
  have hreq : (rnAttachReport mcf lcf env.values { x with worker := true }).req = none :=
    (rnAttachReport_fresh hx env.values).req
  simp only [rnCheck, Live.mapCtx]
  split_ifs with hadm
  · intro q hq
    rw [show _ = none from hreq] at hq
    cases hq
  · split
    · rename_i stop hstop
      intro q hq
      have hexit := rnFinishStop_exit (rnAttachReport_fresh hx env.values) (by simpa using hadm)
        hstop
      rcases hexit.settled with ⟨-, -, hnone, -⟩ | ⟨-, -, -, hcall⟩
      · rw [show _ = none from hnone] at hq
        cases hq
      · exact absurd rfl hcall
    · exact rnStart_sent hreq hcl mcf env _

theorem rnAdmit_sent {lcf : LocConf} {n : ℕ} (hx : x.Fresh s.conf.main lcf) (env : HandlerEnv) :
    ∀ q ∈ (rnAdmit s lcf env i ⟨p, n, x⟩).live.ctx.req,
      (rnAdmit s lcf env i ⟨p, n, x⟩).live.proc.Sent i q
        (rnAdmit s lcf env i ⟨p, n, x⟩).live.ctx := by
  have hnone : ∀ q ∈ (rnNoWorker s.conf.main lcf x).req, False := by
    intro q hq
    rw [show (rnNoWorker s.conf.main lcf x).req = none from hx.req] at hq
    cases hq
  unfold rnAdmit
  split
  · split
    · rename_i proc _ cl hcl
      exact rnCheck_sent hx hcl env
    · exact fun q hq => (hnone q hq).elim
  · exact fun q hq => (hnone q hq).elim

/-- A run of the handler keeps it. -/
theorem ngxHttpRnHandler_sent (h : r.Sent p i) (env : HandlerEnv) :
    (ngxHttpRnHandler s env i ⟨p, r⟩).1.req.Sent (ngxHttpRnHandler s env i ⟨p, r⟩).1.proc i := by
  have hleaves := ngxHttpRnHandler_leaves s env i p r
  generalize (ngxHttpRnHandler s env i ⟨p, r⟩).1 = f' at hleaves ⊢
  rcases hleaves with slot | _ | ⟨-, -, -, hadmit⟩
  · exact h
  · intro x hx q hq
    rcases List.mem_append.mp hx with hx | hx
    · exact h x hx q hq
    · obtain rfl := List.mem_singleton.mp hx
      cases hq
  · subst hadmit
    intro x hx q hq
    rcases List.mem_append.mp hx with hx | hx
    · have hgrows := (rnAdmit_moves (s := s) p r.count (ReqCtx.new s.conf.main r.lcf) r.lcf env
        i).grows
      exact hgrows.sent (h x hx q hq)
    · obtain rfl := List.mem_singleton.mp hx
      exact rnAdmit_sent (ReqCtx.new_fresh _ _) env q hq

/-- Until it is cleaned up, a request has sent what its contexts carry. -/
theorem sent_of_run {es : List Event} {w : World} (h : KeepsRun s i World.init es w) :
    ∀ r ∈ w.reqs[i]?, r.Sent w.proc i := by
  refine h.invariant (I := fun w => ∀ r ∈ w.reqs[i]?, r.Sent w.proc i) (by simp [World.init]) ?_
  intro u e hu he r' hr'
  have hgrows : u.proc.Grows (u.next s e).proc := next_grows u s e
  cases hr : u.reqs[i]? with
  | none =>
    obtain ⟨main, startMs, lcf, -, rfl⟩ := next_request_new hr he.1 hr'
    simp [Request.Sent, Request.new]
  | some r =>
    have hnext : (u.next s e).reqs[i]? = some r' := hr'
    rw [next_request hr] at hnext
    obtain rfl := Option.some.inj hnext
    split_ifs with hmine
    · rcases e.run_requestMoves he.1 i u.proc r with ⟨j, env, rfl⟩ | hends | hmoves
      · change Request.Sent ((u.next s (.handler j env)).proc) i _
        rw [World.next_eq hmine hr]
        exact ngxHttpRnHandler_sent (hu r hr) env
      · exact absurd hends (he.2 hmine)
      · exact (hmoves.kept (I := fun r => r.Sent u.proc i) (fun h hmove => hmove.sent h)
          (hu r hr)).grows hgrows
    · exact (hu r hr).grows hgrows

end Sent

/-! ## Deliveries -/

/-- The timer fires at the deadline or after it. -/
def TimeoutEnv.Due (env : TimeoutEnv) : Prop :=
  env.deadlineMs.any (· > env.nowMs) = false

/-- The event calls `rn_rate_cb` for the handle `q` of context `c` of request `i`, with the
status and the result given. -/
inductive Event.Delivers (i c q : ℕ) : RClient → Option RateLimitResult → Event → Prop where
  | complete (status : RClient) (result : Option RateLimitResult) :
      Delivers i c q status result (.complete i q status result)
  | timeout {env : TimeoutEnv} {status : RClient} {result : Option RateLimitResult} : env.Due →
      env.onTimeout = .completed status result → Delivers i c q status result (.timeout i c env)
  | failed {env : TimeoutEnv} {status : RClient} : env.Due → env.onTimeout = .failed status →
      status ≠ .ok → Delivers i c q status none (.timeout i c env)
  | lost {env : TimeoutEnv} : env.Due → env.onTimeout = .advanced → env.deadlineMs' = none →
      Delivers i c q .errConfig none (.timeout i c env)

section Delivers

variable {s : Setup} {i c q : ℕ} {p : Proc} {r : Request} {x : ReqCtx} {f : Frame}
  {status : RClient} {result : Option RateLimitResult}

theorem modifyCtx_get (hx : f.req.ctxs[c]? = some x) (g : ReqCtx → ReqCtx) :
    (f.modifyCtx c g).req.ctxs[c]? = some (g x) := by
  simp [Frame.modifyCtx, hx]

/-- The callback for the handle of the slot leaves its verdict there. -/
theorem rnRateCb_get (mcf : MainConf) (hslot : f.req.slot = some c)
    (hx : f.req.ctxs[c]? = some x) (hworker : x.worker = true) (hq : x.req = some q)
    (status : RClient) (result : Option RateLimitResult) :
    (rnRateCb mcf q status result f).1.req.ctxs[c]? =
      some (rnVerdict mcf status result (ReqCtx.tornDown { x with timeoutCompleted := false })) ∧
    (rnRateCb mcf q status result f).2 = x.timeoutCompleted := by
  have hlt : c < f.req.ctxs.length := (List.getElem?_eq_some_iff.mp hx).1
  rw [rnRateCb_owned mcf status result hslot hx hworker hq]
  simp [Frame.store, hlt, rnRateCbOwned, rnRequestTeardown, hq]

/-- The request is cancelled and fails. -/
theorem rnCancelAndFail_get (mcf : MainConf) (hslot : f.req.slot = some c) {y : ReqCtx}
    (hy : f.req.ctxs[c]? = some y) (hr : x.r = true) (hworker : y.worker = true)
    (hq : y.req = some q) (status : RClient) :
    (rnCancelAndFail mcf q x status f).req.ctxs[c]? =
      some (rnVerdict mcf status none (ReqCtx.tornDown { y with timeoutCompleted := false })) := by
  simp only [rnCancelAndFail, rnRateCbOf, hr, if_true]
  exact (rnRateCb_get (f := ⟨f.proc.mapClient (·.retire q .cancelled), f.req⟩) mcf hslot hy hworker
    hq status none).1

/-- At the deadline the timeout handler calls the client. -/
theorem rnRequestTimeoutHandler_due (mcf : MainConf) {env : TimeoutEnv} (hdue : env.Due)
    (hx : r.ctxs[c]? = some x) (hworker : x.worker = true) (hq : x.req = some q)
    (hclient : p.client.isSome = true) : rnRequestTimeoutHandler mcf env c ⟨p, r⟩ =
      rnOnTimeout mcf env c q x (Frame.modifyCtx ⟨p, r⟩ c ({ · with timer := none })) := by
  have hgone : (!x.worker || (Frame.modifyCtx ⟨p, r⟩ c
      ({ · with timer := none })).proc.client.isNone) = false := by
    rw [hworker]
    simpa [Frame.modifyCtx, Option.isSome_iff_ne_none] using hclient
  have hlater : env.deadlineMs.any (· > env.nowMs) = false := hdue
  simp only [rnRequestTimeoutHandler, hx, hq]
  rw [if_neg (by simp [hgone]), if_neg (by simp [hlater])]

/-- A delivery leaves its verdict in the context. -/
theorem Event.Delivers.verdict {e : Event} (h : e.Delivers i c q status result)
    (hreg : r.Registered s c x) (hslot : r.slot = some c) (hq : x.req = some q)
    (hclient : p.client.isSome = true) : (e.run s i ⟨p, r⟩).req.ctxs[c]? =
      some (rnVerdict s.conf.main status result
        (ReqCtx.tornDown { x with timeoutCompleted := false })) := by
  have hworker : x.worker = true := hreg.linked (by simp [hq])
  -- in the timeout handler the timer has fired, and the observer is set
  have hfired := modifyCtx_get (f := ⟨p, r⟩) hreg.ctx ({ · with timer := none })
  have hset := modifyCtx_get hfired ({ · with timeoutCompleted := true })
  have hcleared := modifyCtx_get hset ({ · with timeoutCompleted := false })
  cases h with
  | complete =>
    exact (rnRateCb_get (f := ⟨p.mapClient (·.retire q .completed), r⟩) s.conf.main hslot hreg.ctx
      hworker hq status result).1
  | timeout hdue hon =>
    rw [Event.run, rnRequestTimeoutHandler_due s.conf.main hdue hreg.ctx hworker hq hclient]
    obtain ⟨hget, hnotified⟩ := rnRateCb_get
      (f := ⟨p.mapClient (·.retire q .completed), ((Frame.modifyCtx ⟨p, r⟩ c
        ({ · with timer := none })).modifyCtx c ({ · with timeoutCompleted := true })).req⟩)
      s.conf.main hslot hset hworker hq status result
    simp only [rnOnTimeout, hon]
    split_ifs with hflag
    · exact hget
    · exact absurd hnotified hflag
  | failed hdue hon hne =>
    rw [Event.run, rnRequestTimeoutHandler_due s.conf.main hdue hreg.ctx hworker hq hclient]
    simp only [rnOnTimeout, hon, rnAfterTimeout]
    rw [if_pos hne]
    exact rnCancelAndFail_get s.conf.main hslot hcleared hreg.live hworker hq status
  | lost hdue hon hnone =>
    rw [Event.run, rnRequestTimeoutHandler_due s.conf.main hdue hreg.ctx hworker hq hclient]
    simp only [rnOnTimeout, hon, rnAfterTimeout, hnone, ne_eq, not_true_eq_false, if_false]
    exact rnCancelAndFail_get s.conf.main hslot hcleared hreg.live hworker hq .errConfig

end Delivers

/-! ## The decision -/

theorem Event.Delivers.keeps {e : Event} {i c q : ℕ} {status : RClient}
    {result : Option RateLimitResult} (h : e.Delivers i c q status result) :
    e.request = some i ∧ e.Keeps i := by
  cases h <;> exact ⟨rfl, fun _ => id⟩

section Decision

variable {s : Setup} {i c q : ℕ} {es : List Event} {w : World} {r : Request} {x : ReqCtx}

/-- The context in the slot, if it owns a handle, is the registered one. -/
theorem registered_of_owner (h : KeepsRun s i World.init es w) (hr : w.reqs[i]? = some r)
    (hslot : r.slot = some c) (hx : r.ctxs[c]? = some x) (hq : x.req = some q) :
    r.Registered s c x := by
  rcases clear_or_registered h hr with hclear | ⟨c', x', hreg⟩
  · obtain ⟨y, hy, -, hnone⟩ := hclear.slot c hslot
    obtain rfl : x = y := Option.some.inj (hx.symm.trans hy)
    rw [hq] at hnone
    cases hnone
  · obtain rfl : c' = c := by
      rcases hreg.slot with hnone | hsome
      · rw [hslot] at hnone
        cases hnone
      · exact Option.some.inj (hsome.symm.trans hslot)
    obtain rfl : x' = x := Option.some.inj (hreg.ctx.symm.trans hx)
    exact hreg

/-- For the context that `rn_rate_cb` reads from the slot, with the handle it owns : whatever
answer is delivered for that handle, and whatever happens until the request is cleaned up,
the handler returns the right decision for the check the client holds under the handle. A
callback with another handle changes nothing. -/
theorem admission_decision (h : KeepsRun s i World.init es w) (hr : w.reqs[i]? = some r)
    (hslot : r.slot = some c) (hx : r.ctxs[c]? = some x) (hq : x.req = some q) :
    (∃ cl ∈ w.proc.client, ∃ cr ∈ cl.requests[q]?, cr.user = i ∧
      ∀ e status result, e.Delivers i c q status result → e.Enabled s w →
        ∀ es' w', KeepsRun s i (w.next s e) es' w' → ∃ r' x', w'.reqs[i]? = some r' ∧
          r'.ctxs[c]? = some x' ∧ x'.done = true ∧
          (r'.lcf.admission = true ∨ r'.lcf.reportEnabled = true → ∀ env : HandlerEnv,
            Verdict.Right s.conf.main cr.check status result
              (ngxHttpRnHandler s env i ⟨w'.proc, r'⟩).2 x'.admissionOutcome)) ∧
    ∀ q' ≠ q, ∀ status result,
      rnRateCb s.conf.main q' status result ⟨w.proc, r⟩ = (⟨w.proc, r⟩, false) := by
  have hreg := registered_of_owner h hr hslot hx hq
  obtain ⟨cl, hcl, cr, hcr, huser, hguards, hresources⟩ :=
    sent_of_run h r hr x (List.mem_of_getElem? hx) q hq
  refine ⟨⟨cl, hcl, cr, hcr, huser, fun e status result hdelivers hen es' w' h' => ?_⟩, ?_⟩
  · obtain ⟨hmine, hkeeps⟩ := hdelivers.keeps
    have hstep : KeepsRun s i w ([] ++ [e]) (w.next s e) := .snoc .nil ⟨hen, hkeeps⟩
    obtain ⟨r₁, hr₁, x₁, hreg₁, -⟩ := registered_kept hstep hr hreg
    -- the event leaves the verdict in the context
    have hverdict := hdelivers.verdict hreg hslot hq (p := w.proc) (by simp [Option.mem_def.mp hcl])
    have hnext := next_request (s := s) hr e
    rw [if_pos hmine, hr₁] at hnext
    rw [← Option.some.inj hnext, hreg₁.ctx] at hverdict
    obtain ⟨r', hr', x', hreg', hsame, -⟩ := registered_kept h' hr₁ hreg₁
    have hdone : x₁.done = true := by
      rw [Option.some.inj hverdict]
      obtain ⟨d, o, k, -, heq⟩ := rnVerdict_eq s.conf.main status result
        (ReqCtx.tornDown { x with timeoutCompleted := false })
      rw [heq]
    have hsame := hsame hdone
    have hdone' : x'.done = true := hsame.done.trans hdone
    refine ⟨r', x', hr', hreg'.ctx, hdone', fun hactive env => ?_⟩
    have hidle : x'.waiting = false := by
      rcases hreg'.settled with ⟨-, hidle, -⟩ | ⟨hundone, -⟩
      · exact hidle
      · rw [hdone'] at hundone
        cases hundone
    rw [(hreg'.handler env i w'.proc).2 hactive, hidle, hsame.outcome]
    simp only [Bool.false_eq_true, if_false]
    rw [hsame.decision, Option.some.inj hverdict]
    exact rnVerdict_right (x := ReqCtx.tornDown { x with timeoutCompleted := false }) hguards
      hresources status result
  · intro q' hne status result
    refine rnRateCb_stray s.conf.main status result fun y hy => ?_
    obtain rfl : x = y := by
      have hctx : r.ctx = some x := by simp [Request.ctx, hslot, hx]
      exact Option.some.inj (hctx.symm.trans hy)
    rw [hq]
    simpa using Ne.symm hne

/-- A request that waits for its answer. -/
def waitingEvents : List Event :=
  [.accept true protectedLoc 0, .handler 0 sampleHandlerEnv]

/-- The process with that request. -/
def waitingWorld : World :=
  waitingEvents.foldl (World.next sampleSetup) World.init

theorem sample_decision :
    ∃ cl ∈ waitingWorld.proc.client, ∃ cr ∈ cl.requests[0]?, ∃ w',
      w' = waitingWorld.next sampleSetup (.complete 0 0 .ok (some ⟨true, [true], [0]⟩)) ∧
      ∃ r' ∈ w'.reqs[0]?, ∃ x' ∈ r'.ctxs[0]?,
        Verdict.Right sampleSetup.conf.main cr.check .ok (some ⟨true, [true], [0]⟩)
          (ngxHttpRnHandler sampleSetup sampleHandlerEnv 0 ⟨w'.proc, r'⟩).2
          x'.admissionOutcome := by
  have hrun : KeepsRun sampleSetup 0 World.init waitingEvents waitingWorld :=
    Run.of_admits (by decide +kernel)
  have hstate : ∃ r ∈ waitingWorld.reqs[0]?, r.slot = some 0 ∧
      ∃ x ∈ r.ctxs[0]?, x.req = some 0 := by decide +kernel
  obtain ⟨r, hr, hslot, x, hx, hq⟩ := hstate
  obtain ⟨⟨cl, hcl, cr, hcr, -, hright⟩, -⟩ := admission_decision hrun hr hslot hx hq
  obtain ⟨r', x', hr', hx', -, hverdict⟩ := hright (.complete 0 0 .ok (some ⟨true, [true], [0]⟩))
    .ok _ (.complete _ _) (by decide +kernel) [] _ .nil
  have hactive : ∀ r' ∈ (waitingWorld.next sampleSetup
      (.complete 0 0 .ok (some ⟨true, [true], [0]⟩))).reqs[0]?, r'.lcf.admission = true := by
    decide +kernel
  exact ⟨cl, hcl, cr, hcr, _, rfl, r', hr', x', hx',
    hverdict (.inl (hactive r' hr')) sampleHandlerEnv⟩

end Decision

end RlNginx
