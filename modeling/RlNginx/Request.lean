import RlNginx.Worker

/-!
# Requests and their admission contexts

`ReqCtx` is `rn_req_ctx_t`. A request may allocate several over its life, all from its
pool, so a request keeps the list of them; the module-context slot and the cleanup chain
hold indices into it.

The functions that move ownership work on `Live` : the process, the reference count of
the request, and the one context at hand. The entry points (`ngxHttpRnHandler`,
`rnRateCb`, `rnRequestTimeoutHandler`, `rnRequestCleanup`, `ngxHttpRnLogHandler`) take
that context from the request and write it back.

`origin`, `ngxRefs`, `startCalls` and `reports` are not in the code : they record the
location a context was made in, the references nginx itself holds, and the calls of
`r_client_check_rate_limit_async_borrowed` and `r_client_report_latency`.
-/

namespace RlNginx

/-- `rn_admission_outcome_t`. -/
inductive AdmissionOutcome where
  | none
  | waiting
  | validAllow
  | validDeny
  | failOpen
  | failClose
  | internalError
  | aborted
  deriving DecidableEq, Repr

/-- `rn_completion_cause_t`. -/
inductive CompletionCause where
  | none
  | validVerdict
  | startFailure
  | dependencyError
  | timeout
  | cardinalityMismatch
  | nginxError
  | clientAbort
  deriving DecidableEq, Repr

/-- The C client's status codes. -/
inductive RClient where
  | ok
  | errIo
  | errTimeout
  | errProtocol
  | errAuth
  | errDns
  | errConfig
  | errNomem
  deriving DecidableEq, Repr

/-- `r_rate_limit_result_t` : `passed` of each guard, `tokens_deficit` of each resource. -/
structure RateLimitResult where
  success : Bool
  guards : List Bool
  resources : List ℕ
  deriving DecidableEq, Repr

/-- `rn_req_ctx_t`. `r` and `worker` say that the pointer is set, `timer` is the delay the
timer is armed with, and `timeoutCompleted` that the observer is set. -/
structure ReqCtx where
  r : Bool
  worker : Bool
  req : Option ℕ
  latReport : TrackerValues
  expectedGuardCount : ℕ
  expectedResourceCount : ℕ
  timer : Option ℕ
  timeoutCompleted : Bool
  decision : NgxRc
  admissionOutcome : AdmissionOutcome
  completionCause : CompletionCause
  waiting : Bool
  done : Bool
  nginxCounted : Bool
  inflightCounted : Bool
  latReportEnabled : Bool
  latReportSent : Bool
  origin : LocConf
  deriving DecidableEq, Repr

/-- An entry of `r->cleanup` : this module's, for a context, or another's. -/
inductive Cleanup where
  | rn (c : ℕ)
  | other
  deriving DecidableEq, Repr

/-- The state of the connection that the log handler looks at. -/
structure Connection where
  timedout : Bool
  error : Bool
  destroyed : Bool
  deriving DecidableEq, Repr

/-- `ngx_http_request_t`, as far as the module uses it. `cleanup` is the chain from its
head, `count` is `r->main->count`. -/
structure Request where
  main : Bool
  lcf : LocConf
  slot : Option ℕ
  cleanup : List Cleanup
  ctxs : List ReqCtx
  count : ℕ
  ngxRefs : ℕ
  connection : Connection
  startMs : ℕ
  released : Bool
  startCalls : List RateCheck
  reports : List (TrackerValues × ℕ)
  deriving DecidableEq, Repr

/-- A request nginx has read, in the location `lcf`. -/
def Request.new (main : Bool) (lcf : LocConf) (startMs : ℕ) : Request where
  main := main
  lcf := lcf
  slot := none
  cleanup := []
  ctxs := []
  count := 1
  ngxRefs := 1
  connection := ⟨false, false, false⟩
  startMs := startMs
  released := false
  startCalls := []
  reports := []

/-! ## Finding the context -/

/-- The loop of `rn_get_request_ctx` over the cleanup chain. -/
def findCleanup (ctxs : List ReqCtx) : List Cleanup → Option ℕ
  | [] => none
  | .other :: chain => findCleanup ctxs chain
  | .rn c :: chain =>
    match ctxs[c]? with
    | some ctx => if ctx.r then some c else findCleanup ctxs chain
    | none => findCleanup ctxs chain

/-- `rn_get_request_ctx` : the slot, or else the cleanup chain, which refills the slot. -/
def rnGetRequestCtx (r : Request) : Request :=
  match r.slot with
  | some _ => r
  | none => { r with slot := findCleanup r.ctxs r.cleanup }

/-- Only the slot changes. -/
theorem rnGetRequestCtx_eq (r : Request) : ∃ slot, rnGetRequestCtx r = { r with slot } := by
  unfold rnGetRequestCtx
  split
  · exact ⟨r.slot, rfl⟩
  · exact ⟨_, rfl⟩

theorem rnGetRequestCtx_main (r : Request) : (rnGetRequestCtx r).main = r.main := by
  obtain ⟨slot, hget⟩ := rnGetRequestCtx_eq r
  rw [hget]

theorem rnGetRequestCtx_lcf (r : Request) : (rnGetRequestCtx r).lcf = r.lcf := by
  obtain ⟨slot, hget⟩ := rnGetRequestCtx_eq r
  rw [hget]

theorem rnGetRequestCtx_cleanup (r : Request) : (rnGetRequestCtx r).cleanup = r.cleanup := by
  obtain ⟨slot, hget⟩ := rnGetRequestCtx_eq r
  rw [hget]

theorem rnGetRequestCtx_ctxs (r : Request) : (rnGetRequestCtx r).ctxs = r.ctxs := by
  obtain ⟨slot, hget⟩ := rnGetRequestCtx_eq r
  rw [hget]

theorem rnGetRequestCtx_released (r : Request) : (rnGetRequestCtx r).released = r.released := by
  obtain ⟨slot, hget⟩ := rnGetRequestCtx_eq r
  rw [hget]

theorem rnGetRequestCtx_startCalls (r : Request) :
    (rnGetRequestCtx r).startCalls = r.startCalls := by
  obtain ⟨slot, hget⟩ := rnGetRequestCtx_eq r
  rw [hget]

/-- The context in the slot. -/
def Request.ctx (r : Request) : Option ReqCtx :=
  r.slot.bind fun c => r.ctxs[c]?

/-- What a variable evaluates to. -/
inductive Verdict where
  | allow
  | deny
  | notFound
  deriving DecidableEq, Repr

/-- The verdict of an outcome. -/
def AdmissionOutcome.verdict : AdmissionOutcome → Verdict
  | .validAllow => .allow
  | .validDeny => .deny
  | _ => .notFound

/-- `ngx_http_rn_verdict_variable`. -/
def ngxHttpRnVerdictVariable (r : Request) : Request × Verdict :=
  let r := rnGetRequestCtx r
  match r.ctx with
  | none => (r, .notFound)
  | some ctx => (r, ctx.admissionOutcome.verdict)

/-! ## Ending an admission -/

/-- The return code of the fail policy. -/
def failRc (mcf : MainConf) : NgxRc :=
  if mcf.failOpen then .ok else .tooManyRequests

/-- The outcome of the fail policy. -/
def failOutcome (mcf : MainConf) : AdmissionOutcome :=
  if mcf.failOpen then .failOpen else .failClose

/-- `rn_finish_preflight_failure`. -/
def rnFinishPreflightFailure (mcf : MainConf) (cause : CompletionCause) (ctx : ReqCtx) : ReqCtx :=
  { ctx with
    decision := failRc mcf
    admissionOutcome := failOutcome mcf
    completionCause := cause
    done := true }

/-- `rn_finish_internal_error`. -/
def rnFinishInternalError (ctx : ReqCtx) : ReqCtx :=
  { ctx with
    decision := .internalServerError
    admissionOutcome := .internalError
    completionCause := .nginxError
    done := true }

/-- What the handler does at each of its exits between the report and the start. -/
def rnFinishStop (mcf : MainConf) (ctx : ReqCtx) : Stop → ReqCtx
  | .noRules | .emptyRuleExpansion =>
    { ctx with admissionOutcome := .none, decision := .declined, done := true }
  | .resourcesAlloc | .guardsAlloc => rnFinishInternalError ctx
  | .guardBuild e | .zoneBuild e =>
    if e.rc = .internalServerError then rnFinishInternalError ctx
    else rnFinishPreflightFailure mcf .dependencyError ctx
  | .unknownGroup | .unknownGuard | .unknownZone | .labelRender | .labelTooLong =>
    rnFinishPreflightFailure mcf .dependencyError ctx

/-! ## Ownership -/

/-- What the ownership functions work on. -/
structure Live where
  proc : Proc
  count : ℕ
  ctx : ReqCtx
  deriving DecidableEq, Repr

/-- `if (worker->inflight > 0) worker->inflight--`. -/
def Worker.landed (w : Worker) : Worker :=
  { w with inflight := w.inflight - 1 }

/-- The cancellation in `rn_request_teardown`. -/
def Live.cancelRequest (l : Live) : Proc :=
  match l.ctx.req with
  | some q => if l.ctx.worker then l.proc.mapClient (·.retire q .cancelled) else l.proc
  | none => l.proc

/-- What `rn_request_teardown` does to the worker : the count in flight, then the rebind. -/
def ReqCtx.landWorker (ctx : ReqCtx) (p : Proc) : Proc :=
  if ctx.worker then
    (if ctx.inflightCounted then p.mapWorker Worker.landed else p).mapWorker rnScheduleRebind
  else p

/-- What `rn_request_teardown` does to the context. -/
def ReqCtx.tornDown (ctx : ReqCtx) : ReqCtx :=
  { ctx with
    timer := none
    req := none
    inflightCounted := false
    nginxCounted := false
    waiting := false }

/-- `rn_request_teardown`. -/
def rnRequestTeardown (completed : Option ℕ) (cancel : Bool) (l : Live) : Live :=
  if !cancel && l.ctx.req != completed then l
  else
    { proc := l.ctx.landWorker (if cancel then l.cancelRequest else l.proc)
      count := if l.ctx.nginxCounted && l.ctx.r then l.count - 1 else l.count
      ctx := l.ctx.tornDown }

/-- The outcome of a context whose request goes away while it waits. -/
def ReqCtx.abort (ctx : ReqCtx) : ReqCtx :=
  if ctx.admissionOutcome = .waiting then
    { ctx with admissionOutcome := .aborted, completionCause := .clientAbort }
  else ctx

/-- A change to the context at hand. -/
def Live.mapCtx (l : Live) (f : ReqCtx → ReqCtx) : Live :=
  { l with ctx := f l.ctx }

@[simp] theorem Live.mapCtx_proc (l : Live) (f : ReqCtx → ReqCtx) : (l.mapCtx f).proc = l.proc :=
  rfl

@[simp] theorem Live.mapCtx_count (l : Live) (f : ReqCtx → ReqCtx) :
    (l.mapCtx f).count = l.count :=
  rfl

@[simp] theorem Live.mapCtx_ctx (l : Live) (f : ReqCtx → ReqCtx) : (l.mapCtx f).ctx = f l.ctx :=
  rfl

/-- `rn_request_cleanup`. -/
def rnRequestCleanup (l : Live) : Live :=
  (rnRequestTeardown none true (l.mapCtx ReqCtx.abort)).mapCtx ({ · with r := false })

/-- The loops of `rn_rate_cb` over the results. -/
def allowResult (result : RateLimitResult) : Bool :=
  result.success && result.guards.all id && result.resources.all (· == 0)

/-- The verdict part of `rn_rate_cb`. -/
def rnVerdict (mcf : MainConf) (status : RClient) (result : Option RateLimitResult)
    (ctx : ReqCtx) : ReqCtx :=
  let ctx := match status, result with
    | .ok, some result =>
      if result.guards.length ≠ ctx.expectedGuardCount ∨
          result.resources.length ≠ ctx.expectedResourceCount then
        { ctx with
          decision := failRc mcf
          admissionOutcome := failOutcome mcf
          completionCause := .cardinalityMismatch }
      else
        { ctx with
          decision := if allowResult result then .ok else .tooManyRequests
          admissionOutcome := if allowResult result then .validAllow else .validDeny
          completionCause := .validVerdict }
    | _, _ =>
      { ctx with
        decision := failRc mcf
        admissionOutcome := failOutcome mcf
        completionCause := if status = RClient.errTimeout then .timeout else .dependencyError }
  { ctx with done := true, waiting := false }

/-- `rn_rate_cb` on the context of the slot, once that owns the handle. -/
def rnRateCbOwned (mcf : MainConf) (q : ℕ) (status : RClient) (result : Option RateLimitResult)
    (l : Live) : Live :=
  (rnRequestTeardown (some q) false
    (l.mapCtx ({ · with timeoutCompleted := false }))).mapCtx (rnVerdict mcf status result)

/-! ## The request handler -/

/-- What one run of the handler meets : allocations, worker initialization, rendered
values, the C client, and the read event of the connection. -/
structure HandlerEnv where
  allocCtx : Bool
  cleanupAdd : Bool
  init : InitEnv
  values : ReqEnv
  /-- `r_client_check_rate_limit_async_borrowed` returns `RCLIENT_OK`. -/
  start : Bool
  /-- `r_client_request_deadline_ms`, when it succeeds. -/
  deadlineMs : Option ℕ
  nowMs : ℕ
  readReady : Bool
  /-- `ngx_handle_read_event` returns `NGX_OK`. -/
  readEvent : Bool

/-- The module's configuration in a worker process. `bind` is the family of the bind
address. -/
structure Setup where
  conf : Config
  bind : Option AddressFamily
  deriving DecidableEq, Repr

/-- The context a run of the handler allocates. -/
def ReqCtx.new (mcf : MainConf) (lcf : LocConf) : ReqCtx where
  r := true
  worker := false
  req := none
  latReport := ⟨[], 0, 0, 0⟩
  expectedGuardCount := 0
  expectedResourceCount := 0
  timer := none
  timeoutCompleted := false
  decision := .declined
  admissionOutcome := if lcf.admission then failOutcome mcf else .none
  completionCause := .none
  waiting := false
  done := false
  nginxCounted := false
  inflightCounted := false
  latReportEnabled := false
  latReportSent := false
  origin := lcf

/-- The delay of a timer for a deadline. -/
def timerDelay (deadlineMs nowMs : ℕ) : ℕ :=
  if deadlineMs > nowMs then deadlineMs - nowMs else 0

/-- What a run of the handler leaves : the process, the count, the context, the return code,
and the rate check it asked the C client for. -/
structure Admitted where
  live : Live
  rc : NgxRc
  call : Option RateCheck

/-- No worker, or a worker without a client. -/
def rnNoWorker (mcf : MainConf) (lcf : LocConf) (ctx : ReqCtx) : ReqCtx :=
  { ctx with
    done := true
    completionCause := .dependencyError
    decision := if lcf.admission then failRc mcf else .declined }

/-- `rn_build_latency_report` into the context. -/
def rnAttachReport (mcf : MainConf) (lcf : LocConf) (env : ReqEnv) (ctx : ReqCtx) : ReqCtx :=
  if lcf.reportEnabled then
    match rnFindTracker mcf lcf.reportTrackerName with
    | none => ctx
    | some tracker =>
      match rnBuildLatencyReport env tracker.val with
      | .error _ => ctx
      | .ok report => { ctx with latReport := report, latReportEnabled := true }
  else ctx

/-- The handler after `r_client_check_rate_limit_async_borrowed` returned `RCLIENT_OK` with
the handle `q` : publish ownership. -/
def rnPublish (env : HandlerEnv) (q : ℕ) (l : Live) : Live where
  proc := l.proc.mapWorker fun w => { w with inflight := w.inflight + 1 }
  count := l.count + 1
  ctx := { l.ctx with
    req := some q
    inflightCounted := true
    timer := env.deadlineMs.map (timerDelay · env.nowMs)
    waiting := true
    admissionOutcome := .waiting
    nginxCounted := true }

/-- The start section of the handler. -/
def rnStart (mcf : MainConf) (env : HandlerEnv) (i : ℕ) (client : Client) (check : RateCheck)
    (l : Live) : Admitted :=
  let l := l.mapCtx ({ · with
    expectedGuardCount := check.guards.length
    expectedResourceCount := check.resources.length })
  if !env.start then
    let l := l.mapCtx (rnFinishPreflightFailure mcf .startFailure)
    ⟨l, l.ctx.decision, some check⟩
  else
    let l := rnPublish env client.requests.length
      { l with proc := l.proc.mapClient (·.start i check) }
    if env.readReady || env.readEvent then ⟨l, .again, some check⟩
    else
      ⟨(rnRequestTeardown none true l).mapCtx rnFinishInternalError, .internalServerError,
        some check⟩

/-- The handler with a client at hand : report, rules, start. -/
def rnCheck (mcf : MainConf) (lcf : LocConf) (env : HandlerEnv) (i : ℕ) (client : Client)
    (l : Live) : Admitted :=
  let l := l.mapCtx fun ctx => rnAttachReport mcf lcf env.values { ctx with worker := true }
  if !lcf.admission then ⟨l.mapCtx ({ · with done := true }), .declined, none⟩
  else
    match rnPreflight mcf lcf env.values with
    | .error stop =>
      let l := l.mapCtx (rnFinishStop mcf · stop)
      ⟨l, l.ctx.decision, none⟩
    | .ok check => rnStart mcf env i client check l

/-- `mcf->worker == NULL && rn_worker_ensure(mcf) != NGX_OK`, negated. -/
def rnEnsured (s : Setup) (env : InitEnv) (p : Proc) : Proc × Bool :=
  if p.worker.isNone then rnWorkerEnsure s.conf.main s.bind env p else (p, true)

/-- The handler once its context is registered. -/
def rnAdmit (s : Setup) (lcf : LocConf) (env : HandlerEnv) (i : ℕ) (l : Live) : Admitted :=
  match rnEnsured s env.init l.proc with
  | (proc, true) =>
    match proc.client with
    | some client => rnCheck s.conf.main lcf env i client { l with proc }
    | none =>
      let l := l.mapCtx (rnNoWorker s.conf.main lcf)
      ⟨{ l with proc }, l.ctx.decision, none⟩
  | (proc, false) =>
    let l := l.mapCtx (rnNoWorker s.conf.main lcf)
    ⟨{ l with proc }, l.ctx.decision, none⟩

/-- The process and one request. -/
structure Frame where
  proc : Proc
  req : Request
  deriving DecidableEq, Repr

/-- The handler from the allocation of a context on. -/
def rnAdmission (s : Setup) (env : HandlerEnv) (i : ℕ) (f : Frame) : Frame × NgxRc :=
  let r := f.req
  let ctx := ReqCtx.new s.conf.main r.lcf
  let c := r.ctxs.length
  if !env.allocCtx then (f, .internalServerError)
  else if !env.cleanupAdd then
    let ctx := { ctx with
      admissionOutcome := .internalError
      completionCause := .nginxError
      done := true }
    ({ f with req := { r with slot := some c, ctxs := r.ctxs ++ [ctx] } }, .internalServerError)
  else
    let a := rnAdmit s r.lcf env i ⟨f.proc, r.count, ctx⟩
    ({ proc := a.live.proc
       req := { r with
         slot := some c
         cleanup := .rn c :: r.cleanup
         ctxs := r.ctxs ++ [a.live.ctx]
         count := a.live.count
         startCalls := r.startCalls ++ a.call.toList } }, a.rc)

/-- `ngx_http_rn_handler` for request `i`. -/
def ngxHttpRnHandler (s : Setup) (env : HandlerEnv) (i : ℕ) (f : Frame) : Frame × NgxRc :=
  if !f.req.main then (f, .declined)
  else
    let f := { f with req := rnGetRequestCtx f.req }
    if !f.req.lcf.admission && !f.req.lcf.reportEnabled then (f, .declined)
    else if !s.conf.main.enabled then (f, .declined)
    else
      match f.req.ctx with
      | none => rnAdmission s env i f
      | some ctx =>
        if ctx.done then (f, ctx.decision)
        else if ctx.waiting then (f, .again)
        else rnAdmission s env i f

/-! ## Callbacks, timers and cleanup -/

/-- Write a context back. -/
def Frame.store (f : Frame) (c : ℕ) (l : Live) : Frame where
  proc := l.proc
  req := { f.req with count := l.count, ctxs := f.req.ctxs.set c l.ctx }

/-- A change to context `c`. -/
def Frame.modifyCtx (f : Frame) (c : ℕ) (g : ReqCtx → ReqCtx) : Frame :=
  { f with req := { f.req with ctxs := f.req.ctxs.modify c g } }

/-- `rn_rate_cb` for the request, and whether it notified an observer. -/
def rnRateCb (mcf : MainConf) (q : ℕ) (status : RClient) (result : Option RateLimitResult)
    (f : Frame) : Frame × Bool :=
  match f.req.slot with
  | none => (f, false)
  | some c =>
    match f.req.ctxs[c]? with
    | none => (f, false)
    | some ctx =>
      if !ctx.worker || ctx.req != some q then (f, false)
      else
        (f.store c (rnRateCbOwned mcf q status result ⟨f.proc, f.req.count, ctx⟩),
          ctx.timeoutCompleted)

/-- What `r_client_on_timeout` does : complete the request through its callback, go on to a
later round, or fail. -/
inductive OnTimeout where
  | completed (status : RClient) (result : Option RateLimitResult)
  | advanced
  | failed (status : RClient)
  deriving DecidableEq, Repr

/-- What one timer event meets. The deadlines are those of `r_client_request_deadline_ms`
before and after `r_client_on_timeout`. -/
structure TimeoutEnv where
  nowMs : ℕ
  deadlineMs : Option ℕ
  onTimeout : OnTimeout
  nowMs' : ℕ
  deadlineMs' : Option ℕ
  deriving DecidableEq, Repr

/-- `rn_rate_cb` as the timeout handler calls it, on `ctx->r`. -/
def rnRateCbOf (mcf : MainConf) (ctx : ReqCtx) (q : ℕ) (status : RClient)
    (result : Option RateLimitResult) (f : Frame) : Frame × Bool :=
  if ctx.r then rnRateCb mcf q status result f else (f, false)

/-- `r_client_cancel_request`, then `rn_rate_cb` with the error. -/
def rnCancelAndFail (mcf : MainConf) (q : ℕ) (ctx : ReqCtx) (status : RClient) (f : Frame) :
    Frame :=
  (rnRateCbOf mcf ctx q status none
    { f with proc := f.proc.mapClient (·.retire q .cancelled) }).1

/-- The end of `rn_request_timeout_handler`, when the callback has not run : cancel and
fail, or rearm. -/
def rnAfterTimeout (mcf : MainConf) (env : TimeoutEnv) (c q : ℕ) (ctx : ReqCtx) (status : RClient)
    (f : Frame) : Frame :=
  let f := f.modifyCtx c ({ · with timeoutCompleted := false })
  if status ≠ .ok then rnCancelAndFail mcf q ctx status f
  else
    match env.deadlineMs' with
    | none => rnCancelAndFail mcf q ctx .errConfig f
    | some deadline =>
      f.modifyCtx c ({ · with timer := some (timerDelay deadline env.nowMs') })

/-- The call of `r_client_on_timeout` and what follows it. -/
def rnOnTimeout (mcf : MainConf) (env : TimeoutEnv) (c q : ℕ) (ctx : ReqCtx) (f : Frame) : Frame :=
  let f := f.modifyCtx c ({ · with timeoutCompleted := true })
  match env.onTimeout with
  | .completed status result =>
    let (f, notified) := rnRateCb mcf q status result
      { f with proc := f.proc.mapClient (·.retire q .completed) }
    if notified then f else rnAfterTimeout mcf env c q ctx .ok f
  | .advanced => rnAfterTimeout mcf env c q ctx .ok f
  | .failed status => rnAfterTimeout mcf env c q ctx status f

/-- `rn_request_timeout_handler` for context `c`, whose timer has fired. -/
def rnRequestTimeoutHandler (mcf : MainConf) (env : TimeoutEnv) (c : ℕ) (f : Frame) : Frame :=
  match f.req.ctxs[c]? with
  | none => f
  | some ctx =>
    let f := f.modifyCtx c ({ · with timer := none })
    match ctx.req with
    | none => f
    | some q =>
      if !ctx.worker || f.proc.client.isNone then f
      else if env.deadlineMs.any (· > env.nowMs) then
        f.modifyCtx c ({ · with timer := env.deadlineMs.map (· - env.nowMs) })
      else rnOnTimeout mcf env c q ctx f

/-- `rn_request_cleanup` of context `c`. -/
def Frame.cleanup (f : Frame) (c : ℕ) : Frame :=
  match f.req.ctxs[c]? with
  | none => f
  | some ctx => f.store c (rnRequestCleanup ⟨f.proc, f.req.count, ctx⟩)

/-- nginx detaches the cleanup chain and runs its handlers from the head. -/
def Frame.runCleanup (f : Frame) : List Cleanup → Frame
  | [] => f
  | .other :: chain => f.runCleanup chain
  | .rn c :: chain => (f.cleanup c).runCleanup chain

/-- nginx releases a request : it runs the cleanup handlers, and goes on to the log phase. -/
def Frame.release (f : Frame) : Frame :=
  let f := f.runCleanup f.req.cleanup
  { f with req := { f.req with cleanup := [], released := true } }

/-! ## The log phase -/

/-- `observed` of `ngx_http_rn_log_handler`. -/
def observedLatency (startMs endMs : ℕ) : ℕ :=
  min (max (endMs - startMs) 1) uint32Max

/-- `ngx_http_rn_log_handler` on the context of the slot, and whether it calls
`r_client_report_latency`. `client` says that the worker has one. -/
def ReqCtx.log (connection : Connection) (client : Bool) (ctx : ReqCtx) : ReqCtx × Bool :=
  if !ctx.latReportEnabled || ctx.latReportSent then (ctx, false)
  else if connection.timedout || connection.error || connection.destroyed then
    ({ ctx with
      admissionOutcome := .aborted
      completionCause := .clientAbort
      latReportSent := true }, false)
  else if ctx.admissionOutcome ≠ .none ∧ ctx.admissionOutcome ≠ .validAllow ∧
      ctx.admissionOutcome ≠ .failOpen then
    ({ ctx with latReportSent := true }, false)
  else if !ctx.worker || !client then ({ ctx with latReportSent := true }, false)
  else ({ ctx with latReportSent := true }, true)

/-- The request after the log handler saw its context. -/
def Request.logged (r : Request) (c : ℕ) (ctx : ReqCtx) (client : Bool) (endMs : ℕ) : Request :=
  { r with
    ctxs := r.ctxs.set c (ctx.log r.connection client).1
    reports := r.reports ++ if (ctx.log r.connection client).2 then
      [(ctx.latReport, observedLatency r.startMs endMs)] else [] }

/-- `ngx_http_rn_log_handler`. -/
def ngxHttpRnLogHandler (endMs : ℕ) (f : Frame) : Frame :=
  if !f.req.main then f
  else
    match f.req.slot with
    | none => f
    | some c =>
      match f.req.ctxs[c]? with
      | none => f
      | some ctx => { f with req := f.req.logged c ctx f.proc.client.isSome endMs }

end RlNginx
