import RlNginx.Lib.Simulation
import RlNginx.Decision

/-!
# The gate of a request

What a request is to get from the module, said without contexts, slots, cleanup chains or
timers : a `Gate` is fresh, waits for the answer to the one check it asked for, or is settled
with an outcome that it repeats from then on. `Gate.Step` lists what may be seen of it : runs
of the handler with their return code and the call of the C client they made, answers,
redirects, and readings of `$ratelimitly_verdict`. A gate may also be stranded : the handler
could not register its cleanup handler, returned an error, and declines in later runs until
a redirect clears the slot.

`Event.label` is what shows of an event of a request in the process. `Request.Stands` relates
requests to phases, and `gate_refines` says that whatever happens to all requests of the
process, and in whatever order, what is seen of one of them is a trace of its gate.
-/

open Transition Relation

namespace RlNginx

/-! ## The specification -/

/-- The phases of a gate. -/
inductive Gate where
  | fresh
  | stranded
  | asked (check : RateCheck)
  | settled (outcome : AdmissionOutcome)

/-- What may be seen of a request. -/
inductive Label where
  /-- A run of the handler, in a location where the module is active or not : what it returns,
  and the check it asks the C client for. -/
  | handled (active : Bool) (rc : NgxRc) (call : Option RateCheck)
  /-- An answer reaches the context that waits for it. -/
  | answered (status : RClient) (result : Option RateLimitResult)
  | redirected
  /-- `$ratelimitly_verdict` is read. -/
  | verdict (value : Verdict)

/-- What the variable says in a phase. -/
def Gate.verdict : Gate → Verdict
  | .settled outcome => outcome.verdict
  | .fresh | .stranded | .asked _ => .notFound

/-- The outcomes that need no answer. -/
def AdmissionOutcome.Unanswered (mcf : MainConf) : AdmissionOutcome → Prop
  | .none | .internalError => True
  | .failOpen => mcf.failOpen = true
  | .failClose => mcf.failOpen = false
  | .waiting | .validAllow | .validDeny | .aborted => False

/-- What may be seen of a gate in each phase, and the phase after it. -/
inductive Gate.Step (mcf : MainConf) : Gate → Label → Gate → Prop where
  | bypass (g : Gate) : Step mcf g (.handled false .declined none) g
  | noMemory : Step mcf .fresh (.handled true .internalServerError none) .fresh
  | strand : Step mcf .fresh (.handled true .internalServerError none) .stranded
  | pass : Step mcf .stranded (.handled true .declined none) .stranded
  | ask (check : RateCheck) : Step mcf .fresh (.handled true .again (some check)) (.asked check)
  | settle {outcome : AdmissionOutcome} {rc : NgxRc} (call : Option RateCheck) :
      outcome.decision = some rc → outcome.Unanswered mcf →
      (outcome = .none → call = none) → Step mcf .fresh (.handled true rc call) (.settled outcome)
  | wait (check : RateCheck) :
      Step mcf (.asked check) (.handled true .again none) (.asked check)
  | answer {check : RateCheck} {status : RClient} {result : Option RateLimitResult} {rc : NgxRc}
      {outcome : AdmissionOutcome} : outcome.decision = some rc →
      Verdict.Right mcf check status result rc outcome →
      Step mcf (.asked check) (.answered status result) (.settled outcome)
  | replay {outcome : AdmissionOutcome} {rc : NgxRc} : outcome.decision = some rc →
      Step mcf (.settled outcome) (.handled true rc none) (.settled outcome)
  | recover : Step mcf .stranded .redirected .fresh
  | redirect {g : Gate} : g ≠ .stranded → Step mcf g .redirected g
  | read (g : Gate) : Step mcf g (.verdict g.verdict) g

/-! ## What shows of an event -/

/-- The module is active for the request where it stands. -/
def Request.Active (s : Setup) (r : Request) : Prop :=
  r.main = true ∧ (r.lcf.admission = true ∨ r.lcf.reportEnabled = true) ∧
    s.conf.main.enabled = true

instance (s : Setup) (r : Request) : Decidable (r.Active s) :=
  inferInstanceAs (Decidable (_ ∧ _ ∧ _))

/-- The answer that the timeout handler brings : that of a client that completes the request,
or the error with which the handler cancels it. -/
def TimeoutEnv.answer (env : TimeoutEnv) : Option (RClient × Option RateLimitResult) :=
  if env.deadlineMs.any (· > env.nowMs) then none
  else
    match env.onTimeout with
    | .completed status result => some (status, result)
    | .advanced => if env.deadlineMs'.isNone then some (.errConfig, none) else none
    | .failed status =>
      if status ≠ .ok then some (status, none)
      else if env.deadlineMs'.isNone then some (.errConfig, none) else none

/-- The answer that an event brings to the context in the slot. -/
def Event.answer (f : Frame) : Event → Option (RClient × Option RateLimitResult)
  | .complete _ q status result | .stray _ q status result =>
    if f.req.ctx.any fun x => x.worker && x.req == some q then some (status, result) else none
  | .timeout _ c env =>
    if f.req.slot = some c ∧ (f.req.ctx.any fun x => x.worker && x.req.isSome) = true ∧
        f.proc.client.isSome = true then env.answer else none
  | _ => none

/-- What shows of an event of request `i`. -/
def Event.label (s : Setup) (i : ℕ) (f : Frame) : Event → Option Label
  | .handler _ env =>
    some (.handled (decide (f.req.Active s)) (ngxHttpRnHandler s env i f).2
      ((ngxHttpRnHandler s env i f).1.req.startCalls.drop f.req.startCalls.length).head?)
  | .redirect _ _ => some .redirected
  | .verdict _ => some (.verdict (ngxHttpRnVerdictVariable f.req).2)
  | e => (e.answer f).map fun answer => .answered answer.1 answer.2

/-- What shows of request `i` when the process takes an event. -/
def World.shows (s : Setup) (i : ℕ) (w : World) (e : Event) : Option Label :=
  if e.request = some i then (w.frame i).bind (e.label s i) else none

/-! ## The phase of a request -/

/-- No context is registered, and none has a handle. -/
structure Request.Bare (r : Request) : Prop where
  chain : ∀ c, .rn c ∉ r.cleanup
  handles : ∀ (c : ℕ), ∀ x ∈ r.ctxs[c]?, x.req = none
  calls : r.startCalls = []

/-- A context that could not be registered. -/
structure ReqCtx.Stranded (x : ReqCtx) : Prop where
  done : x.done = true
  outcome : x.admissionOutcome = .internalError
  decision : x.decision = .declined

/-- The context waits for the answer to `check`. -/
structure ReqCtx.Asks (x : ReqCtx) (check : RateCheck) : Prop where
  waiting : x.waiting = true
  done : x.done = false
  outcome : x.admissionOutcome = .waiting
  guards : check.guards.length = x.expectedGuardCount
  resources : check.resources.length = x.expectedResourceCount

/-- The context has an outcome, and returns the decision it stands for. -/
structure ReqCtx.Settled (x : ReqCtx) (o : AdmissionOutcome) : Prop where
  done : x.done = true
  outcome : x.admissionOutcome = o
  decision : o.decision = some x.decision

/-- The registered context is the only one that may have a handle. -/
structure Request.Sole (s : Setup) (r : Request) (c : ℕ) (x : ReqCtx) : Prop where
  registered : r.Registered s c x
  others : ∀ (c' : ℕ), ∀ y ∈ r.ctxs[c']?, y.req ≠ none → c' = c

/-- The phase of a request. -/
inductive Request.Stands (s : Setup) (r : Request) : Gate → Prop where
  | fresh : r.Bare → r.slot = none → Stands s r .fresh
  | stranded {c : ℕ} {x : ReqCtx} : r.Bare → r.slot = some c → r.ctxs[c]? = some x →
      x.Stranded → Stands s r .stranded
  | asked {c : ℕ} {x : ReqCtx} {check : RateCheck} : r.Sole s c x → x.Asks check →
      Stands s r (.asked check)
  | settled {c : ℕ} {x : ReqCtx} {outcome : AdmissionOutcome} : r.Sole s c x →
      x.Settled outcome → Stands s r (.settled outcome)

section Phase

variable {s : Setup} {r r' : Request} {g : Gate} {c : ℕ} {x : ReqCtx}

/-! ### Events that show nothing -/

theorem Request.Bare.clear (h : r.Bare) (hslot : r.slot = none) : r.Clear :=
  ⟨h.chain, by simp [hslot], h.calls⟩

theorem Request.Sole.move (h : r.Sole s c x) (hmove : r.Move s r') : ∃ x', r'.Sole s c x' := by
  obtain ⟨x', hreg, -⟩ := h.registered.move hmove
  refine ⟨x', hreg, ?_⟩
  cases hmove with
  | recover =>
    rw [rnGetRequestCtx_ctxs]
    exact h.others
  | redirect | chain | outside => exact h.others
  | @ctx k y y' count hy hmove =>
    intro c' z hz hreq
    simp only [Option.mem_def, List.getElem?_set] at hz
    split_ifs at hz with hk hlt
    · obtain rfl := Option.some.inj hz
      subst hk
      refine h.others k y hy ?_
      cases hmove with
      | timer => exact hreq
      | verdict q _ _ hq => simp [hq]
    · exact h.others c' z hz hreq

/-- Only the timer and the observer of one context change. -/
def ReqCtx.Timing (f : ReqCtx → ReqCtx) : Prop :=
  ∀ x, ∃ t b, f x = { x with timer := t, timeoutCompleted := b }

theorem TimerUpdate.timing {env : TimeoutEnv} {f : ReqCtx → ReqCtx} (h : TimerUpdate env f) :
    ReqCtx.Timing f := by
  cases h with
  | observer b => exact fun x => ⟨x.timer, b, rfl⟩
  | early => exact fun x => ⟨_, x.timeoutCompleted, rfl⟩
  | rearmed => exact fun x => ⟨_, x.timeoutCompleted, rfl⟩

/-- A change of timers keeps the phase. -/
theorem Request.Stands.timed (h : r.Stands s g) {f : ReqCtx → ReqCtx} (hf : ReqCtx.Timing f)
    (k : ℕ) : Request.Stands s { r with ctxs := r.ctxs.modify k f } g := by
  have hreq : ∀ x, (f x).req = x.req := fun x => by
    obtain ⟨t, b, heq⟩ := hf x
    rw [heq]
  have hmodify : ∀ c, (r.ctxs.modify k f)[c]? =
      r.ctxs[c]?.map fun x => if k = c then f x else x := fun c => List.getElem?_modify ..
  have hhandles : (∀ (c : ℕ), ∀ x ∈ r.ctxs[c]?, x.req = none) →
      ∀ (c : ℕ), ∀ x ∈ (r.ctxs.modify k f)[c]?, x.req = none := by
    intro hnone c x hx
    rw [Option.mem_def, hmodify, Option.map_eq_some_iff] at hx
    obtain ⟨y, hy, rfl⟩ := hx
    split_ifs
    · rw [hreq]
      exact hnone c y hy
    · exact hnone c y hy
  have hget : ∀ {c : ℕ} {x : ReqCtx}, r.ctxs[c]? = some x → ∃ t b, (r.ctxs.modify k f)[c]? =
      some { x with timer := t, timeoutCompleted := b } := by
    intro c x hx
    rw [hmodify, hx, Option.map_some]
    split_ifs
    · obtain ⟨t, b, heq⟩ := hf x
      exact ⟨t, b, by rw [heq]⟩
    · exact ⟨x.timer, x.timeoutCompleted, rfl⟩
  have hsole : ∀ {c : ℕ} {x : ReqCtx}, r.Sole s c x → ∃ t b, Request.Sole s { r with
      ctxs := r.ctxs.modify k f } c { x with timer := t, timeoutCompleted := b } := by
    intro c x hx
    obtain ⟨t, b, hctx⟩ := hget hx.registered.ctx
    refine ⟨t, b, { hx.registered with ctx := hctx }, fun c' y hy hne => ?_⟩
    rw [Option.mem_def, hmodify, Option.map_eq_some_iff] at hy
    obtain ⟨z, hz, rfl⟩ := hy
    refine hx.others c' z hz ?_
    split_ifs at hne
    · rwa [hreq] at hne
    · exact hne
  cases h with
  | fresh hbare hslot => exact .fresh ⟨hbare.chain, hhandles hbare.handles, hbare.calls⟩ hslot
  | stranded hbare hslot hx hstranded =>
    obtain ⟨t, b, hctx⟩ := hget hx
    exact .stranded ⟨hbare.chain, hhandles hbare.handles, hbare.calls⟩ hslot hctx
      ⟨hstranded.done, hstranded.outcome, hstranded.decision⟩
  | asked hx hasks =>
    obtain ⟨t, b, hx'⟩ := hsole hx
    exact .asked hx' ⟨hasks.waiting, hasks.done, hasks.outcome, hasks.guards, hasks.resources⟩
  | settled hx hsettled =>
    obtain ⟨t, b, hx'⟩ := hsole hx
    exact .settled hx' ⟨hsettled.done, hsettled.outcome, hsettled.decision⟩

/-- Refilling the slot keeps the phase. -/
theorem Request.Stands.found (h : r.Stands s g) : (rnGetRequestCtx r).Stands s g := by
  have hsole : ∀ {c : ℕ} {x : ReqCtx}, r.Sole s c x → (rnGetRequestCtx r).Sole s c x := by
    intro c x hx
    rw [hx.registered.found]
    exact ⟨{ hx.registered with slot := .inr rfl }, hx.others⟩
  cases h with
  | fresh hbare hslot =>
    rw [(hbare.clear hslot).found]
    exact .fresh hbare hslot
  | stranded hbare hslot hx hstranded =>
    rw [rnGetRequestCtx, hslot]
    exact .stranded hbare hslot hx hstranded
  | asked hx hasks => exact .asked (hsole hx) hasks
  | settled hx hsettled => exact .settled (hsole hx) hsettled

/-- What another module and nginx itself do keeps the phase. -/
theorem Request.Stands.outside (h : r.Stands s g) (count ngxRefs : ℕ) (connection : Connection) :
    Request.Stands s { r with count, ngxRefs, connection } g := by
  cases h with
  | fresh hbare hslot => exact .fresh ⟨hbare.chain, hbare.handles, hbare.calls⟩ hslot
  | stranded hbare hslot hx hstranded =>
    exact .stranded ⟨hbare.chain, hbare.handles, hbare.calls⟩ hslot hx hstranded
  | asked hx hasks => exact .asked ⟨{ hx.registered with }, hx.others⟩ hasks
  | settled hx hsettled => exact .settled ⟨{ hx.registered with }, hx.others⟩ hsettled

theorem Request.Stands.chained (h : r.Stands s g) :
    Request.Stands s { r with cleanup := .other :: r.cleanup } g := by
  have hchain : ∀ c, .rn c ∈ Cleanup.other :: r.cleanup ↔ .rn c ∈ r.cleanup := by simp
  have hsole : ∀ {c : ℕ} {x : ReqCtx}, r.Sole s c x →
      Request.Sole s { r with cleanup := .other :: r.cleanup } c x := by
    intro c x hx
    exact ⟨{ hx.registered with
      chain := (hchain c).mpr hx.registered.chain
      only := fun c' hc' => hx.registered.only c' ((hchain c').mp hc') }, hx.others⟩
  have hbare : r.Bare → Request.Bare { r with cleanup := .other :: r.cleanup } :=
    fun h => ⟨fun c hc => h.chain c ((hchain c).mp hc), h.handles, h.calls⟩
  cases h with
  | fresh h hslot => exact .fresh (hbare h) hslot
  | stranded h hslot hx hstranded => exact .stranded (hbare h) hslot hx hstranded
  | asked hx hasks => exact .asked (hsole hx) hasks
  | settled hx hsettled => exact .settled (hsole hx) hsettled

/-! ### Redirects and readings -/

theorem Request.Stands.redirected (h : r.Stands s g) (lcf : LocConf) :
    ∃ g', Gate.Step s.conf.main g .redirected g' ∧
      Request.Stands s { r with slot := none, lcf } g' := by
  have hsole : ∀ {c : ℕ} {x : ReqCtx}, r.Sole s c x →
      Request.Sole s { r with slot := none, lcf } c x :=
    fun hx => ⟨{ hx.registered with slot := .inl rfl }, hx.others⟩
  cases h with
  | fresh hbare =>
    exact ⟨.fresh, .redirect nofun, .fresh ⟨hbare.chain, hbare.handles, hbare.calls⟩ rfl⟩
  | stranded hbare =>
    exact ⟨.fresh, .recover, .fresh ⟨hbare.chain, hbare.handles, hbare.calls⟩ rfl⟩
  | asked hx hasks => exact ⟨_, .redirect nofun, .asked (hsole hx) hasks⟩
  | settled hx hsettled => exact ⟨_, .redirect nofun, .settled (hsole hx) hsettled⟩

/-- The context that is found in a phase. -/
theorem Request.Sole.ctx (h : r.Sole s c x) : (rnGetRequestCtx r).ctx = some x := by
  rw [h.registered.found]
  exact h.registered.ctx

/-- The variable says what the phase says. -/
theorem Request.Stands.verdict (h : r.Stands s g) :
    (ngxHttpRnVerdictVariable r).2 = g.verdict := by
  have hsole : ∀ {c : ℕ} {x : ReqCtx}, r.Sole s c x →
      (ngxHttpRnVerdictVariable r).2 = x.admissionOutcome.verdict := by
    intro c x hx
    simp only [ngxHttpRnVerdictVariable, hx.ctx]
  cases h with
  | fresh hbare hslot =>
    have hnone : (rnGetRequestCtx r).ctx = none := by
      rw [(hbare.clear hslot).found]
      simp [Request.ctx, hslot]
    simp only [ngxHttpRnVerdictVariable, hnone]
    rfl
  | @stranded c x hbare hslot hx hstranded =>
    have hctx : (rnGetRequestCtx r).ctx = some x := by
      simp only [rnGetRequestCtx, hslot, Request.ctx, Option.bind_some]
      exact hx
    simp only [ngxHttpRnVerdictVariable, hctx, hstranded.outcome]
    rfl
  | asked hx hasks =>
    rw [hsole hx, hasks.outcome]
    rfl
  | settled hx hsettled =>
    rw [hsole hx, hsettled.outcome]
    rfl

theorem ngxHttpRnVerdictVariable_request (r : Request) :
    (ngxHttpRnVerdictVariable r).1 = rnGetRequestCtx r := by
  simp only [ngxHttpRnVerdictVariable]
  split <;> rfl

end Phase

/-! ## Runs of the handler -/

section Handler

variable {s : Setup} {mcf : MainConf} {lcf : LocConf} {x : ReqCtx}

/-- What a run of the handler leaves of a new context : it has an outcome that needs no answer,
or waits for the answer to the check that was asked for. -/
structure ReqCtx.Opens (mcf : MainConf) (x : ReqCtx) (call : Option RateCheck) : Prop where
  settled : x.done = true →
    x.admissionOutcome.Unanswered mcf ∧ (x.admissionOutcome = .none → call = none)
  asks : x.done = false → ∃ check, call = some check ∧ x.Asks check

theorem failOutcome_unanswered (mcf : MainConf) : (failOutcome mcf).Unanswered mcf := by
  unfold failOutcome
  split_ifs with hopen
  · exact hopen
  · simpa [AdmissionOutcome.Unanswered] using hopen

/-- A context that is done with an outcome of the fail policy. -/
theorem ReqCtx.Opens.of_fail {call : Option RateCheck} (hdone : x.done = true)
    (houtcome : x.admissionOutcome = failOutcome mcf) : x.Opens mcf call where
  settled := fun _ => by
    rw [houtcome]
    exact ⟨failOutcome_unanswered mcf, fun hnone => absurd hnone (failOutcome_ne mcf).1⟩
  asks := fun hundone => by
    rw [hdone] at hundone
    cases hundone

theorem ReqCtx.Opens.of_done {call : Option RateCheck} (hdone : x.done = true)
    (houtcome : x.admissionOutcome = .internalError ∨ x.admissionOutcome = .none ∧ call = none) :
    x.Opens mcf call where
  settled := fun _ => by
    rcases houtcome with houtcome | ⟨houtcome, hcall⟩
    · rw [houtcome]
      exact ⟨trivial, nofun⟩
    · rw [houtcome]
      exact ⟨trivial, fun _ => hcall⟩
  asks := fun hundone => by
    rw [hdone] at hundone
    cases hundone

theorem rnNoWorker_opens (h : x.Fresh mcf lcf) : (rnNoWorker mcf lcf x).Opens mcf none := by
  have hout : (rnNoWorker mcf lcf x).admissionOutcome = _ := h.outcome
  split_ifs at hout
  · exact .of_fail rfl hout
  · exact .of_done rfl (.inr ⟨hout, rfl⟩)

theorem rnFinishStop_opens (mcf : MainConf) (x : ReqCtx) (stop : Stop) :
    (rnFinishStop mcf x stop).Opens mcf none := by
  cases stop with
  | noRules | emptyRuleExpansion => exact .of_done rfl (.inr ⟨rfl, rfl⟩)
  | resourcesAlloc | guardsAlloc => exact .of_done rfl (.inl rfl)
  | guardBuild e | zoneBuild e =>
    simp only [rnFinishStop]
    split_ifs
    · exact .of_done rfl (.inl rfl)
    · exact .of_fail rfl rfl
  | unknownGroup | unknownGuard | unknownZone | labelRender | labelTooLong =>
    exact .of_fail rfl rfl

theorem rnStart_opens (hdone : x.done = false) {p : Proc} {n : ℕ} (env : HandlerEnv) (i : ℕ)
    (client : Client) (check : RateCheck) :
    (rnStart mcf env i client check ⟨p, n, x⟩).live.ctx.Opens mcf
      (rnStart mcf env i client check ⟨p, n, x⟩).call := by
  simp only [rnStart]
  split_ifs
  · exact .of_fail rfl rfl
  · refine ⟨fun hdone' => ?_, fun _ => ⟨check, rfl, rfl, hdone, rfl, rfl, rfl⟩⟩
    exact absurd hdone (by simpa [rnPublish] using hdone')
  · exact .of_done rfl (.inl rfl)

theorem rnAdmit_opens {p : Proc} {n : ℕ} (h : x.Fresh s.conf.main lcf) (env : HandlerEnv) (i : ℕ) :
    (rnAdmit s lcf env i ⟨p, n, x⟩).live.ctx.Opens s.conf.main
      (rnAdmit s lcf env i ⟨p, n, x⟩).call := by
  unfold rnAdmit
  split
  · split
    · have hx := rnAttachReport_fresh h env.values
      simp only [rnCheck]
      split_ifs with hadm
      · refine .of_done rfl (.inr ⟨?_, rfl⟩)
        have hout := hx.outcome
        rwa [if_neg (by simpa using hadm)] at hout
      · split
        · exact rnFinishStop_opens s.conf.main _ _
        · exact rnStart_opens hx.done env i _ _
    · exact rnNoWorker_opens h
  · exact rnNoWorker_opens h

variable {r r' : Request} {g : Gate} {env : HandlerEnv} {i : ℕ} {p : Proc}

/-- Where the module is not active, the handler declines and asks for nothing. -/
theorem ngxHttpRnHandler_inactive (h : ¬r.Active s) (env : HandlerEnv) (i : ℕ) (p : Proc) :
    (ngxHttpRnHandler s env i ⟨p, r⟩).2 = .declined ∧
      ((ngxHttpRnHandler s env i ⟨p, r⟩).1.req = r ∨
        (ngxHttpRnHandler s env i ⟨p, r⟩).1.req = rnGetRequestCtx r) := by
  simp only [ngxHttpRnHandler, rnGetRequestCtx_lcf]
  split_ifs with hmain hactive henabled
  · exact ⟨rfl, .inl rfl⟩
  · exact ⟨rfl, .inr rfl⟩
  · exact ⟨rfl, .inr rfl⟩
  · refine absurd ⟨by simpa using hmain, ?_, by simpa using henabled⟩ h
    by_contra hnone
    simp only [not_or, Bool.not_eq_true] at hnone
    simp [hnone] at hactive

/-- Where the module is active and finds no context, the handler goes on to admission. -/
theorem ngxHttpRnHandler_admission (h : r.Active s) (hslot : rnGetRequestCtx r = r)
    (hctx : r.ctx = none) (env : HandlerEnv) (i : ℕ) (p : Proc) :
    ngxHttpRnHandler s env i ⟨p, r⟩ = rnAdmission s env i ⟨p, r⟩ := by
  have hon : (!r.lcf.admission && !r.lcf.reportEnabled) = false := by
    rcases h.2.1 with hon | hon <;> simp [hon]
  simp [ngxHttpRnHandler, h.1, h.2.2, hslot, hctx, hon]

/-- Where it finds a context that is done, it returns its decision. -/
theorem ngxHttpRnHandler_done (h : r.Active s) (hslot : rnGetRequestCtx r = r)
    (hctx : r.ctx = some x) (hdone : x.done = true) (env : HandlerEnv) (i : ℕ) (p : Proc) :
    ngxHttpRnHandler s env i ⟨p, r⟩ = (⟨p, r⟩, x.decision) := by
  have hon : (!r.lcf.admission && !r.lcf.reportEnabled) = false := by
    rcases h.2.1 with hon | hon <;> simp [hon]
  simp [ngxHttpRnHandler, h.1, h.2.2, hslot, hctx, hon, hdone]

/-- The first run of the handler in an active location. -/
theorem Request.Bare.admitted (h : r.Bare) (hslot : r.slot = none) (hactive : r.Active s)
    (env : HandlerEnv) (i : ℕ) (p : Proc) :
    ∃ g' call, Gate.Step s.conf.main .fresh
        (.handled true (rnAdmission s env i ⟨p, r⟩).2 call) g' ∧
      (rnAdmission s env i ⟨p, r⟩).1.req.startCalls = r.startCalls ++ call.toList ∧
      (rnAdmission s env i ⟨p, r⟩).1.req.Stands s g' := by
  have hctx : r.ctx = none := by simp [Request.ctx, hslot]
  have hclear : r.Clear := h.clear hslot
  have hrun : HandlerRun s env r r _ _ :=
    rnAdmission_run env i p r ⟨hactive.1, hactive.2.1, hactive.2.2, by simp [hctx]⟩
  revert hrun
  simp only [rnAdmission]
  split_ifs
  · exact fun _ => ⟨.fresh, none, .noMemory, by simp, .fresh h hslot⟩
  · refine fun _ => ⟨.stranded, none, .strand, by simp, .stranded (c := r.ctxs.length)
      ⟨h.chain, fun c x hx => ?_, h.calls⟩ rfl (by simp; rfl) ⟨rfl, rfl, rfl⟩⟩
    rcases List.mem_append.mp (List.mem_of_getElem? hx) with hx | hx
    · obtain ⟨c', hc'⟩ := List.mem_iff_getElem?.mp hx
      exact h.handles c' x hc'
    · obtain rfl := List.mem_singleton.mp hx
      rfl
  · intro hrun
    have hexit := rnAdmit_exit (p := p) (n := r.count) (ReqCtx.new_fresh s.conf.main r.lcf) env i
    have hopens := rnAdmit_opens (p := p) (n := r.count) (ReqCtx.new_fresh s.conf.main r.lcf) env i
    generalize rnAdmit s r.lcf env i ⟨p, r.count, ReqCtx.new s.conf.main r.lcf⟩ = a at *
    -- the context that the run registered is the last one
    have hsole : (r.registered a.live.ctx a.live.count a.call).Sole s r.ctxs.length
        a.live.ctx := by
      have hlast : (r.registered a.live.ctx a.live.count a.call).ctxs[r.ctxs.length]? =
          some a.live.ctx := by simp [Request.registered]
      rcases hrun.registers hclear with hclear' | ⟨c, x, hreg⟩
      · exact absurd List.mem_cons_self (hclear'.chain r.ctxs.length)
      · obtain rfl : r.ctxs.length = c := hreg.only _ List.mem_cons_self
        obtain rfl : a.live.ctx = x := Option.some.inj (hlast.symm.trans hreg.ctx)
        refine ⟨hreg, fun c y hy hne => ?_⟩
        simp only [Request.registered, Option.mem_def, List.getElem?_append] at hy
        split_ifs at hy with hlt
        · exact absurd (h.handles c y hy) hne
        · have := (List.getElem?_eq_some_iff.mp hy).1
          simp only [List.length_singleton] at this
          omega
    cases hdone : a.live.ctx.done with
    | false =>
      obtain ⟨check, hcall, hasks⟩ := hopens.asks hdone
      refine ⟨.asked check, some check, ?_, by rw [hcall], .asked hsole hasks⟩
      rcases hexit.settled with ⟨hdone', -⟩ | ⟨-, -, hrc, -⟩
      · rw [hdone] at hdone'
        cases hdone'
      · rw [hrc]
        exact .ask check
    | true =>
      obtain ⟨hunanswered, hnone⟩ := hopens.settled hdone
      rcases hexit.settled with ⟨-, -, -, hdecided, hrc⟩ | ⟨hundone, -⟩
      · refine ⟨.settled a.live.ctx.admissionOutcome, a.call, ?_, rfl,
          .settled hsole ⟨hdone, rfl, hdecided.decision⟩⟩
        rw [hrc]
        exact .settle a.call hdecided.decision hunanswered hnone
      · rw [hdone] at hundone
        cases hundone

/-- A run of the handler is a step of the gate. -/
theorem Request.Stands.handled (h : r.Stands s g) (env : HandlerEnv) (i : ℕ) (p : Proc) :
    ∃ g', Gate.Step s.conf.main g (.handled (decide (r.Active s))
        (ngxHttpRnHandler s env i ⟨p, r⟩).2
        ((ngxHttpRnHandler s env i ⟨p, r⟩).1.req.startCalls.drop r.startCalls.length).head?) g' ∧
      (ngxHttpRnHandler s env i ⟨p, r⟩).1.req.Stands s g' := by
  by_cases hactive : r.Active s
  · have hsole : ∀ {c : ℕ} {x : ReqCtx}, r.Sole s c x →
        (ngxHttpRnHandler s env i ⟨p, r⟩).1 = ⟨p, { r with slot := some c }⟩ ∧
        (ngxHttpRnHandler s env i ⟨p, r⟩).2 = (if x.waiting then .again else x.decision) ∧
        Request.Sole s { r with slot := some c } c x := by
      intro c x hx
      obtain ⟨hframe, hrc⟩ := hx.registered.handler env i p
      exact ⟨hframe, hrc hactive.2.1, { hx.registered with slot := .inr rfl }, hx.others⟩
    rw [decide_eq_true hactive]
    cases h with
    | fresh hbare hslot =>
      have hnone : r.ctx = none := by simp [Request.ctx, hslot]
      rw [ngxHttpRnHandler_admission hactive (hbare.clear hslot).found hnone]
      obtain ⟨g', call, hstep, hcalls, hstands⟩ := hbare.admitted hslot hactive env i p
      refine ⟨g', ?_, hstands⟩
      rw [hcalls]
      cases call <;> simpa using hstep
    | @stranded c x hbare hslot hx hstranded =>
      have hfound : rnGetRequestCtx r = r := by simp [rnGetRequestCtx, hslot]
      have hctx : r.ctx = some x := by simp [Request.ctx, hslot, hx]
      rw [ngxHttpRnHandler_done hactive hfound hctx hstranded.done, hstranded.decision]
      exact ⟨.stranded, by simpa using .pass, .stranded hbare hslot hx hstranded⟩
    | asked hx hasks =>
      obtain ⟨hframe, hrc, hx'⟩ := hsole hx
      rw [hframe, hrc, hasks.waiting]
      exact ⟨_, by simpa using .wait _, .asked hx' hasks⟩
    | @settled c x outcome hx hsettled =>
      obtain ⟨hframe, hrc, hx'⟩ := hsole hx
      have hidle : x.waiting = false := by
        rcases hx.registered.settled with ⟨-, hidle, -⟩ | ⟨hundone, -⟩
        · exact hidle
        · exact absurd hsettled.done (by simp [hundone])
      rw [hframe, hrc, hidle]
      exact ⟨_, by simpa using .replay hsettled.decision, .settled hx' hsettled⟩
  · obtain ⟨hrc, hreq⟩ := ngxHttpRnHandler_inactive hactive env i p
    rw [decide_eq_false hactive, hrc]
    rcases hreq with hreq | hreq
    · rw [hreq]
      exact ⟨g, by simpa using .bypass g, h⟩
    · rw [hreq, rnGetRequestCtx_startCalls]
      exact ⟨g, by simpa using .bypass g, h.found⟩

end Handler

/-! ## Answers -/

section Answers

variable {s : Setup} {r r' : Request} {g : Gate} {c q : ℕ} {x : ReqCtx} {p : Proc}
  {status : RClient} {result : Option RateLimitResult} {env : TimeoutEnv}

/-- A context that owns a handle is the registered one, and waits. -/
theorem Request.Stands.owner (h : r.Stands s g) (hx : r.ctxs[c]? = some x) (hq : x.req = some q) :
    ∃ check, g = .asked check ∧ r.Sole s c x ∧ x.Asks check := by
  have hne : x.req ≠ none := by simp [hq]
  cases h with
  | fresh hbare => exact absurd (hbare.handles c x hx) hne
  | stranded hbare => exact absurd (hbare.handles c x hx) hne
  | @asked c' x' check hsole hasks =>
    obtain rfl : c = c' := hsole.others c x hx hne
    obtain rfl : x' = x := Option.some.inj (hsole.registered.ctx.symm.trans hx)
    exact ⟨check, rfl, hsole, hasks⟩
  | @settled c' x' outcome hsole hsettled =>
    obtain rfl : c = c' := hsole.others c x hx hne
    obtain rfl : x' = x := Option.some.inj (hsole.registered.ctx.symm.trans hx)
    rcases hsole.registered.settled with ⟨-, -, hnone⟩ | ⟨hundone, -⟩
    · exact absurd hnone hne
    · exact absurd hsettled.done (by simp [hundone])

/-- An event that leaves its verdict in the context that owns the handle answers the gate. -/
theorem Request.Stands.answered (h : r.Stands s g) (hx : r.ctxs[c]? = some x)
    (hq : x.req = some q) (hmoves : r.Moves s r') (hverdict : r'.ctxs[c]? =
      some (rnVerdict s.conf.main status result
        (ReqCtx.tornDown { x with timeoutCompleted := false }))) :
    ∃ g', Gate.Step s.conf.main g (.answered status result) g' ∧ r'.Stands s g' := by
  obtain ⟨check, rfl, hsole, hasks⟩ := h.owner hx hq
  obtain ⟨x', hsole'⟩ := hmoves.kept (I := fun r => ∃ x, r.Sole s c x)
    (fun ⟨_, h⟩ hmove => h.move hmove) ⟨x, hsole⟩
  obtain rfl := Option.some.inj (hsole'.registered.ctx.symm.trans hverdict)
  have hdecided : (rnVerdict s.conf.main status result
      (ReqCtx.tornDown { x with timeoutCompleted := false })).Decided s.conf.main :=
    rnVerdict_decided status result
  refine ⟨.settled _, .answer hdecided.decision (rnVerdict_right
    (x := ReqCtx.tornDown { x with timeoutCompleted := false }) hasks.guards hasks.resources
    status result), .settled hsole' ⟨?_, rfl, hdecided.decision⟩⟩
  obtain ⟨d, o, k, -, heq⟩ := rnVerdict_eq s.conf.main status result
    (ReqCtx.tornDown { x with timeoutCompleted := false })
  rw [heq]

/-- A callback answers the gate when the context in the slot owns its handle, and changes
nothing otherwise. -/
theorem Request.Stands.callback (h : r.Stands s g) (q : ℕ) (status : RClient)
    (result : Option RateLimitResult) :
    if r.ctx.any fun x => x.worker && x.req == some q then
      ∃ g', Gate.Step s.conf.main g (.answered status result) g' ∧
        (rnRateCb s.conf.main q status result ⟨p, r⟩).1.req.Stands s g'
    else (rnRateCb s.conf.main q status result ⟨p, r⟩).1.req.Stands s g := by
  split_ifs with howned
  · obtain ⟨x, hctx⟩ : ∃ x, r.ctx = some x := by
      rw [← Option.isSome_iff_exists]
      cases hctx : r.ctx <;> simp [hctx] at howned ⊢
    have howns : x.worker = true ∧ x.req = some q := by simpa [hctx] using howned
    obtain ⟨c, hslot, hx⟩ := Option.bind_eq_some_iff.mp hctx
    exact h.answered hx howns.2 (rnRateCb_requestMoves (f := ⟨p, r⟩) q status result)
      (rnRateCb_get (f := ⟨p, r⟩) s.conf.main hslot hx howns.1 howns.2 status result).1
  · unfold rnRateCb
    split
    · exact h
    · rename_i c hslot
      split
      · exact h
      · rename_i x hx
        split_ifs with hskip
        · exact h
        · refine absurd ?_ howned
          have hctx : r.ctx = some x := by
            simp only at hslot hx
            simp [Request.ctx, hslot, hx]
          simpa [hctx] using hskip

/-- With its slot empty, a request gets no answer from the timeout handler. -/
theorem Request.Stands.unslotted (h : r.Stands s g) (hslot : r.slot = none) (env : TimeoutEnv)
    (c : ℕ) : (rnRequestTimeoutHandler s.conf.main env c ⟨p, r⟩).req.Stands s g := by
  have hupdate : ∀ (f : Frame) {u : ReqCtx → ReqCtx}, ReqCtx.Timing u →
      f.req.Stands s g ∧ f.req.slot = none →
      (f.modifyCtx c u).req.Stands s g ∧ (f.modifyCtx c u).req.slot = none :=
    fun f u hu hf => ⟨hf.1.timed hu c, hf.2⟩
  refine (rnRequestTimeoutHandler_keeps (I := fun f => f.req.Stands s g ∧ f.req.slot = none)
    ?_ ?_ ⟨h, hslot⟩).1
  · exact fun f hf => hupdate f (fun x => ⟨none, x.timeoutCompleted, rfl⟩) hf
  · intro x _ q _
    exact
      { update := fun f u hu hf => hupdate f hu.timing hf
        retire := fun f q how hf => hf
        callback := fun f q status result hf => by
          simpa only [rnRateCb, hf.2] using hf }

/-- The timeout handler leaves the verdict of the answer that it brings. -/
theorem rnRequestTimeoutHandler_answer (hanswer : env.answer = some (status, result))
    (hreg : r.Registered s c x) (hslot : r.slot = some c) (hq : x.req = some q)
    (hclient : p.client.isSome = true) :
    (rnRequestTimeoutHandler s.conf.main env c ⟨p, r⟩).req.ctxs[c]? =
      some (rnVerdict s.conf.main status result
        (ReqCtx.tornDown { x with timeoutCompleted := false })) := by
  have hdelivers : ∀ {e : TimeoutEnv}, Event.Delivers 0 c q status result (.timeout 0 c e) →
      (rnRequestTimeoutHandler s.conf.main e c ⟨p, r⟩).req.ctxs[c]? =
        some (rnVerdict s.conf.main status result
          (ReqCtx.tornDown { x with timeoutCompleted := false })) :=
    fun h => h.verdict hreg hslot hq hclient
  have hdue : env.Due := by
    rw [TimeoutEnv.Due, ← Bool.not_eq_true]
    intro hlater
    rw [TimeoutEnv.answer, if_pos hlater] at hanswer
    cases hanswer
  rw [TimeoutEnv.answer, if_neg (by simp [show _ = false from hdue])] at hanswer
  cases hon : env.onTimeout with
  | completed status' result' =>
    rw [hon] at hanswer
    obtain ⟨rfl, rfl⟩ := Prod.mk.inj (Option.some.inj hanswer)
    exact hdelivers (.timeout hdue hon)
  | advanced =>
    rw [hon] at hanswer
    simp only [Option.isNone_iff_eq_none, Option.ite_none_right_eq_some] at hanswer
    obtain ⟨hnone, heq⟩ := hanswer
    obtain ⟨rfl, rfl⟩ := Prod.mk.inj (Option.some.inj heq)
    exact hdelivers (.lost hdue hon hnone)
  | failed status' =>
    rw [hon] at hanswer
    simp only at hanswer
    split_ifs at hanswer with hne hnone
    · obtain ⟨rfl, rfl⟩ := Prod.mk.inj (Option.some.inj hanswer)
      exact hdelivers (.failed hdue hon hne)
    · -- a failure with the status of success goes the way of a later round
      obtain ⟨rfl, rfl⟩ := Prod.mk.inj (Option.some.inj hanswer)
      obtain rfl : status' = .ok := not_not.mp hne
      have hsame : rnRequestTimeoutHandler s.conf.main env c ⟨p, r⟩ =
          rnRequestTimeoutHandler s.conf.main { env with onTimeout := .advanced } c ⟨p, r⟩ := by
        simp only [rnRequestTimeoutHandler, rnOnTimeout, rnAfterTimeout, hon]
      rw [hsame]
      exact hdelivers (.lost hdue rfl (Option.isNone_iff_eq_none.mp hnone))

/-- The timeout handler of the context in the slot, when it brings no answer. -/
theorem Request.Stands.unanswered (h : r.Stands s g) (hanswer : env.answer = none)
    (hx : r.ctxs[c]? = some x) (hworker : x.worker = true) (hq : x.req = some q)
    (hclient : p.client.isSome = true) :
    (rnRequestTimeoutHandler s.conf.main env c ⟨p, r⟩).req.Stands s g := by
  have hfired := h.timed (f := ({ · with timer := none }))
    (fun x => ⟨none, x.timeoutCompleted, rfl⟩) c
  by_cases hdue : env.Due
  · have hset := hfired.timed (f := ({ · with timeoutCompleted := true }))
      (fun x => ⟨x.timer, true, rfl⟩) c
    have hcleared := hset.timed (f := ({ · with timeoutCompleted := false }))
      (fun x => ⟨x.timer, false, rfl⟩) c
    have hlater : env.deadlineMs.any (· > env.nowMs) = false := hdue
    rw [rnRequestTimeoutHandler_due s.conf.main hdue hx hworker hq hclient]
    rw [TimeoutEnv.answer, if_neg (by simp [hlater])] at hanswer
    have hrearmed : ∀ deadline, env.deadlineMs' = some deadline →
        (rnAfterTimeout s.conf.main env c q x .ok ((Frame.modifyCtx ⟨p, r⟩ c
          ({ · with timer := none })).modifyCtx c ({ · with timeoutCompleted := true }))).req.Stands
            s g := by
      intro deadline hdeadline
      simp only [rnAfterTimeout, hdeadline]
      exact hcleared.timed (fun x => ⟨_, x.timeoutCompleted, rfl⟩) c
    have hsome : ¬env.deadlineMs'.isNone = true → ∃ deadline, env.deadlineMs' = some deadline :=
      fun hsome => Option.ne_none_iff_exists'.mp (by simpa using hsome)
    cases hon : env.onTimeout with
    | completed =>
      rw [hon] at hanswer
      cases hanswer
    | advanced =>
      rw [hon] at hanswer
      simp only [ite_eq_right_iff, reduceCtorEq, imp_false] at hanswer
      obtain ⟨deadline, hdeadline⟩ := hsome hanswer
      simpa only [rnOnTimeout, hon] using hrearmed deadline hdeadline
    | failed status' =>
      rw [hon] at hanswer
      simp only at hanswer
      split_ifs at hanswer with hne hnone
      obtain rfl : status' = .ok := not_not.mp hne
      obtain ⟨deadline, hdeadline⟩ := hsome hnone
      simpa only [rnOnTimeout, hon] using hrearmed deadline hdeadline
  · have hlater : env.deadlineMs.any (· > env.nowMs) = true := by
      simpa [TimeoutEnv.Due] using hdue
    simp only [rnRequestTimeoutHandler, hx, hq]
    split_ifs
    · exact hfired
    · exact hfired.timed (fun x => ⟨_, x.timeoutCompleted, rfl⟩) c

/-- The timeout handler answers the gate, or shows nothing and changes nothing. -/
theorem Request.Stands.timeout (h : r.Stands s g) (i c : ℕ) (env : TimeoutEnv) :
    (∀ answer, Event.answer ⟨p, r⟩ (.timeout i c env) = some answer →
      ∃ g', Gate.Step s.conf.main g (.answered answer.1 answer.2) g' ∧
        (rnRequestTimeoutHandler s.conf.main env c ⟨p, r⟩).req.Stands s g') ∧
    (Event.answer ⟨p, r⟩ (.timeout i c env) = none →
      (rnRequestTimeoutHandler s.conf.main env c ⟨p, r⟩).req.Stands s g) := by
  have hfired := h.timed (f := ({ · with timer := none }))
    (fun x => ⟨none, x.timeoutCompleted, rfl⟩) c
  by_cases hanswers : r.slot = some c ∧ (r.ctx.any fun x => x.worker && x.req.isSome) = true ∧
      p.client.isSome = true
  · obtain ⟨hslot, howned, hclient⟩ := hanswers
    obtain ⟨x, hctx⟩ : ∃ x, r.ctx = some x := by
      rw [← Option.isSome_iff_exists]
      cases hctx : r.ctx <;> simp [hctx] at howned ⊢
    obtain ⟨hworker, q, hq⟩ : x.worker = true ∧ ∃ q, x.req = some q := by
      simpa [hctx, Option.isSome_iff_exists] using howned
    have hx : r.ctxs[c]? = some x := by simpa [Request.ctx, hslot] using hctx
    rw [show Event.answer ⟨p, r⟩ (.timeout i c env) = env.answer from
      if_pos ⟨hslot, howned, hclient⟩]
    refine ⟨fun answer hanswer => ?_, fun hnone => h.unanswered hnone hx hworker hq hclient⟩
    obtain ⟨-, -, hsole, -⟩ := h.owner hx hq
    exact h.answered hx hq (rnRequestTimeoutHandler_requestMoves (f := ⟨p, r⟩) env c)
      (rnRequestTimeoutHandler_answer hanswer hsole.registered hslot hq hclient)
  · rw [show Event.answer ⟨p, r⟩ (.timeout i c env) = none from if_neg hanswers]
    refine ⟨fun answer hanswer => absurd hanswer (by simp), fun _ => ?_⟩
    cases hx : r.ctxs[c]? with
    | none => simpa only [rnRequestTimeoutHandler, hx] using h
    | some x =>
      cases hq : x.req with
      | none =>
        simp only [rnRequestTimeoutHandler, hx, hq]
        exact hfired
      | some q =>
        obtain ⟨-, -, hsole, -⟩ := h.owner hx hq
        rcases hsole.registered.slot with hslot | hslot
        · exact h.unslotted hslot env c
        · have hworker : x.worker = true := hsole.registered.linked (by simp [hq])
          have hgone : p.client.isNone = true := by
            by_contra hsome
            refine hanswers ⟨hslot, ?_, by simpa [Option.isSome_iff_ne_none] using hsome⟩
            simp [Request.ctx, hslot, hx, hworker, hq]
          simp only [rnRequestTimeoutHandler, hx, hq]
          rw [if_pos (by simp [Frame.modifyCtx, Option.isNone_iff_eq_none.mp hgone])]
          exact hfired

end Answers

/-! ## The refinement -/

section Refinement

variable {s : Setup} {i : ℕ} {w : World} {r : Request} {g : Gate} {p : Proc} {e : Event}

/-- What an event must do to the phase `g` of the request : the label that it shows is a step of
the gate, and one that shows nothing keeps the phase. -/
def Event.Follows (s : Setup) (i : ℕ) (p : Proc) (r : Request) (g : Gate) (e : Event) : Prop :=
  (∀ l, e.label s i ⟨p, r⟩ = some l →
    ∃ g', Gate.Step s.conf.main g l g' ∧ (e.run s i ⟨p, r⟩).req.Stands s g') ∧
  (e.label s i ⟨p, r⟩ = none → (e.run s i ⟨p, r⟩).req.Stands s g)

theorem Event.Follows.shown {l : Label} (hl : e.label s i ⟨p, r⟩ = some l)
    (h : ∃ g', Gate.Step s.conf.main g l g' ∧ (e.run s i ⟨p, r⟩).req.Stands s g') :
    e.Follows s i p r g := by
  refine ⟨fun l' hl' => ?_, fun hnone => ?_⟩
  · obtain rfl := Option.some.inj (hl.symm.trans hl')
    exact h
  · rw [hl] at hnone
    cases hnone

theorem Event.Follows.silent (hl : e.label s i ⟨p, r⟩ = none)
    (h : (e.run s i ⟨p, r⟩).req.Stands s g) : e.Follows s i p r g := by
  refine ⟨fun l hsome => ?_, fun _ => h⟩
  rw [hl] at hsome
  cases hsome

/-- Every event of a request that does not end it follows its gate. -/
theorem Request.Stands.event (h : r.Stands s g) (he : e.request = some i) (hkeeps : ¬e.Ends) :
    e.Follows s i p r g := by
  cases e with
  | handler j env => exact .shown rfl (h.handled env i p)
  | redirect j lcf => exact .shown rfl (h.redirected lcf)
  | verdict j =>
    refine .shown rfl ⟨g, ?_, ?_⟩
    · rw [h.verdict]
      exact .read g
    · rw [Event.run, ngxHttpRnVerdictVariable_request]
      exact h.found
  | cleanupAdd => exact .silent rfl h.chained
  | connection _ state => exact .silent rfl (h.outside r.count r.ngxRefs state)
  | retain | drop => exact .silent rfl (h.outside _ _ r.connection)
  | complete _ q status result =>
    have hstep := h.callback (p := p.mapClient (·.retire q .completed)) q status result
    split_ifs at hstep with howned
    · exact .shown (by simp only [Event.label, Event.answer, if_pos howned]; rfl) hstep
    · exact .silent (by simp only [Event.label, Event.answer, if_neg howned]; rfl) hstep
  | stray _ q status result =>
    have hstep := h.callback (p := p) q status result
    split_ifs at hstep with howned
    · exact .shown (by simp only [Event.label, Event.answer, if_pos howned]; rfl) hstep
    · exact .silent (by simp only [Event.label, Event.answer, if_neg howned]; rfl) hstep
  | timeout j c env =>
    obtain ⟨hanswered, hquiet⟩ := h.timeout (p := p) j c env
    cases hanswer : Event.answer ⟨p, r⟩ (.timeout j c env) with
    | none => exact .silent (by simp only [Event.label, hanswer]; rfl) (hquiet hanswer)
    | some answer =>
      exact .shown (by simp only [Event.label, hanswer]; rfl) (hanswered answer hanswer)
  | cleanup | release | log => exact absurd trivial hkeeps
  | accept | steering | udpBegin | udpEnd | rebind => cases he

/-- The phase of request `i` of the process, before it is read and after. -/
def World.Stands (s : Setup) (i : ℕ) (w : World) (g : Gate) : Prop :=
  (w.reqs[i]? = none ∧ g = .fresh) ∨ ∃ r ∈ w.reqs[i]?, r.Stands s g

theorem Request.new_stands (main : Bool) (lcf : LocConf) (startMs : ℕ) :
    (Request.new main lcf startMs).Stands s .fresh :=
  .fresh ⟨by simp [Request.new], by simp [Request.new], rfl⟩ rfl

/-- Before it is read, an event leaves a request unread, or reads it. -/
theorem next_unread (hnone : w.reqs[i]? = none) (hen : e.Enabled s w) :
    (w.next s e).Stands s i .fresh := by
  cases hnext : (w.next s e).reqs[i]? with
  | none => exact .inl ⟨hnext, rfl⟩
  | some r =>
    obtain ⟨main, startMs, lcf, -, rfl⟩ := next_request_new hnone hen hnext
    exact .inr ⟨_, hnext, Request.new_stands main lcf startMs⟩

/-- Every request of the process is simulated by its gate. -/
theorem machine_simulates (s : Setup) (i : ℕ) :
    Simulates ((machine s).restrict fun _ e => e.Keeps i) (World.shows s i)
      (Gate.Step s.conf.main) (World.Stands s i) where
  shows := by
    intro w g e l hstands he hl
    simp only [World.shows, Option.ite_none_right_eq_some] at hl
    obtain ⟨hmine, hl⟩ := hl
    obtain ⟨f, hf, hl⟩ := Option.bind_eq_some_iff.mp hl
    obtain ⟨r, hr, rfl⟩ := Option.map_eq_some_iff.mp hf
    rcases hstands with ⟨hnone, -⟩ | ⟨r', hr', hstands⟩
    · rw [hr] at hnone
      cases hnone
    · obtain rfl : r = r' := Option.some.inj (hr.symm.trans hr')
      obtain ⟨g', hstep, hstands'⟩ := (hstands.event hmine (he.2 hmine)).1 l hl
      refine ⟨g', hstep, .inr ⟨_, next_request (s := s) hr e, ?_⟩⟩
      rwa [if_pos hmine]
  silent := by
    intro w g e hstands he hnothing
    rcases hstands with ⟨hnone, rfl⟩ | ⟨r, hr, hstands⟩
    · exact next_unread hnone he.1
    · refine .inr ⟨_, next_request (s := s) hr e, ?_⟩
      split_ifs with hmine
      · refine (hstands.event hmine (he.2 hmine)).2 ?_
        simpa [World.shows, hmine, World.frame, Option.mem_def.mp hr] using hnothing
      · exact hstands

/-- What is seen of a request, in whatever order the events of the process come, is what its
gate allows. -/
theorem gate_refines {es : List Event} {w : World} (h : KeepsRun s i World.init es w) :
    ∃ g, Trace (Gate.Step s.conf.main) .fresh (seen (World.next s) (World.shows s i) World.init es)
      g ∧ w.Stands s i g :=
  (machine_simulates s i).trace h (.inl ⟨rfl, rfl⟩)

theorem sample_gate_refines : ∃ g, Trace (Gate.Step sampleSetup.conf.main) .fresh
    (seen (World.next sampleSetup) (World.shows sampleSetup 0) World.init redirectedEvents) g ∧
      redirectedWorld.Stands sampleSetup 0 g :=
  gate_refines (Run.of_admits (by decide +kernel) :
    KeepsRun sampleSetup 0 World.init redirectedEvents redirectedWorld)

end Refinement

end RlNginx
