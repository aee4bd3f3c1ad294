import RlNginx.Lib.Timed
import RlNginx.Interleaving
import RlNginx.Timers

/-!
# How long a request waits

The worker process on the clock of its event loop. A request that waits has an armed timer,
armed with the time to the deadline the C client reports, which is at most the horizon of the
policy after the start of the request. `Watched` records the reading of the clock at the start
of each request and how often its timer fired.

nginx reads its clock once per turn of the event loop, so all readings within an event are the
time it happens at, and runs a timer some time after it is due. A request then waits at most
the horizon, and the lateness of the event loop once more than its timer fired
(`waits_within_horizon`); on an event loop that is never late it waits at most the horizon.
-/

open Transition

namespace RlNginx

/-! ## Timers that an event leaves alone -/

/-- Context `c` has no timer armed in `r'` that it did not have in `r`, for the same handle. -/
def Request.TimerKept (c : ℕ) (r r' : Request) : Prop :=
  ∀ x' ∈ r'.ctxs[c]?, x'.timer.isSome = true →
    ∃ x ∈ r.ctxs[c]?, x'.timer = x.timer ∧ x'.req = x.req

section Kept

variable {s : Setup} {r r' r'' : Request} {f : Frame} {c c' : ℕ}

theorem Request.TimerKept.of_ctxs (h : r'.ctxs = r.ctxs) : r.TimerKept c r' :=
  fun x' hx' _ => ⟨x', h ▸ hx', rfl, rfl⟩

theorem Request.TimerKept.refl (c : ℕ) (r : Request) : r.TimerKept c r :=
  .of_ctxs rfl

theorem Request.TimerKept.trans (h : r.TimerKept c r') (h' : r'.TimerKept c r'') :
    r.TimerKept c r'' := by
  intro x'' hx'' hsome
  obtain ⟨x', hx', htimer', hreq'⟩ := h' x'' hx'' hsome
  obtain ⟨x, hx, htimer, hreq⟩ := h x' hx' (htimer' ▸ hsome)
  exact ⟨x, hx, htimer'.trans htimer, hreq'.trans hreq⟩

/-- One context is written back, with its timer and its handle as they were or without a
timer. -/
theorem Request.TimerKept.set {x y : ReqCtx} (hx : r.ctxs[c']? = some x)
    (hy : y.timer = none ∨ (y.timer = x.timer ∧ y.req = x.req))
    (hset : r'.ctxs = r.ctxs.set c' y) : r.TimerKept c r' := by
  intro x' hx' hsome
  rw [hset, Option.mem_def, List.getElem?_set] at hx'
  split_ifs at hx' with hcc hlt
  · obtain rfl := hcc
    obtain rfl := Option.some.inj hx'
    rcases hy with hy | hy
    · rw [hy] at hsome
      cases hsome
    · exact ⟨x, hx, hy⟩
  · exact ⟨x', hx', rfl, rfl⟩

theorem rnVerdict_req (mcf : MainConf) (status : RClient) (result : Option RateLimitResult)
    (x : ReqCtx) : (rnVerdict mcf status result x).req = x.req := by
  unfold rnVerdict
  split
  · split_ifs <;> rfl
  · rfl

theorem modifyCtx_timerKept (hc : c ≠ c') (g : ReqCtx → ReqCtx) :
    f.req.TimerKept c (f.modifyCtx c' g).req := by
  intro x' hx' hsome
  refine ⟨x', ?_, rfl, rfl⟩
  have hsame : (f.req.ctxs.modify c' g)[c]? = f.req.ctxs[c]? := List.getElem?_modify_ne g _ hc.symm
  exact hsame.symm.trans hx'

/-- The callback takes the timer and the handle of one context, and leaves the others. -/
theorem rnRateCb_ctx {mcf : MainConf} {q : ℕ} {status : RClient}
    {result : Option RateLimitResult} {x' : ReqCtx}
    (hx' : x' ∈ (rnRateCb mcf q status result f).1.req.ctxs[c]?) :
    (x'.timer = none ∧ x'.req = none) ∨ x' ∈ f.req.ctxs[c]? := by
  unfold rnRateCb at hx'
  split at hx'
  · exact .inr hx'
  next c' _ =>
    split at hx'
    · exact .inr hx'
    next x hx =>
      split_ifs at hx' with hskip
      · exact .inr hx'
      · have hq : x.req = some q := by
          simp only [Bool.or_eq_true, Bool.not_eq_true', bne_iff_ne, ne_eq, not_or,
            not_not] at hskip
          exact hskip.2
        rw [Option.mem_def, Frame.store, List.getElem?_set] at hx'
        split_ifs at hx' with hcc hlt
        · refine .inl ?_
          obtain rfl := Option.some.inj hx'
          rw [rnRateCbOwned, Live.mapCtx_ctx, rnVerdict_timer, rnVerdict_req]
          simp [rnRequestTeardown, hq, ReqCtx.tornDown]
        · exact .inr hx'

theorem rnRateCb_timerKept (mcf : MainConf) (q : ℕ) (status : RClient)
    (result : Option RateLimitResult) :
    f.req.TimerKept c (rnRateCb mcf q status result f).1.req := by
  intro x' hx' hsome
  rcases rnRateCb_ctx hx' with ⟨hnone, -⟩ | hold
  · rw [hnone] at hsome
    cases hsome
  · exact ⟨x', hold, rfl, rfl⟩

theorem cleanup_timerKept : f.req.TimerKept c (f.cleanup c').req := by
  unfold Frame.cleanup
  split
  · exact .refl c _
  next x hx => exact .set hx (.inl rfl) rfl

theorem runCleanup_timerKept : ∀ (chain : List Cleanup) {f : Frame},
    f.req.TimerKept c (f.runCleanup chain).req
  | [], _ => .refl c _
  | .other :: chain, _ => runCleanup_timerKept chain
  | .rn _ :: chain, _ => cleanup_timerKept.trans (runCleanup_timerKept chain)

theorem log_req (connection : Connection) (client : Bool) (x : ReqCtx) :
    (x.log connection client).1.req = x.req := by
  unfold ReqCtx.log
  split_ifs <;> rfl

theorem ngxHttpRnLogHandler_timerKept (endMs : ℕ) :
    f.req.TimerKept c (ngxHttpRnLogHandler endMs f).req := by
  unfold ngxHttpRnLogHandler
  split
  · exact .refl c _
  · split
    · exact .refl c _
    · split
      · exact .refl c _
      next x hx => exact .set hx (.inr ⟨log_timer .., log_req ..⟩) rfl

theorem rnRequestTimeoutHandler_timerKept (mcf : MainConf) (env : TimeoutEnv) (hc : c ≠ c') :
    f.req.TimerKept c (rnRequestTimeoutHandler mcf env c' f).req := by
  refine rnRequestTimeoutHandler_keeps (I := fun g => f.req.TimerKept c g.req) ?_ ?_ (.refl c _)
  · intro g hg
    exact hg.trans (modifyCtx_timerKept hc _)
  · intro x _ q _
    exact
      { update := fun g u _ hg => hg.trans (modifyCtx_timerKept hc u)
        retire := fun g q how hg => hg
        callback := fun g q status result hg => hg.trans (rnRateCb_timerKept mcf q status result) }

/-- The handler adds a context and leaves the others alone. -/
theorem ngxHttpRnHandler_timerKept (s : Setup) (env : HandlerEnv) (i : ℕ)
    (hc : c ≠ f.req.ctxs.length) :
    f.req.TimerKept c (ngxHttpRnHandler s env i f).1.req := by
  have hleaves := ngxHttpRnHandler_leaves s env i f.proc f.req
  have hpush : ∀ x, ∀ x' ∈ (f.req.ctxs ++ [x])[c]?, x' ∈ f.req.ctxs[c]? := by
    intro x x' hx'
    rw [Option.mem_def, List.getElem?_append] at hx'
    split_ifs at hx' with hlt
    · exact hx'
    · rw [List.getElem?_singleton] at hx'
      split_ifs at hx' with heq
      omega
  generalize (ngxHttpRnHandler s env i f).1 = f' at hleaves ⊢
  rcases hleaves with slot | _ | _
  · exact .of_ctxs rfl
  · exact fun x' hx' _ => ⟨x', hpush _ x' hx', rfl, rfl⟩
  · exact fun x' hx' _ => ⟨x', hpush _ x' hx', rfl, rfl⟩

end Kept

/-! ## Timers that an event arms -/

/-- The handles that the client of the process has given out. -/
def Proc.handles (p : Proc) : ℕ :=
  (p.client.map (·.requests.length)).getD 0

/-- A timer of the context is armed for the handle `q`, with the time to the deadline the client
reports at the start. -/
def ReqCtx.ArmedAtStart (env : HandlerEnv) (q : ℕ) (x : ReqCtx) : Prop :=
  ∀ d ∈ x.timer, x.req = some q ∧ ∃ deadline ∈ env.deadlineMs, d = timerDelay deadline env.nowMs

/-- The delays that the timeout handler arms. -/
def TimeoutEnv.Arms (env : TimeoutEnv) (d : ℕ) : Prop :=
  (∃ deadline ∈ env.deadlineMs, d = deadline - env.nowMs) ∨
    ∃ deadline ∈ env.deadlineMs', d = timerDelay deadline env.nowMs'

section Armed

variable {s : Setup} {env : HandlerEnv} {f : Frame} {c q : ℕ}

theorem ReqCtx.armedAtStart_of_none {x : ReqCtx} (h : x.timer = none) : x.ArmedAtStart env q := by
  intro d hd
  rw [h] at hd
  cases hd

theorem rnPublish_armedAtStart (l : Live) : (rnPublish env q l).ctx.ArmedAtStart env q := by
  intro d hd
  obtain ⟨deadline, hdeadline, rfl⟩ := Option.map_eq_some_iff.mp hd
  exact ⟨rfl, deadline, hdeadline, rfl⟩

theorem rnStart_armedAtStart (mcf : MainConf) (i : ℕ) (client : Client) (check : RateCheck)
    {l : Live} (h : l.ctx.timer = none) :
    (rnStart mcf env i client check l).live.ctx.ArmedAtStart env client.requests.length := by
  simp only [rnStart]
  split_ifs
  · exact ReqCtx.armedAtStart_of_none h
  · exact rnPublish_armedAtStart _
  · exact ReqCtx.armedAtStart_of_none rfl

/-- The worker that the handler ensures has given out no further handle. -/
theorem rnEnsured_handles (env : InitEnv) (p : Proc) :
    (rnEnsured s env p).1.handles = p.handles := by
  unfold rnEnsured
  split_ifs with hnone
  · rcases rnWorkerEnsure_worker s.conf.main s.bind env p with h | ⟨hp, udp, h⟩
    · simp only [Proc.handles, Proc.client, h]
    · simp [Proc.handles, Proc.client, h, hp, Client.create]
  · rfl

theorem rnAdmit_armedAtStart (lcf : LocConf) (i : ℕ) {l : Live} (h : l.ctx.timer = none) :
    (rnAdmit s lcf env i l).live.ctx.ArmedAtStart env l.proc.handles := by
  have hhandles := rnEnsured_handles (s := s) env.init l.proc
  unfold rnAdmit
  split
  next proc heq =>
    rw [heq] at hhandles
    split
    next client hclient =>
      have hlength : client.requests.length = l.proc.handles := by
        rw [← hhandles]
        simp [Proc.handles, hclient]
      rw [← hlength]
      simp only [rnCheck]
      split_ifs
      · refine ReqCtx.armedAtStart_of_none ?_
        exact (rnAttachReport_timer ..).trans h
      · split
        · refine ReqCtx.armedAtStart_of_none ?_
          exact (rnFinishStop_timer ..).trans ((rnAttachReport_timer ..).trans h)
        · refine rnStart_armedAtStart _ i _ _ ?_
          exact (rnAttachReport_timer ..).trans h
    · exact ReqCtx.armedAtStart_of_none h
  · exact ReqCtx.armedAtStart_of_none h

/-- The timer of the context that a run of the handler adds. -/
theorem ngxHttpRnHandler_armedAtStart (i : ℕ) {x : ReqCtx}
    (hx : x ∈ (ngxHttpRnHandler s env i f).1.req.ctxs[f.req.ctxs.length]?) :
    x.ArmedAtStart env f.proc.handles := by
  have hleaves := ngxHttpRnHandler_leaves s env i f.proc f.req
  generalize (ngxHttpRnHandler s env i f).1 = f' at hleaves hx
  rcases hleaves with slot | _ | ⟨-, -, -, hadmit⟩
  · rw [List.getElem?_eq_none (Nat.le_refl _)] at hx
    cases hx
  · obtain rfl : _ = x := by simpa [Request.unregistered] using hx
    exact ReqCtx.armedAtStart_of_none rfl
  · subst hadmit
    obtain rfl : _ = x := by simpa [Request.registered] using hx
    exact rnAdmit_armedAtStart _ i rfl

/-- The context has no handle but `q`, and a timer only as the timeout handler arms it. -/
structure ReqCtx.ArmedAgain (env : TimeoutEnv) (q : ℕ) (x : ReqCtx) : Prop where
  req : ∀ q' ∈ x.req, q' = q
  timer : ∀ d ∈ x.timer, env.Arms d

/-- The timeout handler leaves its context so. -/
theorem rnRequestTimeoutHandler_armedAgain (mcf : MainConf) (env : TimeoutEnv) {x : ReqCtx}
    (hx : f.req.ctxs[c]? = some x) (hq : x.req = some q) :
    ∀ x' ∈ (rnRequestTimeoutHandler mcf env c f).req.ctxs[c]?, x'.ArmedAgain env q := by
  have hmodify : ∀ (g : Frame) (u : ReqCtx → ReqCtx),
      (∀ y ∈ g.req.ctxs[c]?, (u y).ArmedAgain env q) →
        ∀ x' ∈ (g.modifyCtx c u).req.ctxs[c]?, x'.ArmedAgain env q := by
    intro g u hg x' hx'
    have hget : (g.req.ctxs.modify c u)[c]? = some x' := hx'
    rw [List.getElem?_modify_eq, Option.map_eq_map, Option.map_eq_some_iff] at hget
    obtain ⟨y, hy, rfl⟩ := hget
    exact hg y hy
  have hkept : KeptByTimeout mcf env c
      fun g => ∀ x' ∈ g.req.ctxs[c]?, x'.ArmedAgain env q := by
    refine ⟨fun g u hu hg => hmodify g u fun y hy => ?_, fun g q how hg => hg, ?_⟩
    · have hold := hg y hy
      rcases hu with b | _ | @⟨deadline, hdeadline⟩
      · exact ⟨hold.req, hold.timer⟩
      · refine ⟨hold.req, fun d hd => ?_⟩
        obtain ⟨deadline, hdeadline, rfl⟩ := Option.map_eq_some_iff.mp hd
        exact .inl ⟨deadline, hdeadline, rfl⟩
      · refine ⟨hold.req, ?_⟩
        rintro d ⟨⟩
        exact .inr ⟨deadline, hdeadline, rfl⟩
    · intro g q' status result hg x' hx'
      rcases rnRateCb_ctx hx' with ⟨htimer, hreq⟩ | hold
      · exact ⟨by simp [hreq], by simp [htimer]⟩
      · exact hg x' hold
  -- the timer has fired : the context has none until one is armed again
  have hfired : ∀ x' ∈ (f.modifyCtx c ({ · with timer := none })).req.ctxs[c]?,
      x'.ArmedAgain env q := by
    refine hmodify f _ fun y hy => ?_
    obtain rfl : x = y := Option.some.inj (hx.symm.trans hy)
    exact ⟨by simp [hq], by simp⟩
  simp only [rnRequestTimeoutHandler, hx, hq]
  split_ifs
  · exact hfired
  · exact hkept.update _ _ .early hfired
  · exact rnOnTimeout_keeps hkept hfired q x

end Armed

/-! ## The process on the clock -/

/-- The timer of context `c` of request `i`. -/
def World.timerOf (w : World) (i c : ℕ) : Option ℕ :=
  (w.reqs[i]?).bind fun r => (r.ctxs[c]?).bind ReqCtx.timer

/-- The event may arm the timer of context `c` of request `i` : a run of the handler that of the
context it adds, and a timer that fires itself. -/
def Event.arms (w : World) : Event → ℕ × ℕ → Bool
  | .handler i _, k => k.1 == i && (w.reqs[i]?).any fun r => k.2 == r.ctxs.length
  | .timeout i c _, k => k == (i, c)
  | _, _ => false

section Next

variable {s : Setup} {w : World} {i c : ℕ}

theorem World.timerOf_eq_some {d : ℕ} : w.timerOf i c = some d ↔
    ∃ r, w.reqs[i]? = some r ∧ ∃ x, r.ctxs[c]? = some x ∧ x.timer = some d := by
  simp only [World.timerOf, Option.bind_eq_some_iff]

theorem World.handleOf_eq_some {q : ℕ} : w.handleOf i c = some q ↔
    ∃ r, w.reqs[i]? = some r ∧ ∃ x, r.ctxs[c]? = some x ∧ x.req = some q := by
  simp only [World.handleOf, Option.bind_eq_some_iff]

/-- What an event of a request leaves of it. -/
theorem next_request_own {e : Event} {r r' : Request} (hr : w.reqs[i]? = some r)
    (he : e.request = some i) (hr' : (w.next s e).reqs[i]? = some r') :
    (e.run s i ⟨w.proc, r⟩).req = r' := by
  rw [next_request hr, if_pos he] at hr'
  exact Option.some.inj hr'

/-- A timer that the event does not arm was armed before, for the same handle. -/
theorem Event.run_timerKept {e : Event} {r : Request} (hr : w.reqs[i]? = some r)
    (he : e.request = some i) (harms : e.arms w (i, c) = false) :
    r.TimerKept c (e.run s i ⟨w.proc, r⟩).req := by
  cases e with
  | handler j env =>
    obtain rfl : j = i := Option.some.inj he
    refine ngxHttpRnHandler_timerKept (f := ⟨w.proc, r⟩) s env j ?_
    rintro rfl
    simp [Event.arms, hr] at harms
  | timeout j c' env =>
    obtain rfl : j = i := Option.some.inj he
    refine rnRequestTimeoutHandler_timerKept (f := ⟨w.proc, r⟩) _ env ?_
    rintro rfl
    simp [Event.arms] at harms
  | complete _ q status result =>
    exact rnRateCb_timerKept (f := ⟨w.proc.mapClient (·.retire q .completed), r⟩) _ q status result
  | stray _ q status result => exact rnRateCb_timerKept (f := ⟨w.proc, r⟩) _ q status result
  | cleanup => exact cleanup_timerKept (f := ⟨w.proc, r⟩)
  | release => exact runCleanup_timerKept r.cleanup (f := ⟨w.proc, r⟩)
  | log j endMs => exact ngxHttpRnLogHandler_timerKept (f := ⟨w.proc, r⟩) endMs
  | verdict =>
    refine .of_ctxs ?_
    simp only [Event.run, ngxHttpRnVerdictVariable]
    split <;> exact rnGetRequestCtx_ctxs r
  | _ => exact .of_ctxs rfl

/-- The same in the process. -/
theorem next_timerKept {e : Event} (hen : e.Enabled s w) (harms : e.arms w (i, c) = false) {d : ℕ}
    (hd : (w.next s e).timerOf i c = some d) :
    w.timerOf i c = some d ∧ (w.next s e).handleOf i c = w.handleOf i c := by
  obtain ⟨r', hr', x', hx', htimer⟩ := World.timerOf_eq_some.mp hd
  cases hr : w.reqs[i]? with
  | none =>
    obtain ⟨main, startMs, lcf, -, rfl⟩ := next_request_new hr hen hr'
    cases hx'
  | some r =>
    have hnext := next_request (s := s) hr e
    rw [hr', Option.some.injEq] at hnext
    have hkept : r.TimerKept c r' := by
      rw [hnext]
      split_ifs with he
      · exact Event.run_timerKept hr he harms
      · exact .refl c r
    obtain ⟨x, hx, hsame, hreq⟩ := hkept x' hx' (by simp [htimer])
    refine ⟨World.timerOf_eq_some.mpr ⟨r, hr, x, hx, hsame ▸ htimer⟩, ?_⟩
    simp only [Option.mem_def] at hx
    simp [World.handleOf, hr, hr', hx, hx', hreq]

end Next

/-- A worker process with, for each handle, the reading of the clock at the start of its request
and the number of times its timer fired. -/
structure Watched where
  world : World
  startMs : ℕ → ℕ
  fired : ℕ → ℕ

/-- A process that has just been started. -/
def Watched.init : Watched where
  world := World.init
  startMs := fun _ => 0
  fired := fun _ => 0

/-- What an event adds to the notes : the start of the next handle, or a firing. -/
def Watched.note (v : Watched) : Event → Watched
  | .handler _ env => { v with startMs := Function.update v.startMs v.world.nextHandle env.nowMs }
  | .timeout i c _ =>
    match v.world.handleOf i c with
    | none => v
    | some q => { v with fired := Function.update v.fired q (v.fired q + 1) }
  | _ => v

/-- The deadlines that the C client reports are at most `H` after the start. -/
def Event.InHorizon (H : ℕ) (v : Watched) : Event → Prop
  | .handler _ env => ∀ d ∈ env.deadlineMs, d ≤ env.nowMs + H
  | .timeout i c env => ∀ q ∈ v.world.handleOf i c,
    (∀ d ∈ env.deadlineMs, d ≤ v.startMs q + H) ∧ ∀ d ∈ env.deadlineMs', d ≤ v.startMs q + H
  | _ => True

/-- The process with what is noted of it. -/
def watched (s : Setup) : Machine Watched Event where
  enabled v e := e.Enabled s v.world ∧ e.Orderly v.world ∧
    e.InHorizon s.conf.main.requestPolicy.horizon v
  next v e := { v.note e with world := v.world.next s e }

/-- The timers of the process. -/
def requestTimers : Timers Watched Event (ℕ × ℕ) where
  delay v k := v.world.timerOf k.1 k.2
  arms v e k := e.arms v.world k

/-- nginx reads its clock once per turn of the event loop : every reading is the time at which
the event happens. -/
def Event.ReadsAt (n : ℕ) : Event → Prop
  | .handler _ env => env.nowMs = n
  | .timeout _ _ env => env.nowMs = n ∧ env.nowMs' = n
  | _ => True

/-- The runs of the process on an event loop that handles a timer at most `late` after it is
due. The clock starts at `t₀`. -/
abbrev PunctualRun (s : Setup) (late t₀ : ℕ) (es : List (Clocked Event))
    (t : Timed Watched (ℕ × ℕ)) : Prop :=
  Run ((watched s).timed requestTimers Event.ReadsAt late) ⟨Watched.init, t₀, fun _ => 0⟩ es t

section Bound

variable {s : Setup} {late : ℕ}

/-- When the timer of a context is due at the latest. -/
def Watched.bound (s : Setup) (late : ℕ) (v : Watched) (k : ℕ × ℕ) : ℕ :=
  ((v.world.handleOf k.1 k.2).map fun q =>
    v.startMs q + s.conf.main.requestPolicy.horizon + v.fired q * late).getD 0

theorem Watched.bound_eq {v : Watched} {k : ℕ × ℕ} {q : ℕ}
    (h : v.world.handleOf k.1 k.2 = some q) : v.bound s late k =
      v.startMs q + s.conf.main.requestPolicy.horizon + v.fired q * late := by
  simp [Watched.bound, h]

/-- A context that is armed waits for a handle that was given out. -/
theorem World.Sound.armed_handle {w : World} (h : w.Sound) {i c d : ℕ}
    (hd : w.timerOf i c = some d) : ∃ q, w.handleOf i c = some q ∧ q < w.nextHandle := by
  obtain ⟨r, hr, x, hx, htimer⟩ := World.timerOf_eq_some.mp hd
  have hsound := h.ctx i r hr x (List.mem_of_getElem? hx)
  have hsome : x.req.isSome = true := by
    rw [← hsound.req, hsound.timer, htimer]
    rfl
  obtain ⟨q, hq⟩ := Option.isSome_iff_exists.mp hsome
  refine ⟨q, World.handleOf_eq_some.mpr ⟨r, hr, x, hx, hq⟩, ?_⟩
  obtain ⟨cl, hcl, cr, hcr, -⟩ := hsound.handle q hq
  simp only [Option.mem_def] at hcl hcr
  have hlt := (List.getElem?_eq_some_iff.mp hcr).1
  simpa [World.nextHandle, hcl] using hlt

theorem Watched.note_startMs {v : Watched} {q : ℕ} (hq : q < v.world.nextHandle) (e : Event) :
    (v.note e).startMs q = v.startMs q := by
  cases e with
  | handler _ env => exact Function.update_of_ne (by omega) _ _
  | timeout i c env =>
    simp only [Watched.note]
    split <;> rfl
  | _ => rfl

theorem Watched.le_note_fired (v : Watched) (q : ℕ) (e : Event) :
    v.fired q ≤ (v.note e).fired q := by
  cases e with
  | timeout i c env =>
    simp only [Watched.note]
    split
    · exact Nat.le_refl _
    next q' _ =>
      by_cases hq : q = q'
      · subst hq
        simp
      · simp [Function.update_of_ne hq]
  | _ => exact Nat.le_refl _

/-- A timer that an event leaves alone is due within the bound it had. -/
theorem watched_alone {v : Watched} {e : Event} {k : ℕ × ℕ} {d : ℕ} (hv : v.world.Sound)
    (he : (watched s).enabled v e) (harms : requestTimers.arms v e k = false)
    (hd : requestTimers.delay ((watched s).next v e) k = some d) :
    requestTimers.delay v k = some d ∧
      v.bound s late k ≤ ((watched s).next v e).bound s late k := by
  obtain ⟨hkept, hhandle⟩ := next_timerKept he.1 harms hd
  obtain ⟨q, hq, hlt⟩ := hv.armed_handle hkept
  refine ⟨hkept, ?_⟩
  have hstart : ((watched s).next v e).startMs q = v.startMs q := v.note_startMs hlt e
  have hfired : v.fired q ≤ ((watched s).next v e).fired q := v.le_note_fired q e
  rw [Watched.bound_eq hq, Watched.bound_eq (hhandle.trans hq), hstart]
  exact Nat.add_le_add_left (Nat.mul_le_mul_right late hfired) _

/-- The handler arms a timer that is due within the horizon. -/
theorem watched_started {v : Watched} {i : ℕ} {env : HandlerEnv} {k : ℕ × ℕ} {d n : ℕ}
    (he : (watched s).enabled v (.handler i env)) (hn : env.nowMs = n)
    (harms : requestTimers.arms v (.handler i env) k = true)
    (hd : requestTimers.delay ((watched s).next v (.handler i env)) k = some d) :
    n + d ≤ ((watched s).next v (.handler i env)).bound s late k := by
  obtain ⟨i', c⟩ := k
  obtain ⟨⟨r, hr, -⟩, -, hdeadline⟩ := he
  simp only [requestTimers, Event.arms, Bool.and_eq_true, beq_iff_eq] at harms
  obtain ⟨rfl, hlength⟩ := harms
  simp only [Option.mem_def] at hr
  obtain rfl : c = r.ctxs.length := by simpa [hr] using hlength
  obtain ⟨r', hr', x, hx, htimer⟩ := World.timerOf_eq_some.mp hd
  obtain rfl : (ngxHttpRnHandler s env i' ⟨v.world.proc, r⟩).1.req = r' :=
    next_request_own hr rfl hr'
  obtain ⟨hreq, deadline, hmem, rfl⟩ :=
    ngxHttpRnHandler_armedAtStart (f := ⟨v.world.proc, r⟩) i' hx d htimer
  have hhandle : ((watched s).next v (.handler i' env)).world.handleOf i' r.ctxs.length =
      some v.world.nextHandle := World.handleOf_eq_some.mpr ⟨_, hr', x, hx, hreq⟩
  have hstart : ((watched s).next v (.handler i' env)).startMs v.world.nextHandle = env.nowMs :=
    Function.update_self _ _ _
  have hle := hdeadline deadline hmem
  rw [Watched.bound_eq hhandle, hstart]
  unfold timerDelay
  split_ifs <;> omega

/-- The timeout handler arms a timer that is due within the horizon, or at once. -/
theorem watched_rearmed {v : Watched} {i c : ℕ} {env : TimeoutEnv} {d n : ℕ} (hv : v.world.Sound)
    (he : (watched s).enabled v (.timeout i c env)) (hn : env.nowMs = n ∧ env.nowMs' = n)
    (hd : requestTimers.delay ((watched s).next v (.timeout i c env)) (i, c) = some d)
    (hold : ∀ d' ∈ requestTimers.delay v (i, c), n ≤ v.bound s late (i, c) + late) :
    n + d ≤ ((watched s).next v (.timeout i c env)).bound s late (i, c) := by
  have hsound : ((watched s).next v (.timeout i c env)).world.Sound := next_sound hv he.1 he.2.1
  obtain ⟨⟨r, hr, x, hx, hsome⟩, -, hdeadlines⟩ := he
  simp only [Option.mem_def] at hr hx
  obtain ⟨d', htimer⟩ := Option.isSome_iff_exists.mp hsome
  have hdelay : v.world.timerOf i c = some d' := World.timerOf_eq_some.mpr ⟨r, hr, x, hx, htimer⟩
  obtain ⟨q, hhandle, hlt⟩ := hv.armed_handle hdelay
  have hdue := hold d' hdelay
  rw [Watched.bound_eq hhandle] at hdue
  obtain ⟨hdeadline, hdeadline'⟩ := hdeadlines q hhandle
  -- the context after the event has the same handle, and a delay from one of the deadlines
  obtain ⟨r₁, hr₁, x₁, hx₁, hq⟩ := World.handleOf_eq_some.mp hhandle
  obtain rfl : r = r₁ := Option.some.inj (hr.symm.trans hr₁)
  obtain rfl : x = x₁ := Option.some.inj (hx.symm.trans hx₁)
  obtain ⟨r', hr', x', hx', htimer'⟩ := World.timerOf_eq_some.mp hd
  obtain rfl : (rnRequestTimeoutHandler s.conf.main env c ⟨v.world.proc, r⟩).req = r' :=
    next_request_own hr rfl hr'
  have hagain := rnRequestTimeoutHandler_armedAgain (f := ⟨v.world.proc, r⟩) s.conf.main env hx hq
    x' hx'
  obtain ⟨q', hhandle', -⟩ := hsound.armed_handle hd
  obtain ⟨r₂, hr₂, x₂, hx₂, hq'⟩ := World.handleOf_eq_some.mp hhandle'
  obtain rfl := Option.some.inj (hr'.symm.trans hr₂)
  obtain rfl : x' = x₂ := Option.some.inj (hx'.symm.trans hx₂)
  obtain rfl : q' = q := hagain.req q' hq'
  have hstart : ((watched s).next v (.timeout i c env)).startMs q' = v.startMs q' :=
    v.note_startMs hlt _
  have hfired : ((watched s).next v (.timeout i c env)).fired q' = v.fired q' + 1 := by
    simp [watched, Watched.note, hhandle]
  rw [Watched.bound_eq hhandle', hstart, hfired, Nat.add_mul, Nat.one_mul]
  rcases hagain.timer d htimer' with ⟨deadline, hmem, rfl⟩ | ⟨deadline, hmem, rfl⟩
  · have hle := hdeadline deadline hmem
    omega
  · have hle := hdeadline' deadline hmem
    unfold timerDelay
    split_ifs <;> omega

/-- What bounds the timers of the process. -/
theorem watched_bounded (s : Setup) (late : ℕ) :
    requestTimers.Bounded (watched s) Event.ReadsAt late (fun v => v.world.Sound)
      (Watched.bound s late) where
  step := fun hv he => next_sound hv he.1 he.2.1
  alone := fun hv he harms hd => watched_alone hv he harms hd
  armed := by
    intro v e k d n hv he hn harms hd hold
    cases e with
    | handler i env => exact watched_started he hn harms hd
    | timeout i c env =>
      obtain rfl : k = (i, c) := by simpa [requestTimers, Event.arms] using harms
      exact watched_rearmed hv he hn hd hold
    | _ => cases harms

end Bound

/-- A request that waits has waited at most the horizon of the policy, and the lateness of the
event loop once more than its timer fired. -/
theorem waits_within_horizon {s : Setup} {late t₀ : ℕ} {es : List (Clocked Event)}
    {t : Timed Watched (ℕ × ℕ)} (h : PunctualRun s late t₀ es t) :
    ∀ r ∈ t.state.world.reqs, ∀ x ∈ r.ctxs, x.waiting = true → ∃ q, x.req = some q ∧
      t.now ≤ t.state.startMs q + s.conf.main.requestPolicy.horizon +
        (t.state.fired q + 1) * late := by
  obtain ⟨hsound, hwithin⟩ := h.timers_within (watched_bounded s late) World.Sound.init
    fun k => rfl
  intro r hr x hx hwait
  obtain ⟨i, hi⟩ := List.mem_iff_getElem?.mp hr
  obtain ⟨c, hc⟩ := List.mem_iff_getElem?.mp hx
  have hagrees := (hsound.ctx i r hi x hx).agrees
  obtain ⟨d, hd⟩ := Option.isSome_iff_exists.mp (hagrees.timer.mp hwait)
  obtain ⟨q, hq⟩ := Option.isSome_iff_exists.mp (hagrees.req.mp hwait)
  have hhandle : t.state.world.handleOf i c = some q :=
    World.handleOf_eq_some.mpr ⟨r, hi, x, hc, hq⟩
  obtain ⟨hlate, hdue⟩ := hwithin (i, c) d (World.timerOf_eq_some.mpr ⟨r, hi, x, hc, hd⟩)
  rw [Watched.bound_eq hhandle] at hdue
  refine ⟨q, hq, ?_⟩
  rw [Nat.add_mul, Nat.one_mul]
  omega

/-! ### A run on the clock -/

instance Event.decidableInHorizon (H : ℕ) (v : Watched) (e : Event) : Decidable (e.InHorizon H v) :=
  match e with
  | .handler _ env => inferInstanceAs (Decidable (∀ d ∈ env.deadlineMs, d ≤ env.nowMs + H))
  | .timeout i c env => inferInstanceAs (Decidable (∀ q ∈ v.world.handleOf i c,
      (∀ d ∈ env.deadlineMs, d ≤ v.startMs q + H) ∧ ∀ d ∈ env.deadlineMs', d ≤ v.startMs q + H))
  | .accept .. | .redirect .. | .cleanupAdd .. | .verdict .. | .complete .. | .stray ..
  | .cleanup .. | .release .. | .log .. | .connection .. | .retain .. | .drop .. | .steering ..
  | .udpBegin | .udpEnd | .rebind .. => .isTrue trivial

instance Event.decidableReadsAt (n : ℕ) (e : Event) : Decidable (e.ReadsAt n) :=
  match e with
  | .handler _ env => inferInstanceAs (Decidable (env.nowMs = n))
  | .timeout _ _ env => inferInstanceAs (Decidable (env.nowMs = n ∧ env.nowMs' = n))
  | .accept .. | .redirect .. | .cleanupAdd .. | .verdict .. | .complete .. | .stray ..
  | .cleanup .. | .release .. | .log .. | .connection .. | .retain .. | .drop .. | .steering ..
  | .udpBegin | .udpEnd | .rebind .. => .isTrue trivial

/-- The contexts there are. -/
def World.keys (w : World) : List (ℕ × ℕ) :=
  w.reqs.zipIdx.flatMap fun p => (List.range p.1.ctxs.length).map (p.2, ·)

theorem World.mem_keys {w : World} {k : ℕ × ℕ} {d : ℕ} (h : w.timerOf k.1 k.2 = some d) :
    k ∈ w.keys := by
  obtain ⟨r, hr, x, hx, -⟩ := World.timerOf_eq_some.mp h
  have hlt := (List.getElem?_eq_some_iff.mp hx).1
  refine List.mem_flatMap.mpr ⟨(r, k.1), List.mem_zipIdx_iff_getElem?.mpr hr, ?_⟩
  exact List.mem_map.mpr ⟨k.2, List.mem_range.mpr hlt, rfl⟩

/-- Only the contexts there are can be overdue. -/
instance decidablePunctual (late : ℕ) (t : Timed Watched (ℕ × ℕ)) :
    Decidable (requestTimers.Punctual late t) :=
  decidable_of_iff (∀ k ∈ t.state.world.keys, ∀ d ∈ requestTimers.delay t.state k,
    t.now < t.armedAt k + d + late)
    ⟨fun h k d hd => h k (World.mem_keys hd) d hd, fun h k _ d hd => h k d hd⟩

instance decidableClocked (s : Setup) (late : ℕ) (t : Timed Watched (ℕ × ℕ)) (e : Clocked Event) :
    Decidable (((watched s).timed requestTimers Event.ReadsAt late).enabled t e) :=
  match e with
  | .tick => decidablePunctual late t
  | .event e => inferInstanceAs (Decidable ((e.Enabled s t.state.world ∧ e.Orderly t.state.world ∧
      e.InHorizon s.conf.main.requestPolicy.horizon t.state) ∧ e.ReadsAt t.now))

/-- A request whose timer fires a millisecond late and is armed again. -/
theorem sample_waits : ∃ es t, PunctualRun sampleSetup 1 0 es t ∧
    (∃ r ∈ t.state.world.reqs, ∃ x ∈ r.ctxs, x.waiting = true) ∧
    ∀ r ∈ t.state.world.reqs, ∀ x ∈ r.ctxs, x.waiting = true → ∃ q, x.req = some q ∧
      t.now ≤ t.state.startMs q + sampleConfig.main.requestPolicy.horizon +
        (t.state.fired q + 1) * 1 := by
  have hrun := Run.of_admits (s := ⟨Watched.init, 0, fun _ => 0⟩)
    (M := (watched sampleSetup).timed requestTimers Event.ReadsAt 1)
    (by decide +kernel : Machine.Admits _ _
      [.event (.accept true protectedLoc 0),
        .event (.handler 0 { sampleHandlerEnv with deadlineMs := some 1 }),
        .tick, .tick, .event (.timeout 0 0 ⟨2, some 1, .advanced, 2, some 4⟩), .tick])
  exact ⟨_, _, hrun, by decide +kernel, waits_within_horizon hrun⟩

end RlNginx
