import RlNginx.Phases

/-!
# Timers and the clock

A request that waits has a timer, armed with the time from a reading of the clock to the
deadline the C client reports. The clock is the time of day, which may be set back. A timer
armed after that runs for as long as the clock was set back, on top of what is left of the
horizon (`clock_set_back`).

`timers_within_horizon` says when the wait is bounded as documented : in every run in which
no reading that a timer is armed with is earlier than the reading at the start of its request,
every timer is armed with at most the horizon of the policy. The start of a request is known by
its handle. Readings that arm nothing are free (`Frame.Publishes`, `TimeoutEnv.Rearms`).
-/

open Transition

namespace RlNginx

/-! ## Deadlines and readings -/

/-- The handle of the next request of the C client. -/
def World.nextHandle (w : World) : ℕ :=
  (w.proc.client.map (·.requests.length)).getD 0

/-- The handle that context `c` of request `i` waits for. -/
def World.handleOf (w : World) (i c : ℕ) : Option ℕ :=
  (w.reqs[i]?).bind fun r => (r.ctxs[c]?).bind ReqCtx.req

/-- Every deadline the C client reports is at most `H` after the reading at the start of its
request. -/
def Event.DeadlinesWithin (H : ℕ) (startMs : ℕ → ℕ) (w : World) : Event → Prop
  | .handler _ env => ∀ d ∈ env.deadlineMs, d ≤ startMs w.nextHandle + H
  | .timeout i c env => ∀ q ∈ w.handleOf i c,
    (∀ d ∈ env.deadlineMs, d ≤ startMs q + H) ∧ ∀ d ∈ env.deadlineMs', d ≤ startMs q + H
  | _ => True

/-- The handler comes to the timer : it is not decided yet, nothing it needs on the way fails, and
the client tells the deadline. -/
structure Frame.Publishes (s : Setup) (env : HandlerEnv) (f : Frame) : Prop where
  starts : (rnGetRequestCtx f.req).Starts s
  allocCtx : env.allocCtx = true
  cleanupAdd : env.cleanupAdd = true
  ensured : (rnEnsured s env.init f.proc).2 = true
  client : (rnEnsured s env.init f.proc).1.client.isSome = true
  admission : f.req.lcf.admission = true
  expands : (rnPreflight s.conf.main f.req.lcf env.values).toOption.isSome = true
  start : env.start = true
  deadline : env.deadlineMs.isSome = true

instance (s : Setup) (env : HandlerEnv) (f : Frame) : Decidable (f.Publishes s env) :=
  decidable_of_iff ((rnGetRequestCtx f.req).Starts s ∧ env.allocCtx = true ∧
      env.cleanupAdd = true ∧ (rnEnsured s env.init f.proc).2 = true ∧
      (rnEnsured s env.init f.proc).1.client.isSome = true ∧ f.req.lcf.admission = true ∧
      (rnPreflight s.conf.main f.req.lcf env.values).toOption.isSome = true ∧
      env.start = true ∧ env.deadlineMs.isSome = true)
    ⟨fun ⟨h₁, h₂, h₃, h₄, h₅, h₆, h₇, h₈, h₉⟩ => ⟨h₁, h₂, h₃, h₄, h₅, h₆, h₇, h₈, h₉⟩,
      fun ⟨h₁, h₂, h₃, h₄, h₅, h₆, h₇, h₈, h₉⟩ => ⟨h₁, h₂, h₃, h₄, h₅, h₆, h₇, h₈, h₉⟩⟩

/-- `r_client_on_timeout` leaves the request to the handler : it does not fail, and it does not
complete the context in the slot. -/
def OnTimeout.GoesOn (inSlot : Prop) : OnTimeout → Prop
  | .completed _ _ => ¬inSlot
  | .advanced => True
  | .failed status => status = .ok

instance OnTimeout.decidableGoesOn (inSlot : Prop) [Decidable inSlot] (o : OnTimeout) :
    Decidable (o.GoesOn inSlot) :=
  match o with
  | .completed _ _ => inferInstanceAs (Decidable (¬inSlot))
  | .advanced => .isTrue trivial
  | .failed status => inferInstanceAs (Decidable (status = .ok))

/-- The timeout handler arms the timer for the next deadline : the one it woke up for has come. -/
def TimeoutEnv.Rearms (env : TimeoutEnv) (inSlot : Prop) : Prop :=
  (∀ d ∈ env.deadlineMs, d ≤ env.nowMs) ∧ env.onTimeout.GoesOn inSlot ∧
    env.deadlineMs'.isSome = true

instance (env : TimeoutEnv) (inSlot : Prop) [Decidable inSlot] : Decidable (env.Rearms inSlot) :=
  inferInstanceAs (Decidable (_ ∧ _ ∧ _))

/-- The slot of request `i` holds context `c`. -/
def World.InSlot (w : World) (i c : ℕ) : Prop :=
  ∃ r ∈ w.reqs[i]?, r.slot = some c

instance (w : World) (i c : ℕ) : Decidable (w.InSlot i c) :=
  inferInstanceAs (Decidable (∃ r ∈ w.reqs[i]?, r.slot = some c))

/-- No reading that a timer is armed with is earlier than that at the start of the request. -/
def Event.ClockNotBack (s : Setup) (startMs : ℕ → ℕ) (w : World) : Event → Prop
  | .handler i env => ∀ f ∈ w.frame i, f.Publishes s env → startMs w.nextHandle ≤ env.nowMs
  | .timeout i c env => ∀ q ∈ w.handleOf i c,
    (∀ d ∈ env.deadlineMs, env.nowMs < d → startMs q ≤ env.nowMs) ∧
      (env.Rearms (w.InSlot i c) → startMs q ≤ env.nowMs')
  | _ => True

instance Event.decidableDeadlinesWithin (H : ℕ) (startMs : ℕ → ℕ) (w : World) (e : Event) :
    Decidable (e.DeadlinesWithin H startMs w) :=
  match e with
  | .handler _ env =>
    inferInstanceAs (Decidable (∀ d ∈ env.deadlineMs, d ≤ startMs w.nextHandle + H))
  | .timeout i c env => inferInstanceAs (Decidable (∀ q ∈ w.handleOf i c,
      (∀ d ∈ env.deadlineMs, d ≤ startMs q + H) ∧ ∀ d ∈ env.deadlineMs', d ≤ startMs q + H))
  | .accept .. | .redirect .. | .cleanupAdd .. | .verdict .. | .complete .. | .stray ..
  | .cleanup .. | .release .. | .log .. | .connection .. | .retain .. | .drop .. | .steering ..
  | .udpBegin | .udpEnd | .rebind .. => .isTrue trivial

instance Event.decidableClockNotBack (s : Setup) (startMs : ℕ → ℕ) (w : World) (e : Event) :
    Decidable (e.ClockNotBack s startMs w) :=
  match e with
  | .handler i env => inferInstanceAs (Decidable (∀ f ∈ w.frame i, f.Publishes s env →
      startMs w.nextHandle ≤ env.nowMs))
  | .timeout i c env => inferInstanceAs (Decidable (∀ q ∈ w.handleOf i c,
      (∀ d ∈ env.deadlineMs, env.nowMs < d → startMs q ≤ env.nowMs) ∧
        (env.Rearms (w.InSlot i c) → startMs q ≤ env.nowMs')))
  | .accept .. | .redirect .. | .cleanupAdd .. | .verdict .. | .complete .. | .stray ..
  | .cleanup .. | .release .. | .log .. | .connection .. | .retain .. | .drop .. | .steering ..
  | .udpBegin | .udpEnd | .rebind .. => .isTrue trivial

/-! ## Armed timers -/

/-- The timer of a context is armed with at most `H`. -/
def ReqCtx.TimerWithin (H : ℕ) (x : ReqCtx) : Prop :=
  ∀ d ∈ x.timer, d ≤ H

/-- So are the timers of a request. -/
def Request.TimersWithin (H : ℕ) (r : Request) : Prop :=
  ∀ x ∈ r.ctxs, x.TimerWithin H

section Timers

variable {H : ℕ} {f : Frame} {x : ReqCtx}

theorem ReqCtx.timerWithin_of_none (h : x.timer = none) : x.TimerWithin H := by
  intro d hd
  rw [h] at hd
  cases hd

/-- A delay up to a deadline within the horizon, from a reading not before the start. -/
theorem timerDelay_le {deadline now start : ℕ} (hdeadline : deadline ≤ start + H)
    (hnow : start ≤ now) : timerDelay deadline now ≤ H := by
  unfold timerDelay
  split_ifs
  · omega
  · exact Nat.zero_le H

theorem Request.TimersWithin.set {r : Request} (h : r.TimersWithin H) (c : ℕ)
    (hx : x.TimerWithin H) : ∀ y ∈ r.ctxs.set c x, y.TimerWithin H := by
  intro y hy
  rcases List.mem_or_eq_of_mem_set hy with hy | rfl
  · exact h y hy
  · exact hx

theorem modifyCtx_timers (h : f.req.TimersWithin H) (c : ℕ) {g : ReqCtx → ReqCtx}
    (hg : ∀ x, x.TimerWithin H → (g x).TimerWithin H) :
    (f.modifyCtx c g).req.TimersWithin H := by
  intro y hy
  simp only [Frame.modifyCtx, List.modify_eq_set_getElem?] at hy
  rcases hx : f.req.ctxs[c]? with _ | x
  · rw [hx] at hy
    exact h y hy
  · rw [hx] at hy
    exact h.set c (hg x (h x (List.mem_of_getElem? hx))) y hy

theorem rnRequestTeardown_timer {l : Live} (h : l.ctx.TimerWithin H) (completed : Option ℕ)
    (cancel : Bool) : (rnRequestTeardown completed cancel l).ctx.TimerWithin H := by
  unfold rnRequestTeardown
  split
  · exact h
  · exact ReqCtx.timerWithin_of_none rfl

theorem rnVerdict_timer (mcf : MainConf) (status : RClient) (result : Option RateLimitResult) :
    (rnVerdict mcf status result x).timer = x.timer := by
  unfold rnVerdict
  split
  · split_ifs <;> rfl
  · rfl

theorem rnRateCb_timers (h : f.req.TimersWithin H) (mcf : MainConf) (q : ℕ) (status : RClient)
    (result : Option RateLimitResult) :
    (rnRateCb mcf q status result f).1.req.TimersWithin H := by
  unfold rnRateCb
  split
  · exact h
  next c _ =>
    split
    · exact h
    next x hx =>
      split_ifs
      · exact h
      · refine h.set c ?_
        intro d hd
        rw [rnRateCbOwned, Live.mapCtx_ctx, rnVerdict_timer] at hd
        refine rnRequestTeardown_timer ?_ (some q) false d hd
        exact h x (List.mem_of_getElem? hx)

/-- The timers that the timeout handler arms, for the handle its context waits for. -/
theorem TimerUpdate.timerWithin {env : TimeoutEnv} {g : ReqCtx → ReqCtx} {start : ℕ}
    (hg : TimerUpdate env g)
    (hdeadlines : (∀ d ∈ env.deadlineMs, d ≤ start + H) ∧ ∀ d ∈ env.deadlineMs', d ≤ start + H)
    (hearly : ∀ d ∈ env.deadlineMs, env.nowMs < d → start ≤ env.nowMs)
    (hagain : env.deadlineMs'.isSome = true → start ≤ env.nowMs') (hx : x.TimerWithin H) :
    (g x).TimerWithin H := by
  rcases hg with b | _ | @⟨deadline, hdeadline⟩
  · exact hx
  · intro d hd
    obtain ⟨deadline, hdeadline, rfl⟩ := Option.map_eq_some_iff.mp hd
    have hle := hdeadlines.1 deadline hdeadline
    have hnow := hearly deadline hdeadline
    omega
  · rintro d ⟨⟩
    exact timerDelay_le (hdeadlines.2 deadline hdeadline) (hagain (by simp [hdeadline]))

/-- The owner of the slot is told that the callback has run. -/
theorem rnRateCb_notified {c q : ℕ} (hslot : f.req.slot = some c)
    (hx : f.req.ctxs[c]? = some x) (hworker : x.worker = true) (hq : x.req = some q)
    (mcf : MainConf) (status : RClient) (result : Option RateLimitResult) :
    (rnRateCb mcf q status result f).2 = x.timeoutCompleted := by
  simp [rnRateCb, hslot, hx, hworker, hq]

/-- The second reading does not matter where no timer is armed with it. -/
theorem rnOnTimeout_stops {mcf : MainConf} {env : TimeoutEnv} {c q : ℕ}
    (hx : f.req.ctxs[c]? = some x) (hworker : x.worker = true) (hq : x.req = some q)
    (hstops : ¬env.onTimeout.GoesOn (f.req.slot = some c)) (y : ReqCtx) :
    rnOnTimeout mcf env c q y f = rnOnTimeout mcf { env with deadlineMs' := none } c q y f := by
  simp only [rnOnTimeout]
  cases hout : env.onTimeout with
  | completed status result =>
    have hslot : f.req.slot = some c := by
      rw [hout] at hstops
      exact not_not.mp hstops
    have hset : (f.modifyCtx c ({ · with timeoutCompleted := true })).req.ctxs[c]? =
        some { x with timeoutCompleted := true } := by simp [Frame.modifyCtx, hx]
    have hnotified := rnRateCb_notified (f := ⟨f.proc.mapClient (·.retire q .completed),
      (f.modifyCtx c ({ · with timeoutCompleted := true })).req⟩) hslot hset hworker hq mcf status
      result
    exact (if_pos hnotified).trans (if_pos hnotified).symm
  | advanced =>
    rw [hout] at hstops
    exact absurd trivial hstops
  | failed status =>
    rw [hout] at hstops
    have hstatus : status ≠ .ok := hstops
    simp only [rnAfterTimeout, if_pos hstatus]

/-- The timeout handler, for the handle its context waits for. -/
theorem rnRequestTimeoutHandler_timers (h : f.req.TimersWithin H) (mcf : MainConf)
    {env : TimeoutEnv} (c : ℕ) (startMs : ℕ → ℕ)
    (hdeadlines : ∀ x ∈ f.req.ctxs[c]?, ∀ q ∈ x.req,
      (∀ d ∈ env.deadlineMs, d ≤ startMs q + H) ∧ ∀ d ∈ env.deadlineMs', d ≤ startMs q + H)
    (hclock : ∀ x ∈ f.req.ctxs[c]?, ∀ q ∈ x.req,
      (∀ d ∈ env.deadlineMs, env.nowMs < d → startMs q ≤ env.nowMs) ∧
        (env.Rearms (f.req.slot = some c) → startMs q ≤ env.nowMs')) :
    (rnRequestTimeoutHandler mcf env c f).req.TimersWithin H := by
  have hfired : (f.modifyCtx c ({ · with timer := none })).req.TimersWithin H :=
    modifyCtx_timers h c fun _ _ => ReqCtx.timerWithin_of_none rfl
  simp only [rnRequestTimeoutHandler]
  split
  · exact h
  next x hx =>
    split
    · exact hfired
    next q hq =>
      obtain ⟨hdeadline, hdeadline'⟩ := hdeadlines x hx q hq
      obtain ⟨hearly, hagain⟩ := hclock x hx q hq
      -- the steps keep the bound for every second deadline whose reading is not back
      have hsteps : ∀ d' : Option ℕ, (∀ d ∈ d', d ≤ startMs q + H) →
          (d'.isSome = true → startMs q ≤ env.nowMs') →
          KeptByTimeout mcf { env with deadlineMs' := d' } c fun g => g.req.TimersWithin H :=
        fun d' hd' hnow' =>
          { update := fun g u hu hg => modifyCtx_timers hg c fun y hy =>
              hu.timerWithin ⟨hdeadline, hd'⟩ hearly hnow' hy
            retire := fun g q how hg => hg
            callback := fun g q status result hg => rnRateCb_timers hg mcf q status result }
      have hnever := hsteps none (by simp) (by simp)
      split_ifs with hgone hlater
      · exact hfired
      · exact hnever.update _ _ .early hfired
      · by_cases hgoes : env.onTimeout.GoesOn (f.req.slot = some c)
        · have hcome : ∀ d ∈ env.deadlineMs, d ≤ env.nowMs := by
            intro d hd
            by_contra hlt
            exact hlater ((Option.any_eq_true _ _).mpr ⟨d, hd, by simpa using hlt⟩)
          exact rnOnTimeout_keeps (hsteps env.deadlineMs' hdeadline' fun hsome =>
            hagain ⟨hcome, hgoes, hsome⟩) hfired q x
        · have hset : (f.modifyCtx c ({ · with timer := none })).req.ctxs[c]? =
              some { x with timer := none } := by simp [Frame.modifyCtx, hx]
          have hworker : x.worker = true := by
            simp only [Bool.or_eq_true, Bool.not_eq_true', not_or, Bool.not_eq_false] at hgone
            exact hgone.1
          rw [rnOnTimeout_stops hset hworker hq hgoes]
          exact rnOnTimeout_keeps hnever hfired q x

theorem cleanup_timers (h : f.req.TimersWithin H) (c : ℕ) :
    (f.cleanup c).req.TimersWithin H := by
  unfold Frame.cleanup
  split
  · exact h
  next x hx =>
    refine h.set c ?_
    exact ReqCtx.timerWithin_of_none rfl

theorem runCleanup_timers : ∀ (chain : List Cleanup) {f : Frame}, f.req.TimersWithin H →
    (f.runCleanup chain).req.TimersWithin H
  | [], _, h => h
  | .other :: chain, _, h => runCleanup_timers chain h
  | .rn c :: chain, _, h => runCleanup_timers chain (cleanup_timers h c)

theorem log_timer (connection : Connection) (client : Bool) (x : ReqCtx) :
    (x.log connection client).1.timer = x.timer := by
  unfold ReqCtx.log
  split_ifs <;> rfl

theorem ngxHttpRnLogHandler_timers (h : f.req.TimersWithin H) (endMs : ℕ) :
    (ngxHttpRnLogHandler endMs f).req.TimersWithin H := by
  unfold ngxHttpRnLogHandler
  split
  · exact h
  · split
    · exact h
    next c _ =>
      split
      · exact h
      next x hx =>
        refine h.set c ?_
        intro d hd
        rw [log_timer] at hd
        exact h x (List.mem_of_getElem? hx) d hd

end Timers

/-! ## The handler -/

section Handler

variable {H : ℕ} {env : HandlerEnv} {start : ℕ}

theorem rnFinishStop_timer (mcf : MainConf) (x : ReqCtx) (stop : Stop) :
    (rnFinishStop mcf x stop).timer = x.timer := by
  rcases stop <;> rfl

theorem rnAttachReport_timer (mcf : MainConf) (lcf : LocConf) (env : ReqEnv) (x : ReqCtx) :
    (rnAttachReport mcf lcf env x).timer = x.timer := by
  unfold rnAttachReport
  split_ifs
  · split
    · rfl
    · split <;> rfl
  · rfl

/-- A timer armed at the start of a request. -/
theorem rnPublish_timer (hdeadline : ∀ d ∈ env.deadlineMs, d ≤ start + H)
    (hnow : env.deadlineMs.isSome = true → start ≤ env.nowMs) (q : ℕ) (l : Live) :
    (rnPublish env q l).ctx.TimerWithin H := by
  intro d hd
  obtain ⟨deadline, hsome, rfl⟩ := Option.map_eq_some_iff.mp hd
  exact timerDelay_le (hdeadline deadline hsome) (hnow (by simp [hsome]))

theorem rnStart_timer (hdeadline : ∀ d ∈ env.deadlineMs, d ≤ start + H)
    (hnow : env.start = true → env.deadlineMs.isSome = true → start ≤ env.nowMs)
    (mcf : MainConf) (i : ℕ) (client : Client) (check : RateCheck) {l : Live}
    (h : l.ctx.timer = none) : (rnStart mcf env i client check l).live.ctx.TimerWithin H := by
  simp only [rnStart]
  split_ifs with hstart
  · exact ReqCtx.timerWithin_of_none h
  · exact rnPublish_timer hdeadline (hnow (by simpa using hstart)) _ _
  · exact ReqCtx.timerWithin_of_none rfl

theorem rnAdmit_timer {s : Setup} {f : Frame} (hdeadline : ∀ d ∈ env.deadlineMs, d ≤ start + H)
    (hstarts : (rnGetRequestCtx f.req).Starts s) (halloc : env.allocCtx = true)
    (hadd : env.cleanupAdd = true) (hnow : f.Publishes s env → start ≤ env.nowMs) (i n : ℕ)
    {x : ReqCtx} (h : x.timer = none) :
    (rnAdmit s f.req.lcf env i ⟨f.proc, n, x⟩).live.ctx.TimerWithin H := by
  unfold rnAdmit
  split
  next proc hens =>
    split
    next cl hcl =>
      simp only [rnCheck]
      split_ifs with hadm
      · refine ReqCtx.timerWithin_of_none ?_
        exact (rnAttachReport_timer ..).trans h
      · split
        · refine ReqCtx.timerWithin_of_none ?_
          exact (rnFinishStop_timer ..).trans ((rnAttachReport_timer ..).trans h)
        next check hcheck =>
          refine rnStart_timer hdeadline (fun hstart hsome => hnow ?_) _ i _ _ ?_
          · exact {
              starts := hstarts
              allocCtx := halloc
              cleanupAdd := hadd
              ensured := by rw [hens]
              client := by rw [hens, hcl]; rfl
              admission := by simpa using hadm
              expands := by rw [hcheck]; rfl
              start := hstart
              deadline := hsome }
          · exact (rnAttachReport_timer ..).trans h
    · exact ReqCtx.timerWithin_of_none h
  · exact ReqCtx.timerWithin_of_none h

theorem ngxHttpRnHandler_timers {s : Setup} {f : Frame} (h : f.req.TimersWithin H)
    (hdeadline : ∀ d ∈ env.deadlineMs, d ≤ start + H)
    (hnow : f.Publishes s env → start ≤ env.nowMs) (i : ℕ) :
    (ngxHttpRnHandler s env i f).1.req.TimersWithin H := by
  have hleaves := ngxHttpRnHandler_leaves s env i f.proc f.req
  generalize (ngxHttpRnHandler s env i f).1 = f' at hleaves ⊢
  rcases hleaves with slot | _ | ⟨hstarts, halloc, hadd, hadmit⟩
  · exact h
  · refine List.forall_mem_append.mpr ⟨h, ?_⟩
    exact List.forall_mem_singleton.mpr (ReqCtx.timerWithin_of_none rfl)
  · subst hadmit
    refine List.forall_mem_append.mpr ⟨h, ?_⟩
    exact List.forall_mem_singleton.mpr (rnAdmit_timer hdeadline hstarts halloc hadd hnow i _ rfl)

end Handler

/-! ## Runs -/

/-- The runs of a process whose client reports deadlines within the horizon, on a clock that is
not set back behind the start of a request when a timer is armed for it. -/
abbrev SteadyRun (s : Setup) (startMs : ℕ → ℕ) (es : List Event) (w : World) : Prop :=
  Run ((machine s).restrict fun w e =>
    e.DeadlinesWithin s.conf.main.requestPolicy.horizon startMs w ∧ e.ClockNotBack s startMs w)
    World.init es w

/-- In a run in which no reading that a timer is armed with is earlier than that at the start of
its request, every timer is armed with at most the horizon of the policy. So is the one that the
handler arms next, from such a reading, and removes at once when the read event cannot be
registered. -/
theorem timers_within_horizon (s : Setup) (startMs : ℕ → ℕ) {es : List Event} {w : World}
    (h : SteadyRun s startMs es w) :
    (∀ r ∈ w.reqs, ∀ x ∈ r.ctxs, ∀ d ∈ x.timer, d ≤ s.conf.main.requestPolicy.horizon) ∧
    ∀ i env, (Event.handler i env).DeadlinesWithin s.conf.main.requestPolicy.horizon startMs w →
      startMs w.nextHandle ≤ env.nowMs →
      ∀ q l, ∀ d ∈ (rnPublish env q l).ctx.timer, d ≤ s.conf.main.requestPolicy.horizon := by
  have hinv : ∀ i : ℕ, ∀ r ∈ w.reqs[i]?,
      Request.TimersWithin s.conf.main.requestPolicy.horizon r := by
    intro i
    refine request_invariant h ?_ ?_
    · intro main startMs lcf hlcf
      simp [Request.TimersWithin, Request.new]
    · rintro u e r hr hmine hen ⟨hdeadlines, hclock⟩ hI
      have hhandle : ∀ c, ∀ x ∈ r.ctxs[c]?, ∀ q ∈ x.req, u.handleOf i c = some q := by
        rintro c x hx q hq
        simp only [Option.mem_def] at hx hq
        simp [World.handleOf, hr, hx, hq]
      cases e with
      | handler j env =>
        obtain rfl : j = i := Option.some.inj hmine
        exact ngxHttpRnHandler_timers hI hdeadlines (hclock _ (by simp [World.frame, hr])) j
      | complete j q status result =>
        exact rnRateCb_timers (f := ⟨u.proc.mapClient (·.retire q .completed), r⟩) hI _ q status
          result
      | stray j q status result => exact rnRateCb_timers (f := ⟨u.proc, r⟩) hI _ q status result
      | timeout j c env =>
        obtain rfl : j = i := Option.some.inj hmine
        refine rnRequestTimeoutHandler_timers (f := ⟨u.proc, r⟩) hI _ c startMs ?_ ?_
        · exact fun x hx q hq => hdeadlines q (hhandle c x hx q hq)
        · intro x hx q hq
          obtain ⟨hearly, hagain⟩ := hclock q (hhandle c x hx q hq)
          have hslot : u.InSlot j c ↔ r.slot = some c := by simp [World.InSlot, hr]
          refine ⟨hearly, fun hrearms => hagain ?_⟩
          rw [hslot]
          exact hrearms
      | cleanup j c => exact cleanup_timers (f := ⟨u.proc, r⟩) hI c
      | release => exact runCleanup_timers r.cleanup (f := ⟨u.proc, r⟩) hI
      | log j endMs => exact ngxHttpRnLogHandler_timers (f := ⟨u.proc, r⟩) hI endMs
      | verdict =>
        simp only [Event.run, ngxHttpRnVerdictVariable, rnGetRequestCtx]
        split <;> split <;> exact hI
      | _ => exact hI
  constructor
  · intro r hr
    obtain ⟨i, hi⟩ := List.mem_iff_getElem?.mp hr
    exact hinv i r hi
  · intro i env hdeadlines hnow q l
    exact rnPublish_timer hdeadlines (fun _ => hnow) q l

/-- A request starts at 100000 with its deadline at the horizon. -/
def startAtHorizon : HandlerEnv :=
  { sampleHandlerEnv with deadlineMs := some 100060, nowMs := 100000 }

/-- A request whose timer fires early and is armed again. The handler runs once more while it
waits, on a clock that was set back, and arms nothing. -/
theorem steady_clock : ∃ es w, SteadyRun sampleSetup (fun _ => 100000) es w ∧
    (∃ r ∈ w.reqs, ∃ x ∈ r.ctxs, x.timer = some 20) ∧
    ∀ r ∈ w.reqs, ∀ x ∈ r.ctxs, ∀ d ∈ x.timer, d ≤ sampleConfig.main.requestPolicy.horizon := by
  have hrun := Run.of_admits (s := World.init) (M := (machine sampleSetup).restrict fun w e =>
    e.DeadlinesWithin sampleConfig.main.requestPolicy.horizon (fun _ => 100000) w ∧
      e.ClockNotBack sampleSetup (fun _ => 100000) w)
    (by decide +kernel : Machine.Admits _ World.init
      [.accept true protectedLoc 100000, .handler 0 startAtHorizon,
        .handler 0 sampleHandlerEnv,
        .timeout 0 0 ⟨100040, some 100060, .advanced, 100040, some 100060⟩])
  exact ⟨_, _, hrun, by decide +kernel, (timers_within_horizon sampleSetup _ hrun).1⟩

/-- The clock is set back by a minute while the request waits : its timer is armed with more
than a minute, where the horizon is 60 milliseconds. -/
theorem clock_set_back : ∃ es w, Run ((machine sampleSetup).restrict fun w e =>
      e.DeadlinesWithin sampleConfig.main.requestPolicy.horizon (fun _ => 100000) w)
      World.init es w ∧
    ∃ r ∈ w.reqs, ∃ x ∈ r.ctxs, x.timer = some 60020 ∧
      sampleConfig.main.requestPolicy.horizon = 60 := by
  refine ⟨[.accept true protectedLoc 100000, .handler 0 startAtHorizon,
    .timeout 0 0 ⟨40040, some 100060, .advanced, 40040, some 100060⟩], _,
    Run.of_admits (by decide +kernel), ?_⟩
  decide +kernel

end RlNginx
