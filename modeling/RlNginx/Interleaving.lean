import RlNginx.Lifecycle

/-!
# Any number of requests, any order of events

The invariant of the whole process (`World.Sound`) is that of each of its requests, with
the counters of the worker and the client's ledger shared among all of them. An event of
request `i` is checked against the invariant of that request alone (`World.Sound.frame`),
and an event of the worker itself changes neither the ledger nor the count in flight.

The completion of a handle finds its owner through the ledger : a handle that was started
and not retired is owned by one context, the client reports it to the request of that
context, and the context is in the slot.
-/

open Transition Tally Relation

namespace RlNginx

/-- The invariant of the process. -/
structure World.Sound (w : World) : Prop where
  inflight : w.proc.inflight = tally Request.inflight w.reqs
  ledger : ∀ q, w.proc.retired q + tally (Request.owns q) w.reqs = w.proc.started q
  count : ∀ r ∈ w.reqs, r.count = r.ngxRefs + r.counted
  ctx : ∀ (i : ℕ), ∀ r ∈ w.reqs[i]?, ∀ x ∈ r.ctxs, x.Sound w.proc i
  home : ∀ r ∈ w.reqs, ∀ (c : ℕ), ∀ x ∈ r.ctxs[c]?, x.waiting = true → r.Home c

theorem World.Sound.init : World.init.Sound where
  inflight := rfl
  ledger := fun _ => rfl
  count := by simp [World.init]
  ctx := by simp [World.init]
  home := by simp [World.init]

section Sound

variable {s : Setup} {w : World} {i : ℕ} {r : Request}

/-- The invariant of one request, and what it takes to restore that of the process. -/
theorem World.Sound.frame (h : w.Sound) (hr : w.reqs[i]? = some r) :
    ∃ o, Frame.Sound o i ⟨w.proc, r⟩ ∧
      ∀ f : Frame, f.Sound o i → w.proc.Grows f.proc → (w.store i f).Sound := by
  have hmem := List.mem_of_getElem? hr
  have hin := h.inflight
  have hle := le_tally Request.inflight hr
  have hle' := fun q => le_tally (Request.owns q) hr
  refine ⟨⟨tally Request.inflight w.reqs - r.inflight,
    fun q => tally (Request.owns q) w.reqs - r.owns q⟩, ⟨?_, h.count r hmem, fun q => ?_,
    h.ctx i r hr, h.home r hmem⟩, ?_⟩
  · simp only
    omega
  · have := h.ledger q
    have := hle' q
    simp only
    omega
  · intro f hf hgrows
    have hset := tally_set Request.inflight f.req hr
    refine ⟨?_, fun q => ?_, fun r' hr' => ?_, fun j r' hr' => ?_, fun r' hr' => ?_⟩
    · have := hf.inflight
      simp only [World.store] at this ⊢
      omega
    · have := hf.ledger q
      have := tally_set (Request.owns q) f.req hr
      have := hle' q
      simp only [World.store] at *
      omega
    · rcases List.mem_or_eq_of_mem_set hr' with hr' | rfl
      · exact h.count r' hr'
      · exact hf.count
    · simp only [World.store, Option.mem_def, List.getElem?_set] at hr'
      split_ifs at hr' with heq hlt
      · obtain rfl := Option.some.inj hr'
        exact heq ▸ hf.ctx
      · exact fun x hx => (h.ctx j r' hr' x hx).grows hgrows
    · rcases List.mem_or_eq_of_mem_set hr' with hr' | rfl
      · exact h.home r' hr'
      · exact hf.home

/-- A change of the worker that gives out nothing and takes back nothing. -/
theorem World.Sound.congr (h : w.Sound) {p : Proc} (hclient : p.client = w.proc.client)
    (hinflight : p.inflight = w.proc.inflight) : World.Sound { w with proc := p } where
  inflight := hinflight.trans h.inflight
  ledger := fun q => by
    rw [Proc.retired_congr hclient, Proc.started_congr hclient]
    exact h.ledger q
  count := h.count
  ctx := fun i r hr x hx => (h.ctx i r hr x hx).grows
    fun cl hcl => ⟨cl, hclient.trans hcl, List.prefix_rfl⟩
  home := h.home

theorem rnOnSteeringFeedback_shares (v : Worker) (keepPort : Bool) :
    (rnOnSteeringFeedback v keepPort).client = v.client ∧
      (rnOnSteeringFeedback v keepPort).inflight = v.inflight := by
  unfold rnOnSteeringFeedback
  split_ifs
  · exact ⟨rfl, rfl⟩
  · exact ⟨rnScheduleRebind_client _, rnScheduleRebind_inflight _⟩

theorem rnRebindHandler_shares (bind : Option AddressFamily) (env : SocketEnv) (v : Worker)
    (os : Os) : (rnRebindHandler bind env v os).1.client = v.client ∧
      (rnRebindHandler bind env v os).1.inflight = v.inflight := by
  simp only [rnRebindHandler, rnRebindSocket]
  split_ifs
  · exact ⟨rfl, rfl⟩
  · exact ⟨rnScheduleRebindAfter_client _ 1, rnScheduleRebindAfter_inflight _ 1⟩
  · rcases rnOpenSocketCandidate bind env os with ⟨os', _ | udp⟩
    · exact ⟨rnScheduleRebindAfter_client .., rnScheduleRebindAfter_inflight ..⟩
    · exact ⟨rfl, rfl⟩

theorem Proc.inflight_mapWorker {p : Proc} (f : Worker → Worker)
    (hf : ∀ v, (f v).inflight = v.inflight) : (p.mapWorker f).inflight = p.inflight := by
  simp only [Proc.inflight, Proc.mapWorker]
  cases p.worker with
  | none => rfl
  | some v => exact hf v

theorem Proc.rebind_shares (p : Proc) (bind : Option AddressFamily) (env : SocketEnv) :
    (p.rebind bind env).client = p.client ∧ (p.rebind bind env).inflight = p.inflight := by
  unfold Proc.rebind
  split
  · exact ⟨rfl, rfl⟩
  · rename_i v hv
    have hshares := rnRebindHandler_shares bind env { v with rebindTimer := none } p.os
    simp only [Proc.client, Proc.inflight, hv, Option.bind_some, Option.elim_some]
    exact hshares

/-- A new request owns nothing. -/
theorem World.Sound.accept (h : w.Sound) (main : Bool) (lcf : LocConf) (startMs : ℕ) :
    World.Sound { w with reqs := w.reqs ++ [Request.new main lcf startMs] } := by
  have hctxs : (Request.new main lcf startMs).ctxs = [] := rfl
  refine ⟨?_, fun q => ?_, fun r hr => ?_, fun i r hr => ?_, fun r hr => ?_⟩
  · simpa [Request.inflight, hctxs] using h.inflight
  · simpa [Request.owns, hctxs] using h.ledger q
  · rcases List.mem_append.mp hr with hr | hr
    · exact h.count r hr
    · obtain rfl := List.mem_singleton.mp hr
      simp [Request.counted, Request.new]
  · simp only [Option.mem_def, List.getElem?_append] at hr
    split_ifs at hr
    · exact h.ctx i r hr
    · obtain rfl := List.mem_singleton.mp (List.mem_of_getElem? hr)
      simp [hctxs]
  · rcases List.mem_append.mp hr with hr | hr
    · exact h.home r hr
    · obtain rfl := List.mem_singleton.mp hr
      simp [hctxs]

/-- An event of the worker itself, or a new request. -/
theorem runProc_sound (h : w.Sound) (s : Setup) (e : Event) : (e.runProc s w).Sound := by
  cases e with
  | accept main lcf startMs => exact h.accept main lcf startMs
  | steering keepPort =>
    exact h.congr (Proc.client_mapWorker _ fun v => (rnOnSteeringFeedback_shares v keepPort).1)
      (Proc.inflight_mapWorker _ fun v => (rnOnSteeringFeedback_shares v keepPort).2)
  | udpBegin | udpEnd =>
    exact h.congr (Proc.client_mapWorker _ fun _ => rfl) (Proc.inflight_mapWorker _ fun _ => rfl)
  | rebind env =>
    exact h.congr (w.proc.rebind_shares s.bind env).1 (w.proc.rebind_shares s.bind env).2
  | _ => exact h

/-- Such an event leaves the client as it is. -/
theorem runProc_client (w : World) (s : Setup) (e : Event) :
    (e.runProc s w).proc.client = w.proc.client := by
  cases e with
  | steering keepPort =>
    exact Proc.client_mapWorker _ fun v => (rnOnSteeringFeedback_shares v keepPort).1
  | udpBegin | udpEnd => exact Proc.client_mapWorker _ fun _ => rfl
  | rebind env => exact (w.proc.rebind_shares s.bind env).1
  | _ => rfl

/-- A handle that was started and not retired has an owner, in the request that the client
reports it to. -/
theorem World.Sound.owner (h : w.Sound) {cl : Client} (hcl : w.proc.client = some cl) {q : ℕ}
    (hlive : cl.Live q) {cr : ClientReq} (hcr : cl.requests[q]? = some cr) :
    ∃ r, w.reqs[cr.user]? = some r ∧ ∃ (c : ℕ) (x : ReqCtx), r.ctxs[c]? = some x ∧
      x.req = some q := by
  have hretired : w.proc.retired q = 0 := by
    simpa [Proc.retired, hcl, List.count_eq_zero] using hlive.2
  have hstarted : w.proc.started q = 1 := by
    simp [Proc.started, hcl, hlive.1]
  have howned := h.ledger q
  obtain ⟨j, r, hr, hpos⟩ := exists_of_tally_pos (Request.owns q) (l := w.reqs) (by omega)
  obtain ⟨c, x, hx, hown⟩ := exists_of_tally_pos (ReqCtx.owns q) hpos
  have hq : x.req = some q := by
    simp only [ReqCtx.owns] at hown
    split_ifs at hown with hq
    · exact hq
    · exact absurd hown (lt_irrefl 0)
  -- the handle leads back to the request whose context owns it
  obtain ⟨cl', hcl', cr', hcr', rfl⟩ := (h.ctx j r hr x (List.mem_of_getElem? hx)).handle q hq
  obtain rfl : cl = cl' := Option.some.inj (hcl.symm.trans hcl')
  obtain rfl : cr = cr' := Option.some.inj (hcr.symm.trans hcr')
  exact ⟨r, hr, c, x, hx, hq⟩

theorem World.next_eq {e : Event} (he : e.request = some i) (hr : w.reqs[i]? = some r) :
    w.next s e = w.store i (e.run s i ⟨w.proc, r⟩) := by
  simp [World.next, he, World.on, World.frame, hr]

theorem World.next_eq_runProc {e : Event} (he : e.request = none) : w.next s e = e.runProc s w := by
  simp [World.next, he]

/-- The client never forgets a request it started. -/
theorem next_grows (w : World) (s : Setup) (e : Event) : w.proc.Grows (w.next s e).proc := by
  cases he : e.request with
  | some i => exact (next_moves he).grows
  | none =>
    rw [World.next_eq_runProc he]
    exact fun cl hcl => ⟨cl, (runProc_client w s e).trans hcl, List.prefix_rfl⟩

/-- An event of request `i` keeps the invariant of the process when it keeps that of the
request. -/
theorem World.Sound.event (h : w.Sound) {e : Event} (he : e.request = some i)
    (hr : w.reqs[i]? = some r)
    (hrun : ∀ o, Frame.Sound o i ⟨w.proc, r⟩ → (e.run s i ⟨w.proc, r⟩).Sound o i) :
    (w.next s e).Sound := by
  obtain ⟨o, hf, hstore⟩ := h.frame hr
  rw [World.next_eq he hr]
  exact hstore _ (hrun o hf) (e.run_moves (s := s) i w.proc r).grows

/-- What is promised beyond `Event.Enabled` : nginx redirects no request that waits, and the
client can tell the deadline of a request it has just started. -/
def Event.Orderly (w : World) : Event → Prop
  | .redirect i _ => ∀ r ∈ w.reqs[i]?, ∀ x ∈ r.ctxs, x.waiting = false
  | .handler _ env => env.deadlineMs.isSome = true
  | _ => True

instance Event.decidableOrderly (w : World) (e : Event) : Decidable (e.Orderly w) :=
  match e with
  | .redirect i _ =>
    inferInstanceAs (Decidable (∀ r ∈ w.reqs[i]?, ∀ x ∈ r.ctxs, x.waiting = false))
  | .handler _ env => inferInstanceAs (Decidable (env.deadlineMs.isSome = true))
  | .accept .. | .cleanupAdd .. | .verdict .. | .complete .. | .stray .. | .timeout ..
  | .cleanup .. | .release .. | .log .. | .connection .. | .retain .. | .drop ..
  | .steering .. | .udpBegin | .udpEnd | .rebind .. => .isTrue trivial

/-- Every event keeps the invariant. -/
theorem next_sound (h : w.Sound) {e : Event} (hen : e.Enabled s w) (hok : e.Orderly w) :
    (w.next s e).Sound := by
  cases e with
  | accept | steering | udpBegin | udpEnd | rebind =>
    rw [World.next_eq_runProc rfl]
    exact runProc_sound h s _
  | handler i env =>
    obtain ⟨r, hr, hlive⟩ := hen
    exact h.event rfl hr fun o hf => ngxHttpRnHandler_sound hf hlive hok
  | redirect i lcf =>
    obtain ⟨-, r, hr, -⟩ := hen
    exact h.event rfl hr fun o hf => hf.congr rfl rfl (.inr (hok r hr))
  | cleanupAdd i =>
    obtain ⟨r, hr, -⟩ := hen
    exact h.event rfl hr fun o hf => hf.congr rfl rfl
      (.inl fun c hc => ⟨hc.slot, List.mem_cons_of_mem _ hc.cleanup, hc.live⟩)
  | verdict i =>
    obtain ⟨r, hr, -⟩ := hen
    refine h.event rfl hr fun o hf => ?_
    have hget := rnGetRequestCtx_sound hf
    simp only [Event.run, ngxHttpRnVerdictVariable]
    split <;> exact hget
  | complete i q status result =>
    obtain ⟨cl, hcl, hlive, cr, hcr, rfl⟩ := hen
    obtain ⟨r, hr, c, x, hx, hq⟩ := h.owner hcl hlive hcr
    refine h.event rfl hr fun o hf => ?_
    refine (rnRateCb_sound s hf hx hq ⟨rfl, rfl, rfl, rfl, rfl⟩ .completed s.conf.main status
      result ?_ rfl rfl fun _ hc => hc).1
    obtain ⟨_, rfl⟩ := List.getElem?_eq_some_iff.mp hx
    exact (List.set_getElem_self _).symm
  | stray i q status result =>
    obtain ⟨r, hr, hstray⟩ := hen
    refine h.event rfl hr fun o hf => ?_
    rw [Event.run, rnRateCb_stray s.conf.main status result hstray]
    exact hf
  | timeout i c env =>
    obtain ⟨r, hr, x, hx, htimer⟩ := hen
    exact h.event rfl hr fun o hf => rnRequestTimeoutHandler_sound s hf hx htimer _ env
  | cleanup i c =>
    obtain ⟨r, hr, -⟩ := hen
    exact h.event rfl hr fun o hf => cleanup_sound s hf c
  | release i =>
    obtain ⟨r, hr, -⟩ := hen
    exact h.event rfl hr fun o hf => release_sound s hf
  | log i endMs =>
    obtain ⟨r, hr, hreleased⟩ := hen
    exact h.event rfl hr fun o hf => ngxHttpRnLogHandler_sound hf hreleased endMs
  | connection i state =>
    obtain ⟨r, hr, -⟩ := hen
    exact h.event rfl hr fun o hf => hf.congr rfl rfl
      (.inl fun c hc => ⟨hc.slot, hc.cleanup, hc.live⟩)
  | retain i =>
    obtain ⟨r, hr, -⟩ := hen
    exact h.event rfl hr fun o hf => hf.congr rfl (by simp only; omega)
      (.inl fun c hc => ⟨hc.slot, hc.cleanup, hc.live⟩)
  | drop i =>
    obtain ⟨r, hr, hrefs⟩ := hen
    refine h.event rfl hr fun o hf => hf.congr rfl ?_
      (.inl fun c hc => ⟨hc.slot, hc.cleanup, hc.live⟩)
    have hcount : r.count = r.ngxRefs + r.counted := hf.count
    simp only
    omega

end Sound

/-! ## The lifecycle invariant -/

/-- The marks of a context that waits : they are set together. -/
structure ReqCtx.Agrees (x : ReqCtx) : Prop where
  outcome : x.waiting = true ↔ x.admissionOutcome = .waiting
  req : x.waiting = true ↔ x.req.isSome = true
  timer : x.waiting = true ↔ x.timer.isSome = true
  inflight : x.waiting = true ↔ x.inflightCounted = true
  counted : x.waiting = true ↔ x.nginxCounted = true

theorem ReqCtx.Sound.agrees {p : Proc} {i : ℕ} {x : ReqCtx} (h : x.Sound p i) : x.Agrees where
  outcome := h.outcome
  req := by rw [h.req]
  timer := by rw [h.timer]
  inflight := by rw [h.inflight]
  counted := by rw [h.counted]

/-- All contexts of the process. -/
def World.ctxs (w : World) : List ReqCtx :=
  w.reqs.flatMap Request.ctxs

theorem World.tally_ctxs (w : World) (f : ReqCtx → ℕ) :
    tally (fun r : Request => tally f r.ctxs) w.reqs = tally f w.ctxs :=
  (tally_flatMap f Request.ctxs w.reqs).symm

/-- The count in flight is the number of contexts that are counted. -/
theorem World.Sound.inflight_eq {w : World} (h : w.Sound) :
    w.proc.inflight = w.ctxs.countP (·.inflightCounted) := by
  rw [h.inflight, ← tally_toNat]
  exact w.tally_ctxs ReqCtx.inflight

/-- A handle that was given out is owned by one context, or was retired once. -/
theorem World.Sound.retired_or_owned {w : World} (h : w.Sound) {cl : Client}
    (hcl : w.proc.client = some cl) {q : ℕ} (hq : q < cl.requests.length) :
    (cl.retired.map Prod.fst).count q + w.ctxs.countP (·.req = some q) = 1 := by
  have hstarted : w.proc.started q = 1 := by simp [Proc.started, hcl, hq]
  have hretired : w.proc.retired q = (cl.retired.map Prod.fst).count q := by
    simp [Proc.retired, hcl]
  have howned : tally (Request.owns q) w.reqs = w.ctxs.countP (·.req = some q) := by
    rw [← tally_toNat, show Request.owns q = fun r => tally (ReqCtx.owns q) r.ctxs from rfl,
      w.tally_ctxs]
    congr 1
    funext x
    by_cases hx : x.req = some q <;> simp [ReqCtx.owns, hx]
  have hledger := h.ledger q
  omega

/-- Once its request is released, a handle was retired. -/
theorem World.Sound.released {w : World} (h : w.Sound) {cl : Client}
    (hcl : w.proc.client = some cl) {q : ℕ} {cr : ClientReq} (hcr : cl.requests[q]? = some cr)
    {r : Request} (hr : w.reqs[cr.user]? = some r) (hreleased : r.released = true) :
    q ∈ cl.retired.map Prod.fst := by
  by_contra hlive
  have hq : q < cl.requests.length := (List.getElem?_eq_some_iff.mp hcr).1
  obtain ⟨r', hr', c, x, hx, hown⟩ := h.owner hcl ⟨hq, hlive⟩ hcr
  obtain rfl : r = r' := Option.some.inj (hr.symm.trans hr')
  have hwait : x.waiting = true := by
    rw [(h.ctx _ r hr x (List.mem_of_getElem? hx)).req, hown]
    rfl
  have hhome := (h.home r (List.mem_of_getElem? hr) c x hx hwait).live
  rw [hreleased] at hhome
  cases hhome

/-- In every state of every run : the marks of every context agree, the worker's count is
the number of contexts in flight, the references on a request beyond nginx's own are those
of its contexts, and a request the client started is owned by one context or was retired
once, the latter for certain when its nginx request is released. -/
theorem request_lifecycle {s : Setup} {es : List Event} {w : World}
    (h : Run ((machine s).restrict fun w e => e.Orderly w) World.init es w) :
    (∀ r ∈ w.reqs, (∀ x ∈ r.ctxs, x.Agrees) ∧
      r.count = r.ngxRefs + r.ctxs.countP (·.nginxCounted)) ∧
    (∀ v ∈ w.proc.worker, v.inflight = w.ctxs.countP (·.inflightCounted)) ∧
    ∀ cl ∈ w.proc.client, ∀ q, ∀ cr ∈ cl.requests[q]?,
      (cl.retired.map Prod.fst).count q + w.ctxs.countP (·.req = some q) = 1 ∧
      ∀ r ∈ w.reqs[cr.user]?, r.released = true → (cl.retired.map Prod.fst).count q = 1 := by
  have hw : w.Sound := h.invariant .init fun u e hu he => next_sound hu he.1 he.2
  refine ⟨fun r hr => ⟨fun x hx => ?_, ?_⟩, fun v hv => ?_, fun cl hcl q cr hcr => ?_⟩
  · obtain ⟨i, hi⟩ := List.mem_iff_getElem?.mp hr
    exact (hw.ctx i r hi x hx).agrees
  · rw [hw.count r hr, ← tally_toNat]
    rfl
  · rw [← hw.inflight_eq, Proc.inflight, hv]
    rfl
  · have hq := (List.getElem?_eq_some_iff.mp hcr).1
    have hone := hw.retired_or_owned hcl hq
    refine ⟨hone, fun r hr hreleased => ?_⟩
    have hmem := List.count_pos_iff.mpr (hw.released hcl hcr hr hreleased)
    omega

/-- Two requests at once : one completes and is redirected, the timer of the other fires
twice, and its client goes away. -/
def lifecycleEvents : List Event :=
  [.accept true protectedLoc 0, .accept true protectedLoc 0,
    .handler 0 sampleHandlerEnv, .handler 1 sampleHandlerEnv, .handler 0 sampleHandlerEnv,
    .timeout 1 0 ⟨20, some 20, .advanced, 20, some 40⟩, .stray 1 0 .ok none,
    .complete 0 0 .ok (some ⟨true, [true], [0]⟩), .stray 0 0 .errIo none,
    .redirect 0 protectedLoc, .handler 0 sampleHandlerEnv,
    .timeout 1 0 ⟨40, some 40, .failed .errIo, 40, none⟩, .cleanup 1 0, .cleanup 1 0,
    .release 0, .release 1]

/-- The process after them. -/
def lifecycleWorld : World :=
  lifecycleEvents.foldl (World.next sampleSetup) World.init

theorem sample_lifecycle :
    ∃ v ∈ lifecycleWorld.proc.worker,
      v.inflight = lifecycleWorld.ctxs.countP (·.inflightCounted) := by
  have hrun : Run ((machine sampleSetup).restrict fun w e => e.Orderly w) World.init
      lifecycleEvents lifecycleWorld :=
    Run.of_admits (by decide +kernel)
  have hworker : ∃ v ∈ lifecycleWorld.proc.worker, v.inflight = 0 := by decide +kernel
  obtain ⟨v, hv, -⟩ := hworker
  exact ⟨v, hv, (request_lifecycle hrun).2.1 v hv⟩

end RlNginx
