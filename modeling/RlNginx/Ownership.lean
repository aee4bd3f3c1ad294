import RlNginx.Lib.Tally
import RlNginx.Moves
import RlNginx.Outcome

/-!
# Ownership of an asynchronous request

A context that waits owns a C-client request, an armed timer, a unit of the worker's
count in flight and a reference on the request; a context that does not wait owns none of
them (`ReqCtx.Flags`). The shared counters are the tallies of what the contexts own, and
every handle the client ever gave out is owned by one context or was retired once.

The invariant is stated at levels, each with what the level leaves out given as a number :
for one context (`Live.Balanced`), which is where the ownership functions are checked, and
for one request (`Frame.Sound`), whose contexts are replaced and added one at a time.
-/

open Transition Tally Relation

namespace RlNginx

/-! ## What a context owns -/

/-- Its units of the worker's count. -/
def ReqCtx.inflight (x : ReqCtx) : ℕ := x.inflightCounted.toNat

/-- Its references on the request. -/
def ReqCtx.counted (x : ReqCtx) : ℕ := x.nginxCounted.toNat

/-- Whether it owns a handle. -/
def ReqCtx.owns (q : ℕ) (x : ReqCtx) : ℕ := if x.req = some q then 1 else 0

/-- The worker's count in flight. -/
def Proc.inflight (p : Proc) : ℕ := p.worker.elim 0 Worker.inflight

/-- Whether a handle was given out. -/
def Proc.started (p : Proc) (q : ℕ) : ℕ :=
  p.client.elim 0 fun cl => if q < cl.requests.length then 1 else 0

/-- How often a handle was retired. -/
def Proc.retired (p : Proc) (q : ℕ) : ℕ :=
  p.client.elim 0 fun cl => (cl.retired.map Prod.fst).count q

/-- The handle belongs to request `i`. -/
def Proc.HandleOf (p : Proc) (i q : ℕ) : Prop :=
  ∃ cl ∈ p.client, ∃ cr ∈ cl.requests[q]?, cr.user = i

/-- The flags of a context agree. -/
structure ReqCtx.Flags (p : Proc) (i : ℕ) (x : ReqCtx) : Prop where
  req : x.waiting = x.req.isSome
  timer : x.waiting = x.timer.isSome
  inflight : x.waiting = x.inflightCounted
  counted : x.waiting = x.nginxCounted
  linked : x.waiting = true → x.r = true ∧ x.worker = true
  handle : ∀ q ∈ x.req, p.HandleOf i q

/-- A context that owns nothing. -/
structure ReqCtx.Idle (x : ReqCtx) : Prop where
  waiting : x.waiting = false
  req : x.req = none
  timer : x.timer = none
  inflight : x.inflightCounted = false
  counted : x.nginxCounted = false

theorem ReqCtx.Idle.flags {x : ReqCtx} (h : x.Idle) (p : Proc) (i : ℕ) : x.Flags p i where
  req := by simp [h.waiting, h.req]
  timer := by simp [h.waiting, h.timer]
  inflight := by simp [h.waiting, h.inflight]
  counted := by simp [h.waiting, h.counted]
  linked := by simp [h.waiting]
  handle := by simp [h.req]

theorem ReqCtx.Flags.idle {p : Proc} {i : ℕ} {x : ReqCtx} (h : x.Flags p i)
    (hx : x.waiting = false) : x.Idle where
  waiting := hx
  req := by simpa [hx] using h.req.symm
  timer := by simpa [hx] using h.timer.symm
  inflight := by simpa [hx] using h.inflight.symm
  counted := by simpa [hx] using h.counted.symm

theorem tornDown_idle (x : ReqCtx) : x.tornDown.Idle :=
  ⟨rfl, rfl, rfl, rfl, rfl⟩

/-- At an event boundary the outcome agrees too, and no observer is left. -/
structure ReqCtx.Sound (p : Proc) (i : ℕ) (x : ReqCtx) : Prop extends x.Flags p i where
  outcome : x.waiting = true ↔ x.admissionOutcome = .waiting
  observer : x.timeoutCompleted = false

/-! ## The process -/

/-- The client of the process only grows. -/
def Proc.Grows (p p' : Proc) : Prop :=
  ∀ cl ∈ p.client, ∃ cl' ∈ p'.client, cl.requests <+: cl'.requests

theorem Proc.Grows.refl (p : Proc) : p.Grows p :=
  fun cl hcl => ⟨cl, hcl, List.prefix_rfl⟩

theorem Proc.Grows.trans {p p' p'' : Proc} (h : p.Grows p') (h' : p'.Grows p'') : p.Grows p'' := by
  intro cl hcl
  obtain ⟨cl', hcl', hpre⟩ := h cl hcl
  obtain ⟨cl'', hcl'', hpre'⟩ := h' cl' hcl'
  exact ⟨cl'', hcl'', hpre.trans hpre'⟩

theorem Proc.Grows.handleOf {p p' : Proc} (h : p.Grows p') {i q : ℕ} (hq : p.HandleOf i q) :
    p'.HandleOf i q := by
  obtain ⟨cl, hcl, cr, hcr, hi⟩ := hq
  obtain ⟨cl', hcl', more, hmore⟩ := h cl hcl
  refine ⟨cl', hcl', cr, ?_, hi⟩
  obtain ⟨hlt, hget⟩ := List.getElem?_eq_some_iff.mp hcr
  rw [Option.mem_def, ← hmore, List.getElem?_append_left hlt]
  exact hcr

theorem ReqCtx.Flags.grows {p p' : Proc} {i : ℕ} {x : ReqCtx} (h : x.Flags p i)
    (hg : p.Grows p') : x.Flags p' i :=
  { h with handle := fun q hq => hg.handleOf (h.handle q hq) }

theorem ReqCtx.Sound.grows {p p' : Proc} {i : ℕ} {x : ReqCtx} (h : x.Sound p i)
    (hg : p.Grows p') : x.Sound p' i :=
  { h with toFlags := h.toFlags.grows hg }

section MapProc

variable {p : Proc} {v : Worker} {cl : Client}

theorem Proc.exists_worker (h : p.client = some cl) :
    ∃ v, p.worker = some v ∧ v.client = some cl :=
  Option.bind_eq_some_iff.mp h

@[simp] theorem Proc.client_mapWorker (f : Worker → Worker) (hf : ∀ v, (f v).client = v.client) :
    (p.mapWorker f).client = p.client := by
  simp only [Proc.client, Proc.mapWorker, Option.bind_map]
  congr 1
  funext v
  exact hf v

theorem Proc.client_mapClient (f : Client → Client) :
    (p.mapClient f).client = p.client.map f := by
  simp only [Proc.client, Proc.mapClient, Proc.mapWorker]
  cases p.worker <;> rfl

theorem Proc.inflight_mapClient (f : Client → Client) :
    (p.mapClient f).inflight = p.inflight := by
  simp only [Proc.inflight, Proc.mapClient, Proc.mapWorker]
  cases p.worker <;> rfl

theorem Proc.started_congr {p' : Proc} (h : p'.client = p.client) (q : ℕ) :
    p'.started q = p.started q := by
  rw [Proc.started, Proc.started, h]

theorem Proc.retired_congr {p' : Proc} (h : p'.client = p.client) (q : ℕ) :
    p'.retired q = p.retired q := by
  rw [Proc.retired, Proc.retired, h]

theorem Proc.started_retire (q q' : ℕ) (how : Retirement) :
    (p.mapClient (·.retire q how)).started q' = p.started q' := by
  rw [Proc.started, Proc.started, Proc.client_mapClient]
  cases p.client <;> rfl

theorem Proc.retired_retire (h : p.client = some cl) (q q' : ℕ) (how : Retirement) :
    (p.mapClient (·.retire q how)).retired q' = p.retired q' + if q = q' then 1 else 0 := by
  rw [Proc.retired, Proc.retired, Proc.client_mapClient, h]
  simp only [Option.map_some, Option.elim_some, Client.retire, List.map_append, List.map_cons,
    List.map_nil, List.count_append, List.count_singleton, beq_iff_eq]

theorem Proc.started_start (h : p.client = some cl) (i q : ℕ) (check : RateCheck) :
    (p.mapClient (·.start i check)).started q =
      p.started q + if q = cl.requests.length then 1 else 0 := by
  rw [Proc.started, Proc.started, Proc.client_mapClient, h]
  simp only [Option.map_some, Option.elim_some, Client.start, List.length_append,
    List.length_singleton]
  split_ifs <;> omega

theorem Proc.retired_start (i q : ℕ) (check : RateCheck) :
    (p.mapClient (·.start i check)).retired q = p.retired q := by
  rw [Proc.retired, Proc.retired, Proc.client_mapClient]
  cases p.client <;> rfl

theorem landWorker_client (x : ReqCtx) (p : Proc) : (x.landWorker p).client = p.client := by
  unfold ReqCtx.landWorker
  split_ifs
  · rw [Proc.client_mapWorker _ rnScheduleRebind_client,
      Proc.client_mapWorker _ fun v => (rfl : v.landed.client = v.client)]
  · rw [Proc.client_mapWorker _ rnScheduleRebind_client]
  · rfl

theorem landWorker_inflight {x : ReqCtx} (hx : x.worker = true) (p : Proc) :
    (x.landWorker p).inflight = p.inflight - x.inflight := by
  simp only [ReqCtx.landWorker, hx, if_true, Proc.inflight, Proc.mapWorker, ReqCtx.inflight]
  cases x.inflightCounted <;> cases hv : p.worker <;> simp [Worker.landed, hv]

end MapProc

/-! ## One context -/

/-- What the other contexts and nginx hold. -/
structure Rest where
  inflight : ℕ
  refs : ℕ
  owned : ℕ → ℕ

/-- The flags of the context agree, and the shared counters are the rest plus its share. -/
structure Live.Balanced (rest : Rest) (i : ℕ) (l : Live) : Prop where
  flags : l.ctx.Flags l.proc i
  inflight : l.proc.inflight = rest.inflight + l.ctx.inflight
  count : l.count = rest.refs + l.ctx.counted
  ledger : ∀ q, l.proc.retired q + rest.owned q + l.ctx.owns q = l.proc.started q

/-- The contexts own the same. -/
structure ReqCtx.SameOwner (x y : ReqCtx) : Prop where
  r : y.r = x.r
  worker : y.worker = x.worker
  req : y.req = x.req
  inflight : y.inflightCounted = x.inflightCounted
  counted : y.nginxCounted = x.nginxCounted

section Balanced

variable {rest : Rest} {i n q : ℕ} {p : Proc} {x y : ReqCtx}

theorem ReqCtx.Idle.owns (h : x.Idle) (q : ℕ) : x.owns q = 0 := by
  simp [ReqCtx.owns, h.req]

theorem ReqCtx.Idle.inflight_eq (h : x.Idle) : x.inflight = 0 := by
  simp [ReqCtx.inflight, h.inflight]

theorem ReqCtx.Idle.counted_eq (h : x.Idle) : x.counted = 0 := by
  simp [ReqCtx.counted, h.counted]

/-- A context that owns nothing can be replaced by another. -/
theorem Live.Balanced.idle (h : Live.Balanced rest i ⟨p, n, x⟩) (hx : x.Idle) (hy : y.Idle) :
    Live.Balanced rest i ⟨p, n, y⟩ where
  flags := hy.flags p i
  inflight := by rw [hy.inflight_eq, ← hx.inflight_eq]; exact h.inflight
  count := by rw [hy.counted_eq, ← hx.counted_eq]; exact h.count
  ledger := fun q => by rw [hy.owns, ← hx.owns q]; exact h.ledger q

/-- The owner of a handle gives it up : the client retires it, and the counters go down. -/
theorem Live.Balanced.retire (h : Live.Balanced rest i ⟨p, n, x⟩) (hxy : x.SameOwner y)
    (hq : x.req = some q) (how : Retirement) :
    Live.Balanced rest i ⟨y.landWorker (p.mapClient (·.retire q how)),
      if y.nginxCounted && y.r then n - 1 else n, y.tornDown⟩ := by
  have hwait : x.waiting = true := by rw [h.flags.req]; simp [hq]
  have hr : x.r = true := (h.flags.linked hwait).1
  have hworker : x.worker = true := (h.flags.linked hwait).2
  obtain ⟨cl, hcl, -⟩ : p.HandleOf i q := h.flags.handle q hq
  have hfly : x.inflightCounted = true := h.flags.inflight.symm.trans hwait
  have hcount : x.nginxCounted = true := h.flags.counted.symm.trans hwait
  have hidle := tornDown_idle y
  refine ⟨hidle.flags _ i, ?_, ?_, fun q' => ?_⟩
  · have hin := h.inflight
    simp only [ReqCtx.inflight, hfly, Bool.toNat_true] at hin
    rw [hidle.inflight_eq, landWorker_inflight (hxy.worker.trans hworker),
      Proc.inflight_mapClient, ReqCtx.inflight, hxy.inflight, hfly]
    simp only [Bool.toNat_true]
    omega
  · have hn := h.count
    simp only [ReqCtx.counted, hcount, Bool.toNat_true] at hn
    rw [hidle.counted_eq]
    simp only [hxy.counted, hcount, hxy.r, hr, Bool.and_self, if_true]
    omega
  · have hled : p.retired q' + rest.owned q' + x.owns q' = p.started q' := h.ledger q'
    simp only [ReqCtx.owns, hq, Option.some.injEq] at hled
    rw [hidle.owns, Proc.retired_congr (landWorker_client y _), Proc.retired_retire hcl,
      Proc.started_congr (landWorker_client y _), Proc.started_retire]
    omega

/-- A context that owns nothing gives up nothing. -/
theorem Live.Balanced.torn (h : Live.Balanced rest i ⟨p, n, x⟩) (hx : x.Idle)
    (hxy : x.SameOwner y) : Live.Balanced rest i ⟨y.landWorker p,
      if y.nginxCounted && y.r then n - 1 else n, y.tornDown⟩ := by
  have hidle := tornDown_idle y
  have hfly : y.inflight = 0 := by simp [ReqCtx.inflight, hxy.inflight, hx.inflight]
  refine ⟨hidle.flags _ i, ?_, ?_, fun q' => ?_⟩
  · rw [hidle.inflight_eq, ← hx.inflight_eq, ← h.inflight]
    cases hw : y.worker
    · simp [ReqCtx.landWorker, hw]
    · rw [landWorker_inflight hw, hfly, Nat.sub_zero]
  · simp only [hxy.counted, hx.counted, Bool.false_and, Bool.false_eq_true, if_false]
    rw [hidle.counted_eq, ← hx.counted_eq]
    exact h.count
  · rw [hidle.owns, ← hx.owns q', Proc.retired_congr (landWorker_client y _),
      Proc.started_congr (landWorker_client y _)]
    exact h.ledger q'

/-- Teardown with cancellation keeps the balance, twice or from any state. -/
theorem rnRequestTeardown_cancel (h : Live.Balanced rest i ⟨p, n, x⟩) (hxy : x.SameOwner y) :
    Live.Balanced rest i (rnRequestTeardown none true ⟨p, n, y⟩) := by
  have heq : rnRequestTeardown none true ⟨p, n, y⟩ = ⟨y.landWorker (Live.cancelRequest ⟨p, n, y⟩),
      if y.nginxCounted && y.r then n - 1 else n, y.tornDown⟩ := rfl
  rw [heq]
  cases hq : x.req with
  | none =>
    have hidle : x.Idle := h.flags.idle (by rw [h.flags.req]; simp [hq])
    have hcancel : Live.cancelRequest ⟨p, n, y⟩ = p := by
      simp only [Live.cancelRequest, hxy.req, hq]
    rw [hcancel]
    exact h.torn hidle hxy
  | some q =>
    have hwait : x.waiting = true := by rw [h.flags.req]; simp [hq]
    have hworker : x.worker = true := (h.flags.linked hwait).2
    have hcancel : Live.cancelRequest ⟨p, n, y⟩ = p.mapClient (·.retire q .cancelled) := by
      simp only [Live.cancelRequest, hxy.req, hq, hxy.worker, hworker, if_true]
    rw [hcancel]
    exact h.retire hxy hq .cancelled

/-- Teardown of the owner after the client retired the request keeps the balance. -/
theorem rnRequestTeardown_complete (h : Live.Balanced rest i ⟨p, n, x⟩) (hxy : x.SameOwner y)
    (hq : x.req = some q) (how : Retirement) : Live.Balanced rest i
      (rnRequestTeardown (some q) false ⟨p.mapClient (·.retire q how), n, y⟩) := by
  have hkeep : (!false && y.req != some q) = false := by simp [hxy.req, hq]
  simp only [rnRequestTeardown, hkeep, Bool.false_eq_true, if_false]
  exact h.retire hxy hq how

/-- Publishing a started request gives the context its share. -/
theorem rnPublish_balanced (h : Live.Balanced rest i ⟨p, n, x⟩) (hx : x.Idle) (hr : x.r = true)
    (hworker : x.worker = true) {cl : Client} (hcl : p.client = some cl) {env : HandlerEnv}
    (hdeadline : env.deadlineMs.isSome = true) (check : RateCheck) (hy : y.r = x.r)
    (hy' : y.worker = x.worker) : Live.Balanced rest i
      (rnPublish env cl.requests.length ⟨p.mapClient (·.start i check), n, y⟩) := by
  obtain ⟨v, hv, hvcl⟩ := Proc.exists_worker hcl
  have hclient : (rnPublish env cl.requests.length
      ⟨p.mapClient (·.start i check), n, y⟩).proc.client = (p.mapClient (·.start i check)).client :=
    Proc.client_mapWorker _ fun _ => rfl
  refine ⟨⟨rfl, ?_, rfl, rfl, ?_, ?_⟩, ?_, ?_, fun q' => ?_⟩
  · simp [rnPublish, hdeadline]
  · intro _
    exact ⟨hy.trans hr, hy'.trans hworker⟩
  · rintro q hq
    obtain rfl : cl.requests.length = q := Option.some.inj hq
    refine ⟨cl.start i check, ?_, ⟨i, check⟩, ?_, rfl⟩
    · rw [Option.mem_def, hclient, Proc.client_mapClient, hcl]
      rfl
    · simp [Client.start]
  · have hin := h.inflight
    rw [hx.inflight_eq] at hin
    simp only [Proc.inflight, hv, Option.elim_some] at hin
    simp [rnPublish, ReqCtx.inflight, Proc.inflight, Proc.mapWorker, Proc.mapClient, hv, hin]
  · have hn := h.count
    rw [hx.counted_eq] at hn
    simp only at hn
    simp [rnPublish, ReqCtx.counted, hn]
  · have hled := h.ledger q'
    rw [hx.owns] at hled
    rw [Proc.retired_congr hclient, Proc.started_congr hclient, Proc.retired_start,
      Proc.started_start hcl]
    simp only [rnPublish, ReqCtx.owns, Option.some.injEq] at hled ⊢
    rw [← hled]
    by_cases hq : q' = cl.requests.length
    · simp [hq]
    · simp [hq, Ne.symm hq]

/-- Worker initialization gives out nothing. -/
theorem rnEnsured_balanced {s : Setup} (h : Live.Balanced rest i ⟨p, n, x⟩) (hx : x.Idle)
    (env : InitEnv) : Live.Balanced rest i ⟨(rnEnsured s env p).1, n, x⟩ := by
  have hworker : (rnEnsured s env p).1.worker = p.worker ∨ p.worker = none ∧
      ∃ udp, (rnEnsured s env p).1.worker =
        some { Worker.zero with udp := some udp, client := some Client.create } := by
    unfold rnEnsured
    split_ifs
    · exact rnWorkerEnsure_worker ..
    · exact .inl rfl
  have hin : p.inflight = rest.inflight + x.inflight := h.inflight
  have hled : ∀ q, p.retired q + rest.owned q + x.owns q = p.started q := h.ledger
  rcases hworker with hsame | ⟨hnone, udp, hnew⟩
  · have hclient : (rnEnsured s env p).1.client = p.client := by
      rw [Proc.client, Proc.client, hsame]
    refine ⟨hx.flags _ i, ?_, h.count, fun q => ?_⟩
    · simpa only [Proc.inflight, hsame] using hin
    · rw [Proc.retired_congr hclient, Proc.started_congr hclient]
      exact hled q
  · have hp : p.client = none := by simp [Proc.client, hnone]
    refine ⟨hx.flags _ i, ?_, h.count, fun q => ?_⟩
    · simpa [Proc.inflight, hnone, hnew, Worker.zero] using hin
    · simpa [Proc.retired, Proc.started, Proc.client, hnone, hnew, Client.create] using hled q

/-- Balanced, at an event boundary. -/
structure Live.Sound (rest : Rest) (i : ℕ) (l : Live) : Prop extends l.Balanced rest i where
  outcome : l.ctx.waiting = true ↔ l.ctx.admissionOutcome = .waiting
  observer : l.ctx.timeoutCompleted = false

theorem Live.Sound.ctx {l : Live} (h : l.Sound rest i) : l.ctx.Sound l.proc i :=
  ⟨h.flags, h.outcome, h.observer⟩

/-- A context that owns nothing, at an event boundary. -/
structure ReqCtx.Quiet (x : ReqCtx) : Prop extends x.Idle where
  outcome : x.admissionOutcome ≠ .waiting
  observer : x.timeoutCompleted = false

theorem Live.Balanced.sound {l : Live} (h : l.Balanced rest i) (hx : l.ctx.Quiet) :
    l.Sound rest i :=
  { h with outcome := by simp [hx.waiting, hx.outcome], observer := hx.observer }

/-- One quiet context for another. -/
theorem Live.Balanced.quiet (h : Live.Balanced rest i ⟨p, n, x⟩) (hx : x.Idle) (hy : y.Quiet) :
    Live.Sound rest i ⟨p, n, y⟩ :=
  (h.idle hx hy.toIdle).sound hy

theorem abort_sameOwner (x : ReqCtx) : x.SameOwner x.abort := by
  unfold ReqCtx.abort
  split_ifs <;> exact ⟨rfl, rfl, rfl, rfl, rfl⟩

theorem abort_outcome (x : ReqCtx) : x.abort.admissionOutcome ≠ .waiting := by
  unfold ReqCtx.abort
  split_ifs with h
  · simp
  · exact h

theorem abort_observer (x : ReqCtx) : x.abort.timeoutCompleted = x.timeoutCompleted := by
  unfold ReqCtx.abort
  split_ifs <;> rfl

/-- `rn_request_cleanup` keeps the invariant, however often it is called. -/
theorem rnRequestCleanup_sound (h : Live.Sound rest i ⟨p, n, x⟩) :
    (rnRequestCleanup ⟨p, n, x⟩).Sound rest i := by
  have hbal := rnRequestTeardown_cancel h.toBalanced (abort_sameOwner x)
  have hquiet : ({ x.abort.tornDown with r := false } : ReqCtx).Quiet :=
    ⟨⟨rfl, rfl, rfl, rfl, rfl⟩, abort_outcome x, (abort_observer x).trans h.observer⟩
  exact hbal.quiet (tornDown_idle x.abort) hquiet

theorem rnVerdict_quiet (mcf : MainConf) (status : RClient) (result : Option RateLimitResult)
    (hx : x.Idle) (hobs : x.timeoutCompleted = false) :
    (rnVerdict mcf status result x).Quiet := by
  obtain ⟨d, o, k, hout, heq⟩ := rnVerdict_eq mcf status result x
  rw [heq]
  exact ⟨⟨rfl, hx.req, hx.timer, hx.inflight, hx.counted⟩, hout.2, hobs⟩

/-- `rn_rate_cb` of the owner, once the client retired the request, keeps the invariant. -/
theorem rnRateCbOwned_sound (h : Live.Balanced rest i ⟨p, n, x⟩) (hxy : x.SameOwner y)
    (hq : x.req = some q) (how : Retirement) (mcf : MainConf) (status : RClient)
    (result : Option RateLimitResult) : (rnRateCbOwned mcf q status result
      ⟨p.mapClient (·.retire q how), n, y⟩).Sound rest i := by
  have hsame : x.SameOwner { y with timeoutCompleted := false } :=
    ⟨hxy.r, hxy.worker, hxy.req, hxy.inflight, hxy.counted⟩
  have hbal := rnRequestTeardown_complete h hsame hq how
  have hkeep : (!false && y.req != some q) = false := by simp [hxy.req, hq]
  simp only [rnRequestTeardown, hkeep, Bool.false_eq_true, if_false] at hbal
  simp only [rnRateCbOwned, Live.mapCtx, rnRequestTeardown, hkeep, Bool.false_eq_true, if_false]
  have hidle := tornDown_idle { y with timeoutCompleted := false }
  exact hbal.quiet hidle (rnVerdict_quiet mcf status result hidle rfl)

/-! ### The handler's own context -/

theorem ReqCtx.new_quiet (mcf : MainConf) (lcf : LocConf) : (ReqCtx.new mcf lcf).Quiet := by
  refine ⟨⟨rfl, rfl, rfl, rfl, rfl⟩, ?_, rfl⟩
  simp only [ReqCtx.new]
  split_ifs
  · exact (failOutcome_ne mcf).2
  · simp

theorem rnFinishPreflightFailure_quiet (mcf : MainConf) (cause : CompletionCause) (hx : x.Idle)
    (hobs : x.timeoutCompleted = false) : (rnFinishPreflightFailure mcf cause x).Quiet :=
  ⟨⟨hx.waiting, hx.req, hx.timer, hx.inflight, hx.counted⟩, (failOutcome_ne mcf).2, hobs⟩

theorem rnFinishInternalError_quiet (hx : x.Idle) (hobs : x.timeoutCompleted = false) :
    (rnFinishInternalError x).Quiet :=
  ⟨⟨hx.waiting, hx.req, hx.timer, hx.inflight, hx.counted⟩, by simp [rnFinishInternalError], hobs⟩

theorem rnFinishStop_quiet (mcf : MainConf) (stop : Stop) (hx : x.Idle)
    (hobs : x.timeoutCompleted = false) : (rnFinishStop mcf x stop).Quiet := by
  have hfail := rnFinishPreflightFailure_quiet mcf .dependencyError hx hobs
  have herror := rnFinishInternalError_quiet hx hobs
  cases stop with
  | noRules | emptyRuleExpansion =>
    exact ⟨⟨hx.waiting, hx.req, hx.timer, hx.inflight, hx.counted⟩, by simp [rnFinishStop], hobs⟩
  | resourcesAlloc | guardsAlloc => exact herror
  | guardBuild e | zoneBuild e =>
    simp only [rnFinishStop]
    split_ifs
    · exact herror
    · exact hfail
  | unknownGroup | unknownGuard | unknownZone | labelRender | labelTooLong => exact hfail

theorem rnAttachReport_quiet (mcf : MainConf) (lcf : LocConf) (env : ReqEnv) (hx : x.Quiet) :
    (rnAttachReport mcf lcf env x).Quiet := by
  unfold rnAttachReport
  split_ifs
  · split
    · exact hx
    · split
      · exact hx
      · exact ⟨⟨hx.waiting, hx.req, hx.timer, hx.inflight, hx.counted⟩, hx.outcome, hx.observer⟩
  · exact hx

/-- The start section keeps the invariant, whether the client accepts the request or not,
and whether the read event can be registered or not. -/
theorem rnStart_sound (h : Live.Balanced rest i ⟨p, n, x⟩) (hx : x.Quiet) (hr : x.r = true)
    (hworker : x.worker = true) {cl : Client} (hcl : p.client = some cl) {env : HandlerEnv}
    (hdeadline : env.deadlineMs.isSome = true) (mcf : MainConf) (check : RateCheck) :
    (rnStart mcf env i cl check ⟨p, n, x⟩).live.Sound rest i := by
  simp only [rnStart, Live.mapCtx]
  split_ifs
  · refine h.quiet hx.toIdle (rnFinishPreflightFailure_quiet mcf .startFailure ?_ hx.observer)
    exact ⟨hx.waiting, hx.req, hx.timer, hx.inflight, hx.counted⟩
  · have hpub := rnPublish_balanced (y := { x with
      expectedGuardCount := check.guards.length
      expectedResourceCount := check.resources.length }) h hx.toIdle hr hworker hcl hdeadline check
      rfl rfl
    exact { hpub with outcome := by simp [rnPublish], observer := hx.observer }
  · have hpub := rnPublish_balanced (y := { x with
      expectedGuardCount := check.guards.length
      expectedResourceCount := check.resources.length }) h hx.toIdle hr hworker hcl hdeadline check
      rfl rfl
    have htorn := rnRequestTeardown_cancel hpub ⟨rfl, rfl, rfl, rfl, rfl⟩
    exact htorn.quiet (tornDown_idle _) (rnFinishInternalError_quiet (tornDown_idle _) hx.observer)

theorem rnCheck_sound (h : Live.Balanced rest i ⟨p, n, x⟩) (hx : x.Quiet) (hr : x.r = true)
    {cl : Client} (hcl : p.client = some cl) {env : HandlerEnv}
    (hdeadline : env.deadlineMs.isSome = true) (mcf : MainConf) (lcf : LocConf) :
    (rnCheck mcf lcf env i cl ⟨p, n, x⟩).live.Sound rest i := by
  have hset : ({ x with worker := true } : ReqCtx).Quiet :=
    ⟨⟨hx.waiting, hx.req, hx.timer, hx.inflight, hx.counted⟩, hx.outcome, hx.observer⟩
  have hquiet := rnAttachReport_quiet mcf lcf env.values hset
  obtain ⟨hr', hworker'⟩ := rnAttachReport_linked mcf lcf env.values { x with worker := true }
  have hbal := h.idle hx.toIdle hquiet.toIdle
  simp only [rnCheck, Live.mapCtx]
  split_ifs
  · exact hbal.quiet hquiet.toIdle ⟨⟨hquiet.waiting, hquiet.req, hquiet.timer, hquiet.inflight,
      hquiet.counted⟩, hquiet.outcome, hquiet.observer⟩
  · split
    · exact hbal.quiet hquiet.toIdle (rnFinishStop_quiet mcf _ hquiet.toIdle hquiet.observer)
    · exact rnStart_sound hbal hquiet (hr'.trans hr) hworker' hcl hdeadline mcf _

/-- The handler's context is sound when it returns. -/
theorem rnAdmit_sound {s : Setup} (h : Live.Balanced rest i ⟨p, n, x⟩) (hx : x.Quiet)
    (hr : x.r = true) {env : HandlerEnv} (hdeadline : env.deadlineMs.isSome = true)
    (lcf : LocConf) : (rnAdmit s lcf env i ⟨p, n, x⟩).live.Sound rest i := by
  have hensured := rnEnsured_balanced (s := s) h hx.toIdle env.init
  have hnone : (rnNoWorker s.conf.main lcf x).Quiet :=
    ⟨⟨hx.waiting, hx.req, hx.timer, hx.inflight, hx.counted⟩, hx.outcome, hx.observer⟩
  unfold rnAdmit
  split
  · rename_i proc heq
    rw [heq] at hensured
    split
    · exact rnCheck_sound hensured hx hr ‹_› hdeadline s.conf.main lcf
    · exact hensured.quiet hx.toIdle hnone
  · rename_i proc heq
    rw [heq] at hensured
    exact hensured.quiet hx.toIdle hnone

end Balanced

/-! ## One request -/

/-- Units of the worker's count a request accounts for. -/
def Request.inflight (r : Request) : ℕ := tally ReqCtx.inflight r.ctxs

/-- References its contexts hold on it. -/
def Request.counted (r : Request) : ℕ := tally ReqCtx.counted r.ctxs

/-- How many of its contexts own a handle. -/
def Request.owns (q : ℕ) (r : Request) : ℕ := tally (ReqCtx.owns q) r.ctxs

/-- What the other requests hold. -/
structure Others where
  inflight : ℕ
  owned : ℕ → ℕ

/-- Where a waiting context is found : in the slot and in the cleanup chain of a request that
has not been released. -/
structure Request.Home (r : Request) (c : ℕ) : Prop where
  slot : r.slot = some c
  cleanup : .rn c ∈ r.cleanup
  live : r.released = false

/-- The invariant of one request : its contexts are sound, a waiting one is at home, and
the shared counters are those of the others plus its share. -/
structure Frame.Sound (o : Others) (i : ℕ) (f : Frame) : Prop where
  inflight : f.proc.inflight = o.inflight + f.req.inflight
  count : f.req.count = f.req.ngxRefs + f.req.counted
  ledger : ∀ q, f.proc.retired q + o.owned q + f.req.owns q = f.proc.started q
  ctx : ∀ x ∈ f.req.ctxs, x.Sound f.proc i
  home : ∀ c, ∀ x ∈ f.req.ctxs[c]?, x.waiting = true → f.req.Home c

section FrameSound

variable {o : Others} {i : ℕ} {f : Frame}

/-- A change that leaves the contexts alone. -/
theorem Frame.Sound.congr (h : f.Sound o i) {r : Request} (hctxs : r.ctxs = f.req.ctxs)
    (hcount : r.count + f.req.ngxRefs = f.req.count + r.ngxRefs)
    (hhome : (∀ c, f.req.Home c → r.Home c) ∨ ∀ x ∈ f.req.ctxs, x.waiting = false) :
    Frame.Sound o i ⟨f.proc, r⟩ where
  inflight := by simpa only [Request.inflight, hctxs] using h.inflight
  count := by
    have := h.count
    simp only [Request.counted, hctxs] at this ⊢
    omega
  ledger := by simpa only [Request.owns, hctxs] using h.ledger
  ctx := by simpa only [hctxs] using h.ctx
  home := by
    intro c x hx hwait
    simp only [hctxs] at hx
    rcases hhome with hhome | hidle
    · exact hhome c (h.home c x hx hwait)
    · rw [hidle x (List.mem_of_getElem? hx)] at hwait
      cases hwait

/-- Replacing one context. -/
theorem Frame.Sound.replace (h : f.Sound o i) {c : ℕ} {x : ReqCtx}
    (hx : f.req.ctxs[c]? = some x) : ∃ rest, Live.Sound rest i ⟨f.proc, f.req.count, x⟩ ∧
      ∀ (l : Live) (r : Request), l.Sound rest i → f.proc.Grows l.proc →
        (l.ctx.waiting = true → x.waiting = true) → r.ctxs = f.req.ctxs.set c l.ctx →
        r.count = l.count → r.ngxRefs = f.req.ngxRefs → (∀ c, f.req.Home c → r.Home c) →
        Frame.Sound o i ⟨l.proc, r⟩ := by
  have hxs := h.ctx x (List.mem_of_getElem? hx)
  have hin := h.inflight
  have hcount := h.count
  have hledger := h.ledger
  have hle₁ := le_tally ReqCtx.inflight hx
  have hle₂ := le_tally ReqCtx.counted hx
  have hle₃ := fun q => le_tally (ReqCtx.owns q) hx
  simp only [Request.inflight, Request.counted, Request.owns] at hin hcount hledger
  refine ⟨⟨o.inflight + (tally ReqCtx.inflight f.req.ctxs - x.inflight),
    f.req.ngxRefs + (tally ReqCtx.counted f.req.ctxs - x.counted),
    fun q => o.owned q + (tally (ReqCtx.owns q) f.req.ctxs - x.owns q)⟩, ?_, ?_⟩
  · refine ⟨⟨hxs.toFlags, ?_, ?_, fun q => ?_⟩, hxs.outcome, hxs.observer⟩
    · simp only
      omega
    · simp only
      omega
    · have := hledger q
      have := hle₃ q
      simp only
      omega
  · intro l r hl hgrows hwait hctxs hrcount hrefs hhome
    have h₁ := tally_set ReqCtx.inflight l.ctx hx
    have h₂ := tally_set ReqCtx.counted l.ctx hx
    have h₃ := fun q => tally_set (ReqCtx.owns q) l.ctx hx
    refine ⟨?_, ?_, fun q => ?_, ?_, ?_⟩
    · have := hl.inflight
      simp only [Request.inflight, hctxs] at this ⊢
      omega
    · have := hl.count
      simp only [Request.counted, hctxs, hrcount, hrefs] at this ⊢
      omega
    · have hled := hl.ledger q
      have hset := h₃ q
      have hle := hle₃ q
      simp only [Request.owns, hctxs] at hled ⊢
      omega
    · intro y hy
      simp only [hctxs] at hy
      rcases List.mem_or_eq_of_mem_set hy with hy | rfl
      · exact (h.ctx y hy).grows hgrows
      · exact hl.ctx
    · intro c' y hy hywait
      simp only [hctxs] at hy
      rw [Option.mem_def, List.getElem?_set] at hy
      split_ifs at hy with heq hlt
      · obtain rfl := Option.some.inj hy
        exact heq ▸ hhome c (h.home c x hx (hwait hywait))
      · exact hhome c' (h.home c' y hy hywait)

/-- Adding a context, when none waits. -/
theorem Frame.Sound.push (h : f.Sound o i) (hidle : ∀ x ∈ f.req.ctxs, x.waiting = false) :
    ∃ rest, (∀ x : ReqCtx, x.Idle → Live.Balanced rest i ⟨f.proc, f.req.count, x⟩) ∧
      ∀ (l : Live) (r : Request), l.Sound rest i → f.proc.Grows l.proc →
        r.ctxs = f.req.ctxs ++ [l.ctx] → r.count = l.count → r.ngxRefs = f.req.ngxRefs →
        (l.ctx.waiting = true → r.Home f.req.ctxs.length) → Frame.Sound o i ⟨l.proc, r⟩ := by
  have hin := h.inflight
  have hcount := h.count
  have hledger := h.ledger
  simp only [Request.inflight, Request.counted, Request.owns] at hin hcount hledger
  refine ⟨⟨o.inflight + tally ReqCtx.inflight f.req.ctxs,
    f.req.ngxRefs + tally ReqCtx.counted f.req.ctxs,
    fun q => o.owned q + tally (ReqCtx.owns q) f.req.ctxs⟩, fun x hx => ?_, ?_⟩
  · refine ⟨hx.flags _ i, ?_, ?_, fun q => ?_⟩
    · rw [hx.inflight_eq]
      exact hin
    · rw [hx.counted_eq]
      exact hcount
    · rw [hx.owns, add_zero, ← add_assoc]
      exact hledger q
  · intro l r hl hgrows hctxs hrcount hrefs hhome
    refine ⟨?_, ?_, fun q => ?_, ?_, ?_⟩
    · have := hl.inflight
      simp only [Request.inflight, hctxs, tally_append, tally_cons, tally_nil] at this ⊢
      omega
    · have := hl.count
      simp only [Request.counted, hctxs, hrcount, hrefs, tally_append, tally_cons,
        tally_nil] at this ⊢
      omega
    · have := hl.ledger q
      simp only [Request.owns, hctxs, tally_append, tally_cons, tally_nil] at this ⊢
      omega
    · intro y hy
      simp only [hctxs] at hy
      rcases List.mem_append.mp hy with hy | hy
      · exact (h.ctx y hy).grows hgrows
      · obtain rfl := List.mem_singleton.mp hy
        exact hl.ctx
    · intro c y hy hywait
      simp only [hctxs] at hy
      rw [Option.mem_def, List.getElem?_append] at hy
      split_ifs at hy with hlt
      · rw [hidle y (List.mem_of_getElem? hy)] at hywait
        cases hywait
      · obtain ⟨hlt', hget⟩ := List.getElem?_eq_some_iff.mp hy
        simp only [List.length_singleton] at hlt'
        obtain rfl : c = f.req.ctxs.length := by omega
        simp only [Nat.sub_self, List.getElem_cons_zero] at hget
        rw [← hget] at hywait
        exact hhome hywait

end FrameSound

end RlNginx
