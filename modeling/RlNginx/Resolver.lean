import RlNginx.Lib.Transition
import RlNginx.Bytes

/-!
# The resolver adapter

`rn_resolve_srv` and `rn_resolve_addrs` start a lookup for the C client. Each owns a
`rn_dns_req_t` with its buffers and an nginx resolver context, and hands them on : to the
handler when nginx answers, to `rn_resolve_cancel` when the client gives up, or back to
itself when nginx answers inside `ngx_resolve_name` or fails.

`Lookup` is one lookup with a ledger of what was acquired and released for it. A use of
something that is no longer there is a fault, so a double release or a use after release
shows in the ledger. The client can cancel from inside the callback of the same lookup, and
again from the callback that the cancellation brings about; `Reaction` is what it does there.
It gives up its copy of the id before it calls the cancellation hook.
-/

open Transition

namespace RlNginx

/-! ## The state of a start -/

/-- `rn_async_state_t`. -/
structure AsyncState where
  starting : Bool
  completed : Bool
  deriving DecidableEq, Repr

/-- The zeroed state of a new request. -/
def AsyncState.zero : AsyncState := ⟨false, false⟩

/-- `rn_async_state_begin`. -/
def rnAsyncStateBegin (_ : AsyncState) : AsyncState := ⟨true, false⟩

/-- `rn_async_state_complete`. -/
def rnAsyncStateComplete (st : AsyncState) : AsyncState := { st with completed := true }

/-- `rn_async_state_is_starting`. -/
def rnAsyncStateIsStarting (st : AsyncState) : Bool := st.starting

/-- `rn_async_state_finish`, and whether the operation is pending. -/
def rnAsyncStateFinish (st : AsyncState) (startSucceeded : Bool) : AsyncState × Bool :=
  ({ st with starting := false }, startSucceeded && !st.completed)

/-! ## Lookups -/

/-- Which call a lookup comes from. -/
inductive LookupKind where
  | srv
  | addr
  deriving DecidableEq, Repr

/-- `rn_dns_req_t` : which of `srv_cb` and `addr_cb` is set, the buffers it owns, and the state
of its start. -/
structure DnsReq where
  cb : LookupKind
  nameBuf : Option Bytes
  serviceBuf : Option Bytes
  startState : AsyncState
  deriving DecidableEq, Repr

/-- `ngx_resolver_ctx_t`. `data` says that it points to the request. -/
structure ResolverCtx where
  name : Bytes
  service : Bytes
  handler : Option LookupKind
  data : Bool
  deriving DecidableEq, Repr

/-- The status a callback of the client is given : zero, `-1`, or `RCLIENT_ERR_DNS`. -/
inductive DnsStatus where
  | ok
  | failed
  | errDns
  deriving DecidableEq, Repr

/-- One lookup : the objects that are there, the ledger, the callbacks made, and the id
as the client holds it. -/
structure Lookup where
  kind : LookupKind
  req : Option DnsReq
  rctx : Option ResolverCtx
  reqAllocs : ℕ
  reqFrees : ℕ
  bufAllocs : ℕ
  bufFrees : ℕ
  ctxStarts : ℕ
  ctxDones : ℕ
  callbacks : List (LookupKind × DnsStatus)
  id : Bool
  faults : ℕ
  deriving DecidableEq, Repr

/-- The lookup at the entry of the call, with `*out_req_id = 0`. -/
def Lookup.enter (kind : LookupKind) : Lookup where
  kind := kind
  req := none
  rctx := none
  reqAllocs := 0
  reqFrees := 0
  bufAllocs := 0
  bufFrees := 0
  ctxStarts := 0
  ctxDones := 0
  callbacks := []
  id := false
  faults := 0

/-- A use of something that is no longer there. -/
def Lookup.fault (l : Lookup) : Lookup :=
  { l with faults := l.faults + 1 }

/-- Buffers of a request. -/
def DnsReq.buffers (req : DnsReq) : ℕ :=
  req.nameBuf.isSome.toNat + req.serviceBuf.isSome.toNat

/-- A write to the request. -/
def Lookup.mapReq (l : Lookup) (f : DnsReq → DnsReq) : Lookup :=
  match l.req with
  | none => l.fault
  | some req => { l with req := some (f req) }

/-- A write to the context. -/
def Lookup.mapCtx (l : Lookup) (f : ResolverCtx → ResolverCtx) : Lookup :=
  match l.rctx with
  | none => l.fault
  | some rctx => { l with rctx := some (f rctx) }

/-- `rn_dns_req_release` of a request that is not `NULL`. -/
def rnDnsReqRelease (l : Lookup) : Lookup :=
  match l.req with
  | none => l.fault
  | some req =>
    { l with req := none, reqFrees := l.reqFrees + 1, bufFrees := l.bufFrees + req.buffers }

/-- `ngx_resolve_name_done`. -/
def ngxResolveNameDone (l : Lookup) : Lookup :=
  match l.rctx with
  | none => l.fault
  | some _ => { l with rctx := none, ctxDones := l.ctxDones + 1 }

/-- `rn_dns_discard_unstarted`; `req` says that the request was allocated. -/
def rnDnsDiscardUnstarted (req : Bool) (l : Lookup) : Lookup :=
  let l := ngxResolveNameDone (l.mapCtx ({ · with data := false }))
  if req then rnDnsReqRelease l else l

/-! ## Callbacks and cancellation -/

/-- What the client does inside a callback : cancels of the same lookup, each with what the
client does inside the callback it brings about. -/
inductive Reaction where
  | done
  | cancel (inner rest : Reaction)
  deriving DecidableEq, Repr

/-- A callback of the client. -/
def Lookup.callback (l : Lookup) (cb : LookupKind) (status : DnsStatus)
    (react : Lookup → Lookup) : Lookup :=
  react { l with callbacks := l.callbacks ++ [(cb, status)] }

/-- Detach the context from the request and mark the start as complete. -/
def Lookup.detach (l : Lookup) : Lookup :=
  (l.mapCtx ({ · with data := false })).mapReq fun req =>
    { req with startState := rnAsyncStateComplete req.startState }

/-- `rn_resolve_cancel`; `id` says that the id is not zero. -/
def rnResolveCancel (react : Lookup → Lookup) (id : Bool) (l : Lookup) : Lookup :=
  if !id then l
  else
    match l.rctx with
    | none => l.fault
    | some rctx =>
      if !rctx.data then l
      else
        match l.req with
        | none => l.fault
        | some req =>
          (rnDnsReqRelease (ngxResolveNameDone l.detach)).callback req.cb .errDns react

/-- The client gives up its id and calls the cancellation hook. -/
def clientCancel (react : Lookup → Lookup) (l : Lookup) : Lookup :=
  rnResolveCancel react l.id { l with id := false }

/-- What the client does inside a callback. -/
def Reaction.react : Reaction → Lookup → Lookup
  | .done, l => l
  | .cancel inner rest, l => rest.react (clientCancel inner.react l)

/-! ## The resolver's answer -/

/-- What a handler meets : the resolver's answer, the allocation and the conversion of the
records, and the client's reaction. -/
structure Answer where
  /-- `ctx->state` is zero. -/
  success : Bool
  /-- `ctx->nsrvs` or `ctx->naddrs`. -/
  count : ℕ
  /-- The sizes of the arrays do not overflow. -/
  fits : Bool
  allocSources : Bool
  allocAddrs : Bool
  /-- `rn_srv_records_build` succeeds, or `rn_addr_records_compact` keeps an address. -/
  convert : Bool
  reaction : Reaction
  deriving DecidableEq, Repr

/-- The status `rn_resolve_srv_handler` gives to the callback. -/
def Answer.srvStatus (a : Answer) : DnsStatus :=
  if !a.success || a.count == 0 then .failed
  else if !a.fits then .failed
  else if !a.allocSources then .failed
  else if !a.convert then .failed
  else .ok

/-- The status `rn_resolve_addr_handler` gives to the callback. -/
def Answer.addrStatus (a : Answer) : DnsStatus :=
  if !a.success || a.count == 0 then .failed
  else if !a.fits then .failed
  else if !a.allocAddrs || !a.allocSources then .failed
  else if !a.convert then .failed
  else .ok

/-- A handler for the callback `cb`. -/
def rnResolveHandler (cb : LookupKind) (status : DnsStatus) (reaction : Reaction) (l : Lookup) :
    Lookup :=
  match l.rctx with
  | none => l.fault
  | some rctx =>
    if !rctx.data then ngxResolveNameDone l
    else
      match l.req with
      | none => l.fault
      | some req =>
        if req.cb ≠ cb then ngxResolveNameDone l
        else
          let l := ngxResolveNameDone (l.detach.callback cb status reaction.react)
          match l.req with
          | none => l.fault
          | some req =>
            if rnAsyncStateIsStarting req.startState then l else rnDnsReqRelease l

/-- `rn_resolve_srv_handler`. -/
def rnResolveSrvHandler (a : Answer) : Lookup → Lookup :=
  rnResolveHandler .srv a.srvStatus a.reaction

/-- `rn_resolve_addr_handler`. -/
def rnResolveAddrHandler (a : Answer) : Lookup → Lookup :=
  rnResolveHandler .addr a.addrStatus a.reaction

/-- nginx answers through `ctx->handler`. -/
def Lookup.answer (a : Answer) (l : Lookup) : Lookup :=
  match l.rctx.bind (·.handler) with
  | none => l.fault
  | some .srv => rnResolveSrvHandler a l
  | some .addr => rnResolveAddrHandler a l

/-! ## Starting a lookup -/

/-- What `ngx_resolve_name` does : fail, with the context released; call the handler and
succeed; or succeed, with the answer to come. -/
inductive Resolution where
  | error
  | sync (answer : Answer)
  | pending
  deriving DecidableEq, Repr

/-- Which steps of a start succeed. -/
structure StartEnv where
  /-- None of the arguments is `NULL`, and the worker has a resolver. -/
  arguments : Bool
  resolveStart : Bool
  allocReq : Bool
  allocName : Bool
  allocService : Bool
  allocDomain : Bool
  resolution : Resolution
  deriving DecidableEq, Repr

/-- `rn_resolve_name_start`, and whether it returned `NGX_OK`. -/
def rnResolveNameStart (resolution : Resolution) (l : Lookup) : Lookup × Bool :=
  match resolution with
  | .error => (ngxResolveNameDone l, false)
  | .sync answer => (l.answer answer, true)
  | .pending => (l, true)

/-- The end of `rn_resolve_srv` and `rn_resolve_addrs` : fill in the context, start, and
publish the id of a pending lookup. Returns whether the call returned zero. -/
def rnResolveSubmit (kind : LookupKind) (env : StartEnv) (name service : Bytes) (l : Lookup) :
    Lookup × Bool :=
  let l := l.mapCtx fun _ => ⟨name, service, some kind, true⟩
  let l := l.mapReq fun req => { req with startState := rnAsyncStateBegin req.startState }
  let (l, ok) := rnResolveNameStart env.resolution l
  match l.req with
  | none => (l.fault, false)
  | some req =>
    let (startState, pending) := rnAsyncStateFinish req.startState ok
    let l := { l with req := some { req with startState } }
    if !pending then (rnDnsReqRelease l, ok) else ({ l with id := true }, true)

/-- The split of an SRV name at its second dot : `_service._proto` and the domain. -/
def splitService (name : Bytes) : Option (Bytes × Bytes) :=
  match name.findIdx? (· == 46) with
  | none => none
  | some first =>
    match (name.drop (first + 1)).findIdx? (· == 46) with
    | none => none
    | some k => some (name.take (first + 1 + k), name.drop (first + 1 + k + 1))

/-- The part the two calls share : the context, the request and its name buffer, then
`submit`. -/
def rnResolveBegin (kind : LookupKind) (env : StartEnv) (name : Bytes)
    (submit : Lookup → Lookup × Bool) : Lookup × Bool :=
  let l := Lookup.enter kind
  if !env.arguments then (l, false)
  else if !env.resolveStart then (l, false)
  else
    let l := { l with rctx := some ⟨[], [], none, false⟩, ctxStarts := l.ctxStarts + 1 }
    if !env.allocReq then (rnDnsDiscardUnstarted false l, false)
    else
      let l := { l with req := some ⟨kind, none, none, .zero⟩, reqAllocs := l.reqAllocs + 1 }
      if !env.allocName then (rnDnsDiscardUnstarted true l, false)
      else
        let l := l.mapReq ({ · with nameBuf := some name })
        submit { l with bufAllocs := l.bufAllocs + 1 }

/-- `rn_resolve_srv`. -/
def rnResolveSrv (env : StartEnv) (name : Bytes) : Lookup × Bool :=
  rnResolveBegin .srv env name fun l =>
    match splitService name with
    | none => rnResolveSubmit .srv env name [] l
    | some (service, domain) =>
      if !env.allocService then (rnDnsDiscardUnstarted true l, false)
      else
        let l := l.mapReq ({ · with serviceBuf := some service })
        let l := { l with bufAllocs := l.bufAllocs + 1 }
        if !env.allocDomain then (rnDnsDiscardUnstarted true l, false)
        else
          -- the domain takes the place of the name
          let l := l.mapReq ({ · with nameBuf := some domain })
          let l := { l with bufAllocs := l.bufAllocs + 1, bufFrees := l.bufFrees + 1 }
          rnResolveSubmit .srv env domain service l

/-- `rn_resolve_addrs`. -/
def rnResolveAddrs (env : StartEnv) (name : Bytes) : Lookup × Bool :=
  rnResolveBegin .addr env name (rnResolveSubmit .addr env name [])

/-- Either call. -/
def rnResolve : LookupKind → StartEnv → Bytes → Lookup × Bool
  | .srv => rnResolveSrv
  | .addr => rnResolveAddrs

/-! ## Who owns what -/

/-- The lookup waits for nginx : the request and the context are there, and nobody was
called. `starting` says that the call has not returned. -/
structure Lookup.Waits (starting : Bool) (l : Lookup) : Prop where
  req : ∃ req, l.req = some req ∧ req.cb = l.kind ∧ req.startState = ⟨starting, false⟩ ∧
    l.bufAllocs = l.bufFrees + req.buffers
  rctx : ∃ rctx, l.rctx = some rctx ∧ rctx.handler = some l.kind ∧ rctx.data = true
  reqs : l.reqAllocs = 1 ∧ l.reqFrees = 0
  ctxs : l.ctxStarts = 1 ∧ l.ctxDones = 0
  callbacks : l.callbacks = []
  faults : l.faults = 0

/-- The lookup is over, after a call that returned zero or not : everything that was acquired
was released once, and the client was called back once, through the callback it gave, or not
at all. -/
structure Lookup.Ended (ok : Bool) (l : Lookup) : Prop where
  req : l.req = none
  rctx : l.rctx = none
  reqs : l.reqFrees = l.reqAllocs ∧ l.reqAllocs ≤ 1
  bufs : l.bufFrees = l.bufAllocs
  ctxs : l.ctxDones = l.ctxStarts ∧ l.ctxStarts ≤ 1
  started : ok = true → l.reqAllocs = 1 ∧ l.ctxStarts = 1
  callbacks : l.callbacks.length = ok.toNat ∧ ∀ p ∈ l.callbacks, p.1 = l.kind
  faults : l.faults = 0

/-- A lookup that has ended does not wait. -/
theorem Lookup.Ended.not_waits {ok starting : Bool} {l : Lookup} (h : l.Ended ok) :
    ¬l.Waits starting := by
  intro hwaits
  obtain ⟨req, hreq, -⟩ := hwaits.req
  simp [h.req] at hreq

section Owners

variable {l : Lookup} {req : DnsReq} {rctx : ResolverCtx}

/-- A cancellation that finds no request, or has no id, does nothing. -/
theorem clientCancel_spent (react : Lookup → Lookup)
    (h : l.id = true → ∃ rctx, l.rctx = some rctx ∧ rctx.data = false) :
    clientCancel react l = { l with id := false } := by
  unfold clientCancel rnResolveCancel
  cases hid : l.id with
  | false => simp
  | true =>
    obtain ⟨rctx, hrctx, hdata⟩ := h hid
    simp [hrctx, hdata]

/-- Inside a callback the client changes nothing but its copy of the id. -/
theorem react_spent (ρ : Reaction) :
    ∀ {l : Lookup}, (l.id = true → ∃ rctx, l.rctx = some rctx ∧ rctx.data = false) →
      ∃ b, ρ.react l = { l with id := b } ∧ (b = true → l.id = true) := by
  induction ρ with
  | done => exact fun {l} _ => ⟨l.id, rfl, id⟩
  | cancel inner rest _ ih =>
    intro l h
    rw [Reaction.react, clientCancel_spent inner.react h]
    obtain ⟨b, heq, hb⟩ := ih (l := { l with id := false }) (by simp)
    exact ⟨b, heq, fun h => absurd (hb h) (by simp)⟩

/-- A live lookup with its context detached. -/
theorem Lookup.detach_eq (hreq : l.req = some req) (hrctx : l.rctx = some rctx) :
    l.detach = { l with
      req := some { req with startState := rnAsyncStateComplete req.startState }
      rctx := some { rctx with data := false } } := by
  simp [Lookup.detach, Lookup.mapCtx, Lookup.mapReq, hreq, hrctx]

/-- The handler of a live lookup calls the client once and retires the context; it releases
the request unless the call that started the lookup will. -/
theorem rnResolveHandler_eq {cb : LookupKind} (status : DnsStatus) (ρ : Reaction)
    (hreq : l.req = some req) (hcb : req.cb = cb) (hrctx : l.rctx = some rctx)
    (hdata : rctx.data = true) : ∃ b, (b = true → l.id = true) ∧
      rnResolveHandler cb status ρ l = { l with
        req := if req.startState.starting then some { req with
          startState := rnAsyncStateComplete req.startState } else none
        reqFrees := l.reqFrees + (!req.startState.starting).toNat
        bufFrees := l.bufFrees + if req.startState.starting then 0 else req.buffers
        rctx := none
        ctxDones := l.ctxDones + 1
        callbacks := l.callbacks ++ [(cb, status)]
        id := b } := by
  subst hcb
  have hdetach := Lookup.detach_eq hreq hrctx
  obtain ⟨b, hreact, hb⟩ := react_spent ρ (l := { l.detach with
    callbacks := l.callbacks ++ [(req.cb, status)] }) (fun _ => ⟨_, by rw [hdetach], rfl⟩)
  refine ⟨b, by simpa [hdetach] using hb, ?_⟩
  have hcallback : l.detach.callback req.cb status ρ.react =
      { l.detach with callbacks := l.callbacks ++ [(req.cb, status)], id := b } := by
    rw [← hreact, Lookup.callback]
    simp [hdetach]
  simp only [rnResolveHandler, hrctx, hdata, hreq, Bool.not_true, Bool.false_eq_true, if_false,
    ne_eq, not_true_eq_false]
  rw [hcallback, hdetach]
  cases hstarting : req.startState.starting with
  | true =>
    simp [ngxResolveNameDone, rnAsyncStateIsStarting, rnAsyncStateComplete, hstarting]
  | false =>
    simp [ngxResolveNameDone, rnAsyncStateIsStarting, rnAsyncStateComplete, hstarting,
      rnDnsReqRelease, DnsReq.buffers]

/-- nginx answers a live lookup through the handler for its callback. -/
theorem Lookup.answer_eq (a : Answer) (hreq : l.req = some req) (hcb : req.cb = l.kind)
    (hrctx : l.rctx = some rctx) (hhandler : rctx.handler = some l.kind)
    (hdata : rctx.data = true) : ∃ b status, (b = true → l.id = true) ∧
      l.answer a = { l with
        req := if req.startState.starting then some { req with
          startState := rnAsyncStateComplete req.startState } else none
        reqFrees := l.reqFrees + (!req.startState.starting).toNat
        bufFrees := l.bufFrees + if req.startState.starting then 0 else req.buffers
        rctx := none
        ctxDones := l.ctxDones + 1
        callbacks := l.callbacks ++ [(l.kind, status)]
        id := b } := by
  have hbind : l.rctx.bind (·.handler) = some l.kind := by simp [hrctx, hhandler]
  simp only [Lookup.answer, hbind]
  cases hkind : l.kind with
  | srv =>
    obtain ⟨b, hb, heq⟩ := rnResolveHandler_eq a.srvStatus a.reaction hreq (hcb.trans hkind) hrctx
      hdata
    exact ⟨b, _, hb, heq.trans (by rw [hkind])⟩
  | addr =>
    obtain ⟨b, hb, heq⟩ := rnResolveHandler_eq a.addrStatus a.reaction hreq (hcb.trans hkind) hrctx
      hdata
    exact ⟨b, _, hb, heq.trans (by rw [hkind])⟩

/-- The lookup with the request and the context released, after the given callbacks. -/
def Lookup.retired (l : Lookup) (req : DnsReq) (callbacks : List (LookupKind × DnsStatus)) :
    Lookup :=
  { l with
    req := none
    rctx := none
    reqFrees := l.reqFrees + 1
    bufFrees := l.bufFrees + req.buffers
    ctxDones := l.ctxDones + 1
    callbacks := callbacks }

/-- Releasing both, with one callback if the call succeeds, ends a lookup. -/
theorem Lookup.retired_ended {ok : Bool} {callbacks : List (LookupKind × DnsStatus)}
    (hreqs : l.reqAllocs = 1 ∧ l.reqFrees = 0) (hctxs : l.ctxStarts = 1 ∧ l.ctxDones = 0)
    (hbufs : l.bufAllocs = l.bufFrees + req.buffers) (hfaults : l.faults = 0)
    (hcalls : callbacks.length = ok.toNat ∧ ∀ p ∈ callbacks, p.1 = l.kind) (b : Bool) :
    Lookup.Ended ok { l.retired req callbacks with id := b } where
  req := rfl
  rctx := rfl
  reqs := by simp [Lookup.retired, hreqs]
  bufs := hbufs.symm
  ctxs := by simp [Lookup.retired, hctxs]
  started := fun _ => ⟨hreqs.1, hctxs.1⟩
  callbacks := hcalls
  faults := hfaults

/-- An answer ends a pending lookup. -/
theorem Lookup.Waits.answer_ended (h : l.Waits false) (a : Answer) : (l.answer a).Ended true := by
  obtain ⟨req, hreq, hcb, hstate, hbufs⟩ := h.req
  obtain ⟨rctx, hrctx, hhandler, hdata⟩ := h.rctx
  obtain ⟨b, status, -, heq⟩ := Lookup.answer_eq a hreq hcb hrctx hhandler hdata
  have hretired : l.answer a = { l.retired req [(l.kind, status)] with id := b } := by
    simpa [hstate, h.callbacks, Lookup.retired] using heq
  rw [hretired]
  exact Lookup.retired_ended h.reqs h.ctxs hbufs h.faults (by simp) b

/-- A cancellation ends a pending lookup. -/
theorem Lookup.Waits.cancel_ended (h : l.Waits false) (hid : l.id = true) (ρ : Reaction) :
    (clientCancel ρ.react l).Ended true := by
  obtain ⟨req, hreq, hcb, hstate, hbufs⟩ := h.req
  obtain ⟨rctx, hrctx, -, hdata⟩ := h.rctx
  obtain ⟨b, hreact, -⟩ := react_spent ρ (l := { l.retired req [(l.kind, .errDns)] with
    id := false }) (by simp)
  have hretired : clientCancel ρ.react l =
      { l.retired req [(l.kind, .errDns)] with id := b } := by
    rw [← hreact]
    simp [clientCancel, rnResolveCancel, hid, hrctx, hdata, hreq, hcb, Lookup.detach, Lookup.mapCtx,
      Lookup.mapReq, ngxResolveNameDone, rnDnsReqRelease, Lookup.callback, DnsReq.buffers,
      Lookup.retired, h.callbacks]
  rw [hretired]
  exact Lookup.retired_ended h.reqs h.ctxs hbufs h.faults (by simp) b

/-! ## What a start leaves behind -/

/-- The call has acquired the context and the request, and has not started them. -/
structure Lookup.Unstarted (l : Lookup) : Prop where
  req : ∃ req, l.req = some req ∧ req.cb = l.kind ∧ l.bufAllocs = l.bufFrees + req.buffers
  rctx : ∃ rctx, l.rctx = some rctx
  reqs : l.reqAllocs = 1 ∧ l.reqFrees = 0
  ctxs : l.ctxStarts = 1 ∧ l.ctxDones = 0
  callbacks : l.callbacks = []
  id : l.id = false
  faults : l.faults = 0

/-- What a call may leave behind : the lookup has ended and no id is published, or the call
returned zero, the lookup waits for nginx and its id is published. -/
def Lookup.Left (l : Lookup) (ok : Bool) : Prop :=
  (l.Ended ok ∧ l.id = false) ∨ (ok = true ∧ l.Waits false ∧ l.id = true)

/-- A call that releases what it acquired leaves an ended lookup. -/
theorem Lookup.Unstarted.retired_left {ok : Bool} {callbacks : List (LookupKind × DnsStatus)}
    (h : l.Unstarted) (hbufs : l.bufAllocs = l.bufFrees + req.buffers)
    (hcalls : callbacks.length = ok.toNat ∧ ∀ p ∈ callbacks, p.1 = l.kind) :
    (l.retired req callbacks).Left ok :=
  .inl ⟨Lookup.retired_ended h.reqs h.ctxs hbufs h.faults hcalls _, h.id⟩

/-- A discarded lookup has ended. -/
theorem rnDnsDiscardUnstarted_left (h : l.Unstarted) :
    (rnDnsDiscardUnstarted true l).Left false := by
  obtain ⟨req, hreq, -, hbufs⟩ := h.req
  obtain ⟨rctx, hrctx⟩ := h.rctx
  have heq : rnDnsDiscardUnstarted true l = l.retired req [] := by
    simp [rnDnsDiscardUnstarted, Lookup.mapCtx, hrctx, ngxResolveNameDone, rnDnsReqRelease, hreq,
      Lookup.retired, h.callbacks]
  rw [heq]
  exact h.retired_left hbufs (by simp)

/-- The lookup as it is given to nginx. -/
def Lookup.submitted (l : Lookup) (req : DnsReq) (name service : Bytes) : Lookup :=
  { l with
    req := some { req with startState := ⟨true, false⟩ }
    rctx := some ⟨name, service, some l.kind, true⟩ }

/-- Whatever nginx does, a start leaves an ended lookup or a pending one. -/
theorem rnResolveSubmit_left {kind : LookupKind} (h : l.Unstarted) (hkind : l.kind = kind)
    (env : StartEnv) (name service : Bytes) :
    (rnResolveSubmit kind env name service l).1.Left
      (rnResolveSubmit kind env name service l).2 := by
  subst hkind
  obtain ⟨req, hreq, hcb, hbufs⟩ := h.req
  obtain ⟨rctx, hrctx⟩ := h.rctx
  have hsubmit : (l.mapCtx fun _ => ⟨name, service, some l.kind, true⟩).mapReq (fun req =>
      { req with startState := rnAsyncStateBegin req.startState }) =
        l.submitted req name service := by
    simp [Lookup.mapCtx, Lookup.mapReq, hreq, hrctx, Lookup.submitted, rnAsyncStateBegin]
  simp only [rnResolveSubmit, hsubmit]
  cases env.resolution with
  | error =>
    -- nginx released the context; the call releases the request
    have heq : rnDnsReqRelease (ngxResolveNameDone (l.submitted req name service)) =
        l.retired req [] := by
      simp [ngxResolveNameDone, Lookup.submitted, rnDnsReqRelease, DnsReq.buffers,
        Lookup.retired, h.callbacks]
    have hleft : (l.retired req []).Left false := h.retired_left hbufs (by simp)
    rw [← heq] at hleft
    exact hleft
  | sync answer =>
    -- the handler ran inside the start and left the request to the call
    obtain ⟨b, status, hb, heq⟩ := Lookup.answer_eq (l := l.submitted req name service) answer
      rfl hcb rfl rfl rfl
    obtain rfl : b = l.id := by
      have hid : (l.submitted req name service).id = l.id := rfl
      rw [hid, h.id] at hb
      simpa [h.id] using hb
    simp only [rnResolveNameStart]
    rw [heq]
    have hleft : (l.retired req [(l.kind, status)]).Left true := h.retired_left hbufs (by simp)
    simpa [Lookup.submitted, rnAsyncStateFinish, rnAsyncStateComplete, rnDnsReqRelease,
      DnsReq.buffers, h.callbacks, Lookup.retired] using hleft
  | pending =>
    refine .inr ⟨rfl, ?_, rfl⟩
    exact {
      req := ⟨_, rfl, hcb, rfl, hbufs⟩
      rctx := ⟨_, rfl, rfl, rfl⟩
      reqs := h.reqs
      ctxs := h.ctxs
      callbacks := h.callbacks
      faults := h.faults }

end Owners

/-- The lookup once its request and its name are allocated. -/
def Lookup.begun (kind : LookupKind) (name : Bytes) : Lookup :=
  { Lookup.enter kind with
    req := some ⟨kind, some name, none, .zero⟩
    rctx := some ⟨[], [], none, false⟩
    reqAllocs := 1
    bufAllocs := 1
    ctxStarts := 1 }

/-- A lookup that has begun is not started. -/
theorem Lookup.begun_unstarted (kind : LookupKind) (name : Bytes) :
    (Lookup.begun kind name).Unstarted where
  req := ⟨_, rfl, rfl, rfl⟩
  rctx := ⟨_, rfl⟩
  reqs := ⟨rfl, rfl⟩
  ctxs := ⟨rfl, rfl⟩
  callbacks := rfl
  id := rfl
  faults := rfl

/-- A lookup that acquired nothing, or only a context it retired, has ended. -/
theorem Lookup.enter_left (kind : LookupKind) (n : ℕ) (hn : n ≤ 1) :
    Lookup.Left { Lookup.enter kind with ctxStarts := n, ctxDones := n } false := by
  refine .inl ⟨?_, rfl⟩
  exact {
    req := rfl
    rctx := rfl
    reqs := ⟨rfl, Nat.zero_le 1⟩
    bufs := rfl
    ctxs := ⟨rfl, hn⟩
    started := by simp
    callbacks := ⟨rfl, by simp [Lookup.enter]⟩
    faults := rfl }

/-- The shared part leaves what `submit` leaves, or an ended lookup. -/
theorem rnResolveBegin_left (kind : LookupKind) (env : StartEnv) (name : Bytes)
    {submit : Lookup → Lookup × Bool}
    (hsubmit : (submit (Lookup.begun kind name)).1.Left (submit (Lookup.begun kind name)).2) :
    (rnResolveBegin kind env name submit).1.Left (rnResolveBegin kind env name submit).2 := by
  unfold rnResolveBegin
  cases env.arguments with
  | false => exact Lookup.enter_left kind 0 (Nat.zero_le 1)
  | true =>
    cases env.resolveStart with
    | false => exact Lookup.enter_left kind 0 (Nat.zero_le 1)
    | true =>
      cases env.allocReq with
      | false => exact Lookup.enter_left kind 1 (Nat.le_refl 1)
      | true =>
        cases env.allocName with
        | false =>
          refine rnDnsDiscardUnstarted_left (l := { Lookup.begun kind name with
            req := some ⟨kind, none, none, .zero⟩, bufAllocs := 0 }) ?_
          exact { Lookup.begun_unstarted kind name with req := ⟨_, rfl, rfl, rfl⟩ }
        | true => exact hsubmit

/-- `rn_resolve_addrs` leaves an ended lookup or a pending one. -/
theorem rnResolveAddrs_left (env : StartEnv) (name : Bytes) :
    (rnResolveAddrs env name).1.Left (rnResolveAddrs env name).2 :=
  rnResolveBegin_left .addr env name
    (rnResolveSubmit_left (Lookup.begun_unstarted .addr name) rfl env name [])

/-- `rn_resolve_srv` leaves an ended lookup or a pending one. -/
theorem rnResolveSrv_left (env : StartEnv) (name : Bytes) :
    (rnResolveSrv env name).1.Left (rnResolveSrv env name).2 := by
  refine rnResolveBegin_left .srv env name ?_
  have hbegun := Lookup.begun_unstarted .srv name
  cases splitService name with
  | none => exact rnResolveSubmit_left hbegun rfl env name []
  | some parts =>
    obtain ⟨service, domain⟩ := parts
    cases env.allocService with
    | false => exact rnDnsDiscardUnstarted_left hbegun
    | true =>
      -- two buffers, then three with the first of them released
      have hservice : Lookup.Unstarted { Lookup.begun .srv name with
          req := some ⟨.srv, some name, some service, .zero⟩, bufAllocs := 2 } :=
        { hbegun with req := ⟨_, rfl, rfl, rfl⟩ }
      have hdomain : Lookup.Unstarted { Lookup.begun .srv name with
          req := some ⟨.srv, some domain, some service, .zero⟩, bufAllocs := 3, bufFrees := 1 } :=
        { hbegun with req := ⟨_, rfl, rfl, rfl⟩ }
      cases env.allocDomain with
      | false => exact rnDnsDiscardUnstarted_left hservice
      | true => exact rnResolveSubmit_left hdomain rfl env domain service

/-- Either call leaves an ended lookup or a pending one. -/
theorem rnResolve_left (kind : LookupKind) (env : StartEnv) (name : Bytes) :
    (rnResolve kind env name).1.Left (rnResolve kind env name).2 := by
  cases kind with
  | srv => exact rnResolveSrv_left env name
  | addr => exact rnResolveAddrs_left env name

/-! ## Lookups of a worker -/

/-- What can happen to the lookups of a worker. -/
inductive DnsEvent where
  /-- The client starts a lookup. -/
  | start (kind : LookupKind) (env : StartEnv) (name : Bytes)
  /-- nginx answers. -/
  | handler (i : ℕ) (answer : Answer)
  /-- The client gives up. -/
  | cancel (i : ℕ) (reaction : Reaction)
  deriving DecidableEq, Repr

/-- nginx answers with a context it holds, and the client cancels with an id only as long as
the lookup has not called it back. -/
def DnsEvent.Enabled (ls : List (Lookup × Bool)) : DnsEvent → Prop
  | .start _ _ _ => True
  | .handler i _ => ∃ p ∈ ls[i]?, p.1.rctx.isSome = true
  | .cancel i _ => ∃ p ∈ ls[i]?, p.1.id = true → p.1.callbacks = []

instance DnsEvent.decidableEnabled (ls : List (Lookup × Bool)) :
    (e : DnsEvent) → Decidable (e.Enabled ls)
  | .start _ _ _ => inferInstanceAs (Decidable True)
  | .handler i _ => inferInstanceAs (Decidable (∃ p ∈ ls[i]?, p.1.rctx.isSome = true))
  | .cancel i _ => inferInstanceAs (Decidable (∃ p ∈ ls[i]?, p.1.id = true → p.1.callbacks = []))

/-- The lookups of a worker, each with whether its call returned zero. -/
def resolver : Machine (List (Lookup × Bool)) DnsEvent where
  enabled := fun ls e => e.Enabled ls
  next := fun ls e =>
    match e with
    | .start kind env name => ls ++ [rnResolve kind env name]
    | .handler i answer => ls.modify i (Prod.map (Lookup.answer answer) id)
    | .cancel i reaction => ls.modify i (Prod.map (clientCancel reaction.react) id)

instance resolver.decidableEnabled (ls : List (Lookup × Bool)) (e : DnsEvent) :
    Decidable (resolver.enabled ls e) :=
  inferInstanceAs (Decidable (e.Enabled ls))

/-- A lookup has ended, and the client has no id of one whose call failed; or it is pending,
and the client has its id. -/
def Owned (p : Lookup × Bool) : Prop :=
  (p.1.Ended p.2 ∧ (p.2 = false → p.1.id = false)) ∨
    (p.2 = true ∧ p.1.Waits false ∧ p.1.id = true)

/-- What a call leaves is owned. -/
theorem Lookup.Left.owned {l : Lookup} {ok : Bool} (h : l.Left ok) : Owned (l, ok) :=
  h.imp_left fun ⟨hended, hid⟩ => ⟨hended, fun _ => hid⟩

section Events

variable {p : Lookup × Bool}

/-- nginx answers a pending lookup, and the answer ends it. -/
theorem Owned.handler (h : Owned p) (hrctx : p.1.rctx.isSome = true) (a : Answer) :
    p.2 = true ∧ (p.1.answer a).Ended true := by
  rcases h with ⟨hended, -⟩ | ⟨hok, hwaits, -⟩
  · simp [hended.rctx] at hrctx
  · exact ⟨hok, hwaits.answer_ended a⟩

/-- A cancellation ends a pending lookup, and leaves one that has ended as it is. -/
theorem Owned.cancel (h : Owned p) (hid : p.1.id = true → p.1.callbacks = []) (ρ : Reaction) :
    (clientCancel ρ.react p.1).Ended p.2 ∧
      (p.2 = false → (clientCancel ρ.react p.1).id = false) := by
  rcases h with ⟨hended, hfailed⟩ | ⟨hok, hwaits, hheld⟩
  · -- the client has no id that it may still use
    have hnone : p.1.id = false := by
      by_contra hheld
      rw [Bool.not_eq_false] at hheld
      have hcalls : p.2.toNat = 0 := by rw [← hended.callbacks.1, hid hheld, List.length_nil]
      cases hok : p.2 with
      | false => simp [hfailed hok] at hheld
      | true => simp [hok] at hcalls
    rw [clientCancel_spent ρ.react (by simp [hnone])]
    exact ⟨{ hended with }, fun _ => rfl⟩
  · rw [hok]
    exact ⟨hwaits.cancel_ended hheld ρ, by simp⟩

/-- An update of one lookup that keeps it owned keeps all lookups owned. -/
theorem modify_owned {ls : List (Lookup × Bool)} (h : ∀ p ∈ ls, Owned p) {i : ℕ}
    {f : Lookup → Lookup} (hf : ∀ p ∈ ls[i]?, Owned (f p.1, p.2)) :
    ∀ p ∈ ls.modify i (Prod.map f id), Owned p := by
  intro p hp
  obtain ⟨j, hj⟩ := List.mem_iff_getElem?.mp hp
  rw [List.getElem?_modify] at hj
  obtain ⟨p', hp', rfl⟩ := Option.map_eq_some_iff.mp hj
  split_ifs with hij
  · subst hij
    exact hf p' hp'
  · exact h p' (List.mem_of_getElem? hp')

end Events

/-- Every event keeps every lookup owned. -/
theorem resolver_step {ls : List (Lookup × Bool)} {e : DnsEvent} (h : ∀ p ∈ ls, Owned p)
    (he : resolver.enabled ls e) : ∀ p ∈ resolver.next ls e, Owned p := by
  cases e with
  | start kind env name =>
    intro p hp
    rcases List.mem_append.mp hp with hp | hp
    · exact h p hp
    · rw [List.mem_singleton.mp hp]
      exact (rnResolve_left kind env name).owned
  | handler i answer =>
    obtain ⟨p, hp, hrctx⟩ := he
    refine modify_owned h fun p' hp' => ?_
    obtain rfl : p = p' := Option.some.inj (hp.symm.trans hp')
    obtain ⟨hok, hended⟩ := (h p (List.mem_of_getElem? hp)).handler hrctx answer
    rw [hok]
    exact .inl ⟨hended, by simp⟩
  | cancel i reaction =>
    obtain ⟨p, hp, hid⟩ := he
    refine modify_owned h fun p' hp' => ?_
    obtain rfl : p = p' := Option.some.inj (hp.symm.trans hp')
    exact .inl ((h p (List.mem_of_getElem? hp)).cancel hid reaction)

/-- In every run every lookup is owned. -/
theorem resolver_owned {es : List DnsEvent} {ls : List (Lookup × Bool)}
    (h : Run resolver [] es ls) : ∀ p ∈ ls, Owned p :=
  h.invariant (I := fun ls => ∀ p ∈ ls, Owned p) (by simp) fun _ _ hu he => resolver_step hu he

/-- The id is published exactly when the call succeeds with the lookup pending. -/
theorem Lookup.Left.id_iff {l : Lookup} {ok : Bool} (h : l.Left ok) :
    l.id = true ↔ ok = true ∧ l.Waits false := by
  rcases h with ⟨hended, hid⟩ | ⟨hok, hwaits, hid⟩
  · exact ⟨fun h => by simp [hid] at h, fun ⟨_, hwaits⟩ => absurd hwaits hended.not_waits⟩
  · exact ⟨fun _ => ⟨hok, hwaits⟩, fun _ => hid⟩

/-- A call of the resolver adapter ends its lookup or leaves it pending, and publishes an id in
the second case only. In every run every lookup has ended, with everything released once and
one callback when its call succeeded and none when it failed, or is pending, with everything
still held; and the event that answers or cancels a pending lookup ends it. -/
theorem resolver_ownership {es : List DnsEvent} {ls : List (Lookup × Bool)}
    (h : Run resolver [] es ls) :
    (∀ kind env name,
      ((rnResolve kind env name).1.Ended (rnResolve kind env name).2 ∨
        (rnResolve kind env name).2 = true ∧ (rnResolve kind env name).1.Waits false) ∧
      ((rnResolve kind env name).1.id = true ↔
        (rnResolve kind env name).2 = true ∧ (rnResolve kind env name).1.Waits false)) ∧
    (∀ p ∈ ls, p.1.Ended p.2 ∨ p.2 = true ∧ p.1.Waits false ∧ p.1.id = true) ∧
    ∀ i, ∀ p ∈ ls[i]?, p.1.Waits false →
      (∀ answer, resolver.enabled ls (.handler i answer) ∧
        (p.1.answer answer).Ended true) ∧
      ∀ reaction, resolver.enabled ls (.cancel i reaction) ∧
        (clientCancel reaction.react p.1).Ended true := by
  have howned := resolver_owned h
  refine ⟨fun kind env name => ⟨?_, (rnResolve_left kind env name).id_iff⟩, fun p hp => ?_,
    fun i p hp hwaits => ?_⟩
  · rcases rnResolve_left kind env name with ⟨hended, -⟩ | ⟨hok, hwaits, -⟩
    · exact .inl hended
    · exact .inr ⟨hok, hwaits⟩
  · exact (howned p hp).imp_left And.left
  · have hheld : p.1.id = true := by
      rcases howned p (List.mem_of_getElem? hp) with ⟨hended, -⟩ | ⟨-, -, hheld⟩
      · exact absurd hwaits hended.not_waits
      · exact hheld
    obtain ⟨rctx, hrctx, -⟩ := hwaits.rctx
    refine ⟨fun answer => ⟨⟨p, hp, by simp [hrctx]⟩, hwaits.answer_ended answer⟩,
      fun reaction => ⟨⟨p, hp, fun _ => hwaits.callbacks⟩,
        hwaits.cancel_ended hheld reaction⟩⟩

/-- A start in which everything succeeds. -/
def sampleStart (resolution : Resolution) : StartEnv where
  arguments := true
  resolveStart := true
  allocReq := true
  allocName := true
  allocService := true
  allocDomain := true
  resolution := resolution

/-- An answer with one record, in whose callback the client cancels twice. -/
def sampleAnswer : Answer where
  success := true
  count := 1
  fits := true
  allocSources := true
  allocAddrs := true
  convert := true
  reaction := .cancel .done (.cancel .done .done)

/-- `_a._b.c`. -/
def sampleName : Bytes := [95, 97, 46, 95, 98, 46, 99]

/-- Five lookups : answered inside the start, refused by nginx, short of memory for the
domain, answered later, and cancelled, each callback with cancels of its own. -/
def resolverEvents : List DnsEvent :=
  [.start .srv (sampleStart (.sync sampleAnswer)) sampleName,
    .start .addr (sampleStart .error) sampleName,
    .start .srv { sampleStart .pending with allocDomain := false } sampleName,
    .start .srv (sampleStart .pending) sampleName,
    .start .addr (sampleStart .pending) sampleName,
    .handler 3 sampleAnswer,
    .cancel 4 (.cancel (.cancel .done .done) .done),
    .cancel 1 .done]

theorem sample_ownership :
    (resolverEvents.foldl resolver.next []).map
        (fun p => (p.2, p.1.callbacks, p.1.bufAllocs, p.1.faults)) =
      [(true, [(.srv, .ok)], 3, 0), (false, [], 1, 0), (false, [], 2, 0),
        (true, [(.srv, .ok)], 3, 0), (true, [(.addr, .errDns)], 1, 0)] ∧
    ∀ p ∈ resolverEvents.foldl resolver.next [],
      p.1.Ended p.2 ∨ p.2 = true ∧ p.1.Waits false ∧ p.1.id = true := by
  have hrun : Run resolver [] resolverEvents (resolverEvents.foldl resolver.next []) :=
    Run.of_admits (by decide +kernel)
  exact ⟨by decide +kernel, (resolver_ownership hrun).2.1⟩

end RlNginx
