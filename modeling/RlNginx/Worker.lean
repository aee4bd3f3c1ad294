import RlNginx.Preflight

/-!
# The worker : its client, its endpoint and the steering rebind

One worker process holds one `rn_worker_ctx_t` : the C client, the published UDP
endpoint, the number of rate requests in flight, and the state of the steering rebind.
`Proc` is what outlives it, with the retry state of `rn_worker_ensure` and a ledger of
what the process has acquired.

The C client is known by its contract. `Client` keeps what the module can observe of it :
the requests it accepted, by handle, and which of them it retired.
-/

namespace RlNginx

/-- `RN_REBIND_RETRY_MS`. -/
def rnRebindRetryMs : ℕ := 1000

/-- `RN_INIT_RETRY_INITIAL_MS`. -/
def rnInitRetryInitialMs : ℕ := 1000

/-- `RN_INIT_RETRY_MAX_MS`. -/
def rnInitRetryMaxMs : ℕ := 5000

/-! ## The C client -/

/-- A started rate request : the nginx request it reports to, and the borrowed arrays. -/
structure ClientReq where
  user : ℕ
  check : RateCheck
  deriving DecidableEq, Repr

/-- How a started request ends : its completion callback, or a cancellation. -/
inductive Retirement where
  | completed
  | cancelled
  deriving DecidableEq, Repr

/-- `r_client_t`. The handle of a request is its index in `requests`. -/
structure Client where
  requests : List ClientReq
  retired : List (ℕ × Retirement)
  deriving DecidableEq, Repr

/-- `r_client_create`. -/
def Client.create : Client := ⟨[], []⟩

/-- `r_client_check_rate_limit_async_borrowed`, when it returns `RCLIENT_OK`. -/
def Client.start (c : Client) (user : ℕ) (check : RateCheck) : Client :=
  { c with requests := c.requests ++ [⟨user, check⟩] }

/-- The client is done with a request. -/
def Client.retire (c : Client) (q : ℕ) (how : Retirement) : Client :=
  { c with retired := c.retired ++ [(q, how)] }

/-- A handle that was started and not retired. -/
def Client.Live (c : Client) (q : ℕ) : Prop :=
  q < c.requests.length ∧ q ∉ c.retired.map Prod.fst

instance (c : Client) (q : ℕ) : Decidable (c.Live q) :=
  inferInstanceAs (Decidable (_ ∧ _))

/-! ## Endpoints -/

/-- `AF_INET`, `AF_INET6`. -/
inductive AddressFamily where
  | inet
  | inet6
  deriving DecidableEq, Repr

/-- A bound socket with its nginx connection : `udp_fd`, `udp_family`, `udp_conn`. -/
structure Endpoint where
  fd : ℕ
  family : AddressFamily
  deriving DecidableEq, Repr

/-- What the process holds : sockets, nginx connections (by their socket), C clients,
worker records, and the buffers of the client configuration. `faults` counts the times it
closed or released something that it did not hold. -/
structure Os where
  nextFd : ℕ
  sockets : List ℕ
  conns : List ℕ
  clients : ℕ
  workers : ℕ
  buffers : ℕ
  faults : ℕ
  deriving DecidableEq, Repr

/-- `ngx_close_socket`. -/
def Os.closeSocket (os : Os) (fd : ℕ) : Os :=
  { os with
    sockets := os.sockets.erase fd
    faults := os.faults + if fd ∈ os.sockets then 0 else 1 }

/-- `ngx_close_connection`, which closes the socket too. -/
def Os.closeConnection (os : Os) (fd : ℕ) : Os :=
  { os with
    sockets := os.sockets.erase fd
    conns := os.conns.erase fd
    faults := os.faults + if fd ∈ os.sockets ∧ fd ∈ os.conns then 0 else 1 }

/-- `r_client_destroy`. -/
def Os.destroyClient (os : Os) : Os :=
  { os with
    clients := os.clients - 1
    faults := os.faults + if 0 < os.clients then 0 else 1 }

/-- `ngx_free` of a worker record. -/
def Os.freeRecord (os : Os) : Os :=
  { os with
    workers := os.workers - 1
    faults := os.faults + if 0 < os.workers then 0 else 1 }

/-- `ngx_free` of `n` buffers. -/
def Os.freeBuffers (os : Os) (n : ℕ) : Os :=
  { os with
    buffers := os.buffers - n
    faults := os.faults + if n ≤ os.buffers then 0 else 1 }

/-- Which steps of `rn_open_socket_candidate` succeed. -/
structure SocketEnv where
  socket : AddressFamily → Bool
  nonblocking : Bool
  bind : Bool
  getConnection : Bool
  addEvent : Bool

/-- The steps of `rn_open_socket_candidate` after `ngx_socket` returned `fd`. -/
def configureSocket (env : SocketEnv) (os : Os) (fd : ℕ) (family : AddressFamily) :
    Os × Option Endpoint :=
  if !env.nonblocking then (os.closeSocket fd, none)
  else if !env.bind then (os.closeSocket fd, none)
  else if !env.getConnection then (os.closeSocket fd, none)
  else
    let os := { os with conns := fd :: os.conns }
    if !env.addEvent then (os.closeConnection fd, none)
    else (os, some ⟨fd, family⟩)

/-- `ngx_socket`, when it succeeds. -/
def Os.socket (os : Os) : Os :=
  { os with nextFd := os.nextFd + 1, sockets := os.nextFd :: os.sockets }

/-- `rn_open_socket_candidate`. `bind` is the family of a configured bind address. -/
def rnOpenSocketCandidate (bind : Option AddressFamily) (env : SocketEnv) (os : Os) :
    Os × Option Endpoint :=
  match bind with
  | some family =>
    if env.socket family then configureSocket env os.socket os.nextFd family else (os, none)
  | none =>
    if env.socket .inet6 then configureSocket env os.socket os.nextFd .inet6
    else if env.socket .inet then configureSocket env os.socket os.nextFd .inet
    else (os, none)

/-! ## The worker -/

/-- `rn_worker_ctx_t`. `rebindTimer` is the delay `rebind_event` is armed with. -/
structure Worker where
  client : Option Client
  udp : Option Endpoint
  inflight : ℕ
  rebindPending : Bool
  rebindScheduled : Bool
  rebindTimer : Option ℕ
  udpReadActive : Bool
  deriving DecidableEq, Repr

/-- The zeroed `rn_worker_ctx_t` of `rn_worker_init`. -/
def Worker.zero : Worker where
  client := none
  udp := none
  inflight := 0
  rebindPending := false
  rebindScheduled := false
  rebindTimer := none
  udpReadActive := false

/-- `rn_schedule_rebind_after`. -/
def rnScheduleRebindAfter (w : Worker) (delay : ℕ) : Worker :=
  if !w.rebindPending || w.inflight != 0 || w.rebindScheduled then w
  else { w with rebindScheduled := true, rebindTimer := some delay }

/-- `rn_schedule_rebind`. -/
def rnScheduleRebind (w : Worker) : Worker :=
  rnScheduleRebindAfter w 0

section Scheduling

variable (w : Worker) (delay : ℕ)

/-- Scheduling a rebind touches its flag and its timer only. -/
theorem rnScheduleRebindAfter_eq : ∃ scheduled timer, rnScheduleRebindAfter w delay =
    { w with rebindScheduled := scheduled, rebindTimer := timer } := by
  unfold rnScheduleRebindAfter
  split_ifs
  · exact ⟨w.rebindScheduled, w.rebindTimer, rfl⟩
  · exact ⟨true, some delay, rfl⟩

@[simp] theorem rnScheduleRebindAfter_client :
    (rnScheduleRebindAfter w delay).client = w.client := by
  obtain ⟨_, _, heq⟩ := rnScheduleRebindAfter_eq w delay
  rw [heq]

@[simp] theorem rnScheduleRebindAfter_udp : (rnScheduleRebindAfter w delay).udp = w.udp := by
  obtain ⟨_, _, heq⟩ := rnScheduleRebindAfter_eq w delay
  rw [heq]

@[simp] theorem rnScheduleRebindAfter_inflight :
    (rnScheduleRebindAfter w delay).inflight = w.inflight := by
  obtain ⟨_, _, heq⟩ := rnScheduleRebindAfter_eq w delay
  rw [heq]

@[simp] theorem rnScheduleRebindAfter_pending :
    (rnScheduleRebindAfter w delay).rebindPending = w.rebindPending := by
  obtain ⟨_, _, heq⟩ := rnScheduleRebindAfter_eq w delay
  rw [heq]

@[simp] theorem rnScheduleRebindAfter_readActive :
    (rnScheduleRebindAfter w delay).udpReadActive = w.udpReadActive := by
  obtain ⟨_, _, heq⟩ := rnScheduleRebindAfter_eq w delay
  rw [heq]

@[simp] theorem rnScheduleRebind_client : (rnScheduleRebind w).client = w.client :=
  rnScheduleRebindAfter_client w 0

@[simp] theorem rnScheduleRebind_udp : (rnScheduleRebind w).udp = w.udp :=
  rnScheduleRebindAfter_udp w 0

@[simp] theorem rnScheduleRebind_inflight : (rnScheduleRebind w).inflight = w.inflight :=
  rnScheduleRebindAfter_inflight w 0

end Scheduling

/-- `rn_on_steering_feedback`. -/
def rnOnSteeringFeedback (w : Worker) (keepPort : Bool) : Worker :=
  if keepPort then w else rnScheduleRebind { w with rebindPending := true }

/-- What a worker process holds beside the requests. -/
structure Proc where
  worker : Option Worker
  initRetryAt : ℕ
  initRetryDelay : ℕ
  os : Os
  deriving DecidableEq, Repr

/-- A process that has just been started. -/
def Proc.init : Proc where
  worker := none
  initRetryAt := 0
  initRetryDelay := 0
  os := ⟨0, [], [], 0, 0, 0, 0⟩

/-- A change to the worker, when there is one. -/
def Proc.mapWorker (p : Proc) (f : Worker → Worker) : Proc :=
  { p with worker := p.worker.map f }

theorem Proc.mapWorker_eq_some {p : Proc} {v : Worker} (h : p.worker = some v)
    (f : Worker → Worker) : (p.mapWorker f).worker = some (f v) := by
  rw [Proc.mapWorker, h]
  rfl

/-- A change to the worker's client. -/
def Proc.mapClient (p : Proc) (f : Client → Client) : Proc :=
  p.mapWorker fun w => { w with client := w.client.map f }

/-- The worker's client. -/
def Proc.client (p : Proc) : Option Client :=
  p.worker.bind Worker.client

/-- `rn_rebind_socket` : open the candidate first, then publish it and close the old
endpoint. -/
def rnRebindSocket (bind : Option AddressFamily) (env : SocketEnv) (w : Worker) (os : Os) :
    Worker × Os × Bool :=
  match rnOpenSocketCandidate bind env os with
  | (os, none) => (w, os, false)
  | (os, some udp) =>
    ({ w with udp := some udp, rebindPending := false },
      match w.udp with
      | none => os
      | some old => os.closeConnection old.fd,
      true)

/-- `rn_rebind_handler`, called when its timer has fired. -/
def rnRebindHandler (bind : Option AddressFamily) (env : SocketEnv) (w : Worker) (os : Os) :
    Worker × Os :=
  let w := { w with rebindScheduled := false }
  if !w.rebindPending || w.inflight != 0 then (w, os)
  else if w.udpReadActive then (rnScheduleRebindAfter w 1, os)
  else
    match rnRebindSocket bind env w os with
    | (w, os, true) => (w, os)
    | (w, os, false) => (rnScheduleRebindAfter w rnRebindRetryMs, os)

/-! ## Initialization -/

/-- Which steps of `rn_worker_init` succeed, and the clock of `rn_worker_ensure`. -/
structure InitEnv where
  allocWorker : Bool
  allocTenant : Bool
  allocSecret : Bool
  socket : SocketEnv
  clientCreate : Bool
  currentMsec : ℕ

/-- `rn_worker_cleanup`. -/
def rnWorkerCleanup (w : Worker) (os : Os) : Worker × Os :=
  let os := match w.client with
    | none => os
    | some _ => os.destroyClient
  let os := match w.udp with
    | none => os
    | some udp => os.closeConnection udp.fd
  ({ w with
    rebindTimer := none
    rebindScheduled := false
    rebindPending := false
    client := none
    udp := none
    inflight := 0 }, os)

/-- `rn_worker_cleanup` and `ngx_free` of a worker that was not published, on the ledger. -/
def Os.freeWorker (os : Os) (w : Worker) : Os :=
  (rnWorkerCleanup w os).2.freeRecord

/-- `rn_worker_init` past its allocations, of which `buffers` are to be released : open the
endpoint, create the client, publish. -/
def initEndpoint (bind : Option AddressFamily) (env : InitEnv) (os : Os) (buffers : ℕ) :
    Os × Option Worker :=
  match rnOpenSocketCandidate bind env.socket os with
  | (os, none) => ((os.freeBuffers buffers).freeWorker Worker.zero, none)
  | (os, some udp) =>
    let w := { Worker.zero with udp := some udp }
    if !env.clientCreate then ((os.freeBuffers buffers).freeWorker w, none)
    else
      ({ os with clients := os.clients + 1 }.freeBuffers buffers,
        some { w with client := some Client.create })

/-- `rn_worker_init`. -/
def rnWorkerInit (mcf : MainConf) (bind : Option AddressFamily) (env : InitEnv) (os : Os) :
    Os × Option Worker :=
  if !env.allocWorker then (os, none)
  else
    let os := { os with workers := os.workers + 1 }
    if !env.allocTenant then (os.freeWorker Worker.zero, none)
    else
      let os := { os with buffers := os.buffers + 1 }
      if mcf.authKey.getD [] = [] then initEndpoint bind env os 1
      else if !env.allocSecret then
        ((os.freeBuffers 1).freeWorker Worker.zero, none)
      else initEndpoint bind env { os with buffers := os.buffers + 1 } 2

/-- `rn_worker_ensure` and whether it returned `NGX_OK`, on a clock that does not wrap. -/
def rnWorkerEnsure (mcf : MainConf) (bind : Option AddressFamily) (env : InitEnv) (p : Proc) :
    Proc × Bool :=
  if p.worker.isSome then (p, true)
  else if p.initRetryAt ≠ 0 ∧ env.currentMsec < p.initRetryAt then (p, false)
  else
    match rnWorkerInit mcf bind env p.os with
    | (os, some w) => ({ p with worker := some w, initRetryAt := 0, initRetryDelay := 0, os }, true)
    | (os, none) =>
      let delay := if p.initRetryDelay = 0 then rnInitRetryInitialMs else p.initRetryDelay
      ({ p with
        initRetryAt := env.currentMsec + delay
        initRetryDelay := if delay < rnInitRetryMaxMs / 2 then delay * 2 else rnInitRetryMaxMs
        os }, false)

/-- A new worker is the zeroed one with an endpoint and a client. -/
theorem rnWorkerInit_spec {mcf : MainConf} {bind : Option AddressFamily} {env : InitEnv}
    {os os' : Os} {v : Worker} (h : rnWorkerInit mcf bind env os = (os', some v)) :
    ∃ udp, v = { Worker.zero with udp := some udp, client := some Client.create } := by
  have hendpoint : ∀ {os : Os} {n : ℕ}, initEndpoint bind env os n = (os', some v) →
      ∃ udp, v = { Worker.zero with udp := some udp, client := some Client.create } := by
    intro os n h
    simp only [initEndpoint] at h
    split at h
    · simp at h
    · split_ifs at h
      · simp at h
      · obtain ⟨-, rfl⟩ := Prod.mk.inj h |>.imp_right Option.some.inj
        exact ⟨_, rfl⟩
  simp only [rnWorkerInit] at h
  split_ifs at h
  · simp at h
  · simp at h
  · exact hendpoint h
  · simp at h
  · exact hendpoint h

/-- `rn_worker_ensure` keeps a worker, and can only add a new one. -/
theorem rnWorkerEnsure_worker (mcf : MainConf) (bind : Option AddressFamily) (env : InitEnv)
    (p : Proc) : (rnWorkerEnsure mcf bind env p).1.worker = p.worker ∨
      p.worker = none ∧ ∃ udp, (rnWorkerEnsure mcf bind env p).1.worker =
        some { Worker.zero with udp := some udp, client := some Client.create } := by
  unfold rnWorkerEnsure
  split
  · exact .inl rfl
  · rename_i hsome
    split
    · exact .inl rfl
    · split
      · rename_i os v h
        obtain ⟨udp, rfl⟩ := rnWorkerInit_spec h
        exact .inr ⟨by simpa using hsome, udp, rfl⟩
      · exact .inl rfl

end RlNginx
