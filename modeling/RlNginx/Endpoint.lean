import RlNginx.Moves

/-!
# The life of a worker's endpoint

A worker is initialized, its socket is replaced when the service asks for another port, and
it is torn down at the exit of the process. Each construction has its own failure points,
and each releases what it had acquired there.

`lifecycle` runs attempts to initialize, rebind timers and exits in any order, with the
other activity of the worker in between. `Proc.Settled` is its invariant : no worker and an
empty ledger, or one worker with one client and one endpoint, and nothing was ever closed or
released twice. `LifeEvent.Opens` says that an endpoint is what the candidate of one event
returned, in the environment of that event and over the ledger it found. The published endpoint
is that of the event that published it, and has been the endpoint since (`published_since`).
`endpoint_lifecycle` adds that an attempt that fails changes nothing, and
`reaches_settled` carries the invariant over to the runs of a process with requests.
-/

open Transition Relation

namespace RlNginx

/-! ## Teardown -/

/-- `rn_exit_process`. -/
def rnExitProcess (p : Proc) : Proc :=
  match p.worker with
  | none => p
  | some w => { p with worker := none, os := p.os.freeWorker w }

theorem rnExitProcess_worker (p : Proc) : (rnExitProcess p).worker = none := by
  unfold rnExitProcess
  split
  · assumption
  · rfl

/-! ## The ledger -/

/-- What the process holds : sockets, connections, clients, worker records, buffers. And how
often it closed or released what it did not hold. -/
def Os.held (os : Os) : List ℕ × List ℕ × ℕ × ℕ × ℕ × ℕ :=
  (os.sockets, os.conns, os.clients, os.workers, os.buffers, os.faults)

/-- Socket numbers handed out so far are below the next one. -/
def Os.Fresh (os : Os) : Prop :=
  ∀ fd ∈ os.sockets, fd < os.nextFd

section Candidates

variable {bind : Option AddressFamily} {env : SocketEnv} {os os' : Os}

/-- A socket that cannot be configured is closed again. -/
theorem configureSocket_none {family : AddressFamily}
    (h : configureSocket env os.socket os.nextFd family = (os', none)) :
    os'.held = os.held ∧ os'.nextFd = os.nextFd + 1 := by
  simp only [configureSocket] at h
  split_ifs at h
  all_goals simp only [Prod.mk.injEq, reduceCtorEq, and_false, and_true] at h
  all_goals
    subst h
    simp [Os.held, Os.socket, Os.closeSocket, Os.closeConnection]

theorem configureSocket_some {family : AddressFamily} {u : Endpoint}
    (h : configureSocket env os.socket os.nextFd family = (os', some u)) :
    u.fd = os.nextFd ∧ os' = { os.socket with conns := os.nextFd :: os.conns } := by
  simp only [configureSocket] at h
  split_ifs at h
  all_goals simp only [Prod.mk.injEq, reduceCtorEq, and_false, Option.some.injEq] at h
  obtain ⟨rfl, rfl⟩ := h
  exact ⟨rfl, rfl⟩

/-- A candidate that fails leaves nothing behind. -/
theorem rnOpenSocketCandidate_none (h : rnOpenSocketCandidate bind env os = (os', none)) :
    os'.held = os.held ∧ os.nextFd ≤ os'.nextFd := by
  have hconfigure : ∀ family, configureSocket env os.socket os.nextFd family = (os', none) →
      os'.held = os.held ∧ os.nextFd ≤ os'.nextFd := by
    intro family h
    obtain ⟨hheld, hnext⟩ := configureSocket_none h
    exact ⟨hheld, by omega⟩
  have hsame : (os, none) = (os', (none : Option Endpoint)) →
      os'.held = os.held ∧ os.nextFd ≤ os'.nextFd := by
    intro h
    obtain ⟨rfl, -⟩ := Prod.mk.inj h
    exact ⟨rfl, le_refl _⟩
  unfold rnOpenSocketCandidate at h
  split at h
  · split_ifs at h
    · exact hconfigure _ h
    · exact hsame h
  · split_ifs at h
    · exact hconfigure _ h
    · exact hconfigure _ h
    · exact hsame h

/-- A candidate that succeeds is one new socket with its connection. -/
theorem rnOpenSocketCandidate_some {u : Endpoint}
    (h : rnOpenSocketCandidate bind env os = (os', some u)) :
    u.fd = os.nextFd ∧ os' = { os.socket with conns := os.nextFd :: os.conns } := by
  unfold rnOpenSocketCandidate at h
  split at h
  · split_ifs at h
    · exact configureSocket_some h
    · simp at h
  · split_ifs at h
    · exact configureSocket_some h
    · exact configureSocket_some h
    · simp at h

end Candidates

/-! ## Initialization -/

section Init

variable {mcf : MainConf} {bind : Option AddressFamily} {env : InitEnv} {os os' : Os} {n : ℕ}

/-- A worker that was not published is given back. -/
theorem freeWorker_held {w : Worker} (hudp : ∀ u ∈ w.udp, u.fd ∈ os.sockets ∧ u.fd ∈ os.conns)
    (hclient : w.client = none) (hworkers : 0 < os.workers) : (os.freeWorker w).held =
      { os with
        sockets := w.udp.elim os.sockets fun u => os.sockets.erase u.fd
        conns := w.udp.elim os.conns fun u => os.conns.erase u.fd
        workers := os.workers - 1 }.held := by
  rcases hu : w.udp with _ | u
  · simp [Os.held, Os.freeWorker, rnWorkerCleanup, Os.freeRecord, hclient, hu, hworkers]
  · obtain ⟨hsocket, hconn⟩ := hudp u hu
    simp [Os.held, Os.freeWorker, rnWorkerCleanup, Os.freeRecord, Os.closeConnection, hclient, hu,
      hworkers, hsocket, hconn]

/-- Past its allocations, a failing initialization gives the worker and the buffers back. -/
theorem initEndpoint_none (h : initEndpoint bind env os n = (os', none))
    (hworkers : 0 < os.workers) (hbuffers : n ≤ os.buffers) :
    os'.held = { os with workers := os.workers - 1, buffers := os.buffers - n }.held ∧
      os.nextFd ≤ os'.nextFd := by
  simp only [initEndpoint] at h
  split at h
  next os₁ hopen =>
    obtain ⟨hheld, hnext⟩ := rnOpenSocketCandidate_none hopen
    obtain ⟨rfl, -⟩ := Prod.mk.inj h
    simp only [Os.held, Prod.mk.injEq] at hheld
    refine ⟨?_, hnext⟩
    rw [freeWorker_held (by simp [Worker.zero]) rfl (by simpa [Os.freeBuffers, hheld])]
    simp [Os.held, Os.freeBuffers, Worker.zero, hheld, hbuffers]
  next os₁ udp hopen =>
    obtain ⟨hfd, rfl⟩ := rnOpenSocketCandidate_some hopen
    split_ifs at h
    · obtain ⟨rfl, -⟩ := Prod.mk.inj h
      refine ⟨(freeWorker_held ?_ ?_ ?_).trans ?_, Nat.le_succ _⟩
      · simp [Os.freeBuffers, Os.socket, hfd]
      · rfl
      · exact hworkers
      · simp [Os.held, Os.freeBuffers, Os.socket, hfd, hbuffers]
    · simp at h

/-- Past its allocations, one that succeeds has the endpoint of its candidate. -/
theorem initEndpoint_some {v : Worker} (h : initEndpoint bind env os n = (os', some v))
    (hbuffers : n ≤ os.buffers) :
    ∃ u : Endpoint, (rnOpenSocketCandidate bind env.socket os).2 = some u ∧ v.udp = some u ∧
      v.client.isSome ∧ u.fd = os.nextFd ∧ os'.nextFd = os.nextFd + 1 ∧ os'.held =
        (u.fd :: os.sockets, u.fd :: os.conns, os.clients + 1, os.workers, os.buffers - n,
          os.faults) := by
  simp only [initEndpoint] at h
  split at h
  next => simp at h
  next os₁ udp hopen =>
    obtain ⟨hfd, rfl⟩ := rnOpenSocketCandidate_some hopen
    split_ifs at h
    · simp at h
    · obtain ⟨rfl, hv⟩ := Prod.mk.inj h
      obtain rfl := Option.some.inj hv
      refine ⟨udp, by rw [hopen], rfl, rfl, hfd, rfl, ?_⟩
      simp [Os.held, Os.socket, Os.freeBuffers, hfd, hbuffers]

/-- An initialization that fails leaves nothing behind. -/
theorem rnWorkerInit_none (h : rnWorkerInit mcf bind env os = (os', none)) :
    os'.held = os.held ∧ os.nextFd ≤ os'.nextFd := by
  simp only [rnWorkerInit] at h
  split_ifs at h
  · obtain ⟨rfl, -⟩ := Prod.mk.inj h
    exact ⟨rfl, le_refl _⟩
  · obtain ⟨rfl, -⟩ := Prod.mk.inj h
    exact ⟨freeWorker_held (by simp [Worker.zero]) rfl (Nat.succ_pos _), le_refl _⟩
  · exact initEndpoint_none h (Nat.succ_pos _) (Nat.le_add_left 1 _)
  · obtain ⟨rfl, -⟩ := Prod.mk.inj h
    refine ⟨?_, le_refl _⟩
    rw [freeWorker_held (by simp [Worker.zero]) rfl (Nat.succ_pos _)]
    simp [Os.held, Os.freeBuffers, Worker.zero]
  · exact initEndpoint_none h (Nat.succ_pos _) (Nat.le_add_left 2 _)

/-- The ledger that `rn_worker_init` opens its endpoint over : the worker record is allocated,
and so are the copies of the tenant and, if there is one, of the key. -/
def initLedger (mcf : MainConf) (os : Os) : Os :=
  { os with
    workers := os.workers + 1
    buffers := os.buffers + if mcf.authKey.getD [] = [] then 1 else 2 }

/-- An initialization that succeeds adds one worker, one client and one endpoint, that of its
candidate. -/
theorem rnWorkerInit_some {v : Worker} (h : rnWorkerInit mcf bind env os = (os', some v)) :
    ∃ u : Endpoint, (rnOpenSocketCandidate bind env.socket (initLedger mcf os)).2 = some u ∧
      v.udp = some u ∧ v.client.isSome ∧ u.fd = os.nextFd ∧ os'.nextFd = os.nextFd + 1 ∧
      os'.held = (u.fd :: os.sockets, u.fd :: os.conns, os.clients + 1, os.workers + 1, os.buffers,
        os.faults) := by
  simp only [rnWorkerInit] at h
  split_ifs at h with _ _ hkey
  · simp at h
  · simp at h
  · rw [initLedger, if_pos hkey]
    exact initEndpoint_some h (Nat.le_add_left 1 _)
  · simp at h
  · rw [initLedger, if_neg hkey]
    exact initEndpoint_some h (Nat.le_add_left 2 _)

end Init

/-! ## Settled processes -/

/-- No worker and nothing held, or a worker with one client and the one open endpoint. Nothing
was closed or released twice. -/
def Proc.Settled (p : Proc) : Prop :=
  (p.worker = none ∧ p.os.held = ([], [], 0, 0, 0, 0)) ∨
  ∃ (w : Worker) (u : Endpoint), p.worker = some w ∧ w.client.isSome ∧ w.udp = some u ∧
    p.os.held = ([u.fd], [u.fd], 1, 1, 0, 0)

/-- The invariant : settled, with socket numbers that are not reused. -/
structure Proc.Sound (p : Proc) : Prop where
  settled : p.Settled
  fresh : p.os.Fresh

theorem Proc.init_sound : Proc.init.Sound :=
  ⟨.inl ⟨rfl, rfl⟩, by simp [Proc.init, Os.Fresh]⟩

section Steps

variable {mcf : MainConf} {bind : Option AddressFamily} {p : Proc}

/-- The same holdings, with later socket numbers. -/
theorem Os.Fresh.held {os os' : Os} (h : os.Fresh) (hheld : os'.held = os.held)
    (hnext : os.nextFd ≤ os'.nextFd) : os'.Fresh := by
  have hsockets : os'.sockets = os.sockets := (Prod.mk.inj hheld).1
  intro fd hfd
  rw [hsockets] at hfd
  exact lt_of_lt_of_le (h fd hfd) hnext

/-- `rn_worker_ensure` leaves the worker and the ledger alone, or publishes a new worker. -/
theorem rnWorkerEnsure_cases (mcf : MainConf) (bind : Option AddressFamily) (env : InitEnv)
    (p : Proc) :
    ((rnWorkerEnsure mcf bind env p).1.worker = p.worker ∧
      (rnWorkerEnsure mcf bind env p).1.os.held = p.os.held ∧
      p.os.nextFd ≤ (rnWorkerEnsure mcf bind env p).1.os.nextFd) ∨
    p.worker = none ∧ (rnWorkerEnsure mcf bind env p).2 = true ∧
      ∃ v, (rnWorkerEnsure mcf bind env p).1.worker = some v ∧
        rnWorkerInit mcf bind env p.os = ((rnWorkerEnsure mcf bind env p).1.os, some v) := by
  unfold rnWorkerEnsure
  by_cases hsome : p.worker.isSome = true
  · rw [if_pos hsome]
    exact .inl ⟨rfl, rfl, le_refl _⟩
  rw [if_neg hsome]
  by_cases hwait : p.initRetryAt ≠ 0 ∧ env.currentMsec < p.initRetryAt
  · rw [if_pos hwait]
    exact .inl ⟨rfl, rfl, le_refl _⟩
  rw [if_neg hwait]
  rcases hinit : rnWorkerInit mcf bind env p.os with ⟨os, v | v⟩
  · obtain ⟨hheld, hnext⟩ := rnWorkerInit_none hinit
    exact .inl ⟨rfl, hheld, hnext⟩
  · exact .inr ⟨by simpa using hsome, rfl, v, rfl, rfl⟩

theorem rnWorkerEnsure_sound (h : p.Sound) (env : InitEnv) :
    (rnWorkerEnsure mcf bind env p).1.Sound := by
  rcases rnWorkerEnsure_cases mcf bind env p with
    ⟨hworker, hheld, hnext⟩ | ⟨hnone, -, v, hv, hinit⟩
  · refine ⟨?_, h.fresh.held hheld hnext⟩
    rw [Proc.Settled, hworker, hheld]
    exact h.settled
  · have hempty : p.os.held = ([], [], 0, 0, 0, 0) := by
      rcases h.settled with ⟨-, hempty⟩ | ⟨w, u, hw, -⟩
      · exact hempty
      · rw [hnone] at hw
        cases hw
    obtain ⟨u, -, hudp, hclient, hfd, hnext, hheld⟩ := rnWorkerInit_some hinit
    simp only [Os.held, Prod.mk.injEq] at hempty
    simp only [hempty, zero_add] at hheld
    refine ⟨.inr ⟨v, u, hv, hclient, hudp, hheld⟩, ?_⟩
    have hsockets := (Prod.mk.inj hheld).1
    intro fd hmem
    rw [hsockets, List.mem_singleton] at hmem
    rw [hnext, hmem, hfd]
    exact Nat.lt_succ_self _

/-- Activity that leaves the client pointer and the endpoint alone. -/
def KeepsEndpoint (f : Worker → Worker) : Prop :=
  ∀ w, (f w).client.isSome = w.client.isSome ∧ (f w).udp = w.udp

theorem mapWorker_sound (h : p.Sound) {f : Worker → Worker} (hf : KeepsEndpoint f) :
    (p.mapWorker f).Sound := by
  refine ⟨?_, h.fresh⟩
  rcases h.settled with ⟨hnone, hempty⟩ | ⟨w, u, hw, hclient, hudp, hheld⟩
  · exact .inl ⟨by rw [Proc.mapWorker, hnone]; rfl, hempty⟩
  · refine .inr ⟨f w, u, Proc.mapWorker_eq_some hw f, ?_, ?_, hheld⟩
    · rw [(hf w).1]
      exact hclient
    · rw [(hf w).2]
      exact hudp

theorem rnScheduleRebindAfter_keeps (delay : ℕ) :
    KeepsEndpoint (rnScheduleRebindAfter · delay) := by
  intro w
  exact ⟨congrArg Option.isSome (rnScheduleRebindAfter_client w delay),
    rnScheduleRebindAfter_udp w delay⟩

theorem rnOnSteeringFeedback_keeps (keepPort : Bool) :
    KeepsEndpoint (rnOnSteeringFeedback · keepPort) := by
  intro w
  simp only [rnOnSteeringFeedback, rnScheduleRebind]
  split_ifs
  · exact ⟨rfl, rfl⟩
  · exact rnScheduleRebindAfter_keeps 0 { w with rebindPending := true }

/-- What the rebind timer does to the endpoint : nothing, or it replaces the endpoint by that
of one candidate. -/
theorem rebind_cases (env : SocketEnv) {w : Worker} {u : Endpoint} (hw : p.worker = some w)
    (hudp : w.udp = some u) :
    (∃ w' : Worker, (p.rebind bind env).worker = some w' ∧ w'.client = w.client ∧ w'.udp = w.udp ∧
      (p.rebind bind env).os.held = p.os.held ∧ p.os.nextFd ≤ (p.rebind bind env).os.nextFd) ∨
    ∃ (w' : Worker) (u' : Endpoint) (os : Os),
      rnOpenSocketCandidate bind env p.os = (os, some u') ∧
      (p.rebind bind env).worker = some w' ∧ w'.client = w.client ∧ w'.udp = some u' ∧
      (p.rebind bind env).os = os.closeConnection u.fd := by
  simp only [Proc.rebind, hw, rnRebindHandler]
  split_ifs
  · exact .inl ⟨_, rfl, rfl, rfl, rfl, le_refl _⟩
  · exact .inl ⟨_, rfl, rnScheduleRebindAfter_client _ 1, rnScheduleRebindAfter_udp _ 1, rfl,
      le_refl _⟩
  · simp only [rnRebindSocket]
    rcases hopen : rnOpenSocketCandidate bind env p.os with ⟨os, u' | u'⟩
    · obtain ⟨hheld, hnext⟩ := rnOpenSocketCandidate_none hopen
      exact .inl ⟨_, rfl, rnScheduleRebindAfter_client _ rnRebindRetryMs,
        rnScheduleRebindAfter_udp _ rnRebindRetryMs, hheld, hnext⟩
    · refine .inr ⟨_, u', os, rfl, rfl, rfl, rfl, ?_⟩
      simp only [hudp]

theorem rebind_of_none (hnone : p.worker = none) (env : SocketEnv) : p.rebind bind env = p := by
  unfold Proc.rebind
  rw [hnone]

theorem rebind_sound (h : p.Sound) (env : SocketEnv) : (p.rebind bind env).Sound := by
  rcases h.settled with ⟨hnone, hempty⟩ | ⟨w, u, hw, hclient, hudp, hheld⟩
  · rw [rebind_of_none hnone]
    exact h
  · rcases rebind_cases env hw hudp with
      ⟨w', hw', hclient', hudp', hheld', hnext⟩ | ⟨w', u', os, hopen, hw', hclient', hudp', hos⟩
    · refine ⟨.inr ⟨w', u, hw', ?_, ?_, ?_⟩, h.fresh.held hheld' hnext⟩
      · rw [hclient']
        exact hclient
      · rw [hudp', hudp]
      · rw [hheld', hheld]
    · obtain ⟨hfd, rfl⟩ := rnOpenSocketCandidate_some hopen
      simp only [Os.held, Prod.mk.injEq] at hheld
      have hlt : u.fd < p.os.nextFd := h.fresh u.fd (by simp [hheld])
      -- the old socket number is not the new one, so closing it leaves the new one open
      have hne : (p.os.nextFd == u.fd) = false := by
        simpa using (Nat.ne_of_lt hlt).symm
      have hheld' : (p.rebind bind env).os.held = ([u'.fd], [u'.fd], 1, 1, 0, 0) := by
        simp [hos, Os.held, Os.closeConnection, Os.socket, hheld, hfd, hne]
      refine ⟨.inr ⟨w', u', hw', ?_, hudp', hheld'⟩, ?_⟩
      · rw [hclient']
        exact hclient
      · have hsockets : (p.rebind bind env).os.sockets = [u'.fd] := (Prod.mk.inj hheld').1
        intro fd hmem
        rw [hsockets, List.mem_singleton] at hmem
        rw [hmem, hfd, hos]
        exact Nat.lt_succ_self _

theorem rnExitProcess_sound (h : p.Sound) : (rnExitProcess p).Sound := by
  rcases h.settled with ⟨hnone, hempty⟩ | ⟨w, u, hw, hclient, hudp, hheld⟩
  · have hsame : rnExitProcess p = p := by
      unfold rnExitProcess
      rw [hnone]
    rw [hsame]
    exact h
  · obtain ⟨client, hclient⟩ := Option.isSome_iff_exists.mp hclient
    simp only [Os.held, Prod.mk.injEq] at hheld
    have hheld' : (rnExitProcess p).os.held = ([], [], 0, 0, 0, 0) := by
      simp [rnExitProcess, hw, Os.freeWorker, rnWorkerCleanup, Os.destroyClient, Os.freeRecord,
        hclient, hudp, Os.held, Os.closeConnection, hheld]
    refine ⟨.inl ⟨by simp [rnExitProcess, hw], hheld'⟩, ?_⟩
    have hsockets : (rnExitProcess p).os.sockets = [] := (Prod.mk.inj hheld').1
    intro fd hmem
    rw [hsockets] at hmem
    cases hmem

end Steps

/-! ## Runs -/

/-- What happens to the worker of a process. -/
inductive LifeEvent where
  /-- A request calls `rn_worker_ensure`. -/
  | ensure (env : InitEnv)
  /-- The rebind timer fires. -/
  | rebind (env : SocketEnv)
  /-- Requests, steering feedback or the read loop change the worker. -/
  | activity (f : Worker → Worker)
  /-- `rn_exit_process`. -/
  | exit

/-- The step of an event. -/
def LifeEvent.run (mcf : MainConf) (bind : Option AddressFamily) (p : Proc) : LifeEvent → Proc
  | .ensure env => (rnWorkerEnsure mcf bind env p).1
  | .rebind env => p.rebind bind env
  | .activity f => p.mapWorker f
  | .exit => rnExitProcess p

/-- Only the three routines of the worker touch its client pointer and its endpoint. -/
def LifeEvent.Enabled : LifeEvent → Prop
  | .activity f => KeepsEndpoint f
  | _ => True

/-- The life of a worker : its routines in any order, each step of them free to fail. -/
def lifecycle (mcf : MainConf) (bind : Option AddressFamily) : Machine Proc LifeEvent where
  enabled := fun _ e => e.Enabled
  next := LifeEvent.run mcf bind

variable {mcf : MainConf} {bind : Option AddressFamily} {es : List LifeEvent} {p : Proc}

theorem lifecycle_sound (h : Run (lifecycle mcf bind) Proc.init es p) : p.Sound := by
  refine h.invariant Proc.init_sound ?_
  intro p e hp he
  rcases e with env | env | f | _
  · exact rnWorkerEnsure_sound hp env
  · exact rebind_sound hp env
  · exact mapWorker_sound hp he
  · exact rnExitProcess_sound hp

/-- The published endpoint : `udp_fd` and `udp_family`, with the connection of that socket. -/
def Proc.udp (p : Proc) : Option Endpoint :=
  p.worker.bind (·.udp)

/-- The event opens the endpoint : its candidate returns it, in the environment of the event and
over the ledger that it finds. -/
def LifeEvent.Opens (mcf : MainConf) (bind : Option AddressFamily) (p : Proc) (u : Endpoint) :
    LifeEvent → Prop
  | .ensure env => (rnOpenSocketCandidate bind env.socket (initLedger mcf p.os)).2 = some u
  | .rebind env => (rnOpenSocketCandidate bind env p.os).2 = some u
  | .activity _ | .exit => False

/-- An endpoint that an event publishes is the one it opens. -/
theorem LifeEvent.opens (h : p.Sound) {e : LifeEvent} (he : e.Enabled) {u : Endpoint}
    (hold : p.udp ≠ some u) (hnew : (e.run mcf bind p).udp = some u) : e.Opens mcf bind p u := by
  rcases e with env | env | f | _
  · rcases rnWorkerEnsure_cases mcf bind env p with ⟨hworker, -⟩ | ⟨-, -, v, hv, hinit⟩
    · refine absurd ?_ hold
      rw [← hnew, Proc.udp, Proc.udp, LifeEvent.run, hworker]
    · obtain ⟨u', hopen, hudp, -⟩ := rnWorkerInit_some hinit
      have hpublished : (LifeEvent.run mcf bind p (.ensure env)).udp = some u' := by
        rw [Proc.udp, LifeEvent.run, hv]
        exact hudp
      obtain rfl : u' = u := Option.some.inj (hpublished.symm.trans hnew)
      exact hopen
  · rcases h.settled with ⟨hnone, -⟩ | ⟨w, v, hw, -, hudp, -⟩
    · rw [LifeEvent.run, rebind_of_none hnone] at hnew
      exact absurd hnew hold
    · rcases rebind_cases env hw hudp with
        ⟨w', hw', -, hudp', -⟩ | ⟨w', u', os, hopen, hw', -, hudp', -⟩
      · refine absurd ?_ hold
        rw [← hnew, Proc.udp, Proc.udp, LifeEvent.run, hw', hw, Option.bind_some,
          Option.bind_some, hudp']
      · have hpublished : (LifeEvent.run mcf bind p (.rebind env)).udp = some u' := by
          rw [Proc.udp, LifeEvent.run, hw', Option.bind_some, hudp']
        obtain rfl : u' = u := Option.some.inj (hpublished.symm.trans hnew)
        rw [LifeEvent.Opens, hopen]
  · refine absurd ?_ hold
    rw [← hnew, Proc.udp, Proc.udp, LifeEvent.run, Proc.mapWorker]
    rcases p.worker with _ | w
    · rfl
    · exact ((he w).2).symm
  · rw [LifeEvent.run, Proc.udp, rnExitProcess_worker] at hnew
    cases hnew

/-- The endpoint was opened by the event that published it, and has been published since. -/
def Proc.PublishedSince (mcf : MainConf) (bind : Option AddressFamily) (es : List LifeEvent)
    (p : Proc) (u : Endpoint) : Prop :=
  ∃ (pre : List LifeEvent) (e : LifeEvent) (post : List LifeEvent) (q : Proc),
    es = pre ++ e :: post ∧ Run (lifecycle mcf bind) Proc.init pre q ∧ e.Opens mcf bind q u ∧
    Run ((lifecycle mcf bind).restrict fun v _ => v.udp = some u) (e.run mcf bind q) post p

theorem published_since (h : Run (lifecycle mcf bind) Proc.init es p) {u : Endpoint}
    (hu : p.udp = some u) : p.PublishedSince mcf bind es u := by
  have hinit : Proc.init.udp ≠ some u := by simp [Proc.udp, Proc.init]
  obtain ⟨pre, e, post, q, rfl, hpre, he, hold, hnew, hpost⟩ :=
    h.since (P := fun v : Proc => v.udp = some u) hinit hu
  exact ⟨pre, e, post, q, rfl, hpre, e.opens (lifecycle_sound hpre) he hold hnew, hpost⟩

/-- After every step of every run, the process has no worker and holds nothing, or it has a
worker with one client and the one endpoint that it holds. No socket, connection, client, record
or buffer was closed or released twice. The published endpoint is what the candidate of one
event returned, and it has been published since that event. An attempt to initialize or to
rebind that fails leaves the worker, its endpoint and the ledger as they were. -/
theorem endpoint_lifecycle (mcf : MainConf) (bind : Option AddressFamily) (es : List LifeEvent)
    (p : Proc) (h : Run (lifecycle mcf bind) Proc.init es p) :
    p.Settled ∧ (∀ u, p.udp = some u → p.PublishedSince mcf bind es u) ∧
    (rnExitProcess p).worker = none ∧ (rnExitProcess p).os.held = ([], [], 0, 0, 0, 0) ∧
    (∀ env, (rnWorkerEnsure mcf bind env p).2 = false →
      (rnWorkerEnsure mcf bind env p).1.worker = p.worker ∧
      (rnWorkerEnsure mcf bind env p).1.os.held = p.os.held) ∧
    ∀ env, (rnOpenSocketCandidate bind env p.os).2 = none →
      ((p.rebind bind env).worker.map fun w => (w.client, w.udp)) =
        (p.worker.map fun w => (w.client, w.udp)) ∧
      (p.rebind bind env).os.held = p.os.held := by
  have hp := lifecycle_sound h
  refine ⟨hp.settled, fun u hu => published_since h hu, ?_⟩
  refine ⟨rnExitProcess_worker p, ?_, ?_, ?_⟩
  · rcases (rnExitProcess_sound hp).settled with ⟨-, hempty⟩ | ⟨w, u, hw, -⟩
    · exact hempty
    · rw [rnExitProcess_worker] at hw
      cases hw
  · intro env hfailed
    rcases rnWorkerEnsure_cases mcf bind env p with ⟨hworker, hheld, -⟩ | ⟨-, hok, -⟩
    · exact ⟨hworker, hheld⟩
    · rw [hok] at hfailed
      cases hfailed
  · intro env hfailed
    rcases hp.settled with ⟨hnone, -⟩ | ⟨w, u, hw, -, hudp, -⟩
    · rw [rebind_of_none hnone]
      exact ⟨rfl, rfl⟩
    · rcases rebind_cases env hw hudp with
        ⟨w', hw', hclient, hudp', hheld, -⟩ | ⟨w', u', os, hopen, -⟩
      · exact ⟨by rw [hw', hw, Option.map_some, Option.map_some, hclient, hudp'], hheld⟩
      · rw [hopen] at hfailed
        cases hfailed

/-- Initialize, ask for another port, rebind. -/
def reboundEvents : List LifeEvent :=
  [.ensure sampleHandlerEnv.init, .activity (rnOnSteeringFeedback · false),
    .rebind sampleSocketEnv]

/-- The process after it. -/
def reboundProc : Proc :=
  reboundEvents.foldl (lifecycle sampleConfig.main none).next Proc.init

/-- The worker has its second socket, which the rebind opened, and its teardown leaves nothing
behind. -/
theorem rebound_then_exit : reboundProc.udp = some ⟨1, .inet6⟩ ∧
    reboundProc.PublishedSince sampleConfig.main none reboundEvents ⟨1, .inet6⟩ ∧
    (rnExitProcess reboundProc).os.held = ([], [], 0, 0, 0, 0) := by
  have hadmits : (lifecycle sampleConfig.main none).Admits Proc.init reboundEvents :=
    ⟨trivial, rnOnSteeringFeedback_keeps false, trivial, trivial⟩
  have hpublished : reboundProc.udp = some ⟨1, .inet6⟩ := by decide +kernel
  obtain ⟨-, hsince, -, hexit, -⟩ :=
    endpoint_lifecycle sampleConfig.main none _ _ (Run.of_admits hadmits)
  exact ⟨hpublished, hsince _ hpublished, hexit⟩

/-! ## A process with requests -/

/-- A change a request makes keeps the invariant. -/
theorem move_sound {s : Setup} {p p' : Proc} (h : p.Sound) (hmove : p.Move s p') :
    p'.Sound := by
  have hclient : ∀ f : Client → Client,
      KeepsEndpoint fun w => { w with client := w.client.map f } :=
    fun f w => ⟨Option.isSome_map, rfl⟩
  rcases hmove with env | ⟨i, check⟩ | ⟨q, how⟩ | _ | _ | _
  · exact rnWorkerEnsure_sound h env
  · exact mapWorker_sound h (hclient _)
  · exact mapWorker_sound h (hclient _)
  · exact mapWorker_sound h fun w => ⟨rfl, rfl⟩
  · have hlanded : KeepsEndpoint Worker.landed := fun w => ⟨rfl, rfl⟩
    exact mapWorker_sound (mapWorker_sound h hlanded) (rnScheduleRebindAfter_keeps 0)
  · exact mapWorker_sound h (rnScheduleRebindAfter_keeps 0)

theorem moves_sound {s : Setup} {p p' : Proc} (h : p.Sound) (hmoves : p.Moves s p') :
    p'.Sound := by
  induction hmoves with
  | refl => exact h
  | tail _ hmove ih => exact move_sound ih hmove

/-- In every run of a process with requests, its worker is settled. -/
theorem reaches_settled {s : Setup} {es : List Event} {w : World} (h : Reaches s es w) :
    w.proc.Settled := by
  have hsound : w.proc.Sound := by
    refine h.invariant (I := fun w => w.proc.Sound) Proc.init_sound ?_
    intro w e hw he
    rcases hreq : e.request with _ | i
    · rcases e with _ | _ | _ | _ | _ | _ | _ | _ | _ | _ | _ | _ | _ | _ | keepPort | _ | _ | env
      all_goals try cases hreq
      · exact hw
      · exact mapWorker_sound hw (rnOnSteeringFeedback_keeps keepPort)
      · exact mapWorker_sound hw fun w => ⟨rfl, rfl⟩
      · exact mapWorker_sound hw fun w => ⟨rfl, rfl⟩
      · exact rebind_sound hw env
    · exact moves_sound hw (next_moves hreq)
  exact hsound.settled

end RlNginx
