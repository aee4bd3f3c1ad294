import RlNginx.Sends

/-!
# Datagrams on their way in

`rn_udp_read_handler` takes datagrams from the socket and hands each to the C client, until
there is none, the socket reports an error, an empty datagram comes, or the batch is full; then
it posts its own event. The client calls back from inside the loop, and a completion runs the
posted requests of its connection, so the loop is interleaved with nearly everything else a
process does.

A `Station` is a process with the socket it has published : the packets that wait on it, those
that came in so far, and what the client was given. Its machine delivers packets, runs the read
handler where epoll reports the socket or the event is posted, and otherwise takes the events of
the process. `station_refines` says that the process inside is one of `machine`, so that
everything proved about its runs holds with the loop in place, and `receive_exact` that the
client is given every datagram of the published socket once, in order.
-/

open Transition Relation

namespace RlNginx

/-- `RN_UDP_READ_BATCH_MAX`. -/
def rnUdpReadBatchMax : ℕ := 64

/-- The size of the buffer on the stack of the handler. -/
def udpReadBuffer : ℕ := 2048

/-- What `recvfrom` finds on a socket : a datagram with its source, or an error. -/
inductive Packet where
  | datagram (payload : List UInt8) (source : SockAddr)
  | failure
  deriving DecidableEq, Repr

/-- A datagram as the client is given it. -/
structure Datagram where
  payload : List UInt8
  source : SockAddr
  deriving DecidableEq, Repr

/-- A process with its published socket. `posted` says that the read event is in
`ngx_posted_next_events`; `arrived` and `delivered` record what came in on the socket and the
calls of `r_client_on_datagram`. -/
structure Station where
  world : World
  queue : List Packet
  posted : Bool
  arrived : List Packet
  delivered : List Datagram
  deriving DecidableEq, Repr

/-- A process that has just been started. -/
def Station.init : Station := ⟨World.init, [], false, [], []⟩

/-- The published endpoint. -/
def World.udp (w : World) : Option Endpoint :=
  w.proc.worker.bind Worker.udp

/-- Packets come in. -/
def Station.arrive (t : Station) (packets : List Packet) : Station :=
  { t with queue := t.queue ++ packets, arrived := t.arrived ++ packets }

/-- A change of the process. -/
def Station.mapWorld (t : Station) (f : World → World) : Station :=
  { t with world := f t.world }

/-- What one run of the read handler meets : the events that follow from a datagram, inside
`r_client_on_datagram`, and the packets that come in before each call of `recvfrom`. -/
structure ReadEnv where
  react : World → Datagram → List Event
  arrive : ℕ → List Packet

/-- The loop of `rn_udp_read_handler` with `n` datagrams left in the batch. -/
def readLoop (s : Setup) (env : ReadEnv) : ℕ → Station → Station
  | 0, t => { t with posted := true }
  | n + 1, t =>
    let t := t.arrive (env.arrive n)
    match t.queue with
    | [] => t
    | .failure :: queue => { t with queue }
    | .datagram payload source :: queue =>
      if payload = [] then { t with queue }
      else
        let datagram : Datagram := ⟨payload.take udpReadBuffer, source⟩
        readLoop s env n { t with
          world := (env.react t.world datagram).foldl (World.next s) t.world
          queue
          delivered := t.delivered ++ [datagram] }

/-- `rn_udp_read_handler`. -/
def rnUdpReadHandler (s : Setup) (env : ReadEnv) (t : Station) : Station :=
  if t.world.proc.client.isNone then t
  else
    (readLoop s env rnUdpReadBatchMax (t.mapWorld (·.next s .udpBegin))).mapWorld (·.next s .udpEnd)

/-! ## The machine -/

/-- What can happen inside a callback of the client : everything but another read and the timers
of the event loop. -/
def Event.Inner : Event → Prop
  | .udpBegin | .udpEnd | .rebind _ | .timeout _ _ _ => False
  | _ => True

instance Event.decidableInner (e : Event) : Decidable e.Inner :=
  match e with
  | .udpBegin | .udpEnd | .rebind .. | .timeout .. => .isFalse not_false
  | .accept .. | .handler .. | .redirect .. | .cleanupAdd .. | .verdict .. | .complete ..
  | .stray .. | .cleanup .. | .release .. | .log .. | .connection .. | .retain .. | .drop ..
  | .steering .. => .isTrue trivial

/-- What happens to a process with a socket. -/
inductive StationEvent where
  /-- Packets come in on the published socket. -/
  | packets (packets : List Packet)
  /-- nginx calls the read handler, from the event loop or as a posted event. -/
  | read (env : ReadEnv)
  /-- Anything else. -/
  | other (e : Event)

/-- The events of the process that its callbacks may bring about. -/
abbrev innerMachine (s : Setup) : Machine World Event :=
  (machine s).restrict fun w e => e.Orderly w ∧ e.Inner

/-- When an event can happen. The read event is registered level-triggered, so the handler is
called where packets wait. -/
def StationEvent.Enabled (s : Setup) (t : Station) : StationEvent → Prop
  | .packets _ => t.world.udp.isSome = true
  | .read env => (t.queue ≠ [] ∨ t.posted = true) ∧ t.world.udp.isSome = true ∧
      ∀ w datagram, (innerMachine s).Admits w (env.react w datagram)
  | .other e => e.Enabled s t.world ∧ e.Orderly t.world ∧ e ≠ .udpBegin ∧ e ≠ .udpEnd

/-- Another event of the process. With the old endpoint, its packets and its posted event go. -/
def Station.other (s : Setup) (t : Station) (e : Event) : Station :=
  let world := t.world.next s e
  if world.udp = t.world.udp then { t with world } else ⟨world, [], false, [], []⟩

/-- A process with its socket. nginx takes a posted event from its queue before it runs it. -/
def station (s : Setup) : Machine Station StationEvent where
  enabled := fun t e => e.Enabled s t
  next := fun t e =>
    match e with
    | .packets packets => t.arrive packets
    | .read env => rnUdpReadHandler s env { t with posted := false }
    | .other e => t.other s e

/-! ## The process inside -/

section Inside

variable {s : Setup} {w w' : World} {es : List Event} {t : Station} {env : ReadEnv}

/-- The loop takes the process through events of its callbacks. -/
theorem readLoop_run (henv : ∀ w datagram, (innerMachine s).Admits w (env.react w datagram)) :
    ∀ (n : ℕ) (t : Station), ∃ es, Run (innerMachine s) t.world es (readLoop s env n t).world
  | 0, _ => ⟨[], .nil⟩
  | n + 1, t => by
    rw [readLoop]
    split
    · exact ⟨[], .nil⟩
    · exact ⟨[], .nil⟩
    · rename_i payload source queue _
      split_ifs
      · exact ⟨[], .nil⟩
      · have hreact := Run.of_admits (henv t.world ⟨payload.take udpReadBuffer, source⟩)
        obtain ⟨es, hrest⟩ := readLoop_run henv n { t.arrive (env.arrive n) with
          world := (env.react t.world ⟨payload.take udpReadBuffer, source⟩).foldl (World.next s)
            t.world
          queue
          delivered := t.delivered ++ [⟨payload.take udpReadBuffer, source⟩] }
        exact ⟨_, hreact.append hrest⟩

/-- The run of the process in a run of the read handler. -/
theorem rnUdpReadHandler_run (hclient : t.world.proc.client.isSome = true)
    (henv : ∀ w datagram, (innerMachine s).Admits w (env.react w datagram)) :
    ∃ inner, (∀ e ∈ inner, e.Inner) ∧
      OrderlyRun s t.world (.udpBegin :: (inner ++ [.udpEnd]))
        (rnUdpReadHandler s env t).world := by
  have hworker : ∀ {w : World}, w.proc.client.isSome = true → w.proc.worker.isSome = true := by
    intro w h
    cases hw : w.proc.worker with
    | none => simp [Proc.client, hw] at h
    | some v => rfl
  obtain ⟨inner, hrun⟩ := readLoop_run henv rnUdpReadBatchMax (t.mapWorld (·.next s .udpBegin))
  have hinner : ∀ e ∈ inner, e.Inner := by
    have hall := hrun.events
    exact fun e he => (hall e he).elim fun _ h => h.2.2
  have horderly : OrderlyRun s _ inner _ := hrun.mono fun w e he => ⟨he.1, he.2.1⟩
  have hbegin : OrderlyRun s t.world [.udpBegin] (t.world.next s .udpBegin) :=
    .snoc .nil ⟨hworker hclient, trivial⟩
  have hall := (hbegin.append horderly)
  refine ⟨inner, hinner, ?_⟩
  rw [rnUdpReadHandler, if_neg (by simpa [Option.isSome_iff_ne_none] using hclient)]
  rw [List.cons_append] at hall
  refine .snoc hall ⟨?_, trivial⟩
  -- the worker is still there at the end of the loop
  obtain ⟨cl, hcl⟩ := Option.isSome_iff_exists.mp hclient
  obtain ⟨cl', hcl', -⟩ := OrderlyRun.grows hall cl hcl
  exact hworker (by rw [Option.mem_def.mp hcl']; rfl)

/-- Without a rebind, the published endpoint stays. -/
theorem udp_kept (h : OrderlyRun s w es w') (hsome : w.udp.isSome = true)
    (hkeeps : ∀ e ∈ es, ∀ env, e ≠ .rebind env) : w'.udp = w.udp := by
  obtain ⟨v, hv⟩ : ∃ v, w.proc.worker = some v := by
    cases hv : w.proc.worker with
    | none => simp [World.udp, hv] at hsome
    | some v => exact ⟨v, rfl⟩
  obtain ⟨v', hv', hudp⟩ := (h.restrict_of_mem hkeeps).invariant
    (I := fun w => ∃ v', w.proc.worker = some v' ∧ v'.udp = v.udp) ⟨v, hv, rfl⟩ <| by
      rintro u e ⟨v', hv', hudp⟩ ⟨-, hkeep⟩
      obtain ⟨v'', hv'', hreplaced, -⟩ := next_endpoint (s := s) e hv'
      refine ⟨v'', hv'', ?_⟩
      rw [← hudp]
      by_contra hne
      obtain ⟨env, he, -⟩ := hreplaced hne
      exact hkeep env he
  rw [World.udp, World.udp, hv, hv', Option.bind_some, Option.bind_some, hudp]

/-- No read is active. -/
def Proc.Unread (p : Proc) : Prop :=
  ∀ v ∈ p.worker, v.udpReadActive = false

theorem Proc.Unread.mapWorker {p : Proc} (h : p.Unread) {f : Worker → Worker}
    (hf : ∀ v, (f v).udpReadActive = v.udpReadActive) : (p.mapWorker f).Unread := by
  intro v hv
  obtain ⟨v₀, hv₀, rfl⟩ := Option.map_eq_some_iff.mp hv
  rw [hf]
  exact h v₀ hv₀

theorem Proc.Move.unread {p p' : Proc} (hmove : Proc.Move s p p') (h : p.Unread) : p'.Unread := by
  cases hmove with
  | ensure env =>
    intro v hv
    rcases rnWorkerEnsure_worker s.conf.main s.bind env p with hsame | ⟨-, udp, hnew⟩
    · rw [hsame] at hv
      exact h v hv
    · rw [hnew] at hv
      obtain rfl := Option.some.inj hv
      rfl
  | start | retire | takeoff => exact h.mapWorker fun _ => rfl
  | schedule => exact h.mapWorker fun v => (rnScheduleRebind_sameSocket v).udpReadActive
  | land =>
    have hlanded : (p.mapWorker Worker.landed).Unread := h.mapWorker fun _ => rfl
    exact hlanded.mapWorker fun v => (rnScheduleRebind_sameSocket v).udpReadActive

theorem rnRebindHandler_readActive (bind : Option AddressFamily) (env : SocketEnv) (v : Worker)
    (os : Os) : (rnRebindHandler bind env v os).1.udpReadActive = v.udpReadActive := by
  simp only [rnRebindHandler, rnRebindSocket]
  split_ifs
  · rfl
  · exact rnScheduleRebindAfter_readActive _ 1
  · rcases rnOpenSocketCandidate bind env os with ⟨os', _ | udp⟩
    · exact rnScheduleRebindAfter_readActive _ rnRebindRetryMs
    · rfl

/-- Outside the read handler, no event begins a read. -/
theorem next_unread_proc (h : w.proc.Unread) {e : Event} (hbegin : e ≠ .udpBegin) :
    (w.next s e).proc.Unread := by
  cases he : e.request with
  | some i =>
    refine (next_moves (s := s) he).head_induction_on
      (motive := fun p _ => p.Unread → (w.next s e).proc.Unread) id ?_ h
    exact fun hmove _ ih hp => ih (hmove.unread hp)
  | none =>
    rw [World.next_eq_runProc he]
    cases e with
    | udpBegin => exact absurd rfl hbegin
    | udpEnd =>
      intro v hv
      obtain ⟨v₀, -, rfl⟩ := Option.map_eq_some_iff.mp hv
      rfl
    | steering keepPort =>
      refine h.mapWorker fun v => ?_
      unfold rnOnSteeringFeedback
      split_ifs
      · rfl
      · exact (rnScheduleRebind_sameSocket _).udpReadActive
    | rebind env =>
      simp only [Event.runProc, Proc.rebind]
      intro v hv
      split at hv
      · exact h v hv
      · rename_i v₀ hv₀
        obtain rfl := Option.some.inj hv
        rw [rnRebindHandler_readActive]
        exact h v₀ hv₀
    | accept => exact h
    | _ => simp [Event.request] at he

end Inside

/-! ## The socket -/

section Socket

variable {s : Setup} {t : Station} {env : ReadEnv}

/-- What the client is given of a packet : a datagram that is not empty, cut at the size of the
buffer. -/
def Packet.deliver : Packet → Option Datagram
  | .datagram payload source =>
    if payload = [] then none else some ⟨payload.take udpReadBuffer, source⟩
  | .failure => none

/-- What came in was taken from the front, or still waits, and the client was given exactly what
was taken. -/
def Station.Exact (t : Station) : Prop :=
  ∃ taken, t.arrived = taken ++ t.queue ∧ t.delivered = taken.filterMap Packet.deliver

theorem Station.Exact.arrive (h : t.Exact) (packets : List Packet) : (t.arrive packets).Exact := by
  obtain ⟨taken, harrived, hdelivered⟩ := h
  exact ⟨taken, by simp [Station.arrive, harrived], hdelivered⟩

/-- The packet at the front is taken. -/
theorem Station.Exact.take (h : t.Exact) {packet : Packet} {queue : List Packet}
    (hqueue : t.queue = packet :: queue) {t' : Station} (hqueue' : t'.queue = queue)
    (harrived' : t'.arrived = t.arrived)
    (hdelivered' : t'.delivered = t.delivered ++ packet.deliver.toList) : t'.Exact := by
  obtain ⟨taken, harrived, hdelivered⟩ := h
  refine ⟨taken ++ [packet], ?_, ?_⟩
  · rw [harrived', harrived, hqueue, hqueue']
    simp
  · rw [hdelivered', hdelivered, List.filterMap_append]
    cases hpacket : packet.deliver <;> simp [hpacket]

theorem readLoop_exact : ∀ (n : ℕ) {t : Station}, t.Exact → (readLoop s env n t).Exact
  | 0, _, h => h
  | n + 1, t, h => by
    have harrive := h.arrive (env.arrive n)
    rw [readLoop]
    split
    · exact harrive
    · rename_i queue hqueue
      exact harrive.take hqueue rfl rfl (by simp [Packet.deliver])
    · rename_i payload source queue hqueue
      split_ifs with hempty
      · exact harrive.take hqueue rfl rfl (by simp [Packet.deliver, hempty])
      · refine readLoop_exact n (harrive.take hqueue rfl rfl ?_)
        simp [Packet.deliver, hempty, Station.arrive]

theorem rnUdpReadHandler_exact (h : t.Exact) : (rnUdpReadHandler s env t).Exact := by
  unfold rnUdpReadHandler
  split_ifs
  · exact h
  · exact readLoop_exact rnUdpReadBatchMax (t := t.mapWorld (·.next s .udpBegin)) h

/-! ### How far a read gets -/

/-- What a run of the loop with a batch of `n` takes from the queue, where `incoming` comes in
meanwhile, and why it stops. -/
structure ReadTakes (n : ℕ) (t t' : Station) (incoming : List Packet) (taken : ℕ) : Prop where
  arrived : t'.arrived = t.arrived ++ incoming
  queue : t'.queue = (t.queue ++ incoming).drop taken
  batch : taken ≤ n
  stop : t'.posted = true ∧ taken = n ∨ t'.queue = [] ∨
    ∃ packet, (t.queue ++ incoming)[taken - 1]? = some packet ∧ packet.deliver = none ∧ 0 < taken

theorem readLoop_takes (env : ReadEnv) : ∀ (n : ℕ) (t : Station),
    ∃ incoming taken, ReadTakes n t (readLoop s env n t) incoming taken ∧
      (env.arrive = (fun _ => []) → incoming = [])
  | 0, t => ⟨[], 0, ⟨by simp [readLoop], by simp [readLoop], le_refl 0, .inl ⟨rfl, rfl⟩⟩,
      fun _ => rfl⟩
  | n + 1, t => by
    have hquiet : env.arrive = (fun _ => []) → env.arrive n = [] := fun h => by rw [h]
    rw [readLoop]
    split
    · rename_i hempty
      refine ⟨env.arrive n, 0, ⟨rfl, by simp [Station.arrive], Nat.zero_le _, .inr (.inl hempty)⟩,
        hquiet⟩
    · rename_i queue hqueue
      simp only [Station.arrive] at hqueue
      exact ⟨env.arrive n, 1, ⟨rfl, by simp [hqueue], by omega,
        .inr (.inr ⟨.failure, by simp [hqueue], rfl, Nat.one_pos⟩)⟩, hquiet⟩
    · rename_i payload source queue hqueue
      simp only [Station.arrive] at hqueue
      split_ifs with hempty
      · exact ⟨env.arrive n, 1, ⟨rfl, by simp [hqueue], by omega,
          .inr (.inr ⟨.datagram payload source, by simp [hqueue], by simp [Packet.deliver, hempty],
            Nat.one_pos⟩)⟩, hquiet⟩
      · obtain ⟨incoming, taken, h, hrest⟩ := readLoop_takes env n { t.arrive (env.arrive n) with
          world := (env.react t.world ⟨payload.take udpReadBuffer, source⟩).foldl (World.next s)
            t.world
          queue
          delivered := t.delivered ++ [⟨payload.take udpReadBuffer, source⟩] }
        have hall : t.queue ++ (env.arrive n ++ incoming) =
            .datagram payload source :: (queue ++ incoming) := by
          rw [← List.append_assoc, hqueue, List.cons_append]
        refine ⟨env.arrive n ++ incoming, taken + 1, ⟨?_, ?_, by have := h.batch; omega, ?_⟩,
          fun hnone => by rw [hquiet hnone, hrest hnone]; rfl⟩
        · exact h.arrived.trans (List.append_assoc ..)
        · rw [hall, List.drop_succ_cons]
          exact h.queue
        · rcases h.stop with ⟨hposted, htaken⟩ | hdone | ⟨packet, hpacket, hnone, hpos⟩
          · exact .inl ⟨hposted, by rw [htaken]⟩
          · exact .inr (.inl hdone)
          · refine .inr (.inr ⟨packet, ?_, hnone, Nat.succ_pos _⟩)
            rw [hall, Nat.add_sub_cancel]
            obtain ⟨k, rfl⟩ := Nat.exists_eq_succ_of_ne_zero hpos.ne'
            simpa using hpacket

end Socket

/-! ## Runs -/

section Runs

variable {s : Setup} {t t' : Station} {es : List StationEvent} {env : ReadEnv}

/-- The invariant of a process with its socket. -/
structure Station.Sound (s : Setup) (t : Station) : Prop where
  reached : ∃ es, OrderlyRun s World.init es t.world
  unread : t.world.proc.Unread
  exact : t.Exact

/-- A process with an endpoint has a client. -/
theorem Station.Sound.client (h : t.Sound s) (hudp : t.world.udp.isSome = true) :
    t.world.proc.client.isSome = true := by
  obtain ⟨es, hrun⟩ := h.reached
  rcases reaches_settled hrun.of_restrict with ⟨hnone, -⟩ | ⟨v, u, hv, hclient, -⟩
  · simp [World.udp, hnone] at hudp
  · rw [Proc.client, hv]
    exact hclient

theorem Station.Sound.next (h : t.Sound s) {e : StationEvent} (he : e.Enabled s t) :
    ((station s).next t e).Sound s := by
  obtain ⟨es, hrun⟩ := h.reached
  cases e with
  | packets packets => exact ⟨⟨es, hrun⟩, h.unread, h.exact.arrive packets⟩
  | read env =>
    obtain ⟨-, hudp, henv⟩ := he
    have hclient := h.client hudp
    obtain ⟨inner, -, hread⟩ :=
      rnUdpReadHandler_run (t := { t with posted := false }) hclient henv
    have hexact : (rnUdpReadHandler s env { t with posted := false }).Exact :=
      rnUdpReadHandler_exact h.exact
    refine ⟨⟨_, hrun.append hread⟩, ?_, hexact⟩
    change (rnUdpReadHandler s env { t with posted := false }).world.proc.Unread
    rw [rnUdpReadHandler, if_neg (by simpa [Option.isSome_iff_ne_none] using hclient)]
    intro v hv
    obtain ⟨v₀, -, rfl⟩ := Option.map_eq_some_iff.mp hv
    rfl
  | other e =>
    obtain ⟨hen, horderly, hbegin, -⟩ := he
    have hreached : OrderlyRun s World.init (es ++ [e]) (t.world.next s e) :=
      .snoc hrun ⟨hen, horderly⟩
    have hunread := next_unread_proc (s := s) h.unread hbegin
    simp only [station, Station.other]
    split_ifs
    · exact ⟨⟨_, hreached⟩, hunread, h.exact⟩
    · exact ⟨⟨_, hreached⟩, hunread, [], rfl, rfl⟩

theorem station_sound (h : Run (station s) Station.init es t) : t.Sound s :=
  h.invariant (I := (·.Sound s)) ⟨⟨[], .nil⟩, nofun, [], rfl, rfl⟩ fun _ _ hu he => hu.next he

/-- The process inside is one of `machine`, with its promises kept, and no read is active between
two events. A call of the read handler takes it through a read with the events of the callbacks
in it, and keeps the endpoint that it reads from. -/
theorem station_refines (h : Run (station s) Station.init es t) :
    (∃ es', OrderlyRun s World.init es' t.world) ∧ t.world.proc.Unread ∧
    ∀ env, (StationEvent.read env).Enabled s t →
      ((station s).next t (.read env)).world.udp = t.world.udp ∧
      ∃ inner, (∀ e ∈ inner, e.Inner) ∧ OrderlyRun s t.world (.udpBegin :: (inner ++ [.udpEnd]))
        ((station s).next t (.read env)).world := by
  have hsound := station_sound h
  refine ⟨hsound.reached, hsound.unread, fun env he => ?_⟩
  obtain ⟨inner, hinner, hread⟩ :=
    rnUdpReadHandler_run (t := { t with posted := false }) (hsound.client he.2.1) he.2.2
  refine ⟨udp_kept hread he.2.1 ?_, inner, hinner, hread⟩
  rintro e he env rfl
  rcases List.mem_cons.mp he with he | he
  · cases he
  · rcases List.mem_append.mp he with he | he
    · exact hinner _ he
    · simp at he

/-- In every state of every run, the client has been given exactly the datagrams that were taken
from the published socket, once each and in the order in which they came in; the rest still
waits. A call of the read handler takes a batch at most. It leaves packets behind only with its
event posted, or after a packet that is not delivered. -/
theorem receive_exact (h : Run (station s) Station.init es t) :
    t.Exact ∧ ∀ env, (StationEvent.read env).Enabled s t → ∃ incoming taken,
      ReadTakes rnUdpReadBatchMax t ((station s).next t (.read env)) incoming taken ∧
        (t.queue ≠ [] → 0 < taken) := by
  have hsound := station_sound h
  refine ⟨hsound.exact, fun env he => ?_⟩
  obtain ⟨incoming, taken, htakes, -⟩ := readLoop_takes (s := s) env rnUdpReadBatchMax
    (Station.mapWorld { t with posted := false } (·.next s .udpBegin))
  have hnext : (station s).next t (.read env) = (readLoop s env rnUdpReadBatchMax
      (Station.mapWorld { t with posted := false } (·.next s .udpBegin))).mapWorld
        (·.next s .udpEnd) :=
    if_neg (by simpa [Option.isSome_iff_ne_none] using hsound.client he.2.1)
  refine ⟨incoming, taken, ?_, fun hqueue => ?_⟩
  · rw [hnext]
    exact ⟨htakes.arrived, htakes.queue, htakes.batch, htakes.stop⟩
  · by_contra hnone
    obtain rfl : taken = 0 := Nat.eq_zero_of_not_pos hnone
    rcases htakes.stop with ⟨-, hfull⟩ | hdone | ⟨-, -, -, hpos⟩
    · cases hfull
    · rw [htakes.queue, List.drop_zero] at hdone
      exact hqueue (List.append_eq_nil_iff.mp hdone).1
    · exact absurd hpos (lt_irrefl 0)

/-! ### Draining the socket -/

/-- No packet comes in with the event. -/
def StationEvent.Quiet : StationEvent → Prop
  | .packets _ => False
  | .read env => env.arrive = fun _ => []
  | .other _ => True

/-- Whether the event calls the read handler. -/
def StationEvent.isRead : StationEvent → Bool
  | .read _ => true
  | .packets _ | .other _ => false

/-- The work that waits on the socket : a call of the handler takes a batch of it, or gets past
one of the packets that it stops at. -/
def backlog (queue : List Packet) : ℕ :=
  queue.length + rnUdpReadBatchMax * queue.countP (·.deliver.isNone)

/-- A quiet call of the handler leaves a batch less, or nothing. -/
theorem ReadTakes.backlog {t' : Station} {taken : ℕ}
    (h : ReadTakes rnUdpReadBatchMax t t' [] taken) :
    t'.queue = [] ∨ backlog t'.queue + rnUdpReadBatchMax ≤ backlog t.queue := by
  have hqueue : t'.queue = t.queue.drop taken := by simpa using h.queue
  rcases h.stop with ⟨-, hfull⟩ | hdone | ⟨packet, hpacket, hnone, hpos⟩
  · subst hfull
    rcases Nat.lt_or_ge rnUdpReadBatchMax t.queue.length with hlong | hshort
    · right
      have hcount : (t.queue.drop rnUdpReadBatchMax).countP (·.deliver.isNone) ≤
          t.queue.countP (·.deliver.isNone) := (List.drop_sublist _ _).countP_le
      have := Nat.mul_le_mul_left rnUdpReadBatchMax hcount
      simp only [RlNginx.backlog, hqueue, List.length_drop]
      omega
    · left
      rw [hqueue, List.drop_eq_nil_of_le hshort]
  · exact .inl hdone
  · right
    -- the packet that stopped the loop is among those that are gone
    have hmem : packet ∈ t.queue.take taken := by
      rw [List.append_nil] at hpacket
      obtain ⟨hlt, rfl⟩ := List.getElem?_eq_some_iff.mp hpacket
      exact List.mem_take_iff_getElem.mpr ⟨taken - 1, by omega, rfl⟩
    have hone : 0 < (t.queue.take taken).countP (·.deliver.isNone) :=
      List.countP_pos_iff.mpr ⟨packet, hmem, by simp [hnone]⟩
    have hsplit : t.queue.countP (·.deliver.isNone) =
        (t.queue.take taken).countP (·.deliver.isNone) +
          (t.queue.drop taken).countP (·.deliver.isNone) := by
      rw [← List.countP_append, List.take_append_drop]
    have hle : (t.queue.drop taken).countP (·.deliver.isNone) + 1 ≤
        t.queue.countP (·.deliver.isNone) := by omega
    have hmul := Nat.mul_le_mul_left rnUdpReadBatchMax hle
    rw [Nat.mul_add, Nat.mul_one] at hmul
    simp only [RlNginx.backlog, hqueue, List.length_drop]
    omega

/-- Once no more packets come in, the socket is drained : a call of the handler for every batch
that waits and one for every packet that stops it are enough, whatever else happens between
them. -/
theorem receive_drains {es' : List StationEvent} (h : Run (station s) Station.init es t)
    (h' : Run ((station s).restrict fun _ e => e.Quiet) t es' t')
    (hreads : backlog t.queue ≤ rnUdpReadBatchMax * es'.countP (·.isRead)) : t'.queue = [] := by
  suffices hless : t'.queue = [] ∨
      backlog t'.queue + rnUdpReadBatchMax * es'.countP (·.isRead) ≤ backlog t.queue by
    rcases hless with hdone | hless
    · exact hdone
    · have hzero : t'.queue.length = 0 := by
        simp only [backlog] at hless hreads
        omega
      exact List.length_eq_zero_iff.mp hzero
  clear hreads
  have hsound := station_sound h
  have hrun := h'.of_restrict
  induction h' with
  | nil => exact .inr (by simp)
  | @snoc es' u e hu he ih =>
    have hus : u.Sound s := station_sound (h.append hu.of_restrict)
    have ih := ih hu.of_restrict
    rw [List.countP_append]
    obtain ⟨he, hquiet⟩ := he
    cases e with
    | packets => exact hquiet.elim
    | read env =>
      obtain ⟨incoming, taken, htakes, hnone⟩ := readLoop_takes (s := s) env
        rnUdpReadBatchMax (Station.mapWorld { u with posted := false } (·.next s .udpBegin))
      obtain rfl := hnone hquiet
      have hnext : ((station s).next u (.read env)).queue = (readLoop s env rnUdpReadBatchMax
          (Station.mapWorld { u with posted := false } (·.next s .udpBegin))).queue := by
        change (rnUdpReadHandler s env { u with posted := false }).queue = _
        rw [rnUdpReadHandler,
          if_neg (by simpa [Option.isSome_iff_ne_none] using hus.client he.2.1)]
        rfl
      change ((station s).next u (.read env)).queue = [] ∨ _
      rcases htakes.backlog with hdone | hless
      · exact .inl (hnext.trans hdone)
      · have hless : backlog ((station s).next u (.read env)).queue + rnUdpReadBatchMax ≤
            backlog u.queue := by rwa [hnext]
        rcases ih with hempty | ih
        · rw [hempty] at hless
          simp [backlog, rnUdpReadBatchMax] at hless
        · right
          change backlog ((station s).next u (.read env)).queue + _ ≤ _
          rw [show [StationEvent.read env].countP (·.isRead) = 1 from rfl, Nat.mul_add, Nat.mul_one]
          omega
    | other e =>
      rw [show [StationEvent.other e].countP (·.isRead) = 0 from rfl, Nat.add_zero]
      change (u.other s e).queue = [] ∨ backlog (u.other s e).queue + _ ≤ _
      simp only [Station.other]
      split_ifs
      · exact ih
      · exact .inl rfl

end Runs

/-! ## A small run -/

/-- The service answers every datagram with a result for the first check, while the client has
that check. -/
def sampleReadEnv : ReadEnv where
  react := fun w _ =>
    let e : Event := .complete 0 0 .ok (some ⟨true, [true], [0]⟩)
    if e.Enabled sampleSetup w then [e] else []
  arrive := fun _ => []

/-- A datagram of the service. -/
def samplePacket : Packet := .datagram [1, 2, 3] (.inet 53 0x7f000001)

/-- A request that waits, and a datagram on the socket. -/
def answeredEvents : List StationEvent :=
  [.other (.accept true protectedLoc 0), .other (.handler 0 sampleHandlerEnv),
    .packets [samplePacket]]

/-- The process with its socket after it. -/
def answeredStation : Station :=
  answeredEvents.foldl (station sampleSetup).next Station.init

theorem answered_run : Run (station sampleSetup) Station.init answeredEvents answeredStation :=
  Run.of_admits ⟨⟨by decide +kernel, by decide +kernel, nofun, nofun⟩,
    ⟨by decide +kernel, by decide +kernel, nofun, nofun⟩,
    (by decide +kernel : Option.isSome _ = true), trivial⟩

theorem answered_read : (StationEvent.read sampleReadEnv).Enabled sampleSetup answeredStation := by
  refine ⟨.inl (by decide +kernel), by decide +kernel, fun w datagram => ?_⟩
  simp only [sampleReadEnv]
  split_ifs with hen
  · exact ⟨⟨hen, trivial, trivial⟩, trivial⟩
  · trivial

theorem sample_station_refines :
    ((station sampleSetup).next answeredStation (.read sampleReadEnv)).world.udp =
      answeredStation.world.udp :=
  ((station_refines answered_run).2.2 sampleReadEnv answered_read).1

theorem sample_receive_exact : answeredStation.Exact :=
  (receive_exact answered_run).1

theorem sample_receive_drains :
    ((station sampleSetup).next answeredStation (.read sampleReadEnv)).queue = [] :=
  receive_drains answered_run
    (.snoc .nil ⟨answered_read, rfl⟩ : Run ((station sampleSetup).restrict fun _ e => e.Quiet)
      answeredStation ([] ++ [.read sampleReadEnv]) _) (by decide +kernel)

end RlNginx
