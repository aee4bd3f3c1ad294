import RlNginx.Lib.Transition
import RlNginx.Accepted
import RlNginx.Request

/-!
# The worker process as an event machine

`World` is a worker process with the requests it has read. An `Event` is one thing nginx
or the C client can bring about : a run of the handler, an internal redirect, a completion
callback, a timer, a cleanup, the log phase, a UDP read, the rebind timer. What follows an
entry point in the code through nginx (phases run again after a completion, posted
requests) is a later event, so every order the code can produce is a run.

`machine s` is the process under the configuration `s`. Its `enabled` is what nginx and
the C client promise; nothing in it is about the module's own state but the existence of
what an event is about.
-/

open Transition

namespace RlNginx

/-- A worker process and its requests. -/
structure World where
  proc : Proc
  reqs : List Request
  deriving DecidableEq, Repr

/-- A worker process that has not read a request yet. -/
def World.init : World where
  proc := Proc.init
  reqs := []

/-- The process with one of its requests. -/
def World.frame (w : World) (i : ℕ) : Option Frame :=
  (w.reqs[i]?).map (⟨w.proc, ·⟩)

/-- Write the process and a request back. -/
def World.store (w : World) (i : ℕ) (f : Frame) : World where
  proc := f.proc
  reqs := w.reqs.set i f.req

/-- Run an entry point for request `i`. -/
def World.on (w : World) (i : ℕ) (g : Frame → Frame) : World :=
  match w.frame i with
  | none => w
  | some f => w.store i (g f)

/-- What nginx and the C client bring about. -/
inductive Event where
  /-- nginx has read a request and found its location. -/
  | accept (main : Bool) (lcf : LocConf) (startMs : ℕ)
  /-- The pre-content phase runs the handler. -/
  | handler (i : ℕ) (env : HandlerEnv)
  /-- An internal redirect : the module contexts are cleared, the cleanup chain is kept. -/
  | redirect (i : ℕ) (lcf : LocConf)
  /-- Another module registers a cleanup handler. -/
  | cleanupAdd (i : ℕ)
  /-- `$ratelimitly_verdict` is evaluated. -/
  | verdict (i : ℕ)
  /-- The C client completes a request through its callback. -/
  | complete (i q : ℕ) (status : RClient) (result : Option RateLimitResult)
  /-- A callback with a handle that the context in the slot does not own. -/
  | stray (i q : ℕ) (status : RClient) (result : Option RateLimitResult)
  /-- The timer of a context fires. -/
  | timeout (i c : ℕ) (env : TimeoutEnv)
  /-- nginx calls `rn_request_cleanup` for a context. -/
  | cleanup (i c : ℕ)
  /-- nginx releases the request : cleanup handlers, then the log phase. -/
  | release (i : ℕ)
  /-- The log phase runs the log handler. -/
  | log (i endMs : ℕ)
  /-- The state of the connection changes. -/
  | connection (i : ℕ) (state : Connection)
  /-- nginx takes or drops a reference of its own. -/
  | retain (i : ℕ)
  | drop (i : ℕ)
  /-- The C client reports steering feedback. -/
  | steering (keepPort : Bool)
  /-- `rn_udp_read_handler` enters and leaves its loop. -/
  | udpBegin
  | udpEnd
  /-- The rebind timer fires. -/
  | rebind (env : SocketEnv)

/-- The events of one request. -/
def Event.request : Event → Option ℕ
  | .handler i _ | .redirect i _ | .cleanupAdd i | .verdict i | .complete i _ _ _
  | .stray i _ _ _ | .timeout i _ _ | .cleanup i _ | .release i | .log i _ | .connection i _
  | .retain i | .drop i => some i
  | .accept _ _ _ | .steering _ | .udpBegin | .udpEnd | .rebind _ => none

/-- What an event of a request does to the process and the request. -/
def Event.run (s : Setup) (i : ℕ) (f : Frame) : Event → Frame
  | .handler _ env => (ngxHttpRnHandler s env i f).1
  | .redirect _ lcf => { f with req := { f.req with slot := none, lcf } }
  | .cleanupAdd _ => { f with req := { f.req with cleanup := .other :: f.req.cleanup } }
  | .verdict _ => { f with req := (ngxHttpRnVerdictVariable f.req).1 }
  | .complete _ q status result =>
    (rnRateCb s.conf.main q status result
      { f with proc := f.proc.mapClient (·.retire q .completed) }).1
  | .stray _ q status result => (rnRateCb s.conf.main q status result f).1
  | .timeout _ c env => rnRequestTimeoutHandler s.conf.main env c f
  | .cleanup _ c => f.cleanup c
  | .release _ => f.release
  | .log _ endMs => ngxHttpRnLogHandler endMs f
  | .connection _ state => { f with req := { f.req with connection := state } }
  | .retain _ => { f with req := { f.req with
      count := f.req.count + 1, ngxRefs := f.req.ngxRefs + 1 } }
  | .drop _ => { f with req := { f.req with
      count := f.req.count - 1, ngxRefs := f.req.ngxRefs - 1 } }
  | _ => f

/-- `rn_rebind_handler` on the process. -/
def Proc.rebind (p : Proc) (bind : Option AddressFamily) (env : SocketEnv) : Proc :=
  match p.worker with
  | none => p
  | some w =>
    let (w, os) := rnRebindHandler bind env { w with rebindTimer := none } p.os
    { p with worker := some w, os }

/-- What an event that is not of one request does. -/
def Event.runProc (s : Setup) (w : World) : Event → World
  | .accept main lcf startMs => { w with reqs := w.reqs ++ [Request.new main lcf startMs] }
  | .steering keepPort => { w with proc := w.proc.mapWorker (rnOnSteeringFeedback · keepPort) }
  | .udpBegin => { w with proc := w.proc.mapWorker ({ · with udpReadActive := true }) }
  | .udpEnd => { w with proc := w.proc.mapWorker ({ · with udpReadActive := false }) }
  | .rebind env => { w with proc := w.proc.rebind s.bind env }
  | _ => w

/-- The step of an event. -/
def World.next (s : Setup) (w : World) (e : Event) : World :=
  match e.request with
  | some i => w.on i (e.run s i)
  | none => e.runProc s w

/-- When nginx or the C client may bring an event about. -/
def Event.Enabled (s : Setup) (w : World) : Event → Prop
  | .accept _ lcf _ => lcf ∈ s.conf.locations
  | .handler i _ => ∃ r ∈ w.reqs[i]?, r.released = false
  | .redirect i lcf => lcf ∈ s.conf.locations ∧ ∃ r ∈ w.reqs[i]?, r.released = false
  | .cleanupAdd i => ∃ r ∈ w.reqs[i]?, r.released = false
  | .verdict i => ∃ r ∈ w.reqs[i]?, True
  | .complete i q _ _ => ∃ c ∈ w.proc.client, c.Live q ∧ ∃ cr ∈ c.requests[q]?, cr.user = i
  | .stray i q _ _ => ∃ r ∈ w.reqs[i]?, ∀ x ∈ r.ctx, x.req ≠ some q
  | .timeout i c _ => ∃ r ∈ w.reqs[i]?, ∃ x ∈ r.ctxs[c]?, x.timer.isSome = true
  | .cleanup i c => ∃ r ∈ w.reqs[i]?, c < r.ctxs.length
  | .release i => ∃ r ∈ w.reqs[i]?, r.released = false
  | .log i _ => ∃ r ∈ w.reqs[i]?, r.released = true
  | .connection i _ => ∃ r ∈ w.reqs[i]?, True
  | .retain i => ∃ r ∈ w.reqs[i]?, True
  | .drop i => ∃ r ∈ w.reqs[i]?, 0 < r.ngxRefs
  | .steering _ => w.proc.worker.isSome = true
  | .udpBegin => w.proc.worker.isSome = true
  | .udpEnd => w.proc.worker.isSome = true
  | .rebind _ => ∃ v ∈ w.proc.worker, v.rebindTimer.isSome = true

instance (s : Setup) (w : World) (e : Event) : Decidable (e.Enabled s w) := by
  cases e <;> (dsimp only [Event.Enabled]; infer_instance)

/-- A worker process under a configuration. -/
def machine (s : Setup) : Machine World Event where
  enabled := fun w e => e.Enabled s w
  next := World.next s

instance (s : Setup) (w : World) (e : Event) : Decidable ((machine s).enabled w e) :=
  inferInstanceAs (Decidable (e.Enabled s w))

/-- The process starts without requests. -/
abbrev Reaches (s : Setup) (es : List Event) (w : World) : Prop :=
  Run (machine s) World.init es w

/-! ## A small process -/

/-- The small configuration, without a bind address. -/
def sampleSetup : Setup where
  conf := sampleConfig
  bind := none

/-- Sockets can be opened. -/
def sampleSocketEnv : SocketEnv where
  socket := fun _ => true
  nonblocking := true
  bind := true
  getConnection := true
  addEvent := true

/-- Values without variables render to themselves, and identifiers are derived. -/
def sampleReqEnv : ReqEnv where
  complexValue := some
  parseTime := sampleEnv.parseTime
  deriveBucketId := fun bucket _ _ => some bucket
  deriveLatencyTrackerId := fun service _ _ _ => some service
  allocResources := true
  allocGuards := true

/-- A run of the handler in which everything succeeds. -/
def sampleHandlerEnv : HandlerEnv where
  allocCtx := true
  cleanupAdd := true
  init := ⟨true, true, true, sampleSocketEnv, true, 1000⟩
  values := sampleReqEnv
  start := true
  deadlineMs := some 20
  nowMs := 0
  readReady := true
  readEvent := true

end RlNginx
