import RlNginx.Accepted
import RlNginx.Moves

/-!
# Steering rebinds

The C client asks for a new source port with steering feedback. The module only records
the wish and schedules an event; the socket is replaced by that event, when nothing is in
flight and no datagram is being read.

`Worker.Steered` is the invariant : a pending rebind with nothing in flight is scheduled,
and scheduled means that the timer is armed. Only `rn_schedule_rebind_after` and
`rn_rebind_handler` touch the timer, and every place that lowers the count in flight
reschedules, so the invariant is checked on `Proc.Move` and on the three events of the
worker itself.
-/

open Transition Relation

namespace RlNginx

/-- No rebind is lost, and the flag agrees with the timer. -/
structure Worker.Steered (v : Worker) : Prop where
  scheduled : v.rebindPending = true → v.inflight = 0 → v.rebindScheduled = true
  armed : v.rebindScheduled = true ↔ v.rebindTimer.isSome = true

/-- The worker of the process, if any, is steered. -/
def Proc.Steered (p : Proc) : Prop :=
  ∀ v ∈ p.worker, v.Steered

/-! ## Scheduling -/

/-- Scheduling restores the invariant wherever the flag agrees with the timer. -/
theorem rnScheduleRebindAfter_steered {v : Worker} (delay : ℕ)
    (harmed : v.rebindScheduled = true ↔ v.rebindTimer.isSome = true) :
    (rnScheduleRebindAfter v delay).Steered := by
  unfold rnScheduleRebindAfter
  split_ifs with hskip
  · refine ⟨fun hpending hinflight => ?_, harmed⟩
    simpa [hpending, hinflight] using hskip
  · exact ⟨fun _ _ => rfl, by simp⟩

theorem rnOnSteeringFeedback_steered {v : Worker} (h : v.Steered) (keepPort : Bool) :
    (rnOnSteeringFeedback v keepPort).Steered := by
  unfold rnOnSteeringFeedback
  split_ifs
  · exact h
  · exact rnScheduleRebindAfter_steered 0 h.armed

@[simp] theorem rnOnSteeringFeedback_udp (v : Worker) (keepPort : Bool) :
    (rnOnSteeringFeedback v keepPort).udp = v.udp := by
  unfold rnOnSteeringFeedback
  split_ifs <;> simp

/-! ## Requests keep the invariant and the endpoint -/

variable {s : Setup}

theorem Proc.Move.steered {p p' : Proc} (h : Proc.Move s p p') (hp : p.Steered) : p'.Steered := by
  have hmap : ∀ {f : Worker → Worker}, (∀ v, v.Steered → (f v).Steered) →
      (p.mapWorker f).Steered := by
    intro f hf v hv
    obtain ⟨v₀, hv₀, rfl⟩ := Option.map_eq_some_iff.mp hv
    exact hf v₀ (hp v₀ hv₀)
  cases h with
  | ensure env =>
    intro v hv
    rcases rnWorkerEnsure_worker s.conf.main s.bind env p with hsame | ⟨-, udp, hnew⟩
    · rw [hsame] at hv
      exact hp v hv
    · rw [hnew] at hv
      obtain rfl := Option.some.inj hv
      exact ⟨by simp [Worker.zero], by simp [Worker.zero]⟩
  | start | retire => exact hmap fun v hv => ⟨hv.scheduled, hv.armed⟩
  | takeoff => exact hmap fun v hv => ⟨fun _ h => absurd h (by simp), hv.armed⟩
  | schedule => exact hmap fun v hv => rnScheduleRebindAfter_steered 0 hv.armed
  | land =>
    intro v hv
    simp only [Proc.mapWorker, Option.map_map, Option.mem_def, Option.map_eq_some_iff] at hv
    obtain ⟨v₀, hv₀, rfl⟩ := hv
    exact rnScheduleRebindAfter_steered 0 (hp v₀ hv₀).armed

theorem Proc.Moves.steered {p p' : Proc} (h : p.Moves s p') (hp : p.Steered) : p'.Steered := by
  induction h with
  | refl => exact hp
  | tail _ hmove ih => exact hmove.steered ih

/-- What no request changes of a worker. -/
structure Worker.SameSocket (v v' : Worker) : Prop where
  udp : v'.udp = v.udp
  udpReadActive : v'.udpReadActive = v.udpReadActive

theorem rnScheduleRebind_sameSocket (v : Worker) : v.SameSocket (rnScheduleRebind v) :=
  ⟨rnScheduleRebind_udp v, rnScheduleRebindAfter_readActive v 0⟩

theorem Proc.Move.sameSocket {p p' : Proc} (h : Proc.Move s p p') {v : Worker}
    (hv : p.worker = some v) : ∃ v', p'.worker = some v' ∧ v.SameSocket v' := by
  cases h with
  | ensure env =>
    rcases rnWorkerEnsure_worker s.conf.main s.bind env p with hsame | ⟨hnone, -⟩
    · exact ⟨v, hsame.trans hv, rfl, rfl⟩
    · rw [hnone] at hv
      cases hv
  | start | retire | takeoff => exact ⟨_, p.mapWorker_eq_some hv _, rfl, rfl⟩
  | schedule => exact ⟨_, p.mapWorker_eq_some hv _, rnScheduleRebind_sameSocket v⟩
  | land =>
    obtain ⟨hudp, hread⟩ := rnScheduleRebind_sameSocket v.landed
    exact ⟨_, Proc.mapWorker_eq_some (p.mapWorker_eq_some hv _) _, hudp, hread⟩

theorem Proc.Moves.sameSocket {p p' : Proc} (h : p.Moves s p') {v : Worker}
    (hv : p.worker = some v) : ∃ v', p'.worker = some v' ∧ v.SameSocket v' := by
  induction h with
  | refl => exact ⟨v, hv, rfl, rfl⟩
  | tail _ hmove ih =>
    obtain ⟨v₁, hv₁, hudp₁, hread₁⟩ := ih
    obtain ⟨v₂, hv₂, hudp₂, hread₂⟩ := hmove.sameSocket hv₁
    exact ⟨v₂, hv₂, hudp₂.trans hudp₁, hread₂.trans hread₁⟩

/-! ## The rebind event -/

/-- The rebind event keeps the invariant. -/
theorem rnRebindHandler_steered {v : Worker} (hv : v.rebindTimer = none)
    (bind : Option AddressFamily) (env : SocketEnv) (os : Os) :
    (rnRebindHandler bind env v os).1.Steered := by
  have harmed : ∀ {v' : Worker}, v'.rebindScheduled = false → v'.rebindTimer = none →
      (v'.rebindScheduled = true ↔ v'.rebindTimer.isSome = true) := by
    intro v' hs ht
    simp [hs, ht]
  simp only [rnRebindHandler]
  split_ifs with hidle hread
  · refine ⟨fun hpending hinflight => ?_, harmed rfl hv⟩
    simp only at hpending hinflight
    simp [hpending, hinflight] at hidle
  · exact rnScheduleRebindAfter_steered 1 (harmed rfl hv)
  · unfold rnRebindSocket
    split
    · rename_i v' os' heq
      split at heq
      · simp at heq
      · obtain ⟨rfl, -⟩ := Prod.mk.inj heq
        exact ⟨by simp, harmed rfl hv⟩
    · rename_i v' os' heq
      split at heq
      · obtain ⟨rfl, -⟩ := Prod.mk.inj heq
        exact rnScheduleRebindAfter_steered _ (harmed rfl hv)
      · simp at heq

/-- The rebind event replaces the endpoint only when nothing is in flight and no datagram
is being read. -/
theorem rnRebindHandler_replaces {v : Worker} {bind : Option AddressFamily} {env : SocketEnv}
    {os : Os} (h : (rnRebindHandler bind env v os).1.udp ≠ v.udp) :
    v.inflight = 0 ∧ v.udpReadActive = false := by
  simp only [rnRebindHandler] at h
  split_ifs at h with hidle hread
  · exact absurd rfl h
  · simp at h
  · simp only [Bool.or_eq_true, Bool.not_eq_true', bne_iff_ne, ne_eq, not_or,
      Decidable.not_not] at hidle
    exact ⟨hidle.2, by simpa using hread⟩

/-- A failed replacement leaves the endpoint published and the rebind pending. -/
theorem rnRebindHandler_fails {v : Worker} {bind : Option AddressFamily} {env : SocketEnv}
    {os : Os} (hfail : (rnOpenSocketCandidate bind env os).2 = none) :
    (rnRebindHandler bind env v os).1.udp = v.udp ∧
      (rnRebindHandler bind env v os).1.rebindPending = v.rebindPending := by
  have hsocket : ∀ v', ∃ os', rnRebindSocket bind env v' os = (v', os', false) := by
    intro v'
    unfold rnRebindSocket
    split
    · exact ⟨_, rfl⟩
    · rename_i heq
      rw [heq] at hfail
      cases hfail
  simp only [rnRebindHandler]
  split_ifs
  · exact ⟨rfl, rfl⟩
  · exact ⟨by simp, by simp⟩
  · obtain ⟨os', h⟩ := hsocket { v with rebindScheduled := false }
    rw [h]
    exact ⟨by simp, by simp⟩

/-! ## Every event -/

theorem next_steered {w : World} (h : w.proc.Steered) (e : Event) :
    (w.next s e).proc.Steered := by
  cases he : e.request with
  | some i => exact (next_moves he).steered h
  | none =>
    have hmap : ∀ {f : Worker → Worker}, (∀ v, v.Steered → (f v).Steered) →
        (w.proc.mapWorker f).Steered := by
      intro f hf v hv
      obtain ⟨v₀, hv₀, rfl⟩ := Option.map_eq_some_iff.mp hv
      exact hf v₀ (h v₀ hv₀)
    simp only [World.next, he]
    cases e with
    | steering keepPort => exact hmap fun v hv => rnOnSteeringFeedback_steered hv keepPort
    | udpBegin | udpEnd => exact hmap fun v hv => ⟨hv.scheduled, hv.armed⟩
    | rebind env =>
      simp only [Event.runProc, Proc.rebind]
      intro v hv
      split at hv
      · rename_i hnone
        rw [hnone] at hv
        cases hv
      · obtain rfl := Option.some.inj hv
        exact rnRebindHandler_steered rfl s.bind env _
    | _ => exact h

/-- What a step does to the endpoint of a worker. -/
theorem next_endpoint {w : World} (e : Event) {v : Worker} (hv : w.proc.worker = some v) :
    ∃ v', (w.next s e).proc.worker = some v' ∧
      (v'.udp ≠ v.udp → ∃ env, e = .rebind env ∧ v.inflight = 0 ∧ v.udpReadActive = false) ∧
      ∀ env, e = .rebind env → (rnOpenSocketCandidate s.bind env w.proc.os).2 = none →
        v'.udp = v.udp ∧ v'.rebindPending = v.rebindPending := by
  cases he : e.request with
  | some i =>
    obtain ⟨v', hv', hsame⟩ := (next_moves (s := s) he).sameSocket hv
    refine ⟨v', hv', fun hne => absurd hsame.udp hne, ?_⟩
    rintro env rfl
    cases he
  | none =>
    have hmap : ∀ f : Worker → Worker, (f v).udp = v.udp → (∀ env, e ≠ .rebind env) →
        ∃ v', (w.proc.mapWorker f).worker = some v' ∧
          (v'.udp ≠ v.udp → ∃ env, e = .rebind env ∧ v.inflight = 0 ∧ v.udpReadActive = false) ∧
          ∀ env, e = .rebind env → (rnOpenSocketCandidate s.bind env w.proc.os).2 = none →
            v'.udp = v.udp ∧ v'.rebindPending = v.rebindPending := fun f hudp hne =>
      ⟨f v, w.proc.mapWorker_eq_some hv f, fun h => absurd hudp h,
        fun env henv => absurd henv (hne env)⟩
    simp only [World.next, he]
    cases e with
    | accept => exact ⟨v, hv, fun h => absurd rfl h, by simp⟩
    | steering keepPort => exact hmap _ (by simp) (by simp)
    | udpBegin | udpEnd => exact hmap _ rfl (by simp)
    | rebind env =>
      simp only [Event.runProc, Proc.rebind, hv]
      refine ⟨_, rfl, fun hne => ⟨env, rfl, ?_⟩, ?_⟩
      · exact rnRebindHandler_replaces (v := { v with rebindTimer := none }) hne
      · rintro env' henv hfail
        cases henv
        exact rnRebindHandler_fails hfail
    | _ => simp [Event.request] at he

/-! ## Safety, and no lost rebind -/

/-- In every reachable state a pending rebind with nothing in flight is scheduled, and
scheduled means that the timer is armed. A step keeps the worker; it replaces the endpoint
only in the rebind event, with nothing in flight and no read active; and a replacement
that fails keeps the endpoint and the pending rebind, which is scheduled again. -/
theorem steering_rebind_safe {es : List Event} {w : World} (h : Reaches s es w) :
    (∀ v ∈ w.proc.worker, (v.rebindPending = true → v.inflight = 0 → v.rebindScheduled = true) ∧
      (v.rebindScheduled = true ↔ v.rebindTimer.isSome = true)) ∧
    ∀ e, e.Enabled s w → ∀ v ∈ w.proc.worker, ∃ v' ∈ (w.next s e).proc.worker,
      (v'.udp ≠ v.udp → ∃ env, e = .rebind env ∧ v.inflight = 0 ∧ v.udpReadActive = false) ∧
      ∀ env, e = .rebind env → v.rebindPending = true →
        (rnOpenSocketCandidate s.bind env w.proc.os).2 = none →
        v'.udp = v.udp ∧ v'.rebindPending = true ∧
          (v'.inflight = 0 → v'.rebindScheduled = true) := by
  have hinv : w.proc.Steered :=
    h.invariant (I := fun w => w.proc.Steered) (by intro v hv; cases hv)
      fun u e hu _ => next_steered hu e
  refine ⟨fun v hv => ⟨(hinv v hv).scheduled, (hinv v hv).armed⟩, fun e _ v hv => ?_⟩
  obtain ⟨v', hv', hreplace, hfail⟩ := next_endpoint (s := s) e hv
  refine ⟨v', hv', hreplace, fun env he hpending hopen => ?_⟩
  obtain ⟨hudp, hpend⟩ := hfail env he hopen
  have hpend' : v'.rebindPending = true := hpend.trans hpending
  exact ⟨hudp, hpend', (next_steered hinv e v' hv').scheduled hpend'⟩

/-- A request completed while its datagram is read, with steering feedback in the same
datagram, and the rebind after it. -/
def steeringEvents : List Event :=
  [.accept true protectedLoc 0, .handler 0 sampleHandlerEnv, .udpBegin, .steering false,
    .complete 0 0 .ok (some ⟨true, [true], [0]⟩), .udpEnd]

/-- The process after it. -/
def steeringWorld : World :=
  steeringEvents.foldl (World.next sampleSetup) World.init

theorem sample_steering :
    ∃ v ∈ steeringWorld.proc.worker,
      v.rebindPending = true ∧ v.inflight = 0 ∧ v.rebindScheduled = true := by
  have hrun : Reaches sampleSetup steeringEvents steeringWorld :=
    Run.of_admits (by decide +kernel)
  have hstate : ∃ v ∈ steeringWorld.proc.worker, v.rebindPending = true ∧ v.inflight = 0 := by
    decide +kernel
  obtain ⟨v, hv, hpending, hidle⟩ := hstate
  exact ⟨v, hv, hpending, hidle, ((steering_rebind_safe hrun).1 v hv).1 hpending hidle⟩

end RlNginx
