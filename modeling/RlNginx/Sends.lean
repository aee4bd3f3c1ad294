import RlNginx.Endpoint
import RlNginx.Interleaving
import RlNginx.Steering

/-!
# Datagrams on their way out

`rn_udp_send` sends a datagram of the C client from the published socket. The worker opens an
IPv6 socket where it can, and addresses an IPv4 host on it by its IPv4-mapped address, which
leads to the same host and port (`mapDest_target`).

The service answers to the port that a check came from, so a check and its retransmissions are
to leave from one socket, and that socket is to be there until the answer. The rebind looks at
the count in flight only. `send_affinity` is what follows for a single handle : as long as the
client has not retired it, whatever happens to other requests and to the worker, everything is
sent from the endpoint that was published when the handle was given out.
-/

open Transition Relation

namespace RlNginx

/-! ## Destinations -/

/-- `r_addr_t`, with ports and addresses in network order. -/
inductive SockAddr where
  | inet (port : BitVec 16) (addr : BitVec 32)
  | inet6 (port : BitVec 16) (flowinfo : BitVec 32) (addr : BitVec 128) (scope : BitVec 32)
  | other (family : ℕ) (data : List UInt8)
  deriving DecidableEq, Repr

/-- The destination `rn_udp_send` hands to `sendto` on a socket of the family given. -/
def mapDest (family : AddressFamily) : SockAddr → SockAddr
  | .inet port addr =>
    match family with
    | .inet6 => .inet6 port 0 (0xffff#96 ++ addr) 0
    | .inet => .inet port addr
  | dest => dest

/-- A host on the network. -/
inductive Host where
  | v4 (addr : BitVec 32)
  | v6 (addr : BitVec 128)
  deriving DecidableEq, Repr

/-- The host and the port a socket address leads to : the 96 bits `::ffff` before an IPv4 address
stand for that host. -/
def SockAddr.target : SockAddr → Option (Host × BitVec 16)
  | .inet port addr => some (.v4 addr, port)
  | .inet6 port _ addr _ =>
    if addr.extractLsb' 32 96 = 0xffff#96 then some (.v4 (addr.extractLsb' 0 32), port)
    else some (.v6 addr, port)
  | .other _ _ => none

/-- The destination stays the same host and port, whatever the family of the socket. -/
theorem mapDest_target (family : AddressFamily) (dest : SockAddr) :
    (mapDest family dest).target = dest.target := by
  cases dest with
  | inet port addr =>
    cases family with
    | inet => rfl
    | inet6 =>
      have hhigh : (0xffff#96 ++ addr).extractLsb' 32 96 = 0xffff#96 :=
        BitVec.extractLsb'_append_eq_left
      have hlow : (0xffff#96 ++ addr).extractLsb' 0 32 = addr :=
        BitVec.extractLsb'_append_eq_right
      simp only [mapDest, SockAddr.target, hhigh, hlow, if_true]
  | inet6 | other => rfl

/-- A datagram that is handed to the system. -/
structure Outgoing where
  fd : ℕ
  dest : SockAddr
  payload : List UInt8
  deriving DecidableEq, Repr

/-- `rn_udp_send` : what it hands to `sendto`, and whether it returns 0. `sendto` is the number of
bytes that are taken, when the call succeeds. -/
def rnUdpSend (w : Worker) (dest : Option SockAddr) (buf : Option (List UInt8))
    (sendto : Outgoing → Option ℕ) : Option Outgoing × Bool :=
  match w.udp, dest, buf with
  | some udp, some dest, some buf =>
    let out : Outgoing := ⟨udp.fd, mapDest udp.family dest, buf⟩
    (some out, sendto out == some buf.length)
  | _, _, _ => (none, false)

/-! ## A handle that is not retired -/

section Handles

variable {s : Setup} {p p' : Proc} {w : World} {q : ℕ}

/-- What the client has retired stays retired. -/
theorem Proc.Move.retired_le (h : Proc.Move s p p') (q : ℕ) : p.retired q ≤ p'.retired q := by
  have hsame : p'.client = p.client → p.retired q ≤ p'.retired q :=
    fun hclient => (Proc.retired_congr hclient q).ge
  cases h with
  | ensure env =>
    rcases rnWorkerEnsure_worker s.conf.main s.bind env p with hworker | ⟨hnone, -⟩
    · exact hsame (congrArg (·.bind Worker.client) hworker)
    · simp [Proc.retired, Proc.client, hnone]
  | start i check => rw [Proc.retired_start]
  | retire q' how =>
    cases hcl : p.client with
    | none => simp [Proc.retired, hcl]
    | some cl =>
      rw [Proc.retired_retire hcl]
      exact Nat.le_add_right _ _
  | takeoff => exact hsame (Proc.client_mapWorker _ fun _ => rfl)
  | schedule => exact hsame (Proc.client_mapWorker _ rnScheduleRebind_client)
  | land =>
    exact hsame ((Proc.client_mapWorker _ rnScheduleRebind_client).trans
      (Proc.client_mapWorker _ fun _ => rfl))

theorem next_retired_le (w : World) (s : Setup) (e : Event) (q : ℕ) :
    w.proc.retired q ≤ (w.next s e).proc.retired q := by
  cases he : e.request with
  | some i =>
    refine (next_moves (s := s) he).head_induction_on (le_refl _) fun hmove _ ih => ?_
    exact (hmove.retired_le q).trans ih
  | none =>
    rw [World.next_eq_runProc he]
    exact (Proc.retired_congr (runProc_client w s e) q).ge

/-- The worker has given out a handle that is not retired. -/
theorem Proc.inflight_pos (h : w.Sound) (hstarted : w.proc.started q = 1)
    (hlive : w.proc.retired q = 0) : 0 < w.proc.inflight := by
  have howned := h.ledger q
  obtain ⟨i, r, hr, hpos⟩ := Tally.exists_of_tally_pos (Request.owns q) (l := w.reqs) (by omega)
  obtain ⟨c, x, hx, hown⟩ := Tally.exists_of_tally_pos (ReqCtx.owns q) hpos
  have hq : x.req = some q := by
    simp only [ReqCtx.owns] at hown
    split_ifs at hown with hq
    · exact hq
    · exact absurd hown (lt_irrefl 0)
  -- the context that owns the handle is counted
  have hsound := h.ctx i r hr x (List.mem_of_getElem? hx)
  have hcounted : x.inflightCounted = true :=
    hsound.agrees.inflight.mp (hsound.agrees.req.mpr (by simp [hq]))
  rw [h.inflight_eq]
  refine List.countP_pos_iff.mpr ⟨x, ?_, hcounted⟩
  exact List.mem_flatMap.mpr ⟨r, List.mem_of_getElem? hr, List.mem_of_getElem? hx⟩

theorem next_started (s : Setup) (e : Event) (h : w.proc.started q = 1) :
    (w.next s e).proc.started q = 1 := by
  cases hcl : w.proc.client with
  | none => simp [Proc.started, hcl] at h
  | some cl =>
    obtain ⟨cl', hcl', hprefix⟩ := next_grows w s e cl hcl
    have hlt : q < cl.requests.length := by
      by_contra hge
      simp [Proc.started, hcl, hge] at h
    simp [Proc.started, Option.mem_def.mp hcl', hlt.trans_le hprefix.length_le]

end Handles

/-! ## One endpoint for every handle -/

section Affinity

variable {s : Setup} {es es' : List Event} {w w' : World}

/-- Runs of the process in which nginx and the C client keep their promises. -/
abbrev OrderlyRun (s : Setup) (w : World) (es : List Event) (w' : World) : Prop :=
  Run ((machine s).restrict fun w e => e.Orderly w) w es w'

theorem OrderlyRun.sound (h : OrderlyRun s w es w') (hw : w.Sound) : w'.Sound :=
  h.invariant hw fun _ _ hu he => next_sound hu he.1 he.2

theorem OrderlyRun.grows (h : OrderlyRun s w es w') : w.proc.Grows w'.proc :=
  h.invariant (I := fun u => w.proc.Grows u.proc) (.refl _)
    fun u e hu _ => hu.trans (next_grows u s e)

/-- While a handle is not retired, the published endpoint stays. -/
theorem endpoint_kept {q : ℕ} {v : Worker} (h : OrderlyRun s w es w') (hw : w.Sound)
    (hv : w.proc.worker = some v) (hstarted : w.proc.started q = 1)
    (hlive : w'.proc.retired q = 0) : ∃ v', w'.proc.worker = some v' ∧ v'.udp = v.udp := by
  have hinv : w'.Sound ∧ w'.proc.started q = 1 ∧ ∃ v', w'.proc.worker = some v' ∧
      (w'.proc.retired q = 0 → v'.udp = v.udp) := by
    refine h.invariant (I := fun w => w.Sound ∧ w.proc.started q = 1 ∧
      ∃ v', w.proc.worker = some v' ∧ (w.proc.retired q = 0 → v'.udp = v.udp))
      ⟨hw, hstarted, v, hv, fun _ => rfl⟩ ?_
    rintro u e ⟨hu, hus, v', hv', hkept⟩ he
    obtain ⟨v'', hv'', hreplaced, -⟩ := next_endpoint (s := s) e hv'
    refine ⟨next_sound hu he.1 he.2, next_started s e hus, v'', hv'', fun hlive' => ?_⟩
    have hlive : u.proc.retired q = 0 := Nat.le_zero.mp (hlive' ▸ next_retired_le u s e q)
    rw [← hkept hlive]
    by_contra hne
    obtain ⟨-, -, hidle, -⟩ := hreplaced hne
    have hbusy := Proc.inflight_pos hu hus hlive
    rw [Proc.inflight, hv', Option.elim_some, hidle] at hbusy
    exact absurd hbusy (lt_irrefl 0)
  obtain ⟨-, -, v', hv', hkept⟩ := hinv
  exact ⟨v', hv', hkept hlive⟩

/-- Between two states of a run in which a handle has been given out and not retired, the
published endpoint is one and the same; the process still holds its socket and its connection,
and every datagram the client sends leaves from there, whole, for the host and the port that
the client names. -/
theorem send_affinity {q : ℕ} (h : OrderlyRun s World.init es w) (h' : OrderlyRun s w es' w')
    (hstarted : w.proc.started q = 1) (hlive : w'.proc.retired q = 0) :
    ∃ v v' u, w.proc.worker = some v ∧ w'.proc.worker = some v' ∧ v.udp = some u ∧
      v'.udp = some u ∧ u.fd ∈ w'.proc.os.sockets ∧ u.fd ∈ w'.proc.os.conns ∧
      ∀ (dest : SockAddr) (buf : List UInt8) (sendto : Outgoing → Option ℕ),
        ∃ out, (rnUdpSend v' (some dest) (some buf) sendto).1 = some out ∧ out.fd = u.fd ∧
          out.payload = buf ∧ out.dest.target = dest.target ∧
          ((rnUdpSend v' (some dest) (some buf) sendto).2 = true ↔
            sendto out = some buf.length) := by
  obtain ⟨v, hv⟩ : ∃ v, w.proc.worker = some v := by
    cases hv : w.proc.worker with
    | none => simp [Proc.started, Proc.client, hv] at hstarted
    | some v => exact ⟨v, rfl⟩
  obtain ⟨v', hv', hudp⟩ := endpoint_kept h' (h.sound .init) hv hstarted hlive
  rcases reaches_settled (h.append h').of_restrict with
    ⟨hnone, -⟩ | ⟨w₀, u, hw₀, -, hu, hheld⟩
  · rw [hv'] at hnone
    cases hnone
  · obtain rfl : v' = w₀ := Option.some.inj (hv'.symm.trans hw₀)
    simp only [Os.held, Prod.mk.injEq] at hheld
    refine ⟨v, v', u, hv, hv', hudp ▸ hu, hu, by simp [hheld.1], by simp [hheld.2.1],
      fun dest buf sendto => ?_⟩
    refine ⟨⟨u.fd, mapDest u.family dest, buf⟩, ?_, rfl, rfl, mapDest_target u.family dest, ?_⟩
    · simp [rnUdpSend, hu]
    · simp [rnUdpSend, hu]

/-- Two checks are started; the service asks for another port and answers the first. -/
def steeredEvents : List Event :=
  [.handler 1 sampleHandlerEnv, .udpBegin, .steering false,
    .complete 0 0 .ok (some ⟨true, [true], [0]⟩), .udpEnd]

/-- The process when the first check has been started, with the second request read. -/
def startedWorld : World :=
  [.accept true protectedLoc 0, .accept true protectedLoc 0, .handler 0 sampleHandlerEnv,
    .handler 1 sampleHandlerEnv].foldl (World.next sampleSetup) World.init

theorem sample_send_affinity : ∃ v v' u, startedWorld.proc.worker = some v ∧
    (steeredEvents.foldl (World.next sampleSetup) startedWorld).proc.worker = some v' ∧
    v.udp = some u ∧ v'.udp = some u := by
  have hstart : OrderlyRun sampleSetup World.init [.accept true protectedLoc 0,
      .accept true protectedLoc 0, .handler 0 sampleHandlerEnv, .handler 1 sampleHandlerEnv]
      startedWorld := Run.of_admits (by decide +kernel)
  have hsteered : OrderlyRun sampleSetup startedWorld steeredEvents
      (steeredEvents.foldl (World.next sampleSetup) startedWorld) :=
    Run.of_admits (by decide +kernel)
  obtain ⟨v, v', u, hv, hv', hu, hu', -⟩ :=
    send_affinity (q := 1) hstart hsteered (by decide +kernel) (by decide +kernel)
  exact ⟨v, v', u, hv, hv', hu, hu'⟩

end Affinity

end RlNginx
