import RlNginx.Ownership

/-!
# Request lifecycle

Every entry point keeps the invariant of its request (`Frame.Sound`), and with it that of
the process (`World.Sound`) : any number of requests, any order of handler runs,
completions, stray callbacks, timers and cleanups.

Two things are promised from outside. nginx does not redirect a request whose handler
returned `NGX_AGAIN` and has not been resumed, so the slot still holds a waiting context
(`Orderly`). And the C client can tell the deadline of a request it has just started.
-/

open Transition Tally Relation

namespace RlNginx

/-! ## The client grows -/

theorem Proc.Move.grows {s : Setup} {p p' : Proc} (h : Proc.Move s p p') : p.Grows p' := by
  have hmap : ∀ f : Client → Client, (∀ cl, cl.requests <+: (f cl).requests) →
      p.Grows (p.mapClient f) := by
    intro f hf cl hcl
    refine ⟨f cl, ?_, hf cl⟩
    rw [Option.mem_def, Proc.client_mapClient, hcl]
    rfl
  have hsame : ∀ {p' : Proc}, p'.client = p.client → p.Grows p' := by
    intro p' hp' cl hcl
    exact ⟨cl, hp'.trans hcl, List.prefix_rfl⟩
  cases h with
  | ensure env =>
    rcases rnWorkerEnsure_worker s.conf.main s.bind env p with h | ⟨hnone, -⟩
    · exact hsame (by rw [Proc.client, Proc.client, h])
    · intro cl hcl
      simp [Proc.client, hnone] at hcl
  | start => exact hmap _ fun cl => List.prefix_append _ _
  | retire => exact hmap _ fun cl => List.prefix_rfl
  | takeoff => exact hsame (Proc.client_mapWorker _ fun _ => rfl)
  | schedule => exact hsame (Proc.client_mapWorker _ rnScheduleRebind_client)
  | land =>
    exact hsame ((Proc.client_mapWorker _ rnScheduleRebind_client).trans
      (Proc.client_mapWorker _ fun _ => rfl))

theorem Proc.Moves.grows {s : Setup} {p p' : Proc} (h : p.Moves s p') : p.Grows p' := by
  induction h with
  | refl => exact .refl p
  | tail _ hmove ih => exact ih.trans hmove.grows

/-! ## Entry points -/

section EntryPoints

variable {s : Setup} {o : Others} {i : ℕ} {f : Frame}

/-- Only the context in the slot can wait. -/
theorem Frame.Sound.idle_of_slot (h : f.Sound o i) (hslot : ∀ x ∈ f.req.ctx, x.waiting = false) :
    ∀ x ∈ f.req.ctxs, x.waiting = false := by
  intro x hx
  obtain ⟨c, hc⟩ := List.mem_iff_getElem?.mp hx
  by_contra hwait
  rw [Bool.not_eq_false] at hwait
  have hctx : f.req.ctx = some x := by
    simp [Request.ctx, (h.home c x hc hwait).slot, hc]
  rw [hslot x hctx] at hwait
  cases hwait

theorem rnGetRequestCtx_sound (h : f.Sound o i) :
    Frame.Sound o i ⟨f.proc, rnGetRequestCtx f.req⟩ := by
  unfold rnGetRequestCtx
  split
  · exact h
  · rename_i hslot
    refine h.congr rfl rfl (.inr (h.idle_of_slot ?_))
    simp [Request.ctx, hslot]

theorem rnAdmission_sound (h : f.Sound o i) (hlive : f.req.released = false)
    (hidle : ∀ x ∈ f.req.ctxs, x.waiting = false) {env : HandlerEnv}
    (hdeadline : env.deadlineMs.isSome = true) :
    (rnAdmission s env i f).1.Sound o i := by
  obtain ⟨rest, hbal, hpush⟩ := h.push hidle
  have hnew := ReqCtx.new_quiet s.conf.main f.req.lcf
  simp only [rnAdmission]
  split_ifs
  · exact h
  · have hquiet : ({ ReqCtx.new s.conf.main f.req.lcf with
        admissionOutcome := .internalError
        completionCause := .nginxError
        done := true } : ReqCtx).Quiet :=
      ⟨⟨rfl, rfl, rfl, rfl, rfl⟩, by simp, rfl⟩
    exact hpush ⟨f.proc, f.req.count, _⟩ _ ((hbal _ hquiet.toIdle).sound hquiet) (.refl _)
      rfl rfl rfl (by simp [ReqCtx.new])
  · have hadmit := rnAdmit_sound (s := s) (hbal _ hnew.toIdle) hnew rfl hdeadline f.req.lcf
    exact hpush _ _ hadmit (rnAdmit_moves (s := s) f.proc f.req.count _ f.req.lcf env i).grows
      rfl rfl rfl fun _ => ⟨rfl, by simp, hlive⟩

/-- A run of the handler, from the start or again, keeps the invariant. -/
theorem ngxHttpRnHandler_sound (h : f.Sound o i) (hlive : f.req.released = false)
    {env : HandlerEnv} (hdeadline : env.deadlineMs.isSome = true) :
    (ngxHttpRnHandler s env i f).1.Sound o i := by
  have hget := rnGetRequestCtx_sound h
  have hlive' : (rnGetRequestCtx f.req).released = false :=
    (rnGetRequestCtx_released f.req).trans hlive
  simp only [ngxHttpRnHandler]
  split_ifs
  · exact h
  · exact hget
  · exact hget
  · split
    · rename_i hnone
      refine rnAdmission_sound hget hlive' (hget.idle_of_slot ?_) hdeadline
      simp [hnone]
    · rename_i x hx
      split_ifs with hdone hwait
      · exact hget
      · exact hget
      · refine rnAdmission_sound hget hlive' (hget.idle_of_slot ?_) hdeadline
        rintro y hy
        rw [Option.mem_def, hx] at hy
        obtain rfl := Option.some.inj hy
        simpa using hwait

/-- A callback for a handle the slot does not own does nothing. -/
theorem rnRateCb_stray (mcf : MainConf) {q : ℕ} (status : RClient)
    (result : Option RateLimitResult) (hq : ∀ x ∈ f.req.ctx, x.req ≠ some q) :
    rnRateCb mcf q status result f = (f, false) := by
  unfold rnRateCb
  split
  · rfl
  · rename_i c hc
    split
    · rfl
    · rename_i x hx
      have hne : x.req ≠ some q := hq x (by simp [Request.ctx, hc, hx])
      rw [if_pos (by simp [hne])]

/-- A callback for the handle the slot owns. -/
theorem rnRateCb_owned (mcf : MainConf) {q c : ℕ} (status : RClient)
    (result : Option RateLimitResult) {x : ReqCtx} (hslot : f.req.slot = some c)
    (hx : f.req.ctxs[c]? = some x) (hworker : x.worker = true) (hq : x.req = some q) :
    rnRateCb mcf q status result f =
      (f.store c (rnRateCbOwned mcf q status result ⟨f.proc, f.req.count, x⟩),
        x.timeoutCompleted) := by
  simp [rnRateCb, hslot, hx, hworker, hq]

/-- The callback for the owner of a handle the client has retired keeps the invariant, also
while the timeout handler has the context in hand. -/
theorem rnRateCb_sound (s : Setup) (h : f.Sound o i) {c q : ℕ} {x y : ReqCtx}
    (hx : f.req.ctxs[c]? = some x) (hq : x.req = some q) (hxy : x.SameOwner y)
    (how : Retirement) (mcf : MainConf) (status : RClient) (result : Option RateLimitResult)
    {r : Request} (hctxs : r.ctxs = f.req.ctxs.set c y) (hcount : r.count = f.req.count)
    (hrefs : r.ngxRefs = f.req.ngxRefs) (hhome : ∀ c, f.req.Home c → r.Home c) :
    (rnRateCb mcf q status result ⟨f.proc.mapClient (·.retire q how), r⟩).1.Sound o i ∧
      (rnRateCb mcf q status result ⟨f.proc.mapClient (·.retire q how), r⟩).2 =
        y.timeoutCompleted := by
  have hxs := h.ctx x (List.mem_of_getElem? hx)
  have hwait : x.waiting = true := by rw [hxs.req]; simp [hq]
  have hc : c < f.req.ctxs.length := (List.getElem?_eq_some_iff.mp hx).1
  obtain ⟨rest, hlive, hreplace⟩ := h.replace hx
  have hcb := rnRateCb_owned (f := ⟨f.proc.mapClient (·.retire q how), r⟩) mcf status result
    (hhome c (h.home c x hx hwait)).slot (x := y) (by simp [hctxs, hc])
    (hxy.worker.trans (hxs.linked hwait).2) (hxy.req.trans hq)
  have hsound := rnRateCbOwned_sound hlive.toBalanced hxy hq how mcf status result
  have hmoves : f.proc.Moves s (rnRateCbOwned mcf q status result
      ⟨f.proc.mapClient (·.retire q how), f.req.count, y⟩).proc :=
    .trans (.single (.retire f.proc q how)) (rnRateCbOwned_moves ..)
  rw [hcb]
  refine ⟨?_, rfl⟩
  rw [hcount]
  refine hreplace _ _ hsound hmoves.grows (fun _ => hwait) ?_ rfl hrefs
    fun c hc => ⟨(hhome c hc).slot, (hhome c hc).cleanup, (hhome c hc).live⟩
  simp [hctxs]

/-- A change to one context, when that is there. -/
theorem Frame.modifyCtx_eq (f : Frame) {c : ℕ} {x : ReqCtx} (hx : f.req.ctxs[c]? = some x)
    (g : ReqCtx → ReqCtx) :
    f.modifyCtx c g = { f with req := { f.req with ctxs := f.req.ctxs.set c (g x) } } := by
  rw [Frame.modifyCtx, List.modify_eq_set_getElem?, hx]
  rfl

theorem Frame.modifyCtx_modifyCtx (f : Frame) (c : ℕ) (g h : ReqCtx → ReqCtx) :
    (f.modifyCtx c g).modifyCtx c h = f.modifyCtx c (h ∘ g) := by
  simp [Frame.modifyCtx, List.modify_modify_eq]

/-- Rearming the timer of a waiting context keeps the invariant. -/
theorem modifyCtx_sound (h : f.Sound o i) {c : ℕ} {x : ReqCtx} (hx : f.req.ctxs[c]? = some x)
    {g : ReqCtx → ReqCtx} (hg : (g x).Sound f.proc i) (hwait : (g x).waiting = x.waiting)
    (hsame : x.SameOwner (g x)) : (f.modifyCtx c g).Sound o i := by
  obtain ⟨rest, hlive, hreplace⟩ := h.replace hx
  rw [f.modifyCtx_eq hx g]
  refine hreplace ⟨f.proc, f.req.count, g x⟩ _ ⟨⟨hg.toFlags, ?_, ?_, fun q => ?_⟩, hg.outcome,
    hg.observer⟩ (.refl _) (fun h => hwait.symm.trans h) rfl rfl rfl
    fun _ hc => ⟨hc.slot, hc.cleanup, hc.live⟩
  · simpa only [ReqCtx.inflight, hsame.inflight] using hlive.inflight
  · simpa only [ReqCtx.counted, hsame.counted] using hlive.count
  · simpa only [ReqCtx.owns, hsame.req] using hlive.ledger q

/-- The timeout handler with the context of the slot in hand. -/
theorem rnAfterTimeout_sound (s : Setup) (h : f.Sound o i) {c q : ℕ} {x : ReqCtx}
    (hx : f.req.ctxs[c]? = some x) (hq : x.req = some q) (mcf : MainConf) (env : TimeoutEnv)
    (status : RClient) {g : ReqCtx → ReqCtx} (hg : x.SameOwner (g x))
    (hg' : ∀ t, ({ g x with timeoutCompleted := false, timer := some t } : ReqCtx).Sound f.proc i)
    (hwait : (g x).waiting = x.waiting) :
    (rnAfterTimeout mcf env c q x status (f.modifyCtx c g)).Sound o i := by
  have hxs := h.ctx x (List.mem_of_getElem? hx)
  have hr : x.r = true := (hxs.linked (by rw [hxs.req]; simp [hq])).1
  have hfail : ∀ status, (rnCancelAndFail mcf q x status
      ((f.modifyCtx c g).modifyCtx c ({ · with timeoutCompleted := false }))).Sound o i := by
    intro status
    rw [f.modifyCtx_modifyCtx, f.modifyCtx_eq hx]
    simp only [rnCancelAndFail, rnRateCbOf, hr, if_true]
    have hsame : x.SameOwner { g x with timeoutCompleted := false } :=
      ⟨hg.r, hg.worker, hg.req, hg.inflight, hg.counted⟩
    have hcb := rnRateCb_sound s h hx hq hsame .cancelled mcf status none
      (r := { f.req with ctxs := f.req.ctxs.set c { g x with timeoutCompleted := false } })
      rfl rfl rfl fun _ hc => ⟨hc.slot, hc.cleanup, hc.live⟩
    exact hcb.1
  simp only [rnAfterTimeout]
  split_ifs
  · exact hfail status
  · split
    · exact hfail .errConfig
    · rw [f.modifyCtx_modifyCtx, f.modifyCtx_modifyCtx]
      exact modifyCtx_sound h hx (hg' _) hwait ⟨hg.r, hg.worker, hg.req, hg.inflight, hg.counted⟩

/-- A timer event keeps the invariant, whatever `r_client_on_timeout` does. -/
theorem rnRequestTimeoutHandler_sound (s : Setup) (h : f.Sound o i) {c : ℕ} {x : ReqCtx}
    (hx : f.req.ctxs[c]? = some x) (htimer : x.timer.isSome = true) (mcf : MainConf)
    (env : TimeoutEnv) : (rnRequestTimeoutHandler mcf env c f).Sound o i := by
  have hxs := h.ctx x (List.mem_of_getElem? hx)
  have hwait : x.waiting = true := hxs.timer.trans htimer
  obtain ⟨q, hq⟩ := Option.isSome_iff_exists.mp (hxs.req.symm.trans hwait)
  have hworker := (hxs.linked hwait).2
  obtain ⟨cl, hcl, -⟩ := hxs.handle q hq
  -- rearmed, the context is sound again
  have harmed : ∀ t, ({ x with timeoutCompleted := false, timer := some t } : ReqCtx).Sound
      f.proc i := fun t => {
    hxs with
    timer := by simp [hwait]
    observer := rfl }
  simp only [rnRequestTimeoutHandler, hx, hq]
  split_ifs with hgone hlater
  · have hclient : (f.modifyCtx c ({ · with timer := none })).proc.client = some cl := hcl
    simp [hworker, hclient] at hgone
  · obtain ⟨d, hd, -⟩ := (Option.any_eq_true _ _).mp hlater
    rw [hd, f.modifyCtx_modifyCtx]
    have hsound : ({ x with timer := some (d - env.nowMs) } : ReqCtx).Sound f.proc i :=
      { hxs with timer := by simp [hwait] }
    exact modifyCtx_sound h hx hsound rfl ⟨rfl, rfl, rfl, rfl, rfl⟩
  · have hsame : ∀ b, x.SameOwner { x with timer := none, timeoutCompleted := b } :=
      fun _ => ⟨rfl, rfl, rfl, rfl, rfl⟩
    have hafter : ∀ status, (rnAfterTimeout mcf env c q x status
        ((f.modifyCtx c ({ · with timer := none })).modifyCtx c
          ({ · with timeoutCompleted := true }))).Sound o i := by
      intro status
      rw [f.modifyCtx_modifyCtx]
      exact rnAfterTimeout_sound s h hx hq mcf env status (hsame true) harmed rfl
    simp only [rnOnTimeout]
    split
    · rename_i status result _
      obtain ⟨hsound, hnotified⟩ := rnRateCb_sound s h hx hq (hsame true) .completed mcf status
        result (r := { f.req with ctxs := f.req.ctxs.set c { x with
          timer := none
          timeoutCompleted := true } }) rfl rfl rfl fun _ hc => ⟨hc.slot, hc.cleanup, hc.live⟩
      rw [f.modifyCtx_modifyCtx, f.modifyCtx_eq hx]
      split_ifs with hflag
      · exact hsound
      · exact absurd hnotified hflag
    · exact hafter _
    · exact hafter _

theorem cleanup_sound (s : Setup) (h : f.Sound o i) (c : ℕ) : (f.cleanup c).Sound o i := by
  unfold Frame.cleanup
  split
  · exact h
  · rename_i x hx
    obtain ⟨rest, hlive, hreplace⟩ := h.replace hx
    have hmoves := rnRequestCleanup_moves (s := s) f.proc f.req.count x
    exact hreplace _ _ (rnRequestCleanup_sound hlive) hmoves.grows nofun rfl rfl rfl
      fun _ hc => ⟨hc.slot, hc.cleanup, hc.live⟩

/-- Cleanup of a context leaves it, and whatever did not wait, not waiting. -/
theorem cleanup_waiting (f : Frame) (c c' : ℕ) {x' : ReqCtx}
    (hx' : (f.cleanup c).req.ctxs[c']? = some x') (hwait : x'.waiting = true) :
    c' ≠ c ∧ f.req.ctxs[c']? = some x' := by
  unfold Frame.cleanup at hx'
  split at hx'
  · rename_i hnone
    refine ⟨?_, hx'⟩
    rintro rfl
    rw [hnone] at hx'
    cases hx'
  · simp only [Frame.store, List.getElem?_set] at hx'
    split_ifs at hx' with heq
    · obtain rfl := Option.some.inj hx'
      cases hwait
    · exact ⟨Ne.symm heq, hx'⟩

theorem runCleanup_sound (s : Setup) : ∀ (chain : List Cleanup) {f : Frame}, f.Sound o i →
    (f.runCleanup chain).Sound o i
  | [], _, h => h
  | .other :: chain, _, h => runCleanup_sound s chain h
  | .rn c :: chain, _, h => runCleanup_sound s chain (cleanup_sound s h c)

/-- No context of the chain waits after the chain has run. -/
theorem runCleanup_waiting : ∀ (chain : List Cleanup) (f : Frame) {c : ℕ} {x : ReqCtx},
    (f.runCleanup chain).req.ctxs[c]? = some x → x.waiting = true →
      .rn c ∉ chain ∧ f.req.ctxs[c]? = some x
  | [], f, c, x, hx, _ => ⟨by simp, hx⟩
  | .other :: chain, f, c, x, hx, hwait => by
    obtain ⟨hmem, hget⟩ := runCleanup_waiting chain f hx hwait
    exact ⟨by simp [hmem], hget⟩
  | .rn c' :: chain, f, c, x, hx, hwait => by
    obtain ⟨hmem, hget⟩ := runCleanup_waiting chain (f.cleanup c') hx hwait
    obtain ⟨hne, hget'⟩ := cleanup_waiting f c' c hget hwait
    exact ⟨by simp [hmem, hne], hget'⟩

/-- The release of a request leaves no context waiting. -/
theorem release_sound (s : Setup) (h : f.Sound o i) : f.release.Sound o i := by
  refine (runCleanup_sound s f.req.cleanup h).congr rfl rfl (.inr ?_)
  intro x hx
  obtain ⟨c, hc⟩ := List.mem_iff_getElem?.mp hx
  by_contra hwait
  rw [Bool.not_eq_false] at hwait
  obtain ⟨hmem, hget⟩ := runCleanup_waiting f.req.cleanup f hc hwait
  exact hmem (h.home c x hget hwait).cleanup

theorem log_quiet (connection : Connection) (client : Bool) {x : ReqCtx} (hx : x.Quiet) :
    (x.log connection client).1.Quiet := by
  have hsent : ({ x with latReportSent := true } : ReqCtx).Quiet :=
    ⟨⟨hx.waiting, hx.req, hx.timer, hx.inflight, hx.counted⟩, hx.outcome, hx.observer⟩
  unfold ReqCtx.log
  split_ifs
  · exact hx
  · exact ⟨⟨hx.waiting, hx.req, hx.timer, hx.inflight, hx.counted⟩, by simp, hx.observer⟩
  · exact hsent
  · exact hsent
  · exact hsent

/-- The log phase leaves what a context owns alone. -/
theorem ngxHttpRnLogHandler_sound (h : f.Sound o i) (hreleased : f.req.released = true)
    (endMs : ℕ) : (ngxHttpRnLogHandler endMs f).Sound o i := by
  unfold ngxHttpRnLogHandler
  split
  · exact h
  · split
    · exact h
    · rename_i c _
      split
      · exact h
      · rename_i x hx
        have hxs := h.ctx x (List.mem_of_getElem? hx)
        have hidle : x.waiting = false := by
          by_contra hwait
          rw [Bool.not_eq_false] at hwait
          have hlive := (h.home c x hx hwait).live
          rw [hreleased] at hlive
          cases hlive
        have hout : x.admissionOutcome ≠ .waiting := by
          intro hout
          rw [hxs.outcome.mpr hout] at hidle
          cases hidle
        have hlog := log_quiet f.req.connection f.proc.client.isSome
          ⟨hxs.toFlags.idle hidle, hout, hxs.observer⟩
        obtain ⟨rest, hlive, hreplace⟩ := h.replace hx
        exact hreplace ⟨f.proc, f.req.count, _⟩ _
          (hlive.toBalanced.quiet (hxs.toFlags.idle hidle) hlog) (.refl _)
          (fun hwait => by rw [hlog.waiting] at hwait; cases hwait) rfl rfl rfl
          fun _ hc => ⟨hc.slot, hc.cleanup, hc.live⟩

end EntryPoints

end RlNginx
