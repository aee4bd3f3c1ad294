import Mathlib.Logic.Relation
import RlNginx.World

/-!
# What a request does to its worker

The entry points of a request change the process in a handful of ways : the worker is
created, the C client starts or retires a request, the number in flight goes up, or goes
down with the rebind rescheduled. `Proc.Move` lists them, and `Event.run_moves` says that
whatever happens to a request is a sequence of them. A property of the worker is then
checked on the moves once.

The timeout handler goes through the callback in several ways. `rnRequestTimeoutHandler_keeps`
is the rule for it : what its steps keep, it keeps.
-/

open Relation

namespace RlNginx

/-- One change a request makes to the process. -/
inductive Proc.Move (s : Setup) : Proc → Proc → Prop where
  | ensure (p : Proc) (env : InitEnv) : Move s p (rnWorkerEnsure s.conf.main s.bind env p).1
  | start (p : Proc) (i : ℕ) (check : RateCheck) : Move s p (p.mapClient (·.start i check))
  | retire (p : Proc) (q : ℕ) (how : Retirement) : Move s p (p.mapClient (·.retire q how))
  | takeoff (p : Proc) : Move s p (p.mapWorker fun w => { w with inflight := w.inflight + 1 })
  | land (p : Proc) : Move s p ((p.mapWorker Worker.landed).mapWorker rnScheduleRebind)
  | schedule (p : Proc) : Move s p (p.mapWorker rnScheduleRebind)

/-- A sequence of changes. -/
abbrev Proc.Moves (s : Setup) : Proc → Proc → Prop :=
  ReflTransGen (Proc.Move s)

variable {s : Setup}

/-! ## The ownership functions -/

section Ownership

variable (p : Proc) (n : ℕ) (x : ReqCtx)

theorem cancelRequest_moves : p.Moves s (Live.cancelRequest ⟨p, n, x⟩) := by
  unfold Live.cancelRequest
  split
  · split_ifs
    · exact .single (.retire _ _ _)
    · exact .refl
  · exact .refl

theorem landWorker_moves : p.Moves s (x.landWorker p) := by
  unfold ReqCtx.landWorker
  split_ifs
  · exact .single (.land _)
  · exact .single (.schedule _)
  · exact .refl

theorem rnRequestTeardown_moves (completed : Option ℕ) (cancel : Bool) :
    p.Moves s (rnRequestTeardown completed cancel ⟨p, n, x⟩).proc := by
  unfold rnRequestTeardown
  split
  · exact .refl
  · cases cancel
    · exact landWorker_moves p x
    · exact .trans (cancelRequest_moves p n x) (landWorker_moves _ x)

theorem rnRequestCleanup_moves : p.Moves s (rnRequestCleanup ⟨p, n, x⟩).proc :=
  rnRequestTeardown_moves p n _ none true

theorem rnRateCbOwned_moves (mcf : MainConf) (q : ℕ) (status : RClient)
    (result : Option RateLimitResult) :
    p.Moves s (rnRateCbOwned mcf q status result ⟨p, n, x⟩).proc :=
  rnRequestTeardown_moves p n _ (some q) false

theorem rnPublish_moves (env : HandlerEnv) (q : ℕ) : p.Moves s (rnPublish env q ⟨p, n, x⟩).proc :=
  .single (.takeoff p)

theorem rnStart_moves (mcf : MainConf) (env : HandlerEnv) (i : ℕ) (client : Client)
    (check : RateCheck) : p.Moves s (rnStart mcf env i client check ⟨p, n, x⟩).live.proc := by
  have hstart : p.Moves s (p.mapClient (·.start i check)) := .single (.start p i check)
  simp only [rnStart]
  split_ifs
  · exact .refl
  · exact hstart.trans (rnPublish_moves _ n x env client.requests.length)
  · refine (hstart.trans (rnPublish_moves _ n x env client.requests.length)).trans ?_
    exact rnRequestTeardown_moves ..

theorem rnEnsured_moves (env : InitEnv) : p.Moves s (rnEnsured s env p).1 := by
  unfold rnEnsured
  split_ifs
  · exact .single (.ensure p env)
  · exact .refl

theorem rnCheck_moves (mcf : MainConf) (lcf : LocConf) (env : HandlerEnv) (i : ℕ)
    (client : Client) : p.Moves s (rnCheck mcf lcf env i client ⟨p, n, x⟩).live.proc := by
  simp only [rnCheck]
  split_ifs
  · exact .refl
  · split
    · exact .refl
    · exact rnStart_moves ..

theorem rnAdmit_moves (lcf : LocConf) (env : HandlerEnv) (i : ℕ) :
    p.Moves s (rnAdmit s lcf env i ⟨p, n, x⟩).live.proc := by
  have hensured := rnEnsured_moves (s := s) p env.init
  unfold rnAdmit
  split
  · rename_i proc heq
    rw [heq] at hensured
    split
    · exact hensured.trans (rnCheck_moves ..)
    · exact hensured
  · rename_i proc heq
    rw [heq] at hensured
    exact hensured

end Ownership

/-! ## The timeout handler -/

/-- What the timeout handler writes to a context that waits : it sets or clears the observer, or
arms the timer, for the deadline that has not come or for the next one. -/
inductive TimerUpdate (env : TimeoutEnv) : (ReqCtx → ReqCtx) → Prop where
  | observer (b : Bool) : TimerUpdate env ({ · with timeoutCompleted := b })
  | early : TimerUpdate env ({ · with timer := env.deadlineMs.map (· - env.nowMs) })
  | rearmed {deadline : ℕ} : env.deadlineMs' = some deadline →
      TimerUpdate env ({ · with timer := some (timerDelay deadline env.nowMs') })

/-- `I` is kept by each step of the timeout handler : an update of its context `c`, the end of a
request of the C client, and the callback. -/
structure KeptByTimeout (mcf : MainConf) (env : TimeoutEnv) (c : ℕ) (I : Frame → Prop) :
    Prop where
  update : ∀ f g, TimerUpdate env g → I f → I (f.modifyCtx c g)
  retire : ∀ f q how, I f → I { f with proc := f.proc.mapClient (·.retire q how) }
  callback : ∀ f q status result, I f → I (rnRateCb mcf q status result f).1

section Timeout

variable {mcf : MainConf} {env : TimeoutEnv} {c : ℕ} {I : Frame → Prop} {f : Frame}

theorem rnCancelAndFail_keeps (hI : KeptByTimeout mcf env c I) (h : I f) (q : ℕ) (x : ReqCtx)
    (status : RClient) : I (rnCancelAndFail mcf q x status f) := by
  have hretired := hI.retire f q .cancelled h
  unfold rnCancelAndFail rnRateCbOf
  split_ifs
  · exact hI.callback _ q status none hretired
  · exact hretired

theorem rnAfterTimeout_keeps (hI : KeptByTimeout mcf env c I) (h : I f) (q : ℕ) (x : ReqCtx)
    (status : RClient) : I (rnAfterTimeout mcf env c q x status f) := by
  have hcleared := hI.update f _ (.observer false) h
  simp only [rnAfterTimeout]
  split_ifs
  · exact rnCancelAndFail_keeps hI hcleared q x status
  · split
    · exact rnCancelAndFail_keeps hI hcleared q x .errConfig
    next deadline hdeadline => exact hI.update _ _ (.rearmed hdeadline) hcleared

theorem rnOnTimeout_keeps (hI : KeptByTimeout mcf env c I) (h : I f) (q : ℕ) (x : ReqCtx) :
    I (rnOnTimeout mcf env c q x f) := by
  have hset := hI.update f _ (.observer true) h
  simp only [rnOnTimeout]
  split
  next status result _ =>
    have hcalled := hI.callback _ q status result (hI.retire _ q .completed hset)
    split_ifs
    · exact hcalled
    · exact rnAfterTimeout_keeps hI hcalled q x .ok
  next => exact rnAfterTimeout_keeps hI hset q x .ok
  next => exact rnAfterTimeout_keeps hI hset q x _

/-- What each step keeps, the timeout handler keeps. The steps are taken only for a context that
waits for a request; before them the handler notes that the timer has fired. -/
theorem rnRequestTimeoutHandler_keeps
    (hfired : ∀ f, I f → I (f.modifyCtx c ({ · with timer := none })))
    (hI : ∀ x ∈ f.req.ctxs[c]?, ∀ q ∈ x.req, KeptByTimeout mcf env c I) (h : I f) :
    I (rnRequestTimeoutHandler mcf env c f) := by
  simp only [rnRequestTimeoutHandler]
  split
  · exact h
  next x hx =>
    split
    · exact hfired f h
    next q hq =>
      have hsteps := hI x hx q hq
      split_ifs
      · exact hfired f h
      · exact hsteps.update _ _ .early (hfired f h)
      · exact rnOnTimeout_keeps hsteps (hfired f h) q x

end Timeout

/-! ## The entry points -/

section EntryPoints

variable (p : Proc) (r : Request)

theorem rnAdmission_moves (env : HandlerEnv) (i : ℕ) :
    p.Moves s (rnAdmission s env i ⟨p, r⟩).1.proc := by
  simp only [rnAdmission]
  split_ifs
  · exact .refl
  · exact .refl
  · exact rnAdmit_moves ..

theorem ngxHttpRnHandler_moves (env : HandlerEnv) (i : ℕ) :
    p.Moves s (ngxHttpRnHandler s env i ⟨p, r⟩).1.proc := by
  simp only [ngxHttpRnHandler]
  split_ifs
  · exact .refl
  · exact .refl
  · exact .refl
  · split
    · exact rnAdmission_moves ..
    · split_ifs
      · exact .refl
      · exact .refl
      · exact rnAdmission_moves ..

theorem rnRateCb_moves (mcf : MainConf) (q : ℕ) (status : RClient)
    (result : Option RateLimitResult) :
    p.Moves s (rnRateCb mcf q status result ⟨p, r⟩).1.proc := by
  unfold rnRateCb
  split
  · exact .refl
  · split
    · exact .refl
    · split_ifs
      · exact .refl
      · exact rnRateCbOwned_moves p _ _ mcf q status result

theorem rnRequestTimeoutHandler_moves (mcf : MainConf) (env : TimeoutEnv) (c : ℕ) :
    p.Moves s (rnRequestTimeoutHandler mcf env c ⟨p, r⟩).proc := by
  refine rnRequestTimeoutHandler_keeps (I := fun f => p.Moves s f.proc) (fun _ h => h) ?_ .refl
  intro x _ q _
  exact
    { update := fun f g _ h => h
      retire := fun f q how h => h.tail (.retire f.proc q how)
      callback := fun f q status result h =>
        h.trans (rnRateCb_moves f.proc f.req mcf q status result) }

theorem cleanup_moves (c : ℕ) : p.Moves s (Frame.cleanup ⟨p, r⟩ c).proc := by
  unfold Frame.cleanup
  split
  · exact .refl
  · exact rnRequestCleanup_moves ..

theorem ngxHttpRnLogHandler_proc (endMs : ℕ) (f : Frame) :
    (ngxHttpRnLogHandler endMs f).proc = f.proc := by
  unfold ngxHttpRnLogHandler
  split
  · rfl
  · split
    · rfl
    · split <;> rfl

end EntryPoints

theorem runCleanup_moves : ∀ (chain : List Cleanup) (f : Frame),
    f.proc.Moves s (f.runCleanup chain).proc
  | [], _ => .refl
  | .other :: chain, f => runCleanup_moves chain f
  | .rn c :: chain, f => (cleanup_moves f.proc f.req c).trans (runCleanup_moves chain _)

/-- Whatever happens to a request moves its worker only so. -/
theorem Event.run_moves (e : Event) (i : ℕ) (p : Proc) (r : Request) :
    p.Moves s (e.run s i ⟨p, r⟩).proc := by
  cases e with
  | handler => exact ngxHttpRnHandler_moves ..
  | complete _ q => exact .trans (.single (.retire p q .completed)) (rnRateCb_moves ..)
  | stray => exact rnRateCb_moves ..
  | timeout => exact rnRequestTimeoutHandler_moves ..
  | cleanup => exact cleanup_moves ..
  | release => exact runCleanup_moves _ ⟨p, r⟩
  | log =>
    rw [Event.run, ngxHttpRnLogHandler_proc]
  | _ => exact .refl

/-- The step of a request event, seen from the process. -/
theorem next_moves {w : World} {e : Event} {i : ℕ} (he : e.request = some i) :
    w.proc.Moves s (w.next s e).proc := by
  simp only [World.next, he, World.on, World.frame]
  cases w.reqs[i]? with
  | none => exact .refl
  | some r => exact e.run_moves i w.proc r

end RlNginx
