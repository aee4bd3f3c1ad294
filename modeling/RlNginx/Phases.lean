import RlNginx.Moves
import RlNginx.Outcome

/-!
# What happens to a request

A request meets runs of the handler, and between them redirects, callbacks, timers and the
variable. `HandlerRun` lists the ways a run of the handler can go, each with what it returns.
`Request.Move` lists what the other events do before the request is cleaned up : the slot is
cleared or refilled, another module registers a cleanup handler, a context gets its verdict
or has its timer touched.

`request_kept` and `request_invariant` are the rules for a property of one request among
many : it is kept by the events of that request, and the others do not touch it.
-/

open Transition Relation

namespace RlNginx

/-! ## Runs of the handler -/

/-- The handler goes on to admission : the location is active, and the context that is
found, if any, is neither done nor waiting. -/
structure Request.Starts (s : Setup) (r : Request) : Prop where
  main : r.main = true
  active : r.lcf.admission = true ∨ r.lcf.reportEnabled = true
  enabled : s.conf.main.enabled = true
  undecided : ∀ x ∈ r.ctx, x.done = false ∧ x.waiting = false

instance (s : Setup) (r : Request) : Decidable (r.Starts s) :=
  decidable_of_iff (r.main = true ∧ (r.lcf.admission = true ∨ r.lcf.reportEnabled = true) ∧
      s.conf.main.enabled = true ∧ ∀ x ∈ r.ctx, x.done = false ∧ x.waiting = false)
    ⟨fun h => ⟨h.1, h.2.1, h.2.2.1, h.2.2.2⟩, fun h => ⟨h.main, h.active, h.enabled, h.undecided⟩⟩

/-- The context of a run whose `ngx_http_cleanup_add` fails. -/
def ReqCtx.unregistered (mcf : MainConf) (lcf : LocConf) : ReqCtx :=
  { ReqCtx.new mcf lcf with
    admissionOutcome := .internalError
    completionCause := .nginxError
    done := true }

/-- The request after a run that left the context `x` unregistered. -/
def Request.unregistered (r : Request) (x : ReqCtx) : Request :=
  { r with slot := some r.ctxs.length, ctxs := r.ctxs ++ [x] }

/-- The request after a run that registered the context `x`. -/
def Request.registered (r : Request) (x : ReqCtx) (count : ℕ) (call : Option RateCheck) :
    Request :=
  { r with
    slot := some r.ctxs.length
    cleanup := .rn r.ctxs.length :: r.cleanup
    ctxs := r.ctxs ++ [x]
    count
    startCalls := r.startCalls ++ call.toList }

/-- The ways a run of the handler can go, with the request it leaves and what it returns. `r`
is the request with the slot refilled. -/
inductive HandlerRun (s : Setup) (env : HandlerEnv) (r₀ r : Request) : Request → NgxRc → Prop where
  | subrequest : r₀.main = false → HandlerRun s env r₀ r r₀ .declined
  | inactive : r.lcf.admission = false → r.lcf.reportEnabled = false →
      HandlerRun s env r₀ r r .declined
  | disabled : s.conf.main.enabled = false → HandlerRun s env r₀ r r .declined
  | decided {x : ReqCtx} : r.ctx = some x → x.done = true → HandlerRun s env r₀ r r x.decision
  | waiting {x : ReqCtx} : r.ctx = some x → x.done = false → x.waiting = true →
      HandlerRun s env r₀ r r .again
  | noMemory : r.Starts s → HandlerRun s env r₀ r r .internalServerError
  | unregistered : r.Starts s → env.allocCtx = true → env.cleanupAdd = false →
      HandlerRun s env r₀ r (r.unregistered (.unregistered s.conf.main r.lcf)) .internalServerError
  | admitted {x : ReqCtx} {rc : NgxRc} {call : Option RateCheck} (count : ℕ) : r.Starts s →
      Exit s.conf.main r.lcf x rc call → HandlerRun s env r₀ r (r.registered x count call) rc

theorem rnAdmission_run {s : Setup} (env : HandlerEnv) (i : ℕ) (p : Proc) (r₀ : Request)
    {r : Request} (hstarts : r.Starts s) :
    HandlerRun s env r₀ r (rnAdmission s env i ⟨p, r⟩).1.req (rnAdmission s env i ⟨p, r⟩).2 := by
  simp only [rnAdmission]
  split_ifs with halloc hadd
  · exact .noMemory hstarts
  · exact .unregistered hstarts (by simpa using halloc) (by simpa using hadd)
  · exact .admitted _ hstarts (rnAdmit_exit (ReqCtx.new_fresh _ _) env i)

/-- The tests of the handler before its admission section. -/
theorem Request.starts_of_active {s : Setup} {r : Request} (hmain : ¬(!r.main) = true)
    (hactive : ¬(!(rnGetRequestCtx r).lcf.admission &&
      !(rnGetRequestCtx r).lcf.reportEnabled) = true)
    (henabled : ¬(!s.conf.main.enabled) = true)
    (hundecided : ∀ x ∈ (rnGetRequestCtx r).ctx, x.done = false ∧ x.waiting = false) :
    (rnGetRequestCtx r).Starts s where
  main := by rw [rnGetRequestCtx_main]; simpa using hmain
  active := by
    by_contra hnone
    simp only [not_or, Bool.not_eq_true] at hnone
    simp [hnone] at hactive
  enabled := by simpa using henabled
  undecided := hundecided

/-- The handler goes one of the ways listed. -/
theorem ngxHttpRnHandler_run (s : Setup) (env : HandlerEnv) (i : ℕ) (p : Proc) (r : Request) :
    HandlerRun s env r (rnGetRequestCtx r) (ngxHttpRnHandler s env i ⟨p, r⟩).1.req
      (ngxHttpRnHandler s env i ⟨p, r⟩).2 := by
  simp only [ngxHttpRnHandler]
  split_ifs with hmain hactive henabled
  · exact .subrequest (by simpa using hmain)
  · simp only [Bool.and_eq_true, Bool.not_eq_true'] at hactive
    exact .inactive hactive.1 hactive.2
  · exact .disabled (by simpa using henabled)
  · have hstarts := Request.starts_of_active hmain hactive henabled
    split
    · rename_i hnone
      exact rnAdmission_run env i p r (hstarts (by simp [hnone]))
    · rename_i x hx
      split_ifs with hdone hwait
      · exact .decided hx hdone
      · exact .waiting hx (by simpa using hdone) hwait
      · refine rnAdmission_run env i p r (hstarts ?_)
        intro y hy
        obtain rfl : x = y := Option.some.inj (hx.symm.trans hy)
        exact ⟨by simpa using hdone, by simpa using hwait⟩

/-- What a run of the handler leaves of the process and the request : the slot may be refilled, a
context is added that could not be registered, or one that went through admission. -/
inductive HandlerLeaves (s : Setup) (env : HandlerEnv) (i : ℕ) (p : Proc) (r : Request) :
    Frame → Prop where
  | kept (slot : Option ℕ) : HandlerLeaves s env i p r ⟨p, { r with slot }⟩
  | unregistered : HandlerLeaves s env i p r ⟨p, r.unregistered (.unregistered s.conf.main r.lcf)⟩
  | admitted {a : Admitted} : (rnGetRequestCtx r).Starts s → env.allocCtx = true →
      env.cleanupAdd = true → a = rnAdmit s r.lcf env i ⟨p, r.count, .new s.conf.main r.lcf⟩ →
      HandlerLeaves s env i p r ⟨a.live.proc, r.registered a.live.ctx a.live.count a.call⟩

theorem ngxHttpRnHandler_leaves (s : Setup) (env : HandlerEnv) (i : ℕ) (p : Proc) (r : Request) :
    HandlerLeaves s env i p r (ngxHttpRnHandler s env i ⟨p, r⟩).1 := by
  obtain ⟨slot, hget⟩ := rnGetRequestCtx_eq r
  have hkept : HandlerLeaves s env i p r ⟨p, rnGetRequestCtx r⟩ := hget ▸ .kept slot
  have hadmission : (rnGetRequestCtx r).Starts s →
      HandlerLeaves s env i p r (rnAdmission s env i ⟨p, rnGetRequestCtx r⟩).1 := by
    intro hstarts
    simp only [rnAdmission]
    split_ifs with halloc hadd
    · exact hkept
    · rw [hget]
      exact .unregistered
    · have hleaves := HandlerLeaves.admitted (i := i) (p := p) hstarts (by simpa using halloc)
        (by simpa using hadd) rfl
      rw [hget]
      exact hleaves
  simp only [ngxHttpRnHandler]
  split_ifs with hmain hactive henabled
  · exact .kept r.slot
  · exact hkept
  · exact hkept
  · have hstarts := Request.starts_of_active hmain hactive henabled
    split
    next hnone => exact hadmission (hstarts (by simp [hnone]))
    next x hx =>
      split_ifs with hdone hwait
      · exact hkept
      · exact hkept
      · refine hadmission (hstarts ?_)
        intro y hy
        obtain rfl : x = y := Option.some.inj (hx.symm.trans hy)
        exact ⟨by simpa using hdone, by simpa using hwait⟩

/-! ## The other events -/

/-- What happens to a context before it is cleaned up. -/
inductive ReqCtx.Move (mcf : MainConf) (x : ReqCtx) : ReqCtx → Prop where
  | timer (t : Option ℕ) (b : Bool) : Move mcf x { x with timer := t, timeoutCompleted := b }
  | verdict (q : ℕ) (status : RClient) (result : Option RateLimitResult) : x.req = some q →
      Move mcf x (rnVerdict mcf status result
        (ReqCtx.tornDown { x with timeoutCompleted := false }))

/-- What happens to a request between runs of the handler and before it is cleaned up. -/
inductive Request.Move (s : Setup) : Request → Request → Prop where
  | recover (r : Request) : Move s r (rnGetRequestCtx r)
  | redirect (r : Request) {lcf : LocConf} : lcf ∈ s.conf.locations →
      Move s r { r with slot := none, lcf }
  | chain (r : Request) : Move s r { r with cleanup := .other :: r.cleanup }
  | outside (r : Request) (count ngxRefs : ℕ) (connection : Connection) :
      Move s r { r with count, ngxRefs, connection }
  | ctx {r : Request} {c : ℕ} {x x' : ReqCtx} (count : ℕ) : r.ctxs[c]? = some x →
      x.Move s.conf.main x' → Move s r { r with count, ctxs := r.ctxs.set c x' }

/-- A sequence of them. -/
abbrev Request.Moves (s : Setup) : Request → Request → Prop :=
  ReflTransGen (Request.Move s)

/-- What every move keeps. -/
theorem Request.Moves.kept {s : Setup} {I : Request → Prop} {r r' : Request} (h : r.Moves s r')
    (hmove : ∀ {r r' : Request}, I r → r.Move s r' → I r') (hr : I r) : I r' := by
  induction h with
  | refl => exact hr
  | tail _ hstep ih => exact hmove ih hstep

theorem Request.Moves.released {s : Setup} {r r' : Request} (h : r.Moves s r') :
    r'.released = r.released := by
  induction h with
  | refl => rfl
  | tail _ hmove ih =>
    rw [← ih]
    cases hmove with
    | recover => exact rnGetRequestCtx_released _
    | redirect | chain | outside | ctx => rfl

section Moves

variable {s : Setup} {f : Frame}

theorem modifyCtx_requestMoves (c : ℕ) {g : ReqCtx → ReqCtx}
    (hg : ∀ x, ReqCtx.Move s.conf.main x (g x)) : f.req.Moves s (f.modifyCtx c g).req := by
  simp only [Frame.modifyCtx, List.modify_eq_set_getElem?]
  cases hx : f.req.ctxs[c]? with
  | none => exact .refl
  | some x => exact .single (.ctx f.req.count hx (hg x))

theorem rnRateCb_requestMoves (q : ℕ) (status : RClient) (result : Option RateLimitResult) :
    f.req.Moves s (rnRateCb s.conf.main q status result f).1.req := by
  unfold rnRateCb
  split
  · exact .refl
  · split
    · exact .refl
    · rename_i c _ x hx
      split_ifs with hskip
      · exact .refl
      · have hq : x.req = some q := by
          simp only [Bool.or_eq_true, Bool.not_eq_true', bne_iff_ne, ne_eq, not_or,
            not_not] at hskip
          exact hskip.2
        have howned : (rnRateCbOwned s.conf.main q status result ⟨f.proc, f.req.count, x⟩).ctx =
            rnVerdict s.conf.main status result
              (ReqCtx.tornDown { x with timeoutCompleted := false }) := by
          simp [rnRateCbOwned, rnRequestTeardown, hq]
        refine .single ?_
        simp only [Frame.store, howned]
        exact .ctx _ hx (.verdict q status result hq)

theorem TimerUpdate.move {env : TimeoutEnv} {g : ReqCtx → ReqCtx} (h : TimerUpdate env g)
    (mcf : MainConf) (x : ReqCtx) : ReqCtx.Move mcf x (g x) := by
  rcases h with b | _ | _
  · exact .timer x.timer b
  · exact .timer _ x.timeoutCompleted
  · exact .timer _ x.timeoutCompleted

theorem rnRequestTimeoutHandler_requestMoves (env : TimeoutEnv) (c : ℕ) :
    f.req.Moves s (rnRequestTimeoutHandler s.conf.main env c f).req := by
  refine rnRequestTimeoutHandler_keeps (I := fun g => f.req.Moves s g.req) ?_ ?_ .refl
  · intro g h
    exact h.trans (modifyCtx_requestMoves c fun x => .timer none x.timeoutCompleted)
  · intro x _ q _
    exact
      { update := fun g _ hupdate h => h.trans (modifyCtx_requestMoves c (hupdate.move _))
        retire := fun g q how h => h
        callback := fun g q status result h => h.trans (rnRateCb_requestMoves q status result) }

/-- The events that run a cleanup handler or come after it. -/
def Event.Ends : Event → Prop
  | .cleanup _ _ | .release _ | .log _ _ => True
  | _ => False

/-- An event of a request is a run of the handler, ends the request, or moves it. -/
theorem Event.run_requestMoves {w : World} {e : Event} (hen : e.Enabled s w) (i : ℕ) (p : Proc)
    (r : Request) : (∃ j env, e = .handler j env) ∨ e.Ends ∨
      r.Moves s (e.run s i ⟨p, r⟩).req := by
  cases e with
  | handler j env => exact .inl ⟨j, env, rfl⟩
  | cleanup | release | log => exact .inr (.inl trivial)
  | redirect j lcf => exact .inr (.inr (.single (.redirect r hen.1)))
  | cleanupAdd => exact .inr (.inr (.single (.chain r)))
  | verdict =>
    refine .inr (.inr (.single ?_))
    simp only [Event.run, ngxHttpRnVerdictVariable]
    split <;> exact .recover r
  | complete _ q status result =>
    exact .inr (.inr (rnRateCb_requestMoves (f := ⟨p.mapClient (·.retire q .completed), r⟩) ..))
  | stray => exact .inr (.inr (rnRateCb_requestMoves (f := ⟨p, r⟩) ..))
  | timeout => exact .inr (.inr (rnRequestTimeoutHandler_requestMoves (f := ⟨p, r⟩) ..))
  | connection _ state => exact .inr (.inr (.single (.outside r r.count r.ngxRefs state)))
  | retain => exact .inr (.inr (.single (.outside r _ _ r.connection)))
  | drop => exact .inr (.inr (.single (.outside r _ _ r.connection)))
  | accept | steering | udpBegin | udpEnd | rebind => exact .inr (.inr .refl)

end Moves

/-! ## One request among many -/

section OneRequest

variable {s : Setup} {w w' : World} {i : ℕ}

/-- Only its own events touch a request. -/
theorem next_request {r : Request} (hr : w.reqs[i]? = some r) (e : Event) :
    (w.next s e).reqs[i]? =
      some (if e.request = some i then (e.run s i ⟨w.proc, r⟩).req else r) := by
  have hlt : i < w.reqs.length := (List.getElem?_eq_some_iff.mp hr).1
  cases he : e.request with
  | none =>
    simp only [World.next, he, reduceCtorEq, if_false]
    cases e <;> first | exact hr | exact (List.getElem?_append_left hlt).trans hr
  | some j =>
    simp only [World.next, he, World.on, World.frame]
    by_cases hji : j = i
    · subst hji
      rw [hr]
      simp [World.store, hlt]
    · have hne : ¬some j = some i := by simpa using hji
      rw [if_neg hne]
      cases w.reqs[j]? with
      | none => exact hr
      | some r' => simpa [World.store, List.getElem?_set, hji] using hr

/-- A request that appears is new. -/
theorem next_request_new {r : Request} (hnone : w.reqs[i]? = none) {e : Event}
    (hen : e.Enabled s w) (hr : (w.next s e).reqs[i]? = some r) :
    ∃ main startMs, ∃ lcf ∈ s.conf.locations, r = Request.new main lcf startMs := by
  cases he : e.request with
  | none =>
    simp only [World.next, he] at hr
    cases e with
    | accept main lcf startMs =>
      simp only [Event.runProc, List.getElem?_append] at hr
      split_ifs at hr
      · rw [hnone] at hr
        cases hr
      · exact ⟨main, startMs, lcf, hen, List.mem_singleton.mp (List.mem_of_getElem? hr)⟩
    | _ => exact absurd (hnone.symm.trans hr) (by simp)
  | some j =>
    simp only [World.next, he, World.on, World.frame] at hr
    cases hj : w.reqs[j]? with
    | none =>
      rw [hj] at hr
      exact absurd (hnone.symm.trans hr) (by simp)
    | some r' =>
      rw [hj] at hr
      simp only [Option.map_some, World.store, List.getElem?_set] at hr
      split_ifs at hr with hji hlt
      · subst hji
        rw [hj] at hnone
        cases hnone
      · exact absurd (hnone.symm.trans hr) (by simp)

variable {ok : World → Event → Prop} {I : Request → Prop}

/-- A property of request `i` that its events keep holds along a run. -/
theorem request_kept {es : List Event} (h : Run ((machine s).restrict ok) w es w') {r : Request}
    (hr : w.reqs[i]? = some r) (h0 : I r)
    (hstep : ∀ (u : World) (e : Event) (r : Request), u.reqs[i]? = some r →
      e.request = some i → e.Enabled s u → ok u e → I r → I (e.run s i ⟨u.proc, r⟩).req) :
    ∃ r', w'.reqs[i]? = some r' ∧ I r' := by
  induction h with
  | nil => exact ⟨r, hr, h0⟩
  | snoc _ he ih =>
    obtain ⟨r', hr', hI⟩ := ih
    refine ⟨_, next_request hr' _, ?_⟩
    split_ifs with hmine
    · exact hstep _ _ r' hr' hmine he.1 he.2 hI
    · exact hI

/-- The same for a run from the start, where the request is new. -/
theorem request_invariant {es : List Event} (h : Run ((machine s).restrict ok) World.init es w)
    (hnew : ∀ main startMs, ∀ lcf ∈ s.conf.locations, I (Request.new main lcf startMs))
    (hstep : ∀ (u : World) (e : Event) (r : Request), u.reqs[i]? = some r →
      e.request = some i → e.Enabled s u → ok u e → I r → I (e.run s i ⟨u.proc, r⟩).req) :
    ∀ r ∈ w.reqs[i]?, I r := by
  induction h with
  | nil => simp [World.init]
  | @snoc es u e hrun he ih =>
    intro r hr
    cases hu : u.reqs[i]? with
    | none =>
      obtain ⟨main, startMs, lcf, hlcf, rfl⟩ := next_request_new hu he.1 hr
      exact hnew main startMs lcf hlcf
    | some r' =>
      have hnext : (u.next s e).reqs[i]? = some r := hr
      rw [next_request hu] at hnext
      obtain rfl := Option.some.inj hnext
      split_ifs with hmine
      · exact hstep u e r' hu hmine he.1 he.2 (ih r' hu)
      · exact ih r' hu

theorem cleanup_released (f : Frame) (c : ℕ) : (f.cleanup c).req.released = f.req.released := by
  unfold Frame.cleanup
  split <;> rfl

theorem ngxHttpRnLogHandler_released (endMs : ℕ) (f : Frame) :
    (ngxHttpRnLogHandler endMs f).req.released = f.req.released := by
  unfold ngxHttpRnLogHandler
  split
  · rfl
  · split
    · rfl
    · split <;> rfl

/-- The rule for requests that have not been released : what a new request has, and the
handler, the moves and the cleanup handler keep. -/
theorem unreleased_invariant {es : List Event}
    (h : Run ((machine s).restrict ok) World.init es w)
    (hnew : ∀ main startMs, ∀ lcf ∈ s.conf.locations, I (Request.new main lcf startMs))
    (hhandler : ∀ (u : World) (env : HandlerEnv) (r : Request), u.reqs[i]? = some r →
      ok u (.handler i env) → I r → I (ngxHttpRnHandler s env i ⟨u.proc, r⟩).1.req)
    (hmove : ∀ {r r' : Request}, I r → r.Move s r' → I r')
    (hcleanup : ∀ {f : Frame} (c : ℕ), I f.req → I (f.cleanup c).req) {r : Request}
    (hr : w.reqs[i]? = some r) (hlive : r.released = false) : I r := by
  refine request_invariant (I := fun r => r.released = false → I r) h
    (fun main startMs lcf hlcf _ => hnew main startMs lcf hlcf) ?_ r hr hlive
  intro u e r hr he hen hok hI hlive'
  rcases e.run_requestMoves hen i u.proc r with ⟨j, env, rfl⟩ | hends | hmoves
  · obtain rfl : j = i := Option.some.inj he
    obtain ⟨r', hr', hlive⟩ := hen
    obtain rfl : r = r' := Option.some.inj (hr.symm.trans hr')
    exact hhandler u env r hr hok (hI hlive)
  · cases e with
    | cleanup j c => exact hcleanup c (hI ((cleanup_released ⟨u.proc, r⟩ c).symm.trans hlive'))
    | release => cases hlive'
    | log j endMs =>
      obtain rfl : j = i := Option.some.inj he
      obtain ⟨r', hr', hreleased⟩ := hen
      obtain rfl : r = r' := Option.some.inj (hr.symm.trans hr')
      have hlive := (ngxHttpRnLogHandler_released endMs ⟨u.proc, r⟩).symm.trans hlive'
      exact absurd (hreleased.symm.trans hlive) (by simp)
    | _ => exact hends.elim
  · exact hmoves.kept hmove (hI (hmoves.released.symm.trans hlive'))

end OneRequest

end RlNginx
