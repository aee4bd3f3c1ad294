import RlNginx.Admission

/-!
# One admission for a request

Until nginx runs its cleanup handlers, a request has no registered context and has asked for
no check (`Request.Clear`), or it has exactly one registered context (`Request.Registered`),
which is done or waits. Redirects clear the slot, but the cleanup chain still leads to that
context, so every later run of the handler finds it, leaves everything as it is, and returns
`NGX_AGAIN` or the recorded decision.
-/

open Transition Relation

namespace RlNginx

/-! ## Finding the registered context -/

theorem findCleanup_eq_none {ctxs : List ReqCtx} :
    ∀ {chain : List Cleanup}, (∀ c, .rn c ∉ chain) → findCleanup ctxs chain = none
  | [], _ => rfl
  | .other :: chain, h => by
    rw [findCleanup]
    exact findCleanup_eq_none fun c hc => h c (List.mem_cons_of_mem _ hc)
  | .rn c :: _, h => absurd List.mem_cons_self (h c)

theorem findCleanup_eq_some {ctxs : List ReqCtx} {c : ℕ} {x : ReqCtx} (hx : ctxs[c]? = some x)
    (hr : x.r = true) : ∀ {chain : List Cleanup}, .rn c ∈ chain →
      (∀ c', .rn c' ∈ chain → c' = c) → findCleanup ctxs chain = some c
  | .other :: chain, hc, honly => by
    rw [findCleanup]
    exact findCleanup_eq_some hx hr (by simpa using hc)
      fun c' hc' => honly c' (List.mem_cons_of_mem _ hc')
  | .rn c' :: _, _, honly => by
    obtain rfl : c' = c := honly c' List.mem_cons_self
    simp [findCleanup, hx, hr]

/-- The request has registered one context, `x` at `c`. -/
structure Request.Registered (s : Setup) (r : Request) (c : ℕ) (x : ReqCtx) : Prop where
  ctx : r.ctxs[c]? = some x
  live : x.r = true
  settled : x.done = true ∧ x.waiting = false ∧ x.req = none ∨ x.done = false ∧ x.waiting = true
  linked : x.req ≠ none → x.worker = true
  unsent : x.latReportSent = false
  chain : .rn c ∈ r.cleanup
  only : ∀ c', .rn c' ∈ r.cleanup → c' = c
  slot : r.slot = none ∨ r.slot = some c
  calls : r.startCalls.length ≤ 1
  main : r.main = true
  enabled : s.conf.main.enabled = true

/-- The request has registered no context. -/
structure Request.Clear (r : Request) : Prop where
  chain : ∀ c, .rn c ∉ r.cleanup
  slot : ∀ c ∈ r.slot, ∃ x ∈ r.ctxs[c]?, x.done = true ∧ x.req = none
  calls : r.startCalls = []

section Registered

variable {s : Setup} {r r' : Request} {c : ℕ} {x : ReqCtx}

theorem Request.Registered.found (h : r.Registered s c x) :
    rnGetRequestCtx r = { r with slot := some c } := by
  unfold rnGetRequestCtx
  rcases h.slot with hslot | hslot
  · simp only [hslot, findCleanup_eq_some h.ctx h.live h.chain h.only]
  · simp only [hslot]
    rw [← hslot]

/-- A move keeps the registered context, and the verdict of one that is done. -/
theorem Request.Registered.move (h : r.Registered s c x) (hmove : r.Move s r') :
    ∃ x', r'.Registered s c x' ∧ (x.done = true → x.SameVerdict x') ∧
      r'.startCalls = r.startCalls := by
  have hsame : x.SameVerdict x := ⟨rfl, rfl, rfl, rfl, rfl⟩
  cases hmove with
  | recover =>
    rw [h.found]
    exact ⟨x, { h with slot := .inr rfl }, fun _ => hsame, rfl⟩
  | redirect => exact ⟨x, { h with slot := .inl rfl }, fun _ => hsame, rfl⟩
  | chain =>
    exact ⟨x, { h with
      chain := List.mem_cons_of_mem _ h.chain
      only := fun c' hc' => h.only c' (by simpa using hc') }, fun _ => hsame, rfl⟩
  | outside => exact ⟨x, { h with }, fun _ => hsame, rfl⟩
  | @ctx c' y y' count hy hmove =>
    have hlt : c' < r.ctxs.length := (List.getElem?_eq_some_iff.mp hy).1
    by_cases hc : c' = c
    · subst hc
      obtain rfl : x = y := Option.some.inj (h.ctx.symm.trans hy)
      have hget : (r.ctxs.set c' y')[c']? = some y' := by simp [hlt]
      cases hmove with
      | timer t b =>
        exact ⟨_, { h with ctx := hget }, fun _ => ⟨rfl, rfl, rfl, rfl, rfl⟩, rfl⟩
      | verdict q status result hq =>
        have hundone : x.done = false := by
          rcases h.settled with ⟨-, -, hnone⟩ | ⟨hundone, -⟩
          · rw [hq] at hnone
            cases hnone
          · exact hundone
        obtain ⟨d, o, k, -, heq⟩ := rnVerdict_eq s.conf.main status result
          (ReqCtx.tornDown { x with timeoutCompleted := false })
        rw [heq] at hget ⊢
        refine ⟨_, { h with
          ctx := hget
          settled := .inl ⟨rfl, rfl, rfl⟩
          linked := fun hreq => absurd rfl hreq }, fun hdone => ?_, rfl⟩
        rw [hundone] at hdone
        cases hdone
    · refine ⟨x, { h with ctx := ?_ }, fun _ => hsame, rfl⟩
      rw [← h.ctx]
      simp [hc]

/-- The handler finds the registered context and leaves everything else alone. -/
theorem Request.Registered.handler (h : r.Registered s c x) (env : HandlerEnv) (i : ℕ)
    (p : Proc) : (ngxHttpRnHandler s env i ⟨p, r⟩).1 = ⟨p, { r with slot := some c }⟩ ∧
      (r.lcf.admission = true ∨ r.lcf.reportEnabled = true →
        (ngxHttpRnHandler s env i ⟨p, r⟩).2 = if x.waiting then .again else x.decision) := by
  have hctx : (rnGetRequestCtx r).ctx = some x := by
    rw [h.found]
    exact h.ctx
  rw [← h.found]
  simp only [ngxHttpRnHandler, h.main, h.enabled, hctx, rnGetRequestCtx_lcf, Bool.not_true,
    Bool.false_eq_true, if_false]
  cases hoff : (!r.lcf.admission && !r.lcf.reportEnabled) with
  | true =>
    simp only [if_true, true_and]
    intro hon
    rcases hon with hon | hon <;> simp [hon] at hoff
  | false =>
    rcases h.settled with ⟨hdone, hidle, -⟩ | ⟨hundone, hwait⟩
    · simp [hdone, hidle]
    · simp [hundone, hwait]

theorem Request.Clear.found (h : r.Clear) : rnGetRequestCtx r = r := by
  unfold rnGetRequestCtx
  split
  · rfl
  · rename_i hslot
    rw [findCleanup_eq_none h.chain, ← hslot]

/-- A move registers nothing. -/
theorem Request.Clear.move (h : r.Clear) (hmove : r.Move s r') : r'.Clear := by
  cases hmove with
  | recover => rwa [h.found]
  | redirect => exact { h with slot := nofun }
  | chain => exact { h with chain := by simpa using h.chain }
  | outside => exact { h with }
  | @ctx c' y y' count hy hmove =>
    refine { h with slot := fun c hc => ?_ }
    obtain ⟨x, hx, hdone, hreq⟩ := h.slot c hc
    by_cases hcc : c' = c
    · subst hcc
      obtain rfl : x = y := Option.some.inj (hx.symm.trans hy)
      have hlt : c' < r.ctxs.length := (List.getElem?_eq_some_iff.mp hy).1
      refine ⟨y', by simp [hlt], ?_⟩
      cases hmove with
      | timer => exact ⟨hdone, hreq⟩
      | verdict q status result hq =>
        rw [hq] at hreq
        cases hreq
    · exact ⟨x, by simpa [hcc] using hx, hdone, hreq⟩

/-- A run of the handler registers at most one context. -/
theorem HandlerRun.registers {env : HandlerEnv} {rc : NgxRc} (h : r.Clear)
    (hrun : HandlerRun s env r r r' rc) : r'.Clear ∨ ∃ c x, r'.Registered s c x := by
  cases hrun with
  | subrequest | inactive | disabled | decided | waiting | noMemory => exact .inl h
  | unregistered =>
    refine .inl { h with slot := fun c hc => ?_ }
    obtain rfl : r.ctxs.length = c := Option.some.inj hc
    exact ⟨.unregistered s.conf.main r.lcf, by simp [Request.unregistered], rfl, rfl⟩
  | @admitted x _ call count hstarts hexit =>
    refine .inr ⟨r.ctxs.length, x, ?_⟩
    exact {
      ctx := by simp [Request.registered]
      live := hexit.r
      settled := by
        rcases hexit.settled with ⟨hdone, hidle, hreq, -⟩ | ⟨hundone, hwait, -⟩
        · exact .inl ⟨hdone, hidle, hreq⟩
        · exact .inr ⟨hundone, hwait⟩
      linked := fun hreq => (hexit.linked hreq).1
      unsent := hexit.sent
      chain := List.mem_cons_self
      only := by
        intro c' hc'
        rcases List.mem_cons.mp hc' with hc' | hc'
        · exact Cleanup.rn.inj hc'
        · exact absurd hc' (h.chain c')
      slot := .inr rfl
      calls := by
        simp only [Request.registered, h.calls, List.nil_append]
        cases call <;> simp
      main := hstarts.main
      enabled := hstarts.enabled }

end Registered

/-! ## Before the cleanup handlers -/

/-- The event does not run the cleanup handlers of request `i`. -/
def Event.Keeps (i : ℕ) (e : Event) : Prop :=
  e.request = some i → ¬e.Ends

instance Event.decidableEnds (e : Event) : Decidable e.Ends :=
  match e with
  | .cleanup .. | .release .. | .log .. => .isTrue trivial
  | .accept .. | .handler .. | .redirect .. | .cleanupAdd .. | .verdict .. | .complete ..
  | .stray .. | .timeout .. | .connection .. | .retain .. | .drop .. | .steering ..
  | .udpBegin | .udpEnd | .rebind .. => .isFalse not_false

instance (i : ℕ) (e : Event) : Decidable (e.Keeps i) :=
  inferInstanceAs (Decidable (_ → _))

/-- Runs in which the cleanup handlers of request `i` have not run. -/
abbrev KeepsRun (s : Setup) (i : ℕ) (w : World) (es : List Event) (w' : World) : Prop :=
  Run ((machine s).restrict fun _ e => e.Keeps i) w es w'

section Keeps

variable {s : Setup} {i : ℕ} {es : List Event} {w w' : World} {r : Request} {c : ℕ} {x : ReqCtx}

/-- A request that is not cleaned up is clear, or has one registered context. -/
theorem clear_or_registered (h : KeepsRun s i World.init es w) (hr : w.reqs[i]? = some r) :
    r.Clear ∨ ∃ c x, r.Registered s c x := by
  refine request_invariant (I := fun r => r.Clear ∨ ∃ c x, r.Registered s c x) h ?_ ?_ r hr
  · intro main startMs lcf _
    exact .inl ⟨by simp [Request.new], by simp [Request.new], rfl⟩
  · intro u e r hr he hen hkeep hI
    rcases e.run_requestMoves hen i u.proc r with ⟨j, env, rfl⟩ | hends | hmoves
    · rcases hI with hclear | ⟨c, x, hreg⟩
      · have hrun := ngxHttpRnHandler_run s env i u.proc r
        rw [hclear.found] at hrun
        exact hrun.registers hclear
      · refine .inr ⟨c, x, ?_⟩
        rw [Event.run, (hreg.handler env i u.proc).1]
        exact { hreg with slot := .inr rfl }
    · exact absurd hends (hkeep he)
    · refine hmoves.kept (I := fun r => r.Clear ∨ ∃ c x, r.Registered s c x) ?_ hI
      rintro r r' (hclear | ⟨c, x, hreg⟩) hmove
      · exact .inl (hclear.move hmove)
      · obtain ⟨x', hreg', -⟩ := hreg.move hmove
        exact .inr ⟨c, x', hreg'⟩

/-- The registered context stays, with its verdict once it is done. -/
theorem registered_kept (h : KeepsRun s i w es w') (hr : w.reqs[i]? = some r)
    (hreg : r.Registered s c x) : ∃ r', w'.reqs[i]? = some r' ∧ ∃ x', r'.Registered s c x' ∧
      (x.done = true → x.SameVerdict x') ∧ r'.startCalls = r.startCalls := by
  refine request_kept (I := fun r' => ∃ x', r'.Registered s c x' ∧
    (x.done = true → x.SameVerdict x') ∧ r'.startCalls = r.startCalls) h hr
    ⟨x, hreg, fun _ => ⟨rfl, rfl, rfl, rfl, rfl⟩, rfl⟩ ?_
  intro u e r₁ hr₁ he hen hkeep hI
  rcases e.run_requestMoves hen i u.proc r₁ with ⟨j, env, rfl⟩ | hends | hmoves
  · obtain ⟨x₁, hreg₁, hsame, hcalls⟩ := hI
    refine ⟨x₁, ?_, hsame, ?_⟩
    · rw [Event.run, (hreg₁.handler env i u.proc).1]
      exact { hreg₁ with slot := .inr rfl }
    · rw [Event.run, (hreg₁.handler env i u.proc).1]
      exact hcalls
  · exact absurd hends (hkeep he)
  · refine hmoves.kept (I := fun r' => ∃ x', r'.Registered s c x' ∧
      (x.done = true → x.SameVerdict x') ∧ r'.startCalls = r.startCalls) ?_ hI
    rintro r₁ r₂ ⟨x₁, hreg₁, hsame, hcalls⟩ hmove
    obtain ⟨x₂, hreg₂, hsame', hcalls'⟩ := hreg₁.move hmove
    refine ⟨x₂, hreg₂, fun hdone => ?_, hcalls'.trans hcalls⟩
    have h₁ := hsame hdone
    have h₂ := hsame' (h₁.done.trans hdone)
    exact ⟨h₂.decision.trans h₁.decision, h₂.outcome.trans h₁.outcome, h₂.cause.trans h₁.cause,
      h₂.done.trans h₁.done, h₂.origin.trans h₁.origin⟩

/-! ## At most one admission -/

/-- Until its cleanup handlers run, a request asks the client for one check at most. Once it
has, every later run of the handler in an active location changes no context, keeps the
process, and returns `NGX_AGAIN` while the context waits, and then the decision that was
recorded when it stopped waiting. -/
theorem admission_once (h : KeepsRun s i World.init es w) (hr : w.reqs[i]? = some r) :
    r.startCalls.length ≤ 1 ∧ (r.startCalls ≠ [] → ∃ c x, r.ctxs[c]? = some x ∧
      ∀ es' w', KeepsRun s i w es' w' → ∃ r' x', w'.reqs[i]? = some r' ∧ r'.ctxs[c]? = some x' ∧
        r'.startCalls = r.startCalls ∧
        (x.waiting = false → x'.waiting = false ∧ x'.decision = x.decision) ∧
        (r'.lcf.admission = true ∨ r'.lcf.reportEnabled = true → ∀ env : HandlerEnv,
          (ngxHttpRnHandler s env i ⟨w'.proc, r'⟩).1.proc = w'.proc ∧
          (ngxHttpRnHandler s env i ⟨w'.proc, r'⟩).1.req.ctxs = r'.ctxs ∧
          (ngxHttpRnHandler s env i ⟨w'.proc, r'⟩).1.req.slot = some c ∧
          (ngxHttpRnHandler s env i ⟨w'.proc, r'⟩).2 =
            if x'.waiting then .again else x'.decision)) := by
  rcases clear_or_registered h hr with hclear | ⟨c, x, hreg⟩
  · simp [hclear.calls]
  · refine ⟨hreg.calls, fun _ => ⟨c, x, hreg.ctx, fun es' w' h' => ?_⟩⟩
    obtain ⟨r', hr', x', hreg', hsame, hcalls⟩ := registered_kept h' hr hreg
    refine ⟨r', x', hr', hreg'.ctx, hcalls, fun hidle => ?_, fun hactive env => ?_⟩
    · have hdone : x.done = true := by
        rcases hreg.settled with ⟨hdone, -⟩ | ⟨-, hwait⟩
        · exact hdone
        · rw [hidle] at hwait
          cases hwait
      have hsame := hsame hdone
      refine ⟨?_, hsame.decision⟩
      rcases hreg'.settled with ⟨-, hidle', -⟩ | ⟨hundone, -⟩
      · exact hidle'
      · rw [hsame.done, hdone] at hundone
        cases hundone
    · obtain ⟨hframe, hrc⟩ := hreg'.handler env i w'.proc
      rw [hframe]
      exact ⟨rfl, rfl, rfl, hrc hactive⟩

/-- A request that is redirected while it waits, and again after its completion. -/
def redirectedEvents : List Event :=
  [.accept true protectedLoc 0, .handler 0 sampleHandlerEnv, .redirect 0 reportLoc,
    .handler 0 sampleHandlerEnv, .complete 0 0 .ok (some ⟨true, [true], [0]⟩),
    .redirect 0 protectedLoc, .handler 0 sampleHandlerEnv]

/-- The process after it. -/
def redirectedWorld : World :=
  redirectedEvents.foldl (World.next sampleSetup) World.init

theorem sample_admission_once :
    ∃ r ∈ redirectedWorld.reqs[0]?, r.startCalls ≠ [] ∧ r.startCalls.length ≤ 1 := by
  have hrun : KeepsRun sampleSetup 0 World.init redirectedEvents redirectedWorld :=
    Run.of_admits (by decide +kernel)
  have hcalled : ∃ r ∈ redirectedWorld.reqs[0]?, r.startCalls ≠ [] := by decide +kernel
  obtain ⟨r, hr, hcalled⟩ := hcalled
  exact ⟨r, hr, hcalled, (admission_once hrun hr).1⟩

end Keeps

end RlNginx
