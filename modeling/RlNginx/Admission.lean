import RlNginx.Phases

/-!
# What a recorded decision stands for

A context that is done answers for the request from then on, in whatever location the
handler runs next. `Request.Backed` says of every context of a request that has not been
released what its decision rests on : a registered context has outcome, cause and decision in
agreement, an unregistered one was left by a failed `ngx_http_cleanup_add` and declines, and
so does one that was made in a location without admission.

With it, a run of the handler in a location with admission returns `NGX_DECLINED` exactly
when it finds a context of the last two kinds.
-/

open Transition Relation

namespace RlNginx

/-! ## The invariant -/

/-- What the decision of a context rests on, given whether it is registered. -/
structure ReqCtx.Backed (mcf : MainConf) (registered : Prop) (x : ReqCtx) : Prop where
  owner : x.req ≠ none → registered ∧ x.origin.admission = true
  decided : registered → x.done = true → x.Decided mcf
  checked : registered → x.done = true → x.origin.admission = true →
    x.admissionOutcome = .none → NothingToCheck mcf x.origin
  unregistered : ¬registered → x.done = true → x.decision = .declined
  reportOnly : x.origin.admission = false → x.done = true → x.decision = .declined

/-- What the decisions of the contexts of a request rest on. -/
structure Request.Backed (s : Setup) (r : Request) : Prop where
  lcf : r.lcf ∈ s.conf.locations
  chain : ∀ c, .rn c ∈ r.cleanup → c < r.ctxs.length
  origin : ∀ x ∈ r.ctxs, x.origin ∈ s.conf.locations
  ctx : ∀ (c : ℕ), ∀ x ∈ r.ctxs[c]?, x.Backed s.conf.main (.rn c ∈ r.cleanup)

section Backed

variable {s : Setup} {r r' : Request} {x x' : ReqCtx} {mcf : MainConf} {registered : Prop}

theorem ReqCtx.Backed.congr (h : x.Backed mcf registered) (hsame : x.SameVerdict x')
    (hreq : x'.req ≠ none → x.req ≠ none) : x'.Backed mcf registered where
  owner := by rw [hsame.origin]; exact fun hx => h.owner (hreq hx)
  decided := by rw [hsame.done]; exact fun hreg hdone => (h.decided hreg hdone).congr hsame
  checked := by rw [hsame.done, hsame.origin, hsame.outcome]; exact h.checked
  unregistered := by rw [hsame.done, hsame.decision]; exact h.unregistered
  reportOnly := by rw [hsame.origin, hsame.done, hsame.decision]; exact h.reportOnly

theorem ReqCtx.Move.origin (h : x.Move mcf x') : x'.origin = x.origin := by
  cases h with
  | timer => rfl
  | verdict q status result =>
    obtain ⟨d, o, k, -, heq⟩ := rnVerdict_eq mcf status result
      (ReqCtx.tornDown { x with timeoutCompleted := false })
    rw [heq]
    rfl

/-- A move of a context keeps what its decision rests on. Only a registered context owns a
handle, so no other gets a verdict. -/
theorem ReqCtx.Move.backed (h : x.Backed mcf registered) (hmove : x.Move mcf x') :
    x'.Backed mcf registered := by
  cases hmove with
  | timer t b => exact h.congr ⟨rfl, rfl, rfl, rfl, rfl⟩ id
  | verdict q status result hq =>
    obtain ⟨hreg, hadm⟩ := h.owner (by simp [hq])
    have hdecided : (rnVerdict mcf status result (ReqCtx.tornDown { x with
        timeoutCompleted := false })).Decided mcf := rnVerdict_decided status result
    obtain ⟨d, o, k, hout, heq⟩ := rnVerdict_eq mcf status result
      (ReqCtx.tornDown { x with timeoutCompleted := false })
    rw [heq] at hdecided ⊢
    refine ⟨fun hreq => absurd rfl hreq, fun _ _ => hdecided, fun _ _ _ hnone => ?_,
      fun hnot => absurd hreg hnot, fun hnone => ?_⟩
    · exact absurd hnone hout.1
    · have hreport : x.origin.admission = false := hnone
      rw [hadm] at hreport
      cases hreport

/-- The cleanup handler keeps it too : a context that is done does not wait. -/
theorem ReqCtx.Backed.cleaned (h : x.Backed mcf registered) :
    ({ x.abort.tornDown with r := false } : ReqCtx).Backed mcf registered := by
  by_cases hwait : x.admissionOutcome = .waiting
  · -- a context that waits is not done
    have hundone : registered → x.done = false := by
      intro hreg
      by_contra hdone
      rw [Bool.not_eq_false] at hdone
      have hdecision := (h.decided hreg hdone).decision
      rw [hwait] at hdecision
      cases hdecision
    have habort : x.abort = { x with
        admissionOutcome := .aborted
        completionCause := .clientAbort } := by rw [ReqCtx.abort, if_pos hwait]
    rw [habort]
    refine ⟨fun hreq => absurd rfl hreq, fun hreg hdone => ?_, fun hreg hdone => ?_,
      h.unregistered, h.reportOnly⟩
    · exact absurd (hundone hreg) (by simpa [ReqCtx.tornDown] using hdone)
    · exact absurd (hundone hreg) (by simpa [ReqCtx.tornDown] using hdone)
  · have habort : x.abort = x := by rw [ReqCtx.abort, if_neg hwait]
    rw [habort]
    exact h.congr ⟨rfl, rfl, rfl, rfl, rfl⟩ fun hreq => absurd rfl hreq

/-- One context of the request changes. -/
theorem Request.Backed.set (h : r.Backed s) {c : ℕ} (hx : r.ctxs[c]? = some x)
    (horigin : x'.origin = x.origin)
    (hx' : x.Backed s.conf.main (.rn c ∈ r.cleanup) → x'.Backed s.conf.main (.rn c ∈ r.cleanup))
    (count : ℕ) : Request.Backed s { r with count, ctxs := r.ctxs.set c x' } where
  lcf := h.lcf
  chain := by
    intro c' hc'
    simpa using h.chain c' hc'
  origin := by
    intro y hy
    rcases List.mem_or_eq_of_mem_set hy with hy | rfl
    · exact h.origin y hy
    · rw [horigin]
      exact h.origin x (List.mem_of_getElem? hx)
  ctx := by
    intro c' y hy
    simp only [Option.mem_def, List.getElem?_set] at hy
    split_ifs at hy with heq hlt
    · obtain rfl := Option.some.inj hy
      exact heq ▸ hx' (h.ctx c x hx)
    · exact h.ctx c' y hy

theorem rnGetRequestCtx_backed (h : r.Backed s) : (rnGetRequestCtx r).Backed s := by
  unfold rnGetRequestCtx
  split
  · exact h
  · exact ⟨h.lcf, h.chain, h.origin, h.ctx⟩

theorem Request.Move.backed (h : r.Backed s) (hmove : r.Move s r') : r'.Backed s := by
  cases hmove with
  | recover => exact rnGetRequestCtx_backed h
  | redirect hlcf => exact ⟨hlcf, h.chain, h.origin, h.ctx⟩
  | chain =>
    have hmem : ∀ c, .rn c ∈ Cleanup.other :: r.cleanup ↔ .rn c ∈ r.cleanup := by simp
    refine ⟨h.lcf, fun c hc => h.chain c ((hmem c).mp hc), h.origin, fun c x hx => ?_⟩
    simpa only [hmem] using h.ctx c x hx
  | outside => exact ⟨h.lcf, h.chain, h.origin, h.ctx⟩
  | ctx count hx hmove => exact h.set hx hmove.origin (ReqCtx.Move.backed · hmove) count

/-- A new context, registered or not. -/
theorem Request.Backed.push (h : r.Backed s) (hx : x.origin = r.lcf) {chain : List Cleanup}
    (hold : ∀ c < r.ctxs.length, .rn c ∈ chain ↔ .rn c ∈ r.cleanup)
    (hbound : ∀ c, .rn c ∈ chain → c ≤ r.ctxs.length)
    (hnew : x.Backed s.conf.main (.rn r.ctxs.length ∈ chain)) (slot : Option ℕ) (count : ℕ)
    (startCalls : List RateCheck) : Request.Backed s { r with
      slot, count, startCalls, cleanup := chain, ctxs := r.ctxs ++ [x] } where
  lcf := h.lcf
  chain := by
    intro c hc
    simpa using Nat.lt_succ_of_le (hbound c hc)
  origin := by
    intro y hy
    rcases List.mem_append.mp hy with hy | hy
    · exact h.origin y hy
    · rw [List.mem_singleton.mp hy, hx]
      exact h.lcf
  ctx := by
    intro c y hy
    simp only [Option.mem_def, List.getElem?_append] at hy
    split_ifs at hy with hlt
    · have hctx := h.ctx c y hy
      rwa [← hold c hlt] at hctx
    · obtain ⟨hlt', hget⟩ := List.getElem?_eq_some_iff.mp hy
      simp only [List.length_singleton] at hlt'
      obtain rfl : c = r.ctxs.length := by omega
      simp only [Nat.sub_self, List.getElem_cons_zero] at hget
      exact hget ▸ hnew

theorem Exit.backed {lcf : LocConf} {rc : NgxRc} {call : Option RateCheck}
    (h : Exit mcf lcf x rc call) (hreg : registered) : x.Backed mcf registered where
  owner := fun hreq => ⟨hreg, by rw [h.origin]; exact (h.linked hreq).2⟩
  decided := by
    intro _ hdone
    rcases h.settled with ⟨-, -, -, hdecided, -⟩ | ⟨hundone, -⟩
    · exact hdecided
    · rw [hdone] at hundone
      cases hundone
  checked := by
    intro _ _ hadm hout
    rw [h.origin] at hadm ⊢
    exact h.bypass hout hadm
  unregistered := fun hnot => absurd hreg hnot
  reportOnly := by
    intro hadm _
    rw [h.origin] at hadm
    exact h.declines hadm

theorem HandlerRun.backed {env : HandlerEnv} {r₀ : Request} {rc : NgxRc} (h₀ : r₀.Backed s)
    (h : r.Backed s) (hrun : HandlerRun s env r₀ r r' rc) : r'.Backed s := by
  cases hrun with
  | subrequest => exact h₀
  | inactive | disabled | decided | waiting | noMemory => exact h
  | unregistered =>
    have hnot : Cleanup.rn r.ctxs.length ∉ r.cleanup :=
      fun hc => absurd (h.chain _ hc) (lt_irrefl _)
    exact h.push rfl (fun _ _ => Iff.rfl) (fun c hc => (h.chain c hc).le)
      ⟨fun hreq => absurd rfl hreq, fun hreg => absurd hreg hnot, fun hreg => absurd hreg hnot,
        fun _ _ => rfl, fun _ _ => rfl⟩ _ _ _
  | admitted count _ hexit =>
    refine h.push hexit.origin (fun c hc => ?_) (fun c hc => ?_) (hexit.backed (by simp)) _ _ _
    · simp [hc.ne]
    · rcases List.mem_cons.mp hc with hc | hc
      · exact (Cleanup.rn.inj hc).le
      · exact (h.chain c hc).le

end Backed

/-! ## Along a run -/

section Runs

variable {s : Setup} {ok : World → Event → Prop} {es : List Event} {w : World} {i : ℕ}
  {r : Request}

theorem cleanup_backed {f : Frame} (h : f.req.Backed s) (c : ℕ) : (f.cleanup c).req.Backed s := by
  unfold Frame.cleanup
  split
  · exact h
  · rename_i x hx
    have horigin : ({ x.abort.tornDown with r := false } : ReqCtx).origin = x.origin := by
      unfold ReqCtx.abort
      split_ifs <;> rfl
    exact h.set hx horigin ReqCtx.Backed.cleaned _

/-- Before its release every request is backed. -/
theorem backed_of_run (h : Run ((machine s).restrict ok) World.init es w)
    (hr : w.reqs[i]? = some r) (hlive : r.released = false) : r.Backed s := by
  refine unreleased_invariant (I := Request.Backed s) h ?_ ?_ (fun h hmove => hmove.backed h)
    (fun c h => cleanup_backed h c) hr hlive
  · intro main startMs lcf hlcf
    exact ⟨hlcf, by simp [Request.new], by simp [Request.new], by simp [Request.new]⟩
  · intro u env r _ _ hback
    exact (ngxHttpRnHandler_run s env i u.proc r).backed hback (rnGetRequestCtx_backed hback)

/-- The registration of a cleanup handler that the event comes to succeeds. -/
def Event.Registers (s : Setup) (w : World) : Event → Prop
  | .handler i env => ∀ r ∈ w.reqs[i]?, (rnGetRequestCtx r).Starts s → env.allocCtx = true →
      env.cleanupAdd = true
  | _ => True

instance Event.decidableRegisters (s : Setup) (w : World) (e : Event) :
    Decidable (e.Registers s w) :=
  match e with
  | .handler i env => inferInstanceAs (Decidable (∀ r ∈ w.reqs[i]?, (rnGetRequestCtx r).Starts s →
      env.allocCtx = true → env.cleanupAdd = true))
  | .accept .. | .redirect .. | .cleanupAdd .. | .verdict .. | .complete .. | .stray ..
  | .timeout .. | .cleanup .. | .release .. | .log .. | .connection .. | .retain .. | .drop ..
  | .steering .. | .udpBegin | .udpEnd | .rebind .. => .isTrue trivial

/-- Every context of the request is registered. -/
def Request.AllRegistered (r : Request) : Prop :=
  ∀ c < r.ctxs.length, .rn c ∈ r.cleanup

theorem rnGetRequestCtx_allRegistered (h : r.AllRegistered) :
    (rnGetRequestCtx r).AllRegistered := by
  simpa only [Request.AllRegistered, rnGetRequestCtx_cleanup, rnGetRequestCtx_ctxs] using h

theorem Request.Move.allRegistered {r' : Request} (h : r.AllRegistered) (hmove : r.Move s r') :
    r'.AllRegistered := by
  cases hmove with
  | recover => exact rnGetRequestCtx_allRegistered h
  | redirect | outside => exact h
  | chain => exact fun c hc => List.mem_cons_of_mem _ (h c hc)
  | ctx => exact fun c hc => h c (by simpa using hc)

theorem HandlerRun.allRegistered {env : HandlerEnv} {r₀ r' : Request} {rc : NgxRc}
    (h₀ : r₀.AllRegistered) (h : r.AllRegistered)
    (hok : r.Starts s → env.allocCtx = true → env.cleanupAdd = true)
    (hrun : HandlerRun s env r₀ r r' rc) : r'.AllRegistered := by
  cases hrun with
  | subrequest => exact h₀
  | inactive | disabled | decided | waiting | noMemory => exact h
  | unregistered hstarts halloc hadd =>
    rw [hok hstarts halloc] at hadd
    cases hadd
  | admitted count =>
    intro c hc
    simp only [Request.registered, List.length_append, List.length_singleton] at hc
    rcases Nat.lt_succ_iff_lt_or_eq.mp hc with hlt | rfl
    · exact List.mem_cons_of_mem _ (h c hlt)
    · exact List.mem_cons_self

theorem allRegistered_of_run (h : Run ((machine s).restrict (Event.Registers s)) World.init es w)
    (hr : w.reqs[i]? = some r) (hlive : r.released = false) : r.AllRegistered := by
  refine unreleased_invariant (I := Request.AllRegistered) h ?_ ?_
    (fun h hmove => hmove.allRegistered h) ?_ hr hlive
  · intro main startMs lcf _
    simp [Request.AllRegistered, Request.new]
  · intro u env r hr hok hall
    exact (ngxHttpRnHandler_run s env i u.proc r).allRegistered hall
      (rnGetRequestCtx_allRegistered hall) (hok r hr)
  · intro f c hall
    unfold Frame.cleanup
    split
    · exact hall
    · exact fun c hc => hall c (by simpa [Frame.store] using hc)

/-! ## Outcome, cause and decision -/

/-- A run of the handler that ends a context returns its decision. -/
theorem HandlerRun.returns {env : HandlerEnv} {r₀ r' : Request} {rc : NgxRc}
    (hctxs : r.ctxs = r₀.ctxs) (hok : r.Starts s → env.allocCtx = true → env.cleanupAdd = true)
    (hrun : HandlerRun s env r₀ r r' rc) {c : ℕ} {x' : ReqCtx} (hx' : r'.ctxs[c]? = some x')
    (hdone : x'.done = true) (hnew : ∀ x ∈ r₀.ctxs[c]?, x.done = false) : rc = x'.decision := by
  have hold : r₀.ctxs[c]? ≠ some x' := fun hx => by
    rw [hnew x' hx] at hdone
    cases hdone
  cases hrun with
  | subrequest => exact absurd hx' hold
  | inactive | disabled | decided | waiting | noMemory => exact absurd (hctxs ▸ hx') hold
  | unregistered hstarts halloc hadd =>
    rw [hok hstarts halloc] at hadd
    cases hadd
  | admitted count _ hexit =>
    simp only [Request.registered, List.getElem?_append, hctxs] at hx'
    split_ifs at hx'
    · exact absurd hx' hold
    · obtain rfl := List.mem_singleton.mp (List.mem_of_getElem? hx')
      rcases hexit.settled with ⟨-, -, -, -, hrc⟩ | ⟨hundone, -⟩
      · exact hrc
      · rw [hdone] at hundone
        cases hundone

/-- In every run in which the registrations of the handler succeed, a context that is done
has outcome, cause and decision in agreement until its request is released, and the run of
the handler that ended it returned its decision. -/
theorem done_agrees (h : Run ((machine s).restrict (Event.Registers s)) World.init es w)
    (hr : w.reqs[i]? = some r) (hlive : r.released = false) :
    (∀ x ∈ r.ctxs, x.done = true → x.Decided s.conf.main) ∧
    ∀ env : HandlerEnv, (Event.handler i env).Registers s w → ∀ (c : ℕ),
      ∀ x' ∈ (ngxHttpRnHandler s env i ⟨w.proc, r⟩).1.req.ctxs[c]?, x'.done = true →
        (∀ x ∈ r.ctxs[c]?, x.done = false) →
        (ngxHttpRnHandler s env i ⟨w.proc, r⟩).2 = x'.decision := by
  refine ⟨fun x hx hdone => ?_, fun env hok c x' hx' hdone hnew => ?_⟩
  · obtain ⟨c, hc⟩ := List.mem_iff_getElem?.mp hx
    have hreg := allRegistered_of_run h hr hlive c (List.getElem?_eq_some_iff.mp hc).1
    exact ((backed_of_run h hr hlive).ctx c x hc).decided hreg hdone
  · exact (ngxHttpRnHandler_run s env i w.proc r).returns (rnGetRequestCtx_ctxs r) (hok r hr) hx'
      hdone hnew

end Runs

/-- A request that is checked and completed. -/
def admittedEvents : List Event :=
  [.accept true protectedLoc 0, .handler 0 sampleHandlerEnv,
    .complete 0 0 .ok (some ⟨true, [true], [0]⟩)]

/-- The process after it. -/
def admittedWorld : World :=
  admittedEvents.foldl (World.next sampleSetup) World.init

theorem sample_done_agrees :
    ∃ r ∈ admittedWorld.reqs[0]?, ∃ x ∈ r.ctxs[0]?, x.done = true ∧
      x.Decided sampleSetup.conf.main := by
  have hrun : Run ((machine sampleSetup).restrict (Event.Registers sampleSetup)) World.init
      admittedEvents admittedWorld :=
    Run.of_admits (by decide +kernel)
  have hstate : ∃ r ∈ admittedWorld.reqs[0]?, r.released = false ∧
      ∃ x ∈ r.ctxs[0]?, x.done = true := by decide +kernel
  obtain ⟨r, hr, hlive, x, hx, hdone⟩ := hstate
  exact ⟨r, hr, x, hx, hdone, (done_agrees hrun hr hlive).1 x (List.mem_of_getElem? hx) hdone⟩

/-- A request whose cleanup handler cannot be registered. -/
def unregisteredEvents : List Event :=
  [.accept true protectedLoc 0, .handler 0 { sampleHandlerEnv with cleanupAdd := false }]

/-- When the registration fails the handler returns an internal server error and records
that outcome, with the decision to decline. -/
theorem unregistered_disagrees :
    Reaches sampleSetup unregisteredEvents
      (unregisteredEvents.foldl (World.next sampleSetup) World.init) ∧
    (∃ r ∈ (unregisteredEvents.foldl (World.next sampleSetup) World.init).reqs,
      r.released = false ∧ ∃ x ∈ r.ctxs, x.done = true ∧ x.admissionOutcome = .internalError ∧
        x.decision = .declined ∧ x.admissionOutcome.decision ≠ some x.decision) ∧
    (ngxHttpRnHandler sampleSetup { sampleHandlerEnv with cleanupAdd := false } 0
      ⟨Proc.init, Request.new true protectedLoc 0⟩).2 = .internalServerError :=
  ⟨Run.of_admits (by decide +kernel), by decide +kernel, by decide +kernel⟩

/-! ## No bypass -/

/-- What a run of the handler in a protected location may return : it waits, denies, fails,
or lets the request pass on an admission of its own. -/
def NoBypass (out : Frame × NgxRc) : Prop :=
  out.2 = .again ∨ out.2 = .tooManyRequests ∨ out.2 = .internalServerError ∨
    out.2 = .ok ∧ ∃ x ∈ out.1.req.ctx, x.done = true ∧ x.origin.admission = true ∧
      (x.admissionOutcome = .validAllow ∨ x.admissionOutcome = .failOpen)

section Bypass

variable {env : ConfEnv} {items : List Item} {cfg : Config}

/-- The rules of an accepted location expand to something. -/
theorem not_nothingToCheck (hitems : ∀ it ∈ items, it.NulFree)
    (hload : loadConf env items = .ok cfg) {l : LocConf} (hl : l ∈ cfg.locations)
    (hadm : l.admission = true) : ¬NothingToCheck cfg.main l := by
  rintro ⟨renv, hstop⟩
  have hknown := ((loadConf_expands hitems hload hl hadm).2.2 renv).1
  rcases hstop with hstop | hstop
  · exact hknown _ hstop trivial
  · exact hknown _ hstop trivial

theorem loadConf_enabled (hitems : ∀ it ∈ items, it.NulFree) (hload : loadConf env items = .ok cfg)
    {l : LocConf} (hl : l ∈ cfg.locations) (hadm : l.admission = true) :
    cfg.main.enabled = true :=
  ((loadConf_locations hitems hload).2 l hl).1.active
    (.inl (loadConf_admission hitems hload hl hadm))

/-- A decision that agrees with its outcome passes only on an admission. -/
theorem ReqCtx.Decided.noBypass {mcf : MainConf} {x : ReqCtx} (h : x.Decided mcf)
    (hdone : x.done = true) (hadm : x.origin.admission = true) (hout : x.admissionOutcome ≠ .none)
    {out : Frame × NgxRc} (hctx : out.1.req.ctx = some x) (hrc : out.2 = x.decision) :
    NoBypass out := by
  have hdecision := h.decision
  rw [← hrc] at hdecision
  cases hoc : x.admissionOutcome with
  | none => exact absurd hoc hout
  | waiting | aborted =>
    rw [hoc] at hdecision
    cases hdecision
  | validAllow | failOpen =>
    rw [hoc] at hdecision
    exact .inr (.inr (.inr ⟨(Option.some.inj hdecision).symm, x, hctx, hdone, hadm, by simp [hoc]⟩))
  | validDeny | failClose =>
    rw [hoc] at hdecision
    exact .inr (.inl (Option.some.inj hdecision).symm)
  | internalError =>
    rw [hoc] at hdecision
    exact .inr (.inr (.inl (Option.some.inj hdecision).symm))

theorem not_noBypass_declined {f : Frame} {x : ReqCtx} (h : x.decision = .declined) :
    ¬NoBypass (f, x.decision) := by
  simp [NoBypass, h]

/-- The context a run of the handler finds, if that is done, is registered and was made in a
location with admission. -/
def Request.FindsAdmission (r : Request) : Prop :=
  ∀ c ∈ (rnGetRequestCtx r).slot, ∀ x ∈ r.ctxs[c]?, x.done = true →
    x.origin.admission = true ∧ .rn c ∈ r.cleanup

section Finds

variable {s : Setup} {r : Request}

/-- What the handler finds is not done. -/
theorem Request.findsAdmission_of_undone (h : ∀ x ∈ (rnGetRequestCtx r).ctx, x.done = false) :
    r.FindsAdmission := by
  intro c hc x hx hdone
  have hfound : (rnGetRequestCtx r).ctx = some x := by
    rw [Request.ctx, Option.mem_def.mp hc, rnGetRequestCtx_ctxs]
    exact hx
  rw [h x hfound] at hdone
  cases hdone

/-- To return the decision of the context it finds is no bypass exactly when that context
stands for an admission : any other that is done declines. -/
theorem Request.Backed.reuse_iff (h : r.Backed s)
    (hnothing : ∀ l ∈ s.conf.locations, l.admission = true → ¬NothingToCheck s.conf.main l)
    {x : ReqCtx} (hx : (rnGetRequestCtx r).ctx = some x) (hdone : x.done = true) (p : Proc) :
    NoBypass (⟨p, rnGetRequestCtx r⟩, x.decision) ↔ r.FindsAdmission := by
  obtain ⟨c, hc, hget⟩ := Option.bind_eq_some_iff.mp hx
  rw [rnGetRequestCtx_ctxs] at hget
  have hxb := h.ctx c x hget
  constructor
  · intro hno c' hc' x' hx' hdone'
    obtain rfl : c = c' := Option.some.inj (hc.symm.trans hc')
    obtain rfl : x = x' := Option.some.inj (hget.symm.trans hx')
    constructor
    · by_contra hnone
      exact not_noBypass_declined (hxb.reportOnly (by simpa using hnone) hdone) hno
    · by_contra hnot
      exact not_noBypass_declined (hxb.unregistered hnot hdone) hno
  · intro hfinds
    obtain ⟨horigin, hreg⟩ := hfinds c hc x hget hdone
    have hloc := h.origin x (List.mem_of_getElem? hget)
    exact (hxb.decided hreg hdone).noBypass hdone horigin
      (fun hnone => hnothing _ hloc horigin (hxb.checked hreg hdone horigin hnone)) hx rfl

/-- A run that makes a context of its own returns by that context's outcome. -/
theorem Exit.noBypass {lcf : LocConf} {x : ReqCtx} {rc : NgxRc} {call : Option RateCheck}
    {mcf : MainConf} (h : Exit mcf lcf x rc call) (hadm : lcf.admission = true)
    (hnothing : ¬NothingToCheck mcf lcf) {f : Frame} (hx : f.req.ctx = some x) :
    NoBypass (f, rc) := by
  rcases h.settled with ⟨hdone, -, -, hdecided, rfl⟩ | ⟨-, -, rfl, -⟩
  · exact hdecided.noBypass hdone (h.origin ▸ hadm) (fun hnone => hnothing (h.bypass hnone hadm))
      hx rfl
  · exact .inl rfl

end Finds

/-- Under an accepted configuration, a run of the handler for a main request in a location
with admission does not bypass it exactly when the context it finds, if that is done, is
registered and was made in a location with admission. -/
theorem no_bypass_iff (hitems : ∀ it ∈ items, it.NulFree) (hload : loadConf env items = .ok cfg)
    {bind : Option AddressFamily} {es : List Event} {w : World} (h : Reaches ⟨cfg, bind⟩ es w)
    {i : ℕ} {r : Request} (hr : w.reqs[i]? = some r) (hlive : r.released = false)
    (hmain : r.main = true) (hadm : r.lcf.admission = true) (henv : HandlerEnv) :
    NoBypass (ngxHttpRnHandler ⟨cfg, bind⟩ henv i ⟨w.proc, r⟩) ↔
      ∀ c ∈ (rnGetRequestCtx r).slot, ∀ x ∈ r.ctxs[c]?, x.done = true →
        x.origin.admission = true ∧ .rn c ∈ r.cleanup := by
  have hrun : Run ((machine ⟨cfg, bind⟩).restrict fun _ _ => True) World.init es w :=
    h.to_restrict fun _ _ _ => trivial
  have hback : r.Backed ⟨cfg, bind⟩ := backed_of_run hrun hr hlive
  have hnothing : ∀ l ∈ cfg.locations, l.admission = true → ¬NothingToCheck cfg.main l :=
    fun l hl hadm => not_nothingToCheck hitems hload hl hadm
  have henabled := loadConf_enabled hitems hload hback.lcf hadm
  have hrun := ngxHttpRnHandler_run ⟨cfg, bind⟩ henv i w.proc r
  -- a run that goes on to admission found nothing that is done
  have hundecided (hstarts : (rnGetRequestCtx r).Starts ⟨cfg, bind⟩) : r.FindsAdmission :=
    r.findsAdmission_of_undone fun x hx => (hstarts.undecided x hx).1
  generalize hout : ngxHttpRnHandler ⟨cfg, bind⟩ henv i ⟨w.proc, r⟩ = out at hrun ⊢
  obtain ⟨⟨p, r'⟩, rc⟩ := out
  cases hrun with
  | subrequest hsub =>
    rw [hmain] at hsub
    cases hsub
  | inactive hoff =>
    rw [rnGetRequestCtx_lcf, hadm] at hoff
    cases hoff
  | disabled hoff =>
    rw [show cfg.main.enabled = false from hoff] at henabled
    cases henabled
  | @decided x hx hdone => exact hback.reuse_iff hnothing hx hdone _
  | @waiting x hx hundone =>
    refine iff_of_true (.inl rfl) (r.findsAdmission_of_undone fun y hy => ?_)
    rw [← Option.some.inj (hx.symm.trans hy)]
    exact hundone
  | noMemory hstarts => exact iff_of_true (.inr (.inr (.inl rfl))) (hundecided hstarts)
  | unregistered hstarts => exact iff_of_true (.inr (.inr (.inl rfl))) (hundecided hstarts)
  | @admitted x _ _ count hstarts hexit =>
    refine iff_of_true ?_ (hundecided hstarts)
    rw [rnGetRequestCtx_lcf] at hexit
    exact hexit.noBypass hadm (hnothing _ hback.lcf hadm) (by simp [Request.ctx])

theorem sample_no_bypass :
    ∃ r ∈ admittedWorld.reqs[0]?,
      NoBypass (ngxHttpRnHandler sampleSetup sampleHandlerEnv 0 ⟨admittedWorld.proc, r⟩) := by
  have hrun : Reaches sampleSetup admittedEvents admittedWorld :=
    Run.of_admits (by decide +kernel)
  have hstate : ∃ r ∈ admittedWorld.reqs[0]?,
      r.released = false ∧ r.main = true ∧ r.lcf.admission = true ∧
        ∀ c ∈ (rnGetRequestCtx r).slot, ∀ x ∈ r.ctxs[c]?, x.done = true →
          x.origin.admission = true ∧ .rn c ∈ r.cleanup := by decide +kernel
  obtain ⟨r, hr, hlive, hmain, hadm, hfound⟩ := hstate
  exact ⟨r, hr, (no_bypass_iff (by decide +kernel) sample_loads hrun hr hlive hmain hadm
    sampleHandlerEnv).mpr hfound⟩

/-- A request that comes to a protected location by way of one with a report only. -/
def reportFirstEvents : List Event :=
  [.accept true reportLoc 0, .handler 0 sampleHandlerEnv, .redirect 0 protectedLoc]

/-- The context of the report stands in for the admission. -/
theorem report_bypasses :
    loadConf sampleEnv sampleItems = .ok sampleConfig ∧
    Reaches sampleSetup reportFirstEvents
      (reportFirstEvents.foldl (World.next sampleSetup) World.init) ∧
    ∃ r ∈ (reportFirstEvents.foldl (World.next sampleSetup) World.init).reqs[0]?,
      r.main = true ∧ r.released = false ∧ r.lcf.admission = true ∧
      (ngxHttpRnHandler sampleSetup sampleHandlerEnv 0
        ⟨(reportFirstEvents.foldl (World.next sampleSetup) World.init).proc, r⟩).2 = .declined :=
  ⟨sample_loads, Run.of_admits (by decide +kernel), by decide +kernel⟩

end Bypass

end RlNginx
