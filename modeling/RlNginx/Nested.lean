import RlNginx.Lib.Growth
import RlNginx.Resolver

/-!
# Lookups inside callbacks

The client acts inside the callbacks of its lookups. It starts lookups of its own there, which
nginx may answer before the start returns, and cancels others, which calls it back again; so the
functions of the resolver adapter are entered while others of them are still running, to any
depth. A `Script` is what the client does at one such point, with a script for every callback
that this brings about.

`nested` runs the adapter with scripts. A function that calls back is split at its callback, and
the script runs on all lookups in between. `Undisturbed` is what a script keeps : a lookup that
is owned stays so, and one whose callback is running, of which the adapter still has the request
and the context in hand, is not touched. By `nested_ownership` every run keeps the ownership of
`resolver`, with the callbacks nested in any way, and a worker that shuts down leaves no lookup.
Without scripts `nested` is `resolver` (`flat_follows`).
-/

open Transition

namespace RlNginx

/-! ## The halves of a function that calls back -/

/-- A handler up to its callback, and whether it makes one. -/
def handlerEnter (cb : LookupKind) (status : DnsStatus) (reaction : Reaction) (l : Lookup) :
    Lookup × Bool :=
  match l.rctx with
  | none => (l.fault, false)
  | some rctx =>
    if !rctx.data then (ngxResolveNameDone l, false)
    else
      match l.req with
      | none => (l.fault, false)
      | some req =>
        if req.cb ≠ cb then (ngxResolveNameDone l, false)
        else (l.detach.callback cb status reaction.react, true)

/-- A handler behind its callback. -/
def handlerLeave (l : Lookup) : Lookup :=
  let l := ngxResolveNameDone l
  match l.req with
  | none => l.fault
  | some req => if rnAsyncStateIsStarting req.startState then l else rnDnsReqRelease l

/-- nginx answers, up to the callback. -/
def Lookup.answerEnter (a : Answer) (l : Lookup) : Lookup × Bool :=
  match l.rctx.bind (·.handler) with
  | none => (l.fault, false)
  | some .srv => handlerEnter .srv a.srvStatus a.reaction l
  | some .addr => handlerEnter .addr a.addrStatus a.reaction l

/-- Whether a cancellation calls back. -/
def Lookup.cancelCalls (l : Lookup) : Bool :=
  l.id && l.rctx.any (·.data) && l.req.isSome

/-- The context and the request as they are handed to nginx. -/
def submitCtx (kind : LookupKind) (name service : Bytes) (l : Lookup) : Lookup :=
  (l.mapCtx fun _ => ⟨name, service, some kind, true⟩).mapReq fun req =>
    { req with startState := rnAsyncStateBegin req.startState }

/-- A start behind `rn_resolve_name_start`, which returned `NGX_OK` or not. -/
def submitFinish (ok : Bool) (l : Lookup) : Lookup × Bool :=
  match l.req with
  | none => (l.fault, false)
  | some req =>
    let (startState, pending) := rnAsyncStateFinish req.startState ok
    let l := { l with req := some { req with startState } }
    if !pending then (rnDnsReqRelease l, ok) else ({ l with id := true }, true)

/-- `rn_resolve_srv` and `rn_resolve_addrs` up to `rn_resolve_name_start`, and whether they get
there. -/
def rnResolvePrepare : LookupKind → StartEnv → Bytes → Lookup × Bool
  | .srv, env, name =>
    rnResolveBegin .srv env name fun l =>
      match splitService name with
      | none => (submitCtx .srv name [] l, true)
      | some (service, domain) =>
        if !env.allocService then (rnDnsDiscardUnstarted true l, false)
        else
          let l := l.mapReq ({ · with serviceBuf := some service })
          let l := { l with bufAllocs := l.bufAllocs + 1 }
          if !env.allocDomain then (rnDnsDiscardUnstarted true l, false)
          else
            let l := l.mapReq ({ · with nameBuf := some domain })
            let l := { l with bufAllocs := l.bufAllocs + 1, bufFrees := l.bufFrees + 1 }
            (submitCtx .srv domain service l, true)
  | .addr, env, name =>
    rnResolveBegin .addr env name fun l => (submitCtx .addr name [] l, true)

/-! ## Scripts -/

/-- What the client does at one point : starts and cancellations, each with what it does inside
the callback this brings about. -/
inductive Script where
  | done
  | start (kind : LookupKind) (env : StartEnv) (name : Bytes) (inner rest : Script)
  | cancel (i : ℕ) (reaction : Reaction) (inner rest : Script)

/-- The client may use an id of a lookup that has not called it back, and of one whose callback
is running. -/
def Lookup.cancellable (l : Lookup) : Bool :=
  !l.id || l.callbacks.isEmpty || l.rctx.isSome

section Calls

variable (react : List (Lookup × Bool) → List (Lookup × Bool))

/-- nginx answers lookup `i`, and `react` runs inside the callback. -/
def answerIn (i : ℕ) (a : Answer) (ls : List (Lookup × Bool)) : List (Lookup × Bool) :=
  match ls[i]? with
  | none => ls
  | some p =>
    let ls := ls.set i ((p.1.answerEnter a).1, p.2)
    if (p.1.answerEnter a).2 then (react ls).modify i (Prod.map handlerLeave id) else ls

/-- The client cancels lookup `i`, and `react` runs inside the callback. -/
def cancelIn (i : ℕ) (ρ : Reaction) (ls : List (Lookup × Bool)) : List (Lookup × Bool) :=
  match ls[i]? with
  | none => ls
  | some p =>
    if !p.1.cancellable then ls
    else
      let ls := ls.set i (clientCancel ρ.react p.1, p.2)
      if p.1.cancelCalls then react ls else ls

/-- The client starts a lookup, and `react` runs inside the callback if nginx answers at once. -/
def startIn (kind : LookupKind) (env : StartEnv) (name : Bytes) (ls : List (Lookup × Bool)) :
    List (Lookup × Bool) :=
  match rnResolvePrepare kind env name with
  | (l, false) => ls ++ [(l, false)]
  | (l, true) =>
    match env.resolution with
    | .error => ls ++ [submitFinish false (ngxResolveNameDone l)]
    | .pending => ls ++ [submitFinish true l]
    | .sync answer =>
      (answerIn react ls.length answer (ls ++ [(l, false)])).modify ls.length
        fun p => submitFinish true p.1

end Calls

/-- A script runs. -/
def Script.run : Script → List (Lookup × Bool) → List (Lookup × Bool)
  | .done, ls => ls
  | .start kind env name inner rest, ls => rest.run (startIn inner.run kind env name ls)
  | .cancel i ρ inner rest, ls => rest.run (cancelIn inner.run i ρ ls)

/-! ## Runs -/

/-- What can happen to the lookups of a worker. -/
inductive NestedEvent where
  /-- The client acts. -/
  | client (script : Script)
  /-- nginx answers. -/
  | handler (i : ℕ) (answer : Answer) (inner : Script)

/-- nginx answers with a context it holds. -/
def NestedEvent.Enabled (ls : List (Lookup × Bool)) : NestedEvent → Prop
  | .client _ => True
  | .handler i _ _ => ∃ p ∈ ls[i]?, p.1.rctx.isSome = true

instance NestedEvent.decidableEnabled (ls : List (Lookup × Bool)) :
    (e : NestedEvent) → Decidable (e.Enabled ls)
  | .client _ => inferInstanceAs (Decidable True)
  | .handler i _ _ => inferInstanceAs (Decidable (∃ p ∈ ls[i]?, p.1.rctx.isSome = true))

/-- The lookups of a worker, with callbacks inside callbacks. -/
def nested : Machine (List (Lookup × Bool)) NestedEvent where
  enabled := fun ls e => e.Enabled ls
  next := fun ls e =>
    match e with
    | .client script => script.run ls
    | .handler i answer inner => answerIn inner.run i answer ls

instance nested.decidableEnabled (ls : List (Lookup × Bool)) (e : NestedEvent) :
    Decidable (nested.enabled ls e) :=
  inferInstanceAs (Decidable (e.Enabled ls))

/-- `r_client_destroy` on the lookups : the client cancels what it still has an id of, and does
nothing inside the callbacks. -/
def clientDestroy (ls : List (Lookup × Bool)) : List (Lookup × Bool) :=
  (List.range ls.length).foldl (fun ls i => cancelIn id i .done ls) ls

/-! ## The halves together -/

theorem rnResolveHandler_split (cb : LookupKind) (status : DnsStatus) (ρ : Reaction)
    (l : Lookup) : rnResolveHandler cb status ρ l =
      if (handlerEnter cb status ρ l).2 then handlerLeave (handlerEnter cb status ρ l).1
      else (handlerEnter cb status ρ l).1 := by
  unfold rnResolveHandler handlerEnter
  cases l.rctx with
  | none => rfl
  | some rctx =>
    by_cases hdata : (!rctx.data) = true
    · simp only [if_pos hdata, Bool.false_eq_true, if_false]
    · simp only [if_neg hdata]
      cases l.req with
      | none => rfl
      | some req =>
        by_cases hcb : req.cb ≠ cb
        · simp only [if_pos hcb, Bool.false_eq_true, if_false]
        · simp only [if_neg hcb, if_true]
          rfl

theorem Lookup.answer_split (a : Answer) (l : Lookup) : l.answer a =
    if (l.answerEnter a).2 then handlerLeave (l.answerEnter a).1 else (l.answerEnter a).1 := by
  unfold Lookup.answer Lookup.answerEnter
  cases l.rctx.bind (·.handler) with
  | none => rfl
  | some kind =>
    cases kind with
    | srv => exact rnResolveHandler_split .srv _ _ l
    | addr => exact rnResolveHandler_split .addr _ _ l

/-- What comes behind the shared part may come behind it whole. -/
theorem rnResolveBegin_split {kind : LookupKind} {env : StartEnv} {name : Bytes}
    {submit prepare : Lookup → Lookup × Bool} {F : Lookup → Lookup × Bool}
    (h : ∀ l, submit l = if (prepare l).2 then F (prepare l).1 else prepare l) :
    rnResolveBegin kind env name submit =
      if (rnResolveBegin kind env name prepare).2 then
        F (rnResolveBegin kind env name prepare).1
      else rnResolveBegin kind env name prepare := by
  unfold rnResolveBegin
  cases env.arguments with
  | false => rfl
  | true =>
    cases env.resolveStart with
    | false => rfl
    | true =>
      cases env.allocReq with
      | false => rfl
      | true =>
        cases env.allocName with
        | false => rfl
        | true => exact h _

/-- A call is its part up to `rn_resolve_name_start`, and the rest. -/
theorem rnResolve_split (kind : LookupKind) (env : StartEnv) (name : Bytes) :
    rnResolve kind env name =
      if (rnResolvePrepare kind env name).2 then
        submitFinish (rnResolveNameStart env.resolution (rnResolvePrepare kind env name).1).2
          (rnResolveNameStart env.resolution (rnResolvePrepare kind env name).1).1
      else rnResolvePrepare kind env name := by
  cases kind with
  | addr =>
    exact rnResolveBegin_split (F := fun l => submitFinish (rnResolveNameStart env.resolution l).2
      (rnResolveNameStart env.resolution l).1) fun l => rfl
  | srv =>
    simp only [rnResolve, rnResolveSrv, rnResolvePrepare]
    refine rnResolveBegin_split (F := fun l => submitFinish (rnResolveNameStart env.resolution l).2
      (rnResolveNameStart env.resolution l).1) fun l => ?_
    cases splitService name with
    | none => rfl
    | some parts =>
      cases env.allocService with
      | false => rfl
      | true =>
        cases env.allocDomain with
        | false => rfl
        | true => rfl

/-! ## A lookup whose callback is running -/

/-- The context is detached from the request, and both are in the hands of the handler. -/
def Lookup.Busy (l : Lookup) : Prop :=
  ∃ rctx, l.rctx = some rctx ∧ rctx.data = false

section Halves

variable {l : Lookup} {kind : LookupKind}

/-- The callback runs while the handler has the lookup in hand. -/
theorem handlerEnter_busy {req : DnsReq} {rctx : ResolverCtx} (hreq : l.req = some req)
    (hrctx : l.rctx = some rctx) (hdata : rctx.data = true) (status : DnsStatus) (ρ : Reaction) :
    (handlerEnter req.cb status ρ l).2 = true ∧ (handlerEnter req.cb status ρ l).1.Busy ∧
      ((handlerEnter req.cb status ρ l).1.id = true → l.id = true) := by
  have hdetach := Lookup.detach_eq hreq hrctx
  have hbusy : Lookup.Busy { l.detach with callbacks := l.callbacks ++ [(req.cb, status)] } :=
    ⟨_, by rw [hdetach], rfl⟩
  obtain ⟨b, hreact, hb⟩ := react_spent ρ fun _ => hbusy
  have henter : handlerEnter req.cb status ρ l =
      ({ l.detach with callbacks := l.callbacks ++ [(req.cb, status)], id := b }, true) := by
    rw [← hreact, handlerEnter, hrctx]
    simp [hdata, hreq, Lookup.callback, hdetach]
  rw [henter]
  refine ⟨rfl, hbusy, fun hid => ?_⟩
  rw [hdetach] at hb
  exact hb hid

theorem Lookup.Waits.answerEnter {starting : Bool} (h : l.Waits starting) (a : Answer) :
    (l.answerEnter a).2 = true ∧ (l.answerEnter a).1.Busy ∧
      ((l.answerEnter a).1.id = true → l.id = true) := by
  obtain ⟨req, hreq, hcb, -⟩ := h.req
  obtain ⟨rctx, hrctx, hhandler, hdata⟩ := h.rctx
  have hbind : l.rctx.bind (·.handler) = some l.kind := by simp [hrctx, hhandler]
  rw [Lookup.answerEnter, hbind, ← hcb]
  have hbusy := handlerEnter_busy hreq hrctx hdata
  cases hkind : req.cb with
  | srv =>
    rw [hkind] at hbusy
    exact hbusy a.srvStatus a.reaction
  | addr =>
    rw [hkind] at hbusy
    exact hbusy a.addrStatus a.reaction

/-- The handler does not look at the id. -/
theorem handlerLeave_id (l : Lookup) (b : Bool) :
    handlerLeave { l with id := b } = { handlerLeave l with id := b } := by
  obtain ⟨kind, req, rctx⟩ := l
  cases rctx <;> cases req <;>
    simp only [handlerLeave, ngxResolveNameDone, Lookup.fault, rnDnsReqRelease]
  all_goals split <;> rfl

/-- What is given to nginx waits. -/
theorem Lookup.Unstarted.submitCtx (h : l.Unstarted) (hkind : l.kind = kind)
    (name service : Bytes) :
    (RlNginx.submitCtx kind name service l).Waits true ∧
      (RlNginx.submitCtx kind name service l).id = false := by
  subst hkind
  obtain ⟨req, hreq, hcb, hbufs⟩ := h.req
  obtain ⟨rctx, hrctx⟩ := h.rctx
  have hsubmit : RlNginx.submitCtx l.kind name service l = l.submitted req name service := by
    simp [RlNginx.submitCtx, Lookup.mapCtx, Lookup.mapReq, hreq, hrctx, Lookup.submitted,
      rnAsyncStateBegin]
  rw [hsubmit]
  refine ⟨?_, h.id⟩
  exact {
    req := ⟨_, rfl, hcb, rfl, hbufs⟩
    rctx := ⟨_, rfl, rfl, rfl⟩
    reqs := h.reqs
    ctxs := h.ctxs
    callbacks := h.callbacks
    faults := h.faults }

/-- A start that gets past the shared part. -/
theorem rnResolveBegin_reached {env : StartEnv} {name : Bytes}
    {prepare : Lookup → Lookup × Bool} (h : (rnResolveBegin kind env name prepare).2 = true) :
    rnResolveBegin kind env name prepare = prepare (Lookup.begun kind name) := by
  unfold rnResolveBegin at h ⊢
  cases harguments : env.arguments with
  | false => simp [harguments] at h
  | true =>
    cases hstart : env.resolveStart with
    | false => simp [harguments, hstart] at h
    | true =>
      cases hreq : env.allocReq with
      | false => simp [harguments, hstart, hreq] at h
      | true =>
        cases hname : env.allocName with
        | false => simp [harguments, hstart, hreq, hname] at h
        | true => rfl

/-- A start that gets to `rn_resolve_name_start` hands over a lookup that waits. -/
theorem rnResolvePrepare_waits {env : StartEnv} {name : Bytes}
    (h : (rnResolvePrepare kind env name).2 = true) :
    (rnResolvePrepare kind env name).1.Waits true ∧
      (rnResolvePrepare kind env name).1.id = false := by
  have hbegun := Lookup.begun_unstarted kind name
  cases kind with
  | addr =>
    have hprepare := rnResolveBegin_reached h
    rw [rnResolvePrepare, hprepare]
    exact hbegun.submitCtx rfl name []
  | srv =>
    have hprepare := rnResolveBegin_reached h
    rw [rnResolvePrepare] at h ⊢
    rw [hprepare] at h ⊢
    cases hsplit : splitService name with
    | none => exact hbegun.submitCtx rfl name []
    | some parts =>
      simp only [hsplit] at h ⊢
      cases hservice : env.allocService with
      | false => simp [hservice] at h
      | true =>
        cases hdomain : env.allocDomain with
        | false => simp [hservice, hdomain] at h
        | true =>
          have hunstarted : Lookup.Unstarted { Lookup.begun .srv name with
              req := some ⟨.srv, some parts.2, some parts.1, .zero⟩
              bufAllocs := 3
              bufFrees := 1 } := { hbegun with req := ⟨_, rfl, rfl, rfl⟩ }
          exact hunstarted.submitCtx rfl parts.2 parts.1

end Halves

/-! ## What a script leaves alone -/

/-- A lookup that is owned stays owned, and one whose callback is running keeps all but its id,
which the client may give up. -/
def KeepsLookup (p p' : Lookup × Bool) : Prop :=
  (Owned p → Owned p') ∧
    (p.1.Busy → ∃ b, p' = ({ p.1 with id := b }, p.2) ∧ (b = true → p.1.id = true))

theorem keepsLookup_refl (p : Lookup × Bool) : KeepsLookup p p :=
  ⟨id, fun _ => ⟨p.1.id, rfl, id⟩⟩

theorem keepsLookup_trans (p p' p'' : Lookup × Bool) (h : KeepsLookup p p')
    (h' : KeepsLookup p' p'') : KeepsLookup p p'' := by
  refine ⟨h'.1 ∘ h.1, fun hbusy => ?_⟩
  obtain ⟨b, rfl, hb⟩ := h.2 hbusy
  obtain ⟨b', rfl, hb'⟩ := h'.2 hbusy
  exact ⟨b', rfl, hb ∘ hb'⟩

theorem keepsLookup_owned (p p' : Lookup × Bool) (h : KeepsLookup p p') : Owned p → Owned p' :=
  h.1

/-- An id that is not there cannot be given up. -/
theorem KeepsLookup.eq_of_no_id {l : Lookup} {ok : Bool} {p' : Lookup × Bool}
    (h : KeepsLookup (l, ok) p') (hbusy : l.Busy) (hid : l.id = false) : p' = (l, ok) := by
  obtain ⟨b, rfl, hb⟩ := h.2 hbusy
  have hfalse : b = false :=
    Bool.eq_false_iff.mpr fun htrue => absurd ((hb htrue).symm.trans hid) (by decide)
  rw [hfalse, ← hid]

/-- Every lookup is kept, and the new ones are owned. -/
def Undisturbed : List (Lookup × Bool) → List (Lookup × Bool) → Prop :=
  Growth KeepsLookup Owned

theorem Undisturbed.trans {ls ls' ls'' : List (Lookup × Bool)} (h : Undisturbed ls ls')
    (h' : Undisturbed ls' ls'') : Undisturbed ls ls'' :=
  Growth.trans keepsLookup_trans keepsLookup_owned h h'

/-- A lookup whose callback is running is neither pending nor over. -/
theorem Lookup.Busy.not_owned {p : Lookup × Bool} (h : p.1.Busy) : ¬Owned p := by
  obtain ⟨rctx, hrctx, hdata⟩ := h
  rintro (⟨hended, -⟩ | ⟨-, hwaits, -⟩)
  · rw [hended.rctx] at hrctx
    cases hrctx
  · obtain ⟨rctx', hrctx', -, hdata'⟩ := hwaits.rctx
    obtain rfl : rctx = rctx' := Option.some.inj (hrctx.symm.trans hrctx')
    rw [hdata] at hdata'
    cases hdata'

section Reactions

variable {react : List (Lookup × Bool) → List (Lookup × Bool)}

/-- A cancellation leaves the other lookups alone, and those whose callback is running. -/
theorem cancelIn_undisturbed (hreact : ∀ ls, Undisturbed ls (react ls)) (i : ℕ) (ρ : Reaction)
    (ls : List (Lookup × Bool)) : Undisturbed ls (cancelIn react i ρ ls) := by
  unfold cancelIn
  cases hp : ls[i]? with
  | none => exact Growth.refl keepsLookup_refl ls
  | some p =>
    dsimp only
    cases hallowed : p.1.cancellable with
    | false => exact Growth.refl keepsLookup_refl ls
    | true =>
      have hkeep : KeepsLookup p (clientCancel ρ.react p.1, p.2) := by
        refine ⟨fun howned => .inl (howned.cancel (fun hid => ?_) ρ), fun hbusy => ?_⟩
        · -- an owned lookup with a context has not called back
          rcases howned with ⟨hended, -⟩ | ⟨-, hwaits, -⟩
          · simpa [Lookup.cancellable, hid, hended.rctx] using hallowed
          · exact hwaits.callbacks
        · rw [clientCancel_spent ρ.react fun _ => hbusy]
          exact ⟨false, rfl, by simp⟩
      have hset : Undisturbed ls _ := Growth.set keepsLookup_refl hp hkeep
      simp only [Bool.not_true, Bool.false_eq_true, if_false]
      split_ifs
      · exact hset.trans (hreact _)
      · exact hset

/-- An answer to a lookup that waits leaves the others alone, and makes of this one what it
makes of it without them, beside the id. -/
theorem answerIn_waits {starting : Bool} {i : ℕ} {ls : List (Lookup × Bool)} {p : Lookup × Bool}
    (hreact : ∀ ls, Undisturbed ls (react ls)) (hp : ls[i]? = some p)
    (hwaits : p.1.Waits starting) (a : Answer) :
    ∃ ls' e, Undisturbed (ls.set i (e, p.2)) ls' ∧ e.Busy ∧ (e.id = true → p.1.id = true) ∧
      p.1.answer a = handlerLeave e ∧
      answerIn react i a ls = ls'.modify i (Prod.map handlerLeave id) := by
  obtain ⟨hcall, hbusy, hid⟩ := hwaits.answerEnter a
  refine ⟨react (ls.set i ((p.1.answerEnter a).1, p.2)), (p.1.answerEnter a).1, hreact _, hbusy,
    hid, ?_, ?_⟩
  · rw [Lookup.answer_split, if_pos hcall]
  · simp only [answerIn, hp, if_pos hcall]

/-- What the handler leaves of a lookup whose callback ran. -/
theorem leave_kept {e l' : Lookup} {ok : Bool} {p' : Lookup × Bool} (hbusy : e.Busy)
    (hl : l' = handlerLeave e) (hkeep : KeepsLookup (e, ok) p') :
    ∃ b, Prod.map handlerLeave id p' = ({ l' with id := b }, ok) ∧ (b = true → e.id = true) := by
  obtain ⟨b, rfl, hb⟩ := hkeep.2 hbusy
  refine ⟨b, ?_, hb⟩
  rw [hl, ← handlerLeave_id]
  rfl

end Reactions

section Steps

variable {react : List (Lookup × Bool) → List (Lookup × Bool)} {ls : List (Lookup × Bool)}
  {i : ℕ} {p : Lookup × Bool}

/-- An answer to a pending lookup leaves the others alone. -/
theorem answerIn_undisturbed (hreact : ∀ ls, Undisturbed ls (react ls)) (hp : ls[i]? = some p)
    (howned : Owned p) (hrctx : p.1.rctx.isSome = true) (a : Answer) :
    Undisturbed ls (answerIn react i a ls) ∧
      ∃ l, (answerIn react i a ls)[i]? = some (l, true) ∧ l.Ended true := by
  obtain ⟨hok, hended⟩ := howned.handler hrctx a
  have hwaits : p.1.Waits false := by
    rcases howned with ⟨hover, -⟩ | ⟨-, hwaits, -⟩
    · rw [hover.rctx] at hrctx
      cases hrctx
    · exact hwaits
  obtain ⟨ls', e, hgrowth, hbusy, -, hleave, heq⟩ := answerIn_waits hreact hp hwaits a
  obtain ⟨hlt, -⟩ := List.getElem?_eq_some_iff.mp hp
  rw [heq]
  refine ⟨Growth.around hp hgrowth fun p' hkeep => ?_, ?_⟩
  · obtain ⟨b, hb, -⟩ := leave_kept hbusy hleave hkeep
    rw [hb, hok]
    exact ⟨fun _ => .inl ⟨{ hended with }, by simp⟩, fun hbusy' => absurd howned hbusy'.not_owned⟩
  · obtain ⟨p', hp', hkeep⟩ := hgrowth.kept i (e, p.2) (List.getElem?_set_self hlt)
    obtain ⟨b, hb, -⟩ := leave_kept hbusy hleave hkeep
    refine ⟨{ p.1.answer a with id := b }, ?_, { hended with }⟩
    rw [List.getElem?_modify_eq, hp', ← hok, ← hb]
    rfl

/-- A start leaves the other lookups alone, and adds one that is owned. -/
theorem startIn_undisturbed (hreact : ∀ ls, Undisturbed ls (react ls)) (kind : LookupKind)
    (env : StartEnv) (name : Bytes) (ls : List (Lookup × Bool)) :
    Undisturbed ls (startIn react kind env name ls) := by
  have howned := (rnResolve_left kind env name).owned
  have hsplit := rnResolve_split kind env name
  have hwaits : (rnResolvePrepare kind env name).2 = true → _ := rnResolvePrepare_waits
  rcases hprepare : rnResolvePrepare kind env name with ⟨l, _ | _⟩
  · have heq : rnResolve kind env name = (l, false) := by rw [hsplit, hprepare]; rfl
    rw [heq] at howned
    simp only [startIn, hprepare]
    exact Growth.append keepsLookup_refl ls howned
  rw [hprepare] at hwaits
  obtain ⟨hwaits, hid⟩ : l.Waits true ∧ l.id = false := hwaits rfl
  have heq : rnResolve kind env name = submitFinish (rnResolveNameStart env.resolution l).2
      (rnResolveNameStart env.resolution l).1 := by rw [hsplit, hprepare]; rfl
  rw [heq] at howned
  simp only [startIn, hprepare]
  cases hresolution : env.resolution with
  | error =>
    rw [hresolution] at howned
    exact Growth.append keepsLookup_refl ls howned
  | pending =>
    rw [hresolution] at howned
    exact Growth.append keepsLookup_refl ls howned
  | sync answer =>
    rw [hresolution] at howned
    have hp : (ls ++ [(l, false)])[ls.length]? = some (l, false) := List.getElem?_concat_length
    obtain ⟨ls', e, hgrowth, hbusy, hgiven, hleave, heq⟩ := answerIn_waits hreact hp hwaits answer
    -- no id is published while the start runs, so the client has none to give up
    have hheld : e.id = false :=
      Bool.eq_false_iff.mpr fun he => absurd ((hgiven he).symm.trans hid) (by decide)
    have hset : (ls ++ [(l, false)]).set ls.length (e, false) = ls ++ [(e, false)] := by simp
    rw [hset] at hgrowth
    dsimp only
    rw [heq, List.modify_modify_eq]
    refine Growth.append_around hgrowth fun p' hkeep => ?_
    obtain rfl : p' = (e, false) := hkeep.eq_of_no_id hbusy hheld
    rw [Function.comp_apply, Prod.map_apply, ← hleave]
    exact howned

/-- Every script leaves the lookups alone. -/
theorem Script.undisturbed : ∀ (s : Script) (ls : List (Lookup × Bool)),
    Undisturbed ls (s.run ls)
  | .done, ls => Growth.refl keepsLookup_refl ls
  | .start kind env name inner rest, ls =>
    (startIn_undisturbed inner.undisturbed kind env name ls).trans (rest.undisturbed _)
  | .cancel i ρ inner rest, ls =>
    (cancelIn_undisturbed inner.undisturbed i ρ ls).trans (rest.undisturbed _)

end Steps

/-! ## Nothing inside the callbacks -/

/-- A cancellation in whose callback the client does nothing to other lookups. -/
def cancelledBy (ρ : Reaction) (p : Lookup × Bool) : Lookup × Bool :=
  if p.1.cancellable then (clientCancel ρ.react p.1, p.2) else p

theorem cancelIn_id (i : ℕ) (ρ : Reaction) (ls : List (Lookup × Bool)) :
    cancelIn id i ρ ls = ls.modify i (cancelledBy ρ) := by
  unfold cancelIn
  cases hp : ls[i]? with
  | none => exact (List.modify_eq_self (List.getElem?_eq_none_iff.mp hp)).symm
  | some p =>
    obtain ⟨hlt, rfl⟩ := List.getElem?_eq_some_iff.mp hp
    rw [List.modify_eq_set_getElem?, hp]
    change _ = ls.set i (cancelledBy ρ ls[i])
    unfold cancelledBy
    cases hallowed : (ls[i]).1.cancellable with
    | false => simp [hallowed]
    | true => simp [hallowed]

theorem answerIn_id (i : ℕ) (a : Answer) (ls : List (Lookup × Bool)) :
    answerIn id i a ls = ls.modify i (Prod.map (Lookup.answer a) id) := by
  unfold answerIn
  cases hp : ls[i]? with
  | none => exact (List.modify_eq_self (List.getElem?_eq_none_iff.mp hp)).symm
  | some p =>
    rw [List.modify_eq_set_getElem?, hp]
    change _ = ls.set i (p.1.answer a, p.2)
    rw [Lookup.answer_split]
    cases hcall : (p.1.answerEnter a).2 with
    | false => simp [hcall]
    | true =>
      obtain ⟨hlt, -⟩ := List.getElem?_eq_some_iff.mp hp
      simp [hcall, List.modify_eq_set_getElem?, hlt]

theorem startIn_id (kind : LookupKind) (env : StartEnv) (name : Bytes)
    (ls : List (Lookup × Bool)) :
    startIn id kind env name ls = ls ++ [rnResolve kind env name] := by
  rw [rnResolve_split]
  unfold startIn
  rcases rnResolvePrepare kind env name with ⟨l, _ | _⟩
  · rfl
  · cases env.resolution with
    | error => rfl
    | pending => rfl
    | sync answer =>
      simp only [answerIn_id]
      rw [List.modify_modify_eq]
      simp [List.modify_eq_set_getElem?, rnResolveNameStart]

/-- An event of `resolver`. -/
def DnsEvent.nest : DnsEvent → NestedEvent
  | .start kind env name => .client (.start kind env name .done .done)
  | .handler i answer => .handler i answer .done
  | .cancel i ρ => .client (.cancel i ρ .done .done)

/-- What the client may cancel in a run of `resolver`, it may cancel here. -/
theorem cancelledBy_eq {p : Lookup × Bool} (h : p.1.id = true → p.1.callbacks = [])
    (ρ : Reaction) : cancelledBy ρ p = Prod.map (clientCancel ρ.react) id p := by
  have hallowed : p.1.cancellable = true := by
    unfold Lookup.cancellable
    cases hid : p.1.id with
    | false => rfl
    | true => simp [h hid]
  rw [cancelledBy, if_pos hallowed]
  rfl

/-- Without scripts, a run is a run of `resolver`. -/
theorem flat_follows {es : List DnsEvent} {ls : List (Lookup × Bool)} (h : Run resolver [] es ls) :
    Run nested [] (es.map DnsEvent.nest) ls := by
  induction h with
  | nil => exact .nil
  | @snoc es ls e _ he ih =>
    rw [List.map_append, List.map_singleton]
    have hnext : nested.next ls e.nest = resolver.next ls e := by
      cases e with
      | start kind env name => exact startIn_id kind env name ls
      | handler i answer => exact answerIn_id i answer ls
      | cancel i ρ =>
        obtain ⟨p, hp, hid⟩ := he
        refine (cancelIn_id i ρ ls).trans ?_
        rw [List.modify_eq_set_getElem?, hp]
        change ls.set i (cancelledBy ρ p) = ls.modify i _
        rw [cancelledBy_eq hid, List.modify_eq_set_getElem?, hp]
        rfl
    rw [← hnext]
    refine .snoc ih ?_
    cases e with
    | start kind env name => trivial
    | handler i answer => exact he
    | cancel i ρ => trivial

/-! ## Shutdown -/

/-- The first lookups are cancelled, one after the other. -/
theorem destroyed_upTo (ls : List (Lookup × Bool)) (n i : ℕ) :
    ((List.range n).foldl (fun ls i => cancelIn id i .done ls) ls)[i]? =
      if i < n then ls[i]?.map (cancelledBy .done) else ls[i]? := by
  induction n with
  | zero => simp
  | succ n ih =>
    rw [List.range_succ, List.foldl_append, List.foldl_cons, List.foldl_nil, cancelIn_id,
      List.getElem?_modify, ih]
    by_cases hi : n = i
    · subst hi
      simp
    · by_cases hlt : i < n
      · simp [hi, hlt, Nat.lt_succ_of_lt hlt]
      · simp [hi, hlt, show ¬i < n + 1 by omega]

/-- A worker that shuts down has no lookup left. -/
theorem destroy_ended {ls : List (Lookup × Bool)} (h : ∀ p ∈ ls, Owned p) :
    (clientDestroy ls).length = ls.length ∧ ∀ p ∈ clientDestroy ls, p.1.Ended p.2 := by
  have hget : ∀ i : ℕ, (clientDestroy ls)[i]? = ls[i]?.map (cancelledBy .done) := by
    intro i
    refine (destroyed_upTo ls ls.length i).trans ?_
    split_ifs with hi
    · rfl
    · rw [List.getElem?_eq_none (by omega)]
      rfl
  have hmap : clientDestroy ls = ls.map (cancelledBy .done) :=
    List.ext_getElem? fun i => (hget i).trans List.getElem?_map.symm
  rw [hmap]
  refine ⟨List.length_map _, fun p' hp' => ?_⟩
  obtain ⟨p, hp, rfl⟩ := List.mem_map.mp hp'
  unfold cancelledBy
  rcases h p hp with ⟨hended, hfailed⟩ | ⟨hok, hwaits, hid⟩
  · cases hallowed : p.1.cancellable with
    | false => exact hended
    | true =>
      have hnone : p.1.id = true → p.1.callbacks = [] := by
        intro hid
        simpa [Lookup.cancellable, hid, hended.rctx] using hallowed
      exact (Owned.cancel (.inl ⟨hended, hfailed⟩) hnone .done).1
  · have hallowed : p.1.cancellable = true := by simp [Lookup.cancellable, hwaits.callbacks]
    rw [if_pos hallowed]
    exact (Owned.cancel (.inr ⟨hok, hwaits, hid⟩) (fun _ => hwaits.callbacks) .done).1

/-! ## Runs -/

/-- Every event keeps every lookup owned. -/
theorem nested_owned {es : List NestedEvent} {ls : List (Lookup × Bool)}
    (h : Run nested [] es ls) : ∀ p ∈ ls, Owned p := by
  refine h.invariant (I := fun ls => ∀ p ∈ ls, Owned p) (by simp) fun ls e hls he => ?_
  cases e with
  | client script => exact Growth.all keepsLookup_owned (script.undisturbed ls) hls
  | handler i answer inner =>
    obtain ⟨p, hp, hrctx⟩ := he
    obtain ⟨hgrowth, -⟩ := answerIn_undisturbed inner.undisturbed hp
      (hls p (List.mem_of_getElem? hp)) hrctx answer
    exact Growth.all keepsLookup_owned hgrowth hls

/-- Whatever the client does inside its callbacks, to any depth, every lookup has ended, with
everything released once and one callback when its call succeeded and none when it failed, or is
pending, with everything still held. An answer ends the lookup it is for, and what the client
does inside its callback disturbs no other. A worker that shuts down ends them all. -/
theorem nested_ownership (es : List NestedEvent) (ls : List (Lookup × Bool))
    (h : Run nested [] es ls) :
    (∀ p ∈ ls, p.1.Ended p.2 ∨ p.2 = true ∧ p.1.Waits false ∧ p.1.id = true) ∧
    (∀ (i : ℕ), ∀ p ∈ ls[i]?, p.1.Waits false → ∀ answer inner,
      nested.enabled ls (.handler i answer inner) ∧
        ∃ l, (nested.next ls (.handler i answer inner))[i]? = some (l, true) ∧ l.Ended true) ∧
    ((clientDestroy ls).length = ls.length ∧ ∀ p ∈ clientDestroy ls, p.1.Ended p.2) := by
  have howned := nested_owned h
  refine ⟨fun p hp => (howned p hp).imp_left And.left, fun i p hp hwaits answer inner => ?_,
    destroy_ended howned⟩
  obtain ⟨rctx, hrctx, -⟩ := hwaits.rctx
  have hsome : p.1.rctx.isSome = true := by rw [hrctx]; rfl
  exact ⟨⟨p, hp, hsome⟩, (answerIn_undisturbed inner.undisturbed hp
    (howned p (List.mem_of_getElem? hp)) hsome answer).2⟩

/-- A lookup is pending when another is answered. Inside that callback the client starts an
address lookup that nginx answers at once, inside whose callback it cancels the pending one and
starts another. -/
def nestedEvents : List NestedEvent :=
  [.client (.start .addr (sampleStart .pending) sampleName .done
      (.start .srv (sampleStart .pending) sampleName .done .done)),
    .handler 1 sampleAnswer
      (.start .addr (sampleStart (.sync sampleAnswer)) sampleName
        (.cancel 0 .done (.cancel 1 .done .done .done)
          (.start .addr (sampleStart .pending) sampleName .done .done)) .done)]

theorem sample_nested :
    (nestedEvents.foldl nested.next []).map
        (fun p => (p.2, p.1.callbacks, p.1.bufAllocs, p.1.faults)) =
      [(true, [(.addr, .errDns)], 1, 0), (true, [(.srv, .ok)], 3, 0), (true, [(.addr, .ok)], 1, 0),
        (true, [], 1, 0)] ∧
    ∀ p ∈ clientDestroy (nestedEvents.foldl nested.next []), p.1.Ended p.2 := by
  have hrun : Run nested [] nestedEvents (nestedEvents.foldl nested.next []) :=
    Run.of_admits (by decide +kernel)
  exact ⟨by decide +kernel, (nested_ownership nestedEvents _ hrun).2.2.2⟩

end RlNginx
