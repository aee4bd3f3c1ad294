import RlNginx.Expansion
import RlNginx.Grammar
import RlNginx.Interleaving
import RlNginx.Reorder
import RlNginx.Reuse

/-!
# What the client is asked

From the text of a configuration to the checks that a worker asks its C client for. A check is
asked for by a run of the handler, in a location of the accepted configuration where admission
is on, and it is what the rules of that location expand to for the values of that request
(`RateCheck.From`). What the client has been given for a request is what the runs of its
handler asked for, in order, less the starts that the client refused (`asked_sublist`).

`RateCheck.InRange` says what the client may count on whatever the configuration and the
request : a check names something, every number has its 32 bits and those that must not be zero
are not. The numbers of a tracker are those of its directive, so they are followed through the
reading of the configuration (`loadConf_trackers`).

nginx runs no phase of a request after its cleanup handlers (`Event.Timely`). So over the whole
run, and not only until the cleanup handlers, at most one check is asked for (`asks_once`).
-/

open Transition Fallible Registry

namespace RlNginx

/-! ## The numbers of a tracker -/

/-- A number of 32 bits that is not zero. -/
def Positive32 (n : ℕ) : Prop :=
  0 < n ∧ n ≤ uint32Max

/-- The settings of a tracker passed the checks of its directive. -/
structure SettingsInRange (ttlMs maxSamples minSampleThreshold : ℕ) : Prop where
  ttl : Positive32 ttlMs
  maxSamples : Positive32 maxSamples
  minSampleThreshold : minSampleThreshold ≤ uint32Max

/-- Every tracker has settings in range. -/
def MainConf.TrackersInRange (m : MainConf) : Prop :=
  ∀ t ∈ m.trackers, SettingsInRange t.ttlMs t.maxSamples t.minSampleThreshold

theorem rnParseProtocolDurationMs_positive {parseTime : Bytes → Option ℕ} {value : Bytes} {ms : ℕ}
    (h : rnParseProtocolDurationMs parseTime value = some ms) : Positive32 ms := by
  unfold rnParseProtocolDurationMs at h
  split_ifs at h
  split at h
  · cases h
  next n hn =>
    unfold rnNumericU32FromU64 at h
    split_ifs at h with hzero hbig
    cases h
    exact ⟨Nat.pos_of_ne_zero hzero, not_lt.mp hbig⟩

theorem trackerArg_inRange {env : ConfEnv} {acc acc' : TrackerArgs} {arg : Bytes}
    (hacc : SettingsInRange acc.ttlMs acc.maxSamples acc.minSampleThreshold)
    (h : trackerArg env acc arg = .ok acc') :
    SettingsInRange acc'.ttlMs acc'.maxSamples acc'.minSampleThreshold := by
  unfold trackerArg at h
  split_ifs at h
  · cases h
    exact hacc
  · split at h
    · cases h
    next ttl httl =>
      cases h
      exact { hacc with ttl := rnParseProtocolDurationMs_positive httl }
  · split at h
    · cases h
    next n hn =>
      split_ifs at h with hzero
      cases h
      exact { hacc with maxSamples :=
        ⟨Nat.pos_of_ne_zero hzero, (rnNumericParseU32_iff.mp hn).2.2.2⟩ }
  · split at h
    · cases h
    next n hn =>
      cases h
      exact { hacc with minSampleThreshold := (rnNumericParseU32_iff.mp hn).2.2.2 }

theorem ngxHttpRnTracker_inRange {env : ConfEnv} {m m' : MainConf} {args : List Bytes}
    (hm : m.TrackersInRange) (h : ngxHttpRnTracker env m args = .ok m') : m'.TrackersInRange := by
  rcases args with _ | ⟨name, args⟩
  · cases h
  obtain ⟨acc, hargs, -, rfl⟩ := ngxHttpRnTracker_ok h
  have hdefaults : SettingsInRange trackerDefaults.ttlMs trackerDefaults.maxSamples
      trackerDefaults.minSampleThreshold :=
    ⟨⟨by decide, by decide⟩, ⟨by decide, by decide⟩, by decide⟩
  have hacc : SettingsInRange acc.ttlMs acc.maxSamples acc.minSampleThreshold :=
    foldlM_invariant (I := fun acc : TrackerArgs =>
      SettingsInRange acc.ttlMs acc.maxSamples acc.minSampleThreshold) hargs hdefaults
      fun _ _ _ _ hacc hstep => trackerArg_inRange hacc hstep
  exact forall_mem_push hm hacc

/-- Only `ratelimitly_tracker` sets the trackers. -/
theorem trackers_set {it : Item} (h : Component.trackers ∈ it.sets) :
    ∃ args, it = .main .tracker args := by
  rcases it with ⟨cmd, args⟩ | parent | ⟨k, cmd, args⟩
  · obtain rfl : cmd = .tracker := by
      cases cmd <;> first | rfl | exact absurd (Set.mem_singleton_iff.mp h) (by decide)
    exact ⟨args, rfl⟩
  · rcases h with h | ⟨k, h⟩ <;> cases h
  · rcases h with h | ⟨h, -⟩ <;> cases h

theorem ConfState.read_trackers {env : ConfEnv} {st st' : ConfState} {it : Item}
    (hst : st.main.TrackersInRange) (h : st.read env it = .ok st') : st'.main.TrackersInRange := by
  rcases Classical.em (Component.trackers ∈ it.sets) with hsets | hsets
  · obtain ⟨args, rfl⟩ := trackers_set hsets
    simp only [ConfState.read] at h
    split at h
    · cases h
    next main hmain =>
    cases h
    exact ngxHttpRnTracker_inRange hst hmain
  · have hread : st.readItem env it = some st' := by rw [ConfState.readItem, h]; rfl
    have hsame : st'.main.trackers = st.main.trackers :=
      (it.footprint env).frame st st' hread .trackers hsets
    rw [MainConf.TrackersInRange, hsame]
    exact hst

/-- An accepted configuration has trackers in range. -/
theorem loadConf_trackers {env : ConfEnv} {items : List Item} {cfg : Config}
    (h : loadConf env items = .ok cfg) : cfg.main.TrackersInRange := by
  obtain ⟨st, hread, hinit, -⟩ := loadConf_spec h
  have hst : st.main.TrackersInRange :=
    foldlM_invariant (I := fun st : ConfState => st.main.TrackersInRange) hread
      (by simp [MainConf.TrackersInRange, ConfState.init, ngxHttpRnCreateMainConf])
      fun _ _ _ _ hst hstep => ConfState.read_trackers hst hstep
  obtain ⟨⟨dns, resolver, hmain⟩, -⟩ := ngxHttpRnInit_spec hinit
  rw [hmain]
  exact hst

/-! ## The numbers of a check -/

/-- A resource has a rate and a window, and costs one token. -/
structure ResourceRequest.InRange (e : ResourceRequest) : Prop where
  rate : Positive32 e.rateLimit
  window : Positive32 e.windowSizeMs
  tokens : e.tokensRequested = 1

/-- A guard has a threshold, and the settings of a tracker. -/
structure LatencyGuard.InRange (e : LatencyGuard) : Prop where
  threshold : Positive32 e.thresholdMs
  settings : SettingsInRange e.ttlMs e.maxSamples e.minSampleThreshold

/-- A check names something, its numbers are in range, and its label fits. -/
structure RateCheck.InRange (check : RateCheck) : Prop where
  names : check.resources ≠ [] ∨ check.guards ≠ []
  resources : ∀ e ∈ check.resources, e.InRange
  guards : ∀ e ∈ check.guards, e.InRange
  label : check.label.length ≤ rnMaxLabelLen

/-- What each entry of a list has by its partner in another. -/
theorem forall_mem_of_forall₂ {α β : Type*} {R : α → β → Prop} {P : β → Prop}
    (hP : ∀ a b, R a b → P b) {l : List α} {l' : List β} (h : List.Forall₂ R l l') :
    ∀ b ∈ l', P b := by
  have hflip : List.Forall₂ (flip R) l' l := List.Forall₂.flip h
  exact ((List.forall₂_and_left l' l).mp (hflip.imp fun b a hab => ⟨hP a b hab, hab⟩)).1

section InRange

variable {mcf : MainConf} {env : ReqEnv} {lcf : LocConf}

theorem IsRate.positive {data : Bytes} {rate window : ℕ} (h : IsRate data rate window) :
    Positive32 rate ∧ Positive32 window := by
  obtain ⟨D, P, U, factor, -, -, -, hunit, ⟨-, hrate, hrate'⟩, -, ⟨hwindow, hwindow'⟩⟩ := h
  refine ⟨⟨hrate, hrate'⟩, ?_, hwindow'⟩
  rw [← hwindow]
  exact Nat.mul_pos (lt_of_lt_of_le Nat.one_pos (le_max_right _ _)) (periodUnits_pos hunit).2

theorem IsResource.inRange {zone : Zone} {e : ResourceRequest} (h : IsResource env zone e) :
    e.InRange := by
  obtain ⟨text, -, hparse⟩ := h.rate
  obtain ⟨hrate, hwindow⟩ := (rnNumericParseRate_iff.mp hparse).positive
  exact ⟨hrate, hwindow, h.tokens⟩

theorem IsGuard.inRange (hm : mcf.TrackersInRange) {guard : Guard} {e : LatencyGuard}
    (h : IsGuard env mcf guard e) : e.InRange := by
  obtain ⟨text, -, hparse⟩ := h.threshold
  obtain ⟨tracker, htracker, httl, hmax, hmin, -⟩ := h.tracker
  have hsettings := hm tracker.val (List.mem_of_getElem? (find_spec htracker).1)
  rw [← httl, ← hmax, ← hmin] at hsettings
  exact ⟨rnParseProtocolDurationMs_positive hparse, hsettings⟩

theorem renderLabel_length {label : Bytes} (h : renderLabel env lcf = .ok label) :
    label.length ≤ rnMaxLabelLen := by
  unfold renderLabel at h
  split_ifs at h
  · split at h
    · cases h
    · split_ifs at h with hlong
      cases h
      exact not_lt.mp hlong
  · cases h
    exact Nat.zero_le _

/-- A check that rules expand to is in range, once the rules name something. -/
theorem RateCheck.Expands.inRange {check : RateCheck} (h : check.Expands mcf env lcf)
    (hm : mcf.TrackersInRange) (hnames : zoneNames mcf (lcf.rules.getD []) ≠ [] ∨
      guardNames (lcf.rules.getD []) ≠ []) : check.InRange := by
  obtain ⟨refs, hfinds, hbuilt⟩ := h.guards
  refine ⟨hnames.imp ?_ ?_, ?_, ?_, renderLabel_length h.label⟩
  · intro hne hnil
    have hlen := h.resources.length_eq
    rw [hnil] at hlen
    exact hne (List.eq_nil_of_length_eq_zero hlen)
  · intro hne hnil
    have hlen := hbuilt.length_eq
    rw [hnil] at hlen
    have hrefs : refs = [] := by
      have hdups := List.eq_nil_of_length_eq_zero hlen
      rcases refs with _ | ⟨g, refs⟩
      · rfl
      · rw [List.eraseDups_cons] at hdups
        cases hdups
    have hlen' := hfinds.length_eq
    rw [hrefs] at hlen'
    exact hne (List.eq_nil_of_length_eq_zero hlen')
  · refine forall_mem_of_forall₂ ?_ h.resources
    rintro name e ⟨zone, -, hzone⟩
    exact hzone.inRange
  · exact forall_mem_of_forall₂ (fun _ _ hguard => hguard.inRange hm) hbuilt

/-- A check that passes the preflight names something. -/
theorem rnPreflight_names {check : RateCheck} (h : rnPreflight mcf lcf env = .ok check) :
    zoneNames mcf (lcf.rules.getD []) ≠ [] ∨ guardNames (lcf.rules.getD []) ≠ [] := by
  simp only [rnPreflight] at h
  split_ifs at h
  split at h
  · cases h
  next total refs hcount =>
  split_ifs at h with hempty
  obtain ⟨-, hout⟩ := countRules_ok_iff.mp hcount
  obtain ⟨rfl, rfl⟩ := Prod.mk.inj hout
  by_contra hnone
  rw [not_or, not_not, not_not] at hnone
  exact hempty ⟨by simp [hnone.1], by simp [hnone.2]⟩

end InRange

/-! ## What the client has been given -/

/-- The requests of the client, in order; none before there is one. -/
def Proc.asked (p : Proc) : List ClientReq :=
  (p.client.map (·.requests)).getD []

/-- Those for request `i`. -/
def Proc.askedFor (p : Proc) (i : ℕ) : List RateCheck :=
  (p.asked.filter (·.user = i)).map (·.check)

/-- The checks that the runs of the handler of request `i` asked for. -/
def World.calls (w : World) (i : ℕ) : List RateCheck :=
  ((w.reqs[i]?).map (·.startCalls)).getD []

section Asked

variable {s : Setup} {p : Proc}

theorem asked_congr {p' : Proc} (h : p'.client = p.client) : p'.asked = p.asked := by
  rw [Proc.asked, Proc.asked, h]

theorem asked_retire (p : Proc) (q : ℕ) (how : Retirement) :
    (p.mapClient (·.retire q how)).asked = p.asked := by
  rw [Proc.asked, Proc.asked, Proc.client_mapClient]
  cases p.client <;> rfl

theorem asked_start {cl : Client} (h : p.client = some cl) (i : ℕ) (check : RateCheck) :
    (p.mapClient (·.start i check)).asked = p.asked ++ [⟨i, check⟩] := by
  rw [Proc.asked, Proc.asked, Proc.client_mapClient, h]
  rfl

theorem rnWorkerEnsure_asked (mcf : MainConf) (bind : Option AddressFamily) (env : InitEnv)
    (p : Proc) : (rnWorkerEnsure mcf bind env p).1.asked = p.asked := by
  rcases rnWorkerEnsure_worker mcf bind env p with h | ⟨hnone, udp, h⟩
  · exact asked_congr (by rw [Proc.client, Proc.client, h])
  · simp [Proc.asked, Proc.client, h, hnone, Client.create]

theorem rnEnsured_asked (s : Setup) (env : InitEnv) (p : Proc) :
    (rnEnsured s env p).1.asked = p.asked := by
  unfold rnEnsured
  split_ifs
  · exact rnWorkerEnsure_asked ..
  · rfl

theorem rnRequestTeardown_asked (completed : Option ℕ) (cancel : Bool) (l : Live) :
    (rnRequestTeardown completed cancel l).proc.asked = l.proc.asked := by
  have hcancel : l.cancelRequest.asked = l.proc.asked := by
    unfold Live.cancelRequest
    split
    · split_ifs
      · exact asked_retire ..
      · rfl
    · rfl
  unfold rnRequestTeardown
  split
  · rfl
  · cases cancel
    · exact asked_congr (landWorker_client l.ctx l.proc)
    · exact (asked_congr (landWorker_client l.ctx l.cancelRequest)).trans hcancel

/-! ## A run of the handler -/

/-- A run of the handler asks for nothing, or for the check that its rules expand to, and then
the client may refuse it. -/
inductive Admitted.Asks (s : Setup) (lcf : LocConf) (env : HandlerEnv) (i : ℕ) (p : Proc)
    (a : Admitted) : Prop where
  | nothing : a.call = none → a.live.proc.asked = p.asked → Asks s lcf env i p a
  | check {check : RateCheck} : lcf.admission = true →
      rnPreflight s.conf.main lcf env.values = .ok check → a.call = some check →
      (a.live.proc.asked = p.asked ∨ a.live.proc.asked = p.asked ++ [⟨i, check⟩]) →
      Asks s lcf env i p a

theorem rnStart_asked {cl : Client} (hcl : p.client = some cl) (mcf : MainConf) (env : HandlerEnv)
    (i : ℕ) (check : RateCheck) (n : ℕ) (x : ReqCtx) :
    (rnStart mcf env i cl check ⟨p, n, x⟩).live.proc.asked = p.asked ∨
      (rnStart mcf env i cl check ⟨p, n, x⟩).live.proc.asked = p.asked ++ [⟨i, check⟩] := by
  have hstart := asked_start hcl i check
  have hpublish : ((p.mapClient (·.start i check)).mapWorker fun v =>
      { v with inflight := v.inflight + 1 }).asked = p.asked ++ [⟨i, check⟩] :=
    (asked_congr (Proc.client_mapWorker (fun v => { v with inflight := v.inflight + 1 })
      fun _ => rfl)).trans hstart
  simp only [rnStart]
  split_ifs
  · exact .inl rfl
  · exact .inr hpublish
  · exact .inr ((rnRequestTeardown_asked ..).trans hpublish)

theorem rnAdmit_asks (s : Setup) (lcf : LocConf) (env : HandlerEnv) (i : ℕ) (p : Proc) (n : ℕ)
    (x : ReqCtx) : (rnAdmit s lcf env i ⟨p, n, x⟩).Asks s lcf env i p := by
  have hensured := rnEnsured_asked s env.init p
  unfold rnAdmit
  split
  next proc heq =>
    rw [heq] at hensured
    split
    next cl hcl =>
      simp only [rnCheck]
      split_ifs with hadm
      · exact .nothing rfl hensured
      · split
        · exact .nothing rfl hensured
        next check hcheck =>
          obtain ⟨hcall, -, -⟩ := rnStart_call s.conf.main env i cl check _
          refine .check (by simpa using hadm) hcheck hcall ?_
          rw [← hensured]
          exact rnStart_asked hcl ..
    next => exact .nothing rfl hensured
  next proc heq =>
    rw [heq] at hensured
    exact .nothing rfl hensured

/-- The same for the handler as nginx calls it. -/
inductive Frame.Asks (s : Setup) (env : HandlerEnv) (i : ℕ) (f : Frame) (f' : Frame) : Prop where
  | nothing : f'.req.startCalls = f.req.startCalls → f'.proc.asked = f.proc.asked →
      Asks s env i f f'
  | check {check : RateCheck} : f.req.main = true → f.req.lcf.admission = true →
      rnPreflight s.conf.main f.req.lcf env.values = .ok check →
      f'.req.startCalls = f.req.startCalls ++ [check] →
      (f'.proc.asked = f.proc.asked ∨ f'.proc.asked = f.proc.asked ++ [⟨i, check⟩]) →
      Asks s env i f f'

theorem ngxHttpRnHandler_asks (s : Setup) (env : HandlerEnv) (i : ℕ) (p : Proc) (r : Request) :
    Frame.Asks s env i ⟨p, r⟩ (ngxHttpRnHandler s env i ⟨p, r⟩).1 := by
  cases hmain : r.main with
  | false =>
    have hsame : (ngxHttpRnHandler s env i ⟨p, r⟩).1 = ⟨p, r⟩ := by simp [ngxHttpRnHandler, hmain]
    rw [hsame]
    exact .nothing rfl rfl
  | true =>
    have hleaves := ngxHttpRnHandler_leaves s env i p r
    generalize (ngxHttpRnHandler s env i ⟨p, r⟩).1 = f' at hleaves ⊢
    rcases hleaves with slot | _ | ⟨-, -, -, hadmit⟩
    · exact .nothing rfl rfl
    · exact .nothing rfl rfl
    · subst hadmit
      rcases rnAdmit_asks s r.lcf env i p r.count (.new s.conf.main r.lcf) with
        ⟨hcall, hasked⟩ | ⟨hadm, hcheck, hcall, hasked⟩
      · exact .nothing (by simp [Request.registered, hcall]) hasked
      · exact .check hmain hadm hcheck (by simp [Request.registered, hcall]) hasked

/-! ## The other events -/

/-- Neither the request asks for a check nor is the client given one. -/
structure Frame.SameAsked (f g : Frame) : Prop where
  calls : g.req.startCalls = f.req.startCalls
  asked : g.proc.asked = f.proc.asked

theorem Frame.SameAsked.refl (f : Frame) : f.SameAsked f :=
  ⟨rfl, rfl⟩

theorem Frame.SameAsked.trans {f g h : Frame} (hfg : f.SameAsked g) (hgh : g.SameAsked h) :
    f.SameAsked h :=
  ⟨hgh.calls.trans hfg.calls, hgh.asked.trans hfg.asked⟩

theorem rnRateCb_sameAsked (mcf : MainConf) (q : ℕ) (status : RClient)
    (result : Option RateLimitResult) (f : Frame) :
    f.SameAsked (rnRateCb mcf q status result f).1 := by
  unfold rnRateCb
  split
  · exact .refl f
  · split
    · exact .refl f
    · split_ifs
      · exact .refl f
      · exact ⟨rfl, rnRequestTeardown_asked ..⟩

theorem rnRequestTimeoutHandler_sameAsked (mcf : MainConf) (env : TimeoutEnv) (c : ℕ) (f : Frame) :
    f.SameAsked (rnRequestTimeoutHandler mcf env c f) := by
  refine rnRequestTimeoutHandler_keeps (I := fun g => f.SameAsked g) ?_ ?_ (.refl f)
  · exact fun g h => ⟨h.calls, h.asked⟩
  · intro x _ q _
    exact
      { update := fun g _ _ h => ⟨h.calls, h.asked⟩
        retire := fun g q how h => ⟨h.calls, (asked_retire g.proc q how).trans h.asked⟩
        callback := fun g q status result h => h.trans (rnRateCb_sameAsked mcf q status result g) }

theorem cleanup_sameAsked (f : Frame) (c : ℕ) : f.SameAsked (f.cleanup c) := by
  unfold Frame.cleanup
  split
  · exact .refl f
  · exact ⟨rfl, rnRequestTeardown_asked ..⟩

theorem runCleanup_sameAsked : ∀ (chain : List Cleanup) (f : Frame),
    f.SameAsked (f.runCleanup chain)
  | [], f => .refl f
  | .other :: chain, f => runCleanup_sameAsked chain f
  | .rn c :: chain, f => (cleanup_sameAsked f c).trans (runCleanup_sameAsked chain (f.cleanup c))

theorem ngxHttpRnLogHandler_sameAsked (endMs : ℕ) (f : Frame) :
    f.SameAsked (ngxHttpRnLogHandler endMs f) := by
  unfold ngxHttpRnLogHandler
  split
  · exact .refl f
  · split
    · exact .refl f
    · split
      · exact .refl f
      · exact ⟨rfl, rfl⟩

/-- Only a run of the handler asks. -/
theorem Event.run_sameAsked (e : Event) (hhandler : ∀ j env, e ≠ .handler j env) (i : ℕ)
    (f : Frame) : f.SameAsked (e.run s i f) := by
  cases e with
  | handler j env => exact absurd rfl (hhandler j env)
  | complete _ q status result =>
    have hretired : f.SameAsked { f with proc := f.proc.mapClient (·.retire q .completed) } :=
      ⟨rfl, asked_retire f.proc q .completed⟩
    exact hretired.trans (rnRateCb_sameAsked ..)
  | stray => exact rnRateCb_sameAsked ..
  | timeout => exact rnRequestTimeoutHandler_sameAsked ..
  | cleanup => exact cleanup_sameAsked ..
  | release =>
    have hrun := runCleanup_sameAsked f.req.cleanup f
    exact ⟨hrun.calls, hrun.asked⟩
  | log => exact ngxHttpRnLogHandler_sameAsked ..
  | verdict =>
    refine ⟨?_, rfl⟩
    simp only [Event.run, ngxHttpRnVerdictVariable]
    split <;> exact rnGetRequestCtx_startCalls f.req
  | _ => exact ⟨rfl, rfl⟩

/-! ## A step of the process -/

/-- What a step does to what is asked : nothing, or a run of the handler of request `i` asks for
the check that its rules expand to, and then the client may refuse it. -/
inductive World.Asks (s : Setup) (w : World) (e : Event) (w' : World) : Prop where
  | nothing : w'.proc.asked = w.proc.asked → (∀ i, w'.calls i = w.calls i) → Asks s w e w'
  | check {i : ℕ} {env : HandlerEnv} {r : Request} {check : RateCheck} : e = .handler i env →
      w.reqs[i]? = some r → r.main = true → r.lcf.admission = true →
      rnPreflight s.conf.main r.lcf env.values = .ok check →
      w'.calls i = w.calls i ++ [check] → (∀ j ≠ i, w'.calls j = w.calls j) →
      (w'.proc.asked = w.proc.asked ∨ w'.proc.asked = w.proc.asked ++ [⟨i, check⟩]) →
      Asks s w e w'

theorem calls_store (w : World) (i : ℕ) (f : Frame) {r : Request} (hr : w.reqs[i]? = some r) :
    (w.store i f).calls i = f.req.startCalls ∧ ∀ j ≠ i, (w.store i f).calls j = w.calls j := by
  have hlt : i < w.reqs.length := (List.getElem?_eq_some_iff.mp hr).1
  refine ⟨by simp [World.calls, World.store, hlt], fun j hj => ?_⟩
  simp [World.calls, World.store, List.getElem?_set_ne (Ne.symm hj)]

/-- A new request has asked for nothing. -/
theorem runProc_calls (w : World) (s : Setup) (e : Event) (i : ℕ) :
    (e.runProc s w).calls i = w.calls i := by
  cases e with
  | accept main lcf startMs =>
    simp only [World.calls, Event.runProc, List.getElem?_append]
    split_ifs with hlt
    · rfl
    · rw [List.getElem?_eq_none (not_lt.mp hlt)]
      rcases i - w.reqs.length with _ | k <;> rfl
  | _ => rfl

theorem next_asks (s : Setup) (w : World) (e : Event) : World.Asks s w e (w.next s e) := by
  cases he : e.request with
  | none =>
    simp only [World.next, he]
    exact .nothing (asked_congr (runProc_client w s e)) (runProc_calls w s e)
  | some i =>
    simp only [World.next, he, World.on, World.frame]
    cases hr : w.reqs[i]? with
    | none => exact .nothing rfl fun _ => rfl
    | some r =>
      simp only [Option.map_some]
      obtain ⟨hcalls, hothers⟩ := calls_store w i (e.run s i ⟨w.proc, r⟩) hr
      have hbefore : w.calls i = r.startCalls := by simp [World.calls, hr]
      by_cases hhandler : ∃ j env, e = .handler j env
      · obtain ⟨j, env, rfl⟩ := hhandler
        obtain rfl : j = i := Option.some.inj he
        rcases ngxHttpRnHandler_asks s env j w.proc r with ⟨hsame, hasked⟩ |
          ⟨hmain, hadm, hcheck, hadded, hasked⟩
        · refine .nothing hasked fun k => ?_
          by_cases hk : k = j
          · rw [hk, hcalls, hbefore]
            exact hsame
          · exact hothers k hk
        · refine .check rfl hr hmain hadm hcheck ?_ hothers hasked
          rw [hcalls, hbefore]
          exact hadded
      · have hsame := e.run_sameAsked (s := s) (fun j env h => hhandler ⟨j, env, h⟩) i ⟨w.proc, r⟩
        refine .nothing hsame.asked fun k => ?_
        by_cases hk : k = i
        · rw [hk, hcalls, hbefore]
          exact hsame.calls
        · exact hothers k hk

/-! ## Over a run -/

variable {ok : World → Event → Prop} {es : List Event} {w : World} {i : ℕ} {r r' : Request}

theorem askedFor_congr {p' : Proc} (h : p'.asked = p.asked) (i : ℕ) :
    p'.askedFor i = p.askedFor i := by
  rw [Proc.askedFor, Proc.askedFor, h]

theorem askedFor_append {p' : Proc} {j : ℕ} {check : RateCheck}
    (h : p'.asked = p.asked ++ [⟨j, check⟩]) (i : ℕ) :
    p'.askedFor i = p.askedFor i ++ if j = i then [check] else [] := by
  rw [Proc.askedFor, Proc.askedFor, h, List.filter_append, List.map_append]
  by_cases hj : j = i <;> simp [hj]

/-- One step keeps it : a refused check is in the longer list only. -/
theorem next_sublist (e : Event) (h : (w.proc.askedFor i).Sublist (w.calls i)) :
    ((w.next s e).proc.askedFor i).Sublist ((w.next s e).calls i) := by
  rcases next_asks s w e with ⟨hasked, hcalls⟩ | ⟨-, -, -, -, -, hadded, hothers, hasked⟩
  · rw [askedFor_congr hasked, hcalls]
    exact h
  next j _ _ check =>
    have hcalls : (w.next s e).calls i = w.calls i ++ if j = i then [check] else [] := by
      split_ifs with hj
      · rw [← hj]
        exact hadded
      · rw [List.append_nil]
        exact hothers i (Ne.symm hj)
    rw [hcalls]
    rcases hasked with hasked | hasked
    · rw [askedFor_congr hasked]
      exact h.trans (List.sublist_append_left _ _)
    · rw [askedFor_append hasked]
      exact h.append (.refl _)

/-- The client is given what the handler asks for, in that order, less what it refuses. -/
theorem asked_sublist (h : Run ((machine s).restrict ok) World.init es w) (i : ℕ) :
    (w.proc.askedFor i).Sublist (w.calls i) :=
  h.invariant (I := fun w => (w.proc.askedFor i).Sublist (w.calls i)) (.refl _)
    fun _ e hu _ => next_sublist e hu

/-- The check comes from a run of the handler for the request `r`. -/
structure RateCheck.From (check : RateCheck) (s : Setup) (env : HandlerEnv) (r : Request) :
    Prop where
  main : r.main = true
  location : r.lcf ∈ s.conf.locations
  admission : r.lcf.admission = true
  expands : check.Expands s.conf.main env.values r.lcf
  inRange : check.InRange

/-- A check that the handler asks for was asked for by one of its runs. -/
theorem calls_from (h : Run ((machine s).restrict ok) World.init es w) {check : RateCheck}
    (hcall : check ∈ w.calls i) : ∃ (pre post : List Event) (env : HandlerEnv) (u : World)
      (r : Request), es = pre ++ .handler i env :: post ∧
      Run ((machine s).restrict ok) World.init pre u ∧ u.reqs[i]? = some r ∧
      r.released = false ∧ r.main = true ∧ r.lcf.admission = true ∧
      rnPreflight s.conf.main r.lcf env.values = .ok check := by
  have hnone : check ∉ World.init.calls i := by simp [World.calls, World.init]
  obtain ⟨pre, e, post, u, rfl, hpre, hen, hbefore, hafter, -⟩ :=
    h.since (P := fun w => check ∈ w.calls i) hnone hcall
  rcases next_asks s u e with ⟨-, hsame⟩ | ⟨rfl, hr, hmain, hadm, hcheck, hadded, hothers, -⟩
  · exact absurd (hsame i ▸ hafter) hbefore
  next j env r check' =>
    obtain rfl : i = j := by
      by_contra hne
      exact hbefore (hothers i hne ▸ hafter)
    obtain rfl : check = check' := by
      have hmem : check ∈ u.calls i ++ [check'] := hadded ▸ hafter
      rcases List.mem_append.mp hmem with hmem | hmem
      · exact absurd hmem hbefore
      · exact List.mem_singleton.mp hmem
    obtain ⟨r', hr', hlive⟩ := hen.1
    obtain rfl : r = r' := Option.some.inj (hr.symm.trans hr')
    exact ⟨pre, post, env, u, r, rfl, hpre, hr, hlive, hmain, hadm, hcheck⟩

/-! ## At most one check -/

/-- The handler ran : the context is detached from its request. -/
def Cleanup.Ran (ctxs : List ReqCtx) : Cleanup → Prop
  | .other => False
  | .rn c => ∃ x ∈ ctxs[c]?, x.r = false

instance Cleanup.decidableRan (ctxs : List ReqCtx) (cl : Cleanup) : Decidable (cl.Ran ctxs) :=
  match cl with
  | .other => .isFalse not_false
  | .rn c => inferInstanceAs (Decidable (∃ x ∈ ctxs[c]?, x.r = false))

/-- A cleanup handler of the module ran for the request. -/
def Request.CleanedUp (r : Request) : Prop :=
  ∃ cl ∈ r.cleanup, cl.Ran r.ctxs

instance (r : Request) : Decidable r.CleanedUp :=
  inferInstanceAs (Decidable (∃ cl ∈ r.cleanup, cl.Ran r.ctxs))

/-- nginx does not run the phases of a request whose cleanup handlers it ran. -/
def Event.Timely (w : World) : Event → Prop
  | .handler i _ => ∀ r ∈ w.reqs[i]?, ¬r.CleanedUp
  | _ => True

instance Event.decidableTimely (w : World) (e : Event) : Decidable (e.Timely w) :=
  match e with
  | .handler i _ => inferInstanceAs (Decidable (∀ r ∈ w.reqs[i]?, ¬r.CleanedUp))
  | .accept .. | .redirect .. | .cleanupAdd .. | .verdict .. | .complete .. | .stray ..
  | .timeout .. | .cleanup .. | .release .. | .log .. | .connection .. | .retain .. | .drop ..
  | .steering .. | .udpBegin | .udpEnd | .rebind .. => .isTrue trivial

theorem ReqCtx.Move.attached {mcf : MainConf} {x x' : ReqCtx} (h : x.Move mcf x') : x'.r = x.r := by
  cases h with
  | timer => rfl
  | verdict q status result =>
    obtain ⟨d, o, k, -, heq⟩ := rnVerdict_eq mcf status result
      (ReqCtx.tornDown { x with timeoutCompleted := false })
    rw [heq]
    rfl

theorem Request.Move.startCalls (h : r.Move s r') : r'.startCalls = r.startCalls := by
  cases h with
  | recover => exact rnGetRequestCtx_startCalls r
  | redirect | chain | outside | ctx => rfl

/-- A context that is detached stays so. -/
theorem Request.CleanedUp.set (h : r.CleanedUp) {c : ℕ} {x x' : ReqCtx}
    (hx : r.ctxs[c]? = some x) (hdetached : x.r = false → x'.r = false) (count : ℕ) :
    Request.CleanedUp { r with count, ctxs := r.ctxs.set c x' } := by
  have hlt : c < r.ctxs.length := (List.getElem?_eq_some_iff.mp hx).1
  obtain ⟨cl, hcl, hran⟩ := h
  refine ⟨cl, hcl, ?_⟩
  cases cl with
  | other => exact hran
  | rn c' =>
    obtain ⟨y, hy, hyr⟩ := hran
    by_cases hc : c = c'
    · subst hc
      obtain rfl : x = y := Option.some.inj (hx.symm.trans hy)
      exact ⟨x', by simp [hlt], hdetached hyr⟩
    · exact ⟨y, by simpa [hc] using hy, hyr⟩

theorem Request.CleanedUp.move (h : r.CleanedUp) (hmove : r.Move s r') : r'.CleanedUp := by
  cases hmove with
  | recover =>
    unfold rnGetRequestCtx
    split <;> exact h
  | redirect | outside => exact h
  | chain =>
    obtain ⟨cl, hcl, hran⟩ := h
    exact ⟨cl, List.mem_cons_of_mem _ hcl, hran⟩
  | ctx count hx hmove => exact h.set hx (fun hr => hmove.attached.trans hr) count

/-- What a request that nginx has not released asked for : it has no registered context, or one,
or that one is detached. -/
inductive Request.Accounted (s : Setup) (r : Request) : Prop where
  | clear : r.Clear → Accounted s r
  | registered {c : ℕ} {x : ReqCtx} : r.Registered s c x → Accounted s r
  | cleanedUp : r.CleanedUp → r.startCalls.length ≤ 1 → Accounted s r

theorem Request.Accounted.le (h : r.Accounted s) : r.startCalls.length ≤ 1 := by
  rcases h with hclear | hreg | ⟨-, hle⟩
  · simp [hclear.calls]
  · exact hreg.calls
  · exact hle

theorem Request.Accounted.move (h : r.Accounted s) (hmove : r.Move s r') : r'.Accounted s := by
  rcases h with hclear | hreg | ⟨hcleaned, hle⟩
  · exact .clear (hclear.move hmove)
  · obtain ⟨x', hreg', -⟩ := hreg.move hmove
    exact .registered hreg'
  · exact .cleanedUp (hcleaned.move hmove) (hmove.startCalls ▸ hle)

/-- The cleanup handler detaches the registered context, or is for another one. -/
theorem cleanup_accounted {f : Frame} (h : f.req.Accounted s) (c : ℕ) :
    (f.cleanup c).req.Accounted s := by
  unfold Frame.cleanup
  split
  · exact h
  next y hy =>
    have hlt : c < f.req.ctxs.length := (List.getElem?_eq_some_iff.mp hy).1
    rcases h with hclear | @⟨c', x, hreg⟩ | ⟨hcleaned, hle⟩
    · refine .clear { hclear with slot := fun k hk => ?_ }
      obtain ⟨x, hx, hdone, hreq⟩ := hclear.slot k hk
      by_cases hck : c = k
      · subst hck
        obtain rfl : y = x := Option.some.inj (hy.symm.trans hx)
        refine ⟨{ y.abort.tornDown with r := false }, by simp [Frame.store, hlt]; rfl, ?_, rfl⟩
        unfold ReqCtx.abort
        split_ifs <;> exact hdone
      · exact ⟨x, by simpa [Frame.store, hck] using hx, hdone, hreq⟩
    · by_cases hcc : c = c'
      · subst hcc
        refine .cleanedUp ⟨.rn c, hreg.chain, ?_⟩ hreg.calls
        exact ⟨{ y.abort.tornDown with r := false }, by simp [Frame.store, hlt]; rfl, rfl⟩
      · exact .registered { hreg with ctx := by simpa [Frame.store, hcc] using hreg.ctx }
    · exact .cleanedUp (hcleaned.set hy (fun _ => rfl) _) hle

/-- A run of the handler before the cleanup handlers accounts for what it asks. -/
theorem handler_accounted (h : r.Accounted s) (hclean : ¬r.CleanedUp) (env : HandlerEnv) (i : ℕ)
    (p : Proc) : (ngxHttpRnHandler s env i ⟨p, r⟩).1.req.Accounted s := by
  rcases h with hclear | @⟨c, x, hreg⟩ | ⟨hcleaned, -⟩
  · have hrun := ngxHttpRnHandler_run s env i p r
    rw [hclear.found] at hrun
    rcases hrun.registers hclear with hclear | ⟨c, x, hreg⟩
    · exact .clear hclear
    · exact .registered hreg
  · rw [(hreg.handler env i p).1]
    exact .registered (x := x) { hreg with slot := .inr rfl }
  · exact absurd hcleaned hclean

theorem ngxHttpRnHandler_released (env : HandlerEnv) (i : ℕ) (p : Proc) (r : Request) :
    (ngxHttpRnHandler s env i ⟨p, r⟩).1.req.released = r.released := by
  have hrun := ngxHttpRnHandler_run s env i p r
  generalize (ngxHttpRnHandler s env i ⟨p, r⟩).1.req = r', (ngxHttpRnHandler s env i ⟨p, r⟩).2 = rc
    at hrun ⊢
  cases hrun with
  | subrequest => rfl
  | inactive | disabled | decided | waiting | noMemory | unregistered | admitted =>
    exact rnGetRequestCtx_released r

/-- Runs in which nginx runs no phase of a request after its cleanup handlers. -/
abbrev TimelyRun (s : Setup) (es : List Event) (w : World) : Prop :=
  Run ((machine s).restrict fun w e => e.Timely w) World.init es w

theorem accounted_of_run (h : TimelyRun s es w) (hr : w.reqs[i]? = some r)
    (hlive : r.released = false) : r.Accounted s := by
  refine unreleased_invariant (I := Request.Accounted s) h ?_ ?_ (fun h hmove => h.move hmove)
    (fun c h => cleanup_accounted h c) hr hlive
  · intro main startMs lcf _
    exact .clear ⟨by simp [Request.new], by simp [Request.new], rfl⟩
  · intro u env r hr hok h
    exact handler_accounted h (hok r hr) env i u.proc

/-- Over its whole life a request asks for one check at most. -/
theorem asks_once (h : TimelyRun s es w) (i : ℕ) : (w.calls i).length ≤ 1 := by
  induction h with
  | nil => exact Nat.zero_le _
  | @snoc es u e hrun he ih =>
    rcases next_asks s u e with ⟨-, hcalls⟩ | ⟨rfl, hr, -, -, -, -, hothers, -⟩
    · exact (congrArg List.length (hcalls i)).le.trans ih
    next j env r _ =>
      by_cases hj : i = j
      · subst hj
        -- the run that asked accounts for the request it leaves
        obtain ⟨r₀, hr₀, hlive⟩ := he.1
        obtain rfl : r = r₀ := Option.some.inj (hr.symm.trans hr₀)
        have hnext : (u.next s (.handler i env)).reqs[i]? =
            some (ngxHttpRnHandler s env i ⟨u.proc, r⟩).1.req := by
          rw [next_request hr]
          simp [Event.request, Event.run]
        have haccounted := accounted_of_run (.snoc hrun he) hnext
          ((ngxHttpRnHandler_released env i u.proc r).trans hlive)
        have hcalls : (u.next s (.handler i env)).calls i =
            (ngxHttpRnHandler s env i ⟨u.proc, r⟩).1.req.startCalls := by
          simp [World.calls, hnext]
        exact (congrArg List.length hcalls).le.trans haccounted.le
      · exact (congrArg List.length (hothers i hj)).le.trans ih

/-- Under an accepted configuration, whatever the requests and the order of events : what the
client is given for a request is at most one check, and that check was asked for by a run of its
handler in a location of the configuration where admission is on, is the expansion of the rules
there for the values of that run, and has its numbers in range. -/
theorem checks_as_configured {cenv : ConfEnv} {items : List Item}
    (hload : loadConf cenv items = .ok s.conf) (h : TimelyRun s es w) (i : ℕ) :
    (w.proc.askedFor i).length ≤ 1 ∧ (w.proc.askedFor i).Sublist (w.calls i) ∧
    (w.calls i).length ≤ 1 ∧
    ∀ check ∈ w.calls i, ∃ (pre post : List Event) (env : HandlerEnv) (u : World) (r : Request),
      es = pre ++ .handler i env :: post ∧ TimelyRun s pre u ∧ u.reqs[i]? = some r ∧
      check.From s env r := by
  have hsub := asked_sublist h i
  have honce := asks_once h i
  refine ⟨hsub.length_le.trans honce, hsub, honce, fun check hcheck => ?_⟩
  obtain ⟨pre, post, env, u, r, rfl, hpre, hr, hlive, hmain, hadm, hpreflight⟩ :=
    calls_from h hcheck
  have hexpands := (rnPreflight_ok hpreflight).1
  exact ⟨pre, post, env, u, r, rfl, hpre, hr, {
    main := hmain
    location := (backed_of_run hpre hr hlive).lcf
    admission := hadm
    expands := hexpands
    inRange := hexpands.inRange (loadConf_trackers hload) (rnPreflight_names hpreflight) }⟩

theorem sample_checks : (redirectedWorld.calls 0).length ≤ 1 ∧
    ∃ check ∈ redirectedWorld.calls 0, check.InRange ∧
      redirectedWorld.proc.askedFor 0 = [check] := by
  have hrun : TimelyRun sampleSetup redirectedEvents redirectedWorld :=
    Run.of_admits (by decide +kernel)
  obtain ⟨-, -, honce, hfrom⟩ := checks_as_configured sample_loads hrun 0
  have hgiven : ∃ check ∈ redirectedWorld.calls 0, redirectedWorld.proc.askedFor 0 = [check] := by
    decide +kernel
  obtain ⟨check, hcheck, hasked⟩ := hgiven
  obtain ⟨pre, post, env, u, r, -, -, -, hfrom⟩ := hfrom check hcheck
  exact ⟨honce, check, hcheck, hfrom.inRange, hasked⟩

end Asked

end RlNginx
