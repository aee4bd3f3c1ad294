import RlNginx.Expansion

/-!
# Validated once, accepted always

A value without `$` renders to itself, so what the directive checked when the
configuration was loaded is what the request path checks again. `static_validation` says
that the two agree : an accepted bucket, rate, service, threshold or label is accepted for
every request, with the numbers parsed at load, and one that the request path would reject
makes its directive fail. What is left for a rule of static values are the derivations of
the C client (`addRule_static`).
-/

open Registry Fallible

namespace RlNginx

/-- A value without `$`. -/
def Static (s : Bytes) : Prop :=
  36 ∉ s

instance (s : Bytes) : Decidable (Static s) :=
  inferInstanceAs (Decidable (36 ∉ s))

theorem static_iff {s : Bytes} : Static s ↔ ngxHttpScriptVariablesCount s = 0 := by
  rw [Static, ngxHttpScriptVariablesCount, List.count_eq_zero]

/-- `ngx_http_complex_value` of a value without `$` is the value, and durations are read by
the `ngx_parse_time` that read the configuration. -/
structure RendersStatic (env : ConfEnv) (req : ReqEnv) : Prop where
  complexValue : ∀ s, Static s → req.complexValue s = some s
  parseTime : req.parseTime = env.parseTime

/-! ## One value at a time -/

section Values

variable {env : ConfEnv} {req : ReqEnv}

/-- A static bucket passes the request path when it is neither empty nor too long. -/
theorem rnBuildZoneResource_bucket_iff (hreq : RendersStatic env req) {z : Zone}
    (hs : Static z.bucketTemplate) : rnBuildZoneResource req z = .error .bucket ↔
      z.bucketTemplate = [] ∨ z.bucketTemplate.length > rnMaxBucketLen := by
  have hrate : rnZoneRateForRequest req z ≠ .error .bucket := by
    unfold rnZoneRateForRequest
    split
    · simp
    · split <;> simp
  rw [← List.length_eq_zero_iff]
  unfold rnBuildZoneResource
  rw [hreq.complexValue _ hs]
  simp only
  split_ifs with hbad
  · exact iff_of_true rfl hbad
  · refine iff_of_false ?_ hbad
    split
    next e he =>
      rw [he] at hrate
      simpa using hrate
    next =>
      split <;> simp

/-- A static rate is parsed for a request as it was at load. -/
theorem rnZoneRateForRequest_static (hreq : RendersStatic env req) {z : Zone}
    (hs : Static z.rateTemplate) {out : ℕ × ℕ}
    (hout : rnNumericParseRate z.rateTemplate = some out) :
    rnZoneRateForRequest req z = .ok out :=
  rnZoneRateForRequest_ok_iff.mpr ⟨z.rateTemplate, hreq.complexValue _ hs, hout⟩

/-- A static rate fails for a request when it does not parse. -/
theorem rnZoneRateForRequest_rate_iff (hreq : RendersStatic env req) {z : Zone}
    (hs : Static z.rateTemplate) : rnZoneRateForRequest req z = .error .rate ↔
      rnNumericParseRate z.rateTemplate = none := by
  unfold rnZoneRateForRequest
  simp only [hreq.complexValue _ hs]
  cases rnNumericParseRate z.rateTemplate <;> simp

/-- The entry of a zone whose bucket and rate are good : all that is left is the identifier, which
the C client derives or not. -/
def derivedResource (req : ReqEnv) (bucket : Bytes) (rate window : ℕ) :
    Except BuildError ResourceRequest :=
  (req.deriveBucketId bucket window rate).elim (.error .bucketId) fun id =>
    .ok ⟨id, window, rate, 1⟩

theorem rnBuildZoneResource_derived {z : Zone} {bucket : Bytes} {rate window : ℕ}
    (hbucket : req.complexValue z.bucketTemplate = some bucket) (hne : bucket ≠ [])
    (hlen : bucket.length ≤ rnMaxBucketLen)
    (hrate : rnZoneRateForRequest req z = .ok (rate, window)) :
    rnBuildZoneResource req z = derivedResource req bucket rate window := by
  have hbad : ¬(bucket.length = 0 ∨ bucket.length > rnMaxBucketLen) := by
    rw [not_or, List.length_eq_zero_iff, not_lt]
    exact ⟨hne, hlen⟩
  unfold rnBuildZoneResource derivedResource
  simp only [hbucket, hbad, if_false, hrate]
  cases req.deriveBucketId bucket window rate <;> rfl

/-- A zone of static values has the rate parsed at load, and the identifier that the C client
derives. -/
theorem rnBuildZoneResource_static (hreq : RendersStatic env req) {z : Zone} (hz : z.Checked)
    (hbucket : Static z.bucketTemplate) (hrate : Static z.rateTemplate) : ∃ rate window,
      rnNumericParseRate z.rateTemplate = some (rate, window) ∧
      rnBuildZoneResource req z = derivedResource req z.bucketTemplate rate window := by
  obtain ⟨⟨rate, window⟩, hout⟩ := Option.isSome_iff_exists.mp (hz.rate (static_iff.mp hrate))
  exact ⟨rate, window, hout, rnBuildZoneResource_derived (hreq.complexValue _ hbucket) hz.bucket_ne
    (hz.bucket (static_iff.mp hbucket)) (rnZoneRateForRequest_static hreq hrate hout)⟩

/-- A static service passes the request path when it is neither empty nor too long. -/
theorem rnBuildTrackerValues_service_iff (hreq : RendersStatic env req) {t : Tracker}
    (hs : Static t.serviceTemplate) : rnBuildTrackerValues req t = .error .service ↔
      t.serviceTemplate = [] ∨ t.serviceTemplate.length > rnMaxServiceLen := by
  rw [← List.length_eq_zero_iff]
  unfold rnBuildTrackerValues
  rw [hreq.complexValue _ hs]
  simp only
  split_ifs with hbad
  · exact iff_of_true rfl hbad
  · refine iff_of_false ?_ hbad
    split <;> simp

/-- The values of a tracker whose service is good : all that is left is the identifier. -/
def derivedTracker (req : ReqEnv) (t : Tracker) : Except BuildError TrackerValues :=
  (req.deriveLatencyTrackerId t.serviceTemplate t.ttlMs t.maxSamples t.minSampleThreshold).elim
    (.error .trackerId) fun id => .ok ⟨id, t.ttlMs, t.maxSamples, t.minSampleThreshold⟩

/-- A tracker with a static service has its own settings, and the identifier that the C client
derives. -/
theorem rnBuildTrackerValues_static (hreq : RendersStatic env req) {t : Tracker} (ht : t.Checked)
    (hs : Static t.serviceTemplate) : rnBuildTrackerValues req t = derivedTracker req t := by
  have hlen : ¬(t.serviceTemplate.length = 0 ∨ t.serviceTemplate.length > rnMaxServiceLen) := by
    rw [not_or, List.length_eq_zero_iff, not_lt]
    exact ⟨ht.service_ne, ht.service (static_iff.mp hs)⟩
  unfold rnBuildTrackerValues derivedTracker
  simp only [hreq.complexValue _ hs, hlen, if_false]
  cases req.deriveLatencyTrackerId t.serviceTemplate t.ttlMs t.maxSamples t.minSampleThreshold <;>
    rfl

/-- A tracker fails over its service or in the C client. -/
theorem rnBuildTrackerValues_own {t : Tracker} {e : BuildError}
    (h : rnBuildTrackerValues req t = .error e) : e ≠ .threshold ∧ e ≠ .duration := by
  unfold rnBuildTrackerValues at h
  split at h
  · cases h
    simp
  · split_ifs at h
    · cases h
      simp
    · split at h <;> cases h
      simp

/-- A guard with a static threshold has the threshold parsed at load and the values of its
tracker. -/
theorem rnBuildGuardEntries_static (hreq : RendersStatic env req) {mcf : MainConf} {g : Guard}
    {tracker : Ref Tracker} (htracker : rnFindTracker mcf g.trackerName = some tracker)
    (hs : Static g.thresholdTemplate) {ms : ℕ}
    (hms : rnParseProtocolDurationMs env.parseTime g.thresholdTemplate = some ms) :
    rnBuildGuardEntries req mcf g = (rnBuildTrackerValues req tracker.val).map fun v =>
      ⟨v.id, ms, v.ttlMs, v.maxSamples, v.minSampleThreshold⟩ := by
  unfold rnBuildGuardEntries
  simp only [htracker, hreq.complexValue _ hs, hreq.parseTime, hms]
  cases rnBuildTrackerValues req tracker.val <;> rfl

/-- A static threshold fails for a request when it does not parse. -/
theorem rnBuildGuardEntries_duration_iff (hreq : RendersStatic env req) {mcf : MainConf}
    {g : Guard} {tracker : Ref Tracker}
    (htracker : rnFindTracker mcf g.trackerName = some tracker)
    (hs : Static g.thresholdTemplate) : rnBuildGuardEntries req mcf g = .error .duration ↔
      rnParseProtocolDurationMs env.parseTime g.thresholdTemplate = none := by
  rcases hms : rnParseProtocolDurationMs env.parseTime g.thresholdTemplate with _ | ms
  · simp [rnBuildGuardEntries, htracker, hreq.complexValue _ hs, hreq.parseTime, hms]
  · rw [rnBuildGuardEntries_static hreq htracker hs hms]
    refine iff_of_false ?_ (by simp)
    rcases hv : rnBuildTrackerValues req tracker.val with e | v
    · intro h
      exact (rnBuildTrackerValues_own hv).2 (Except.error.inj h)
    · simp [Except.map]

/-- A static label passes the request path when it is not too long. -/
theorem renderLabel_static_iff (hreq : RendersStatic env req) {l : LocConf}
    (hset : l.labelSet = true) (hs : Static l.labelTemplate) :
    (∃ stop, renderLabel req l = .error stop) ↔ l.labelTemplate.length > rnMaxLabelLen := by
  unfold renderLabel
  rw [if_pos hset, hreq.complexValue _ hs]
  simp only
  split_ifs with hlong
  · exact iff_of_true ⟨_, rfl⟩ hlong
  · exact iff_of_false (by simp) hlong

end Values

/-! ## Rules of static values -/

/-- The zones and guards that a rule names have static values. -/
structure RuleRef.AllStatic (mcf : MainConf) (r : RuleRef) : Prop where
  zones : ∀ name ∈ r.zoneNames mcf, ∀ zone ∈ rnFindZone mcf name,
    Static zone.val.bucketTemplate ∧ Static zone.val.rateTemplate
  guards : ∀ name ∈ r.guards, ∀ guard ∈ rnFindGuard mcf name,
    Static guard.val.thresholdTemplate ∧
      ∀ tracker ∈ rnFindTracker mcf guard.val.trackerName, Static tracker.val.serviceTemplate

/-- The derivation of the C client that a rule fails in, with the rate that was parsed at load. -/
def RuleRef.ClientFails (mcf : MainConf) (req : ReqEnv) (r : RuleRef) : Stop → Prop
  | .zoneBuild .bucketId => ∃ name ∈ r.zoneNames mcf, ∃ zone ∈ rnFindZone mcf name,
    ∃ rate window, rnNumericParseRate zone.val.rateTemplate = some (rate, window) ∧
      req.deriveBucketId zone.val.bucketTemplate window rate = none
  | .guardBuild .trackerId => ∃ name ∈ r.guards, ∃ guard ∈ rnFindGuard mcf name,
    ∃ tracker ∈ rnFindTracker mcf guard.val.trackerName,
      req.deriveLatencyTrackerId tracker.val.serviceTemplate tracker.val.ttlMs
        tracker.val.maxSamples tracker.val.minSampleThreshold = none
  | _ => False

/-- The C client derives every identifier that a rule needs. -/
structure RuleRef.Derives (mcf : MainConf) (req : ReqEnv) (r : RuleRef) : Prop where
  buckets : ∀ name ∈ r.zoneNames mcf, ∀ zone ∈ rnFindZone mcf name, ∀ rate window,
    rnNumericParseRate zone.val.rateTemplate = some (rate, window) →
    req.deriveBucketId zone.val.bucketTemplate window rate ≠ none
  trackers : ∀ name ∈ r.guards, ∀ guard ∈ rnFindGuard mcf name,
    ∀ tracker ∈ rnFindTracker mcf guard.val.trackerName,
      req.deriveLatencyTrackerId tracker.val.serviceTemplate tracker.val.ttlMs
        tracker.val.maxSamples tracker.val.minSampleThreshold ≠ none

theorem RuleRef.Derives.not_clientFails {mcf : MainConf} {req : ReqEnv} {r : RuleRef}
    (h : r.Derives mcf req) {stop : Stop} : ¬r.ClientFails mcf req stop := by
  intro hfails
  unfold RuleRef.ClientFails at hfails
  split at hfails
  · obtain ⟨name, hname, zone, hzone, rate, window, hrate, hnone⟩ := hfails
    exact h.buckets name hname zone hzone rate window hrate hnone
  · obtain ⟨name, hname, guard, hguard, tracker, htracker, hnone⟩ := hfails
    exact h.trackers name hname guard hguard tracker htracker hnone
  · exact hfails

section Rules

variable {env : ConfEnv} {req : ReqEnv} {mcf : MainConf} {x : Expansion} {stop : Stop}
  {r : RuleRef}

theorem addZone_static (hreq : RendersStatic env req) (hm : mcf.Checked env) (hs : r.AllStatic mcf)
    {name : Bytes} (hname : name ∈ r.zoneNames mcf) (hfound : (rnFindZone mcf name).isSome)
    (h : addZone mcf req x name = .error stop) : r.ClientFails mcf req stop := by
  obtain ⟨zone, hzone⟩ := Option.isSome_iff_exists.mp hfound
  obtain ⟨hbucket, hrate⟩ := hs.zones name hname zone hzone
  have hmem : zone.val ∈ mcf.zones := List.mem_of_getElem? (find_spec hzone).1
  obtain ⟨rate, window, hout, hbuild⟩ :=
    rnBuildZoneResource_static hreq (hm.zones _ hmem) hbucket hrate
  unfold addZone at h
  simp only [hzone, hbuild, derivedResource] at h
  rcases hid : req.deriveBucketId zone.val.bucketTemplate window rate with _ | id
  · rw [hid] at h
    cases h
    exact ⟨name, hname, zone, hzone, rate, window, hout, hid⟩
  · rw [hid] at h
    cases h

theorem addGuard_static (hreq : RendersStatic env req) (hm : mcf.Checked env)
    (hs : r.AllStatic mcf) {name : Bytes} (hname : name ∈ r.guards)
    (hfound : (rnFindGuard mcf name).isSome)
    (h : addGuard mcf req x name = .error stop) : r.ClientFails mcf req stop := by
  obtain ⟨guard, hguard⟩ := Option.isSome_iff_exists.mp hfound
  obtain ⟨hthreshold, hservice⟩ := hs.guards name hname guard hguard
  have hmem : guard.val ∈ mcf.guards := List.mem_of_getElem? (find_spec hguard).1
  obtain ⟨ms, hms⟩ := Option.isSome_iff_exists.mp (hm.guards _ hmem (static_iff.mp hthreshold))
  obtain ⟨tracker, htracker⟩ := Option.isSome_iff_exists.mp (hm.tracker_found hmem)
  have hchecked : tracker.val.Checked :=
    hm.trackers _ (List.mem_of_getElem? (find_spec htracker).1)
  have hbuild := rnBuildGuardEntries_static hreq htracker hthreshold hms
  rw [rnBuildTrackerValues_static hreq hchecked (hservice tracker htracker), derivedTracker]
    at hbuild
  unfold addGuard at h
  simp only [hguard, hbuild] at h
  split_ifs at h
  rcases hid : req.deriveLatencyTrackerId tracker.val.serviceTemplate tracker.val.ttlMs
      tracker.val.maxSamples tracker.val.minSampleThreshold with _ | id
  · rw [hid] at h
    cases h
    exact ⟨name, hname, guard, hguard, tracker, htracker, hid⟩
  · rw [hid] at h
    cases h

/-- A rule of static values of an accepted location can only fail where the C client does not
derive an identifier. -/
theorem addRule_static (hreq : RendersStatic env req) (hm : mcf.Checked env) {lcf : LocConf}
    (hl : lcf.Checked mcf) (hr : r ∈ lcf.rules.getD []) (hs : r.AllStatic mcf)
    (h : addRule mcf req x r = .error stop) : r.ClientFails mcf req stop := by
  have hzone : ∀ name ∈ r.zoneNames mcf, ∀ {x : Expansion} {stop : Stop},
      addZone mcf req x name = .error stop → r.ClientFails mcf req stop := by
    intro name hname x stop
    refine addZone_static hreq hm hs hname ?_
    exact hl.zone_found hm name (List.mem_flatMap.mpr ⟨r, hr, hname⟩)
  unfold addRule at h
  split at h
  next e he =>
    cases h
    obtain ⟨name, hname, x, hx⟩ := foldlM_error he
    refine addGuard_static hreq hm hs hname ?_ hx
    exact hl.guard_found name (List.mem_flatMap.mpr ⟨r, hr, hname⟩)
  next x' hx' =>
    unfold RuleRef.zoneNames at hzone
    split at h
    next hkind =>
      simp only [hkind] at hzone
      exact hzone r.name (by simp) h
    next hkind =>
      obtain ⟨g, hg⟩ := Option.isSome_iff_exists.mp (hl.groups_found r hr hkind)
      simp only [hg] at h
      simp only [hkind, hg] at hzone
      obtain ⟨name, hname, x, hx⟩ := foldlM_error h
      exact hzone name hname hx
    next => cases h

end Rules

/-! ## What the directives read -/

section Directives

variable {env : ConfEnv} {mcf mcf' : MainConf} {name s : Bytes} {args : List Bytes}

theorem afterPrefix_append (p : String) (s : Bytes) : afterPrefix (ascii p ++ s) p = s := by
  rw [afterPrefix, List.drop_left]

theorem hasPrefix_append {p : String} (hp : NulFree (ascii p)) (s : Bytes) :
    hasPrefix (ascii p ++ s) p = true :=
  (hasPrefix_iff hp).mpr ⟨s, rfl⟩

/-- The `service=` argument is the service. -/
theorem trackerArgs_service {acc₀ acc : TrackerArgs}
    (h : args.foldlM (trackerArg env) acc₀ = .ok acc) (hs : ascii "service=" ++ s ∈ args) :
    acc.service = s := by
  refine (foldlM_reached (I := fun acc => acc.serviceSet = true ∧ acc.service = s)
    h hs ?_ ?_).2
  · intro b b' hb
    simp only [trackerArg, hasPrefix_append (by decide : NulFree (ascii "service=")), if_true,
      afterPrefix_append] at hb
    split_ifs at hb
    cases hb
    exact ⟨rfl, rfl⟩
  · rintro b x b' ⟨hset, hservice⟩ hstep
    unfold trackerArg at hstep
    simp only [hset, if_true] at hstep
    split_ifs at hstep
    · split at hstep <;> cases hstep
      exact ⟨rfl, hservice⟩
    · split at hstep
      · cases hstep
      · split_ifs at hstep
        cases hstep
        exact ⟨rfl, hservice⟩
    · split at hstep <;> cases hstep
      exact ⟨rfl, hservice⟩

/-- The `threshold=` argument is the threshold. -/
theorem guardArgs_threshold {acc₀ acc : GuardArgs} (h : args.foldlM guardArg acc₀ = .ok acc)
    (hs : ascii "threshold=" ++ s ∈ args) : acc.threshold = s := by
  refine (foldlM_reached (I := fun acc => acc.thresholdSet = true ∧ acc.threshold = s)
    h hs ?_ ?_).2
  · intro b b' hb
    have htracker : hasPrefix (ascii "threshold=" ++ s) "tracker=" = false := by
      rw [Bool.eq_false_iff, ne_eq, hasPrefix_iff (by decide)]
      rintro ⟨rest, hrest⟩
      have hsecond := congrArg (fun l => l[1]?) hrest
      simp [ascii] at hsecond
    simp only [guardArg, htracker, hasPrefix_append (by decide : NulFree (ascii "threshold=")),
      if_true, afterPrefix_append, Bool.false_eq_true, if_false] at hb
    split_ifs at hb
    cases hb
    exact ⟨rfl, rfl⟩
  · rintro b x b' ⟨hset, hthreshold⟩ hstep
    unfold guardArg at hstep
    simp only [hset, if_true] at hstep
    split_ifs at hstep
    cases hstep
    exact ⟨rfl, hthreshold⟩

/-- The `bucket=` argument is the bucket, and the `rate=` argument the rate. -/
theorem zoneArgs_values (h : ngxHttpRnZone env mcf (name :: args) = .ok mcf') :
    ∃ bucket rate, ZoneAccepted env mcf name bucket rate ∧
      (∀ s, ascii "bucket=" ++ s ∈ args → s = bucket) ∧
      ∀ s, ascii "rate=" ++ s ∈ args → s = rate := by
  obtain ⟨a, b, rfl⟩ : ∃ a b, args = [a, b] := by
    rcases args with _ | ⟨a, _ | ⟨b, _ | ⟨c, rest⟩⟩⟩
    · cases h
    · cases h
    · exact ⟨a, b, rfl⟩
    · cases h
  obtain ⟨bucket, rate, hargs, hok, -⟩ := ngxHttpRnZone_ok_iff.mp h
  have hdistinct : ∀ s t, ascii "bucket=" ++ s ≠ ascii "rate=" ++ t := by
    intro s t heq
    have hfirst := congrArg List.head? heq
    simp [ascii] at hfirst
  refine ⟨bucket, rate, hok, ?_, ?_⟩
  · intro s hs
    rcases hargs with ⟨rfl, rfl⟩ | ⟨rfl, rfl⟩ <;> simpa [hdistinct] using hs
  · intro s hs
    rcases hargs with ⟨rfl, rfl⟩ | ⟨rfl, rfl⟩ <;> simpa [(hdistinct _ _).symm] using hs

end Directives

/-! ## The two validations agree -/

/-- What was accepted at load is accepted for a request, with the same numbers : a value that is
static does its part, whatever the others of the same definition are, and for a rule of static
values only the derivations of the C client are left. -/
structure AcceptsLoaded (env : ConfEnv) (req : ReqEnv) (cfg : Config) : Prop where
  bucket : ∀ z ∈ cfg.main.zones, Static z.bucketTemplate →
    rnBuildZoneResource req z ≠ .error .bucket ∧
    ∀ rate window, rnZoneRateForRequest req z = .ok (rate, window) →
      rnBuildZoneResource req z = derivedResource req z.bucketTemplate rate window
  rate : ∀ z ∈ cfg.main.zones, Static z.rateTemplate → ∃ rate window,
    rnNumericParseRate z.rateTemplate = some (rate, window) ∧
    rnZoneRateForRequest req z = .ok (rate, window) ∧
    (∀ e, rnBuildZoneResource req z = .ok e → e.rateLimit = rate ∧ e.windowSizeMs = window) ∧
    ∀ bucket, req.complexValue z.bucketTemplate = some bucket → bucket ≠ [] →
      bucket.length ≤ rnMaxBucketLen →
      rnBuildZoneResource req z = derivedResource req bucket rate window
  service : ∀ t ∈ cfg.main.trackers, Static t.serviceTemplate →
    rnBuildTrackerValues req t = derivedTracker req t
  threshold : ∀ g ∈ cfg.main.guards, Static g.thresholdTemplate → ∃ ms tracker,
    rnParseProtocolDurationMs env.parseTime g.thresholdTemplate = some ms ∧
    rnFindTracker cfg.main g.trackerName = some tracker ∧
    rnBuildGuardEntries req cfg.main g = (rnBuildTrackerValues req tracker.val).map fun v =>
      ⟨v.id, ms, v.ttlMs, v.maxSamples, v.minSampleThreshold⟩
  label : ∀ l ∈ cfg.locations, (l.labelSet = true → Static l.labelTemplate) →
    renderLabel req l = .ok (if l.labelSet then l.labelTemplate else [])
  rules : ∀ l ∈ cfg.locations, ∀ r ∈ l.rules.getD [], r.AllStatic cfg.main → ∀ x,
    (r.Derives cfg.main req → ∃ x', addRule cfg.main req x r = .ok x') ∧
    ∀ stop, addRule cfg.main req x r = .error stop → r.ClientFails cfg.main req stop

/-- What the request path rejects of a static value : an empty or long bucket or service, a rate
or threshold that does not parse, a long label. -/
structure RequestRejects (env : ConfEnv) (req : ReqEnv) : Prop where
  bucket : ∀ z : Zone, Static z.bucketTemplate → (rnBuildZoneResource req z = .error .bucket ↔
    z.bucketTemplate = [] ∨ z.bucketTemplate.length > rnMaxBucketLen)
  rate : ∀ z : Zone, Static z.rateTemplate → (rnZoneRateForRequest req z = .error .rate ↔
    rnNumericParseRate z.rateTemplate = none)
  service : ∀ t : Tracker, Static t.serviceTemplate →
    (rnBuildTrackerValues req t = .error .service ↔
      t.serviceTemplate = [] ∨ t.serviceTemplate.length > rnMaxServiceLen)
  threshold : ∀ (m : MainConf) (g : Guard) (tracker : Ref Tracker), Static g.thresholdTemplate →
    rnFindTracker m g.trackerName = some tracker →
    (rnBuildGuardEntries req m g = .error .duration ↔
      rnParseProtocolDurationMs env.parseTime g.thresholdTemplate = none)
  label : ∀ l : LocConf, l.labelSet = true → Static l.labelTemplate →
    ((∃ stop, renderLabel req l = .error stop) ↔ l.labelTemplate.length > rnMaxLabelLen)

/-- A static value that the request path rejects makes its directive fail, whatever else the
directive says. -/
structure RejectsAtLoad (env : ConfEnv) (req : ReqEnv) (mcf : MainConf) : Prop where
  bucket : ∀ z : Zone, Static z.bucketTemplate → rnBuildZoneResource req z = .error .bucket →
    ∀ name args, ascii "bucket=" ++ z.bucketTemplate ∈ args →
    ∃ e, ngxHttpRnZone env mcf (name :: args) = .error e
  rate : ∀ z : Zone, Static z.rateTemplate → rnZoneRateForRequest req z = .error .rate →
    ∀ name args, ascii "rate=" ++ z.rateTemplate ∈ args →
    ∃ e, ngxHttpRnZone env mcf (name :: args) = .error e
  service : ∀ t : Tracker, Static t.serviceTemplate →
    rnBuildTrackerValues req t = .error .service →
    ∀ name args, ascii "service=" ++ t.serviceTemplate ∈ args →
    ∃ e, ngxHttpRnTracker env mcf (name :: args) = .error e
  threshold : ∀ (m : MainConf) (g : Guard), Static g.thresholdTemplate →
    rnBuildGuardEntries req m g = .error .duration →
    ∀ name args, ascii "threshold=" ++ g.thresholdTemplate ∈ args →
    ∃ e, ngxHttpRnGuard env mcf (name :: args) = .error e
  label : ∀ l : LocConf, l.labelSet = true → Static l.labelTemplate →
    (∃ stop, renderLabel req l = .error stop) →
    ∀ lcf, ∃ e, ngxHttpRnLabel env mcf lcf [l.labelTemplate] = .error e

section Agreement

variable {env : ConfEnv} {req : ReqEnv}

theorem acceptsLoaded (hreq : RendersStatic env req) {cfg : Config} (hm : cfg.main.Checked env)
    (hlocs : ∀ l ∈ cfg.locations, l.Checked cfg.main) : AcceptsLoaded env req cfg where
  bucket := by
    intro z hz hs
    have hne := (hm.zones z hz).bucket_ne
    have hlen := (hm.zones z hz).bucket (static_iff.mp hs)
    refine ⟨?_, fun rate window hrate => ?_⟩
    · rw [ne_eq, rnBuildZoneResource_bucket_iff hreq hs, not_or, not_lt]
      exact ⟨hne, hlen⟩
    · exact rnBuildZoneResource_derived (hreq.complexValue _ hs) hne hlen hrate
  rate := by
    intro z hz hs
    obtain ⟨⟨rate, window⟩, hout⟩ :=
      Option.isSome_iff_exists.mp ((hm.zones z hz).rate (static_iff.mp hs))
    have hrate := rnZoneRateForRequest_static hreq hs hout
    refine ⟨rate, window, hout, hrate, ?_,
      fun bucket hbucket hne hlen => rnBuildZoneResource_derived hbucket hne hlen hrate⟩
    intro e he
    obtain ⟨text, htext, hparse⟩ := (rnBuildZoneResource_ok_iff.mp he).rate
    rw [hreq.complexValue _ hs] at htext
    obtain rfl := Option.some.inj htext
    rw [hout] at hparse
    obtain ⟨hrate, hwindow⟩ := Prod.mk.inj (Option.some.inj hparse)
    exact ⟨hrate.symm, hwindow.symm⟩
  service := fun t ht hs => rnBuildTrackerValues_static hreq (hm.trackers t ht) hs
  threshold := by
    intro g hg hs
    obtain ⟨ms, hms⟩ := Option.isSome_iff_exists.mp (hm.guards g hg (static_iff.mp hs))
    obtain ⟨tracker, htracker⟩ := Option.isSome_iff_exists.mp (hm.tracker_found hg)
    exact ⟨ms, tracker, hms, htracker, rnBuildGuardEntries_static hreq htracker hs hms⟩
  label := by
    intro l hl hs
    by_cases hset : l.labelSet = true
    · have hlen := (hlocs l hl).label hset (static_iff.mp (hs hset))
      rw [renderLabel, if_pos hset, if_pos hset, hreq.complexValue _ (hs hset)]
      exact if_neg (not_lt.mpr hlen)
    · rw [renderLabel, if_neg hset, if_neg hset]
  rules := by
    intro l hl r hr hs x
    have hfails : ∀ stop, addRule cfg.main req x r = .error stop →
        r.ClientFails cfg.main req stop :=
      fun stop h => addRule_static hreq hm (hlocs l hl) hr hs h
    refine ⟨fun hderives => ?_, hfails⟩
    rcases hrule : addRule cfg.main req x r with stop | x'
    · exact absurd (hfails stop hrule) hderives.not_clientFails
    · exact ⟨x', rfl⟩

theorem requestRejects (hreq : RendersStatic env req) : RequestRejects env req where
  bucket := fun _ hs => rnBuildZoneResource_bucket_iff hreq hs
  rate := fun _ hs => rnZoneRateForRequest_rate_iff hreq hs
  service := fun _ hs => rnBuildTrackerValues_service_iff hreq hs
  threshold := fun _ _ _ hs htracker => rnBuildGuardEntries_duration_iff hreq htracker hs
  label := fun _ hset hs => renderLabel_static_iff hreq hset hs

/-- A computation with no result failed. -/
theorem exists_error {α : Type} {x : Except ConfError α} (h : ∀ a, x ≠ .ok a) :
    ∃ e, x = .error e := by
  rcases x with e | a
  · exact ⟨e, rfl⟩
  · exact absurd rfl (h a)

theorem rejectsAtLoad (hreq : RendersStatic env req) (mcf : MainConf) :
    RejectsAtLoad env req mcf where
  bucket := by
    intro z hs hreject name args hargs
    refine exists_error fun mcf' hok => ?_
    obtain ⟨bucket, rate, haccepted, hbucket, -⟩ := zoneArgs_values hok
    obtain rfl := hbucket _ hargs
    rcases (rnBuildZoneResource_bucket_iff hreq hs).mp hreject with hempty | hlong
    · exact haccepted.bucket_ne hempty
    · exact absurd (haccepted.bucket_static (static_iff.mp hs)) (by omega)
  rate := by
    intro z hs hreject name args hargs
    refine exists_error fun mcf' hok => ?_
    obtain ⟨bucket, rate, haccepted, -, hrate⟩ := zoneArgs_values hok
    obtain rfl := hrate _ hargs
    obtain ⟨out, hout⟩ :=
      Option.isSome_iff_exists.mp (haccepted.rate_static (static_iff.mp hs))
    rw [rnZoneRateForRequest_static hreq hs hout] at hreject
    cases hreject
  service := by
    intro t hs hreject name args hargs
    refine exists_error fun mcf' hok => ?_
    obtain ⟨acc, hacc, haccepted, -⟩ := ngxHttpRnTracker_ok hok
    have hservice := trackerArgs_service hacc hargs
    rcases (rnBuildTrackerValues_service_iff hreq hs).mp hreject with hempty | hlong
    · exact haccepted.service_ne (hservice.trans hempty)
    · rw [← hservice] at hs hlong
      exact absurd (haccepted.service_static (static_iff.mp hs)) (by omega)
  threshold := by
    intro m g hs hreject name args hargs
    refine exists_error fun mcf' hok => ?_
    obtain ⟨acc, hacc, haccepted, -⟩ := ngxHttpRnGuard_ok hok
    have hthreshold := guardArgs_threshold hacc hargs
    have hstatic := haccepted.threshold_static (static_iff.mp (hthreshold ▸ hs))
    rw [hthreshold] at hstatic
    obtain ⟨ms, hms⟩ := Option.isSome_iff_exists.mp hstatic
    rcases htracker : rnFindTracker m g.trackerName with _ | tracker
    · simp [rnBuildGuardEntries, htracker] at hreject
    · rw [(rnBuildGuardEntries_duration_iff hreq htracker hs).mp hreject] at hms
      cases hms
  label := by
    intro l hset hs hreject lcf
    have hlong := (renderLabel_static_iff hreq hset hs).mp hreject
    rw [ngxHttpRnLabel, if_pos ⟨static_iff.mp hs, hlong⟩]
    exact ⟨_, rfl⟩

end Agreement

/-- A value without `$` that a loaded configuration holds is accepted for every request, with
the numbers parsed at load, so a rule of such values can only fail in the C client; and one
that the request path would reject makes its directive fail. -/
theorem static_validation {env : ConfEnv} {items : List Item} {cfg : Config}
    (hload : loadConf env items = .ok cfg) {req : ReqEnv} (hreq : RendersStatic env req) :
    AcceptsLoaded env req cfg ∧ RequestRejects env req ∧ ∀ mcf, RejectsAtLoad env req mcf := by
  obtain ⟨hm, hlocs⟩ := loadConf_checked hload
  exact ⟨acceptsLoaded hreq hm hlocs, requestRejects hreq, rejectsAtLoad hreq⟩

/-- The rules of a location with static values are accepted, since every identifier is derived. -/
theorem sample_static_validation : AcceptsLoaded sampleEnv sampleReqEnv sampleConfig ∧
    ∀ r ∈ protectedLoc.rules.getD [], ∀ x, ∃ x',
      addRule sampleConfig.main sampleReqEnv x r = .ok x' := by
  obtain ⟨haccepts, -, -⟩ := static_validation sample_loads
    (⟨fun _ _ => rfl, rfl⟩ : RendersStatic sampleEnv sampleReqEnv)
  refine ⟨haccepts, fun r hr x => ?_⟩
  obtain rfl := List.mem_singleton.mp hr
  have hstatic : RuleRef.AllStatic sampleConfig.main ⟨.group, ascii "combined", [ascii "fast"]⟩ :=
    ⟨by decide +kernel, by decide +kernel⟩
  exact (haccepts.rules protectedLoc (by decide) _ hr hstatic x).1
    ⟨by simp [sampleReqEnv], by simp [sampleReqEnv]⟩

end RlNginx
