import RlNginx.Directives

/-!
# From the rules of a location to one rate check

`rnPreflight` is the middle of `ngx_http_rn_handler` : count what the rules expand to,
allocate, build one resource per zone occurrence and one guard per distinct guard
definition, and render the label. It either stops at one of the handler's exits (`Stop`)
or yields the arrays of the single rate check.

`ReqEnv` holds what the request and the C client supply : rendered values, derived
identifiers, and whether the two request-pool allocations succeed. An array being filled
is the list of its entries so far; its length is the index of the next write.
-/

open Registry

namespace RlNginx

/-- `r_resource_request_t`. -/
structure ResourceRequest where
  bucketId : Bytes
  windowSizeMs : ℕ
  rateLimit : ℕ
  tokensRequested : ℕ
  deriving DecidableEq, Repr

/-- `r_latency_guard_t`. -/
structure LatencyGuard where
  latencyTrackerId : Bytes
  thresholdMs : ℕ
  ttlMs : ℕ
  maxSamples : ℕ
  minSampleThreshold : ℕ
  deriving DecidableEq, Repr

/-- `rn_tracker_values_t`, and the fields of `r_service_latency_report_t` taken from it. -/
structure TrackerValues where
  id : Bytes
  ttlMs : ℕ
  maxSamples : ℕ
  minSampleThreshold : ℕ
  deriving DecidableEq, Repr

/-- What one request and the C client supply while values are built. -/
structure ReqEnv where
  /-- `ngx_http_complex_value` of a template. -/
  complexValue : Bytes → Option Bytes
  /-- `ngx_parse_time(value, 0)`. -/
  parseTime : Bytes → Option ℕ
  /-- `r_client_derive_bucket_id(bucket, window, rate)`. -/
  deriveBucketId : Bytes → ℕ → ℕ → Option Bytes
  /-- `r_client_derive_latency_tracker_id(service, ttl, max_samples, min_sample_threshold)`. -/
  deriveLatencyTrackerId : Bytes → ℕ → ℕ → ℕ → Option Bytes
  /-- The request-pool allocation of `resources` succeeds. -/
  allocResources : Bool
  /-- The request-pool allocations of `guards` and `guard_defs` succeed. -/
  allocGuards : Bool

/-- Return values of the build functions and of the request handler. -/
inductive NgxRc where
  | ok
  | error
  | again
  | declined
  | tooManyRequests
  | internalServerError
  deriving DecidableEq, Repr

/-- The return statements of the build functions other than success. -/
inductive BuildError where
  | bucket
  | rate
  | bucketId
  | unknownTracker
  | threshold
  | duration
  | service
  | trackerId
  deriving DecidableEq, Repr

/-- What the build functions return at each of them. -/
def BuildError.rc : BuildError → NgxRc
  | _ => .error

/-- `rn_zone_rate_for_request`. -/
def rnZoneRateForRequest (env : ReqEnv) (zone : Zone) : Except BuildError (ℕ × ℕ) :=
  match env.complexValue zone.rateTemplate with
  | none => .error .rate
  | some rate =>
    match rnNumericParseRate rate with
    | none => .error .rate
    | some out => .ok out

/-- `rn_build_zone_resource`. -/
def rnBuildZoneResource (env : ReqEnv) (zone : Zone) : Except BuildError ResourceRequest :=
  match env.complexValue zone.bucketTemplate with
  | none => .error .bucket
  | some bucket =>
    if bucket.length = 0 ∨ bucket.length > rnMaxBucketLen then .error .bucket
    else
      match rnZoneRateForRequest env zone with
      | .error e => .error e
      | .ok (rate, window) =>
        match env.deriveBucketId bucket window rate with
        | none => .error .bucketId
        | some id => .ok ⟨id, window, rate, 1⟩

/-- `rn_build_tracker_values`. -/
def rnBuildTrackerValues (env : ReqEnv) (tracker : Tracker) : Except BuildError TrackerValues :=
  match env.complexValue tracker.serviceTemplate with
  | none => .error .service
  | some service =>
    if service.length = 0 ∨ service.length > rnMaxServiceLen then .error .service
    else
      match env.deriveLatencyTrackerId service tracker.ttlMs tracker.maxSamples
          tracker.minSampleThreshold with
      | none => .error .trackerId
      | some id => .ok ⟨id, tracker.ttlMs, tracker.maxSamples, tracker.minSampleThreshold⟩

/-- `rn_build_latency_report` : the report without its observed latency. -/
def rnBuildLatencyReport (env : ReqEnv) (tracker : Tracker) : Except BuildError TrackerValues :=
  rnBuildTrackerValues env tracker

/-- `rn_build_guard_entries`. -/
def rnBuildGuardEntries (env : ReqEnv) (mcf : MainConf) (guard : Guard) :
    Except BuildError LatencyGuard :=
  match rnFindTracker mcf guard.trackerName with
  | none => .error .unknownTracker
  | some tracker =>
    match env.complexValue guard.thresholdTemplate with
    | none => .error .threshold
    | some threshold =>
      match rnParseProtocolDurationMs env.parseTime threshold with
      | none => .error .duration
      | some thresholdMs =>
        match rnBuildTrackerValues env tracker.val with
        | .error e => .error e
        | .ok v =>
          .ok ⟨v.id, thresholdMs, v.ttlMs, v.maxSamples, v.minSampleThreshold⟩

/-! ## Expansion -/

/-- The exits of `ngx_http_rn_handler` between the report and the start of the check. -/
inductive Stop where
  | noRules
  | emptyRuleExpansion
  | unknownGroup
  | unknownGuard
  | unknownZone
  | resourcesAlloc
  | guardsAlloc
  | guardBuild (e : BuildError)
  | zoneBuild (e : BuildError)
  | labelRender
  | labelTooLong
  deriving DecidableEq, Repr

/-- The first pass : zones and guard references of the rules, added to the totals. -/
def countRules (mcf : MainConf) : List RuleRef → ℕ × ℕ → Except Stop (ℕ × ℕ)
  | [], totals => .ok totals
  | rule :: rules, (total, totalGuardRefs) =>
    let totalGuardRefs := totalGuardRefs + rule.guards.length
    match rule.kind with
    | .zone => countRules mcf rules (total + 1, totalGuardRefs)
    | .group =>
      match rnFindGroup mcf rule.name with
      | none => .error .unknownGroup
      | some group => countRules mcf rules (total + group.val.zones.length, totalGuardRefs)
    | .guardOnly => countRules mcf rules (total, totalGuardRefs)

/-- The arrays of the second pass : `guard_defs` holds the addresses of the guard
definitions already added. -/
structure Expansion where
  guardDefs : List ℕ
  guards : List LatencyGuard
  resources : List ResourceRequest
  deriving DecidableEq, Repr

/-- One guard reference of a rule. -/
def addGuard (mcf : MainConf) (env : ReqEnv) (x : Expansion) (name : Bytes) :
    Except Stop Expansion :=
  match rnFindGuard mcf name with
  | none => .error .unknownGuard
  | some guard =>
    if guard.idx ∈ x.guardDefs then .ok x
    else
      match rnBuildGuardEntries env mcf guard.val with
      | .error e => .error (.guardBuild e)
      | .ok entry =>
        .ok { x with guardDefs := x.guardDefs ++ [guard.idx], guards := x.guards ++ [entry] }

/-- One zone reference of a rule or of a group. -/
def addZone (mcf : MainConf) (env : ReqEnv) (x : Expansion) (name : Bytes) :
    Except Stop Expansion :=
  match rnFindZone mcf name with
  | none => .error .unknownZone
  | some zone =>
    match rnBuildZoneResource env zone.val with
    | .error e => .error (.zoneBuild e)
    | .ok entry => .ok { x with resources := x.resources ++ [entry] }

/-- The body of the second pass. -/
def addRule (mcf : MainConf) (env : ReqEnv) (x : Expansion) (rule : RuleRef) :
    Except Stop Expansion :=
  match rule.guards.foldlM (addGuard mcf env) x with
  | .error e => .error e
  | .ok x =>
    match rule.kind with
    | .zone => addZone mcf env x rule.name
    | .group =>
      match rnFindGroup mcf rule.name with
      | none => .error .unknownGroup
      | some group => group.val.zones.foldlM (addZone mcf env) x
    | .guardOnly => .ok x

/-- The effective label, empty when there is none. -/
def renderLabel (env : ReqEnv) (lcf : LocConf) : Except Stop Bytes :=
  if lcf.labelSet then
    match env.complexValue lcf.labelTemplate with
    | none => .error .labelRender
    | some label => if label.length > rnMaxLabelLen then .error .labelTooLong else .ok label
  else .ok []

/-- The arguments of `r_client_check_rate_limit_async_borrowed`. -/
structure RateCheck where
  resources : List ResourceRequest
  guards : List LatencyGuard
  label : Bytes
  deriving DecidableEq, Repr

/-- The handler from its rule test to the label. -/
def rnPreflight (mcf : MainConf) (lcf : LocConf) (env : ReqEnv) : Except Stop RateCheck :=
  let rules := lcf.rules.getD []
  if rules = [] then .error .noRules
  else
    match countRules mcf rules (0, 0) with
    | .error e => .error e
    | .ok (total, totalGuardRefs) =>
      if total = 0 ∧ totalGuardRefs = 0 then .error .emptyRuleExpansion
      else if 0 < total ∧ !env.allocResources then .error .resourcesAlloc
      else if 0 < totalGuardRefs ∧ !env.allocGuards then .error .guardsAlloc
      else
        match rules.foldlM (addRule mcf env) ⟨[], [], []⟩ with
        | .error e => .error e
        | .ok x =>
          match renderLabel env lcf with
          | .error e => .error e
          | .ok label => .ok ⟨x.resources, x.guards, label⟩

end RlNginx
