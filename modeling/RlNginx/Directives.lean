import RlNginx.Conf
import RlNginx.Numeric

/-!
# Directive handlers

What each directive does to the configuration, or the text it is rejected with. nginx
stops at the first rejected directive, so a pool allocation that fails only rejects : the
handlers are modelled on the allocations succeeding.

`ConfEnv` holds the functions of nginx and of the C client that the handlers call.
-/

namespace RlNginx

/-- Functions of nginx and the C client used while the configuration is read. -/
structure ConfEnv where
  /-- `ngx_http_compile_complex_value` succeeds. -/
  compileComplexValue : Bytes → Bool
  /-- `ngx_parse_time(value, 0)` : milliseconds, or `none` for `NGX_ERROR`. -/
  parseTime : Bytes → Option ℕ
  /-- `r_client_parse_auth_key`. -/
  parseAuthKey : Bytes → Option AuthKeyInfo
  /-- `ngx_parse_addr` yields an IPv4 or IPv6 address. -/
  parseAddr : Bytes → Bool
  /-- `ngx_resolver_create` succeeds. -/
  resolverCreate : List Bytes → Bool
  /-- `r_client_default_request_policy`. -/
  defaultRequestPolicy : Policy
  /-- The core location configuration has a resolver with connections. -/
  httpResolver : Bool
  /-- `rn_create_system_dns_resolver` succeeds. -/
  systemDnsResolver : Bool

/-- Why a directive is rejected : the handler's text, or `NGX_CONF_ERROR` after a logged
message. -/
inductive ConfError where
  | text (message : String)
  | logged (message : String)
  | confError
  deriving DecidableEq, Repr

/-- nginx checks the number of arguments before it calls a handler. -/
def invalidNumberOfArguments : ConfError := .text "invalid number of arguments"

/-! ## Shared helpers -/

/-- `ngx_strncmp(s, "…", sizeof("…") - 1) == 0`. -/
def hasPrefix (s : Bytes) (p : String) : Bool :=
  ngxStrncmp s (ascii p) (ascii p).length

/-- The text after a prefix. -/
def afterPrefix (s : Bytes) (p : String) : Bytes :=
  s.drop (ascii p).length

theorem hasPrefix_iff {s : Bytes} {p : String} (hp : NulFree (ascii p)) :
    hasPrefix s p = true ↔ ∃ rest, s = ascii p ++ rest := by
  unfold hasPrefix
  rw [ngxStrncmp_prefix_iff s hp]
  exact ⟨fun ⟨rest, h⟩ => ⟨rest, h.symm⟩, fun ⟨rest, h⟩ => ⟨rest, h.symm⟩⟩

/-- `ngx_http_script_variables_count` : the number of `$`. -/
def ngxHttpScriptVariablesCount (s : Bytes) : ℕ :=
  s.count 36

/-- `rn_has_literal_value_quotes`. -/
def rnHasLiteralValueQuotes (s : Bytes) : Bool :=
  2 ≤ s.length && (s.head? == some 34 || s.head? == some 39) && s.getLast? == s.head?

/-- `rn_parse_protocol_duration_ms`. -/
def rnParseProtocolDurationMs (parseTime : Bytes → Option ℕ) (value : Bytes) : Option ℕ :=
  if value = [] then none
  else
    match parseTime value with
    | none => none
    | some ms => if ms = 0 then none else rnNumericU32FromU64 ms

/-- A name that is empty or contains `=` is not a positional name. -/
def badName (name : Bytes) : Bool :=
  name.isEmpty || ngxStrlchr name 61

/-! ## Main-level settings -/

/-- `ngx_http_rn_create_main_conf`. -/
def ngxHttpRnCreateMainConf (env : ConfEnv) : MainConf where
  zones := []
  trackers := []
  guards := []
  groups := []
  tenantDns := none
  authKey := none
  authKeyInfo := ⟨0, 0, 0⟩
  requestPolicy := env.defaultRequestPolicy
  requestPolicyKind := .standard
  requestPolicySet := false
  failOpen := true
  enabled := false
  bindAddr := none
  resolver := none
  debug := false
  debugSet := false

/-- `ngx_http_rn_set_dns_srv`. -/
def ngxHttpRnSetDnsSrv (mcf : MainConf) : List Bytes → Except ConfError MainConf
  | [value] =>
    if mcf.tenantDns.isSome then .error (.text "is duplicate")
    else .ok { mcf with tenantDns := some value }
  | _ => .error invalidNumberOfArguments

/-- `ngx_http_rn_set_dns_resolver`. -/
def ngxHttpRnSetDnsResolver (env : ConfEnv) (mcf : MainConf) :
    List Bytes → Except ConfError MainConf
  | [] => .error invalidNumberOfArguments
  | addresses =>
    if mcf.resolver.isSome then .error (.text "is duplicate")
    else if env.resolverCreate addresses then
      .ok { mcf with resolver := some (.directive addresses) }
    else .error .confError

/-- `ngx_http_rn_set_auth_key`. -/
def ngxHttpRnSetAuthKey (env : ConfEnv) (mcf : MainConf) : List Bytes → Except ConfError MainConf
  | [value] =>
    if mcf.authKey.isSome then .error (.text "is duplicate")
    else if value = [] then .error (.text "ratelimitly_auth_key requires a bech32 key")
    else
      match env.parseAuthKey value with
      | none => .error (.text "invalid ratelimitly_auth_key bech32 value")
      | some info => .ok { mcf with authKey := some value, authKeyInfo := info }
  | _ => .error invalidNumberOfArguments

/-- `ngx_http_rn_set_fail`. -/
def ngxHttpRnSetFail (mcf : MainConf) : List Bytes → Except ConfError MainConf
  | [value] =>
    if sameName value (ascii "open") then .ok { mcf with failOpen := true }
    else if sameName value (ascii "close") then .ok { mcf with failOpen := false }
    else .error (.text "invalid ratelimitly_fail value")
  | _ => .error invalidNumberOfArguments

/-- `ngx_http_rn_set_bind`. -/
def ngxHttpRnSetBind (env : ConfEnv) (mcf : MainConf) : List Bytes → Except ConfError MainConf
  | [value] =>
    if mcf.bindAddr.isSome then .error (.text "is duplicate")
    else if env.parseAddr value then .ok { mcf with bindAddr := some value }
    else .error (.text "invalid ratelimitly_bind address")
  | _ => .error invalidNumberOfArguments

/-- `ngx_http_rn_set_debug`. -/
def ngxHttpRnSetDebug (mcf : MainConf) : List Bytes → Except ConfError MainConf
  | [value] =>
    if mcf.debugSet then .error (.text "is duplicate")
    else if sameName value (ascii "on") then .ok { mcf with debug := true, debugSet := true }
    else if sameName value (ascii "off") then .ok { mcf with debug := false, debugSet := true }
    else .error (.text "invalid ratelimitly_debug value")
  | _ => .error invalidNumberOfArguments

/-! ## `ratelimitly_policy` -/

/-- `rn_parse_schedule_number` : the number at the cursor, and the cursor after it. -/
def rnParseScheduleNumber (cursor : Bytes) (requireSeparator : Bool) : Option (ℕ × Bytes) :=
  if cursor = [] then none
  else
    let number := cursor.takeWhile (· ≠ 58)
    let rest := cursor.dropWhile (· ≠ 58)
    if requireSeparator then
      match rest with
      | [] => none
      | _ :: rest => (rnNumericParseU32 number).val.map (·, rest)
    else if rest = [] then (rnNumericParseU32 number).val.map (·, [])
    else none

/-- `fixed:<a>`. -/
def parseFixed (cursor : Bytes) : Option Schedule :=
  match rnParseScheduleNumber cursor false with
  | none => none
  | some (initial, _) =>
    some ⟨.fixed, initial.toUInt32, initial.toUInt32, 0, 0⟩

/-- The numbers of `linear:<a>:<g>:<m>` and `exponential:<a>:<g>:<m>`. -/
def parseGrowing (cursor : Bytes) : Option (ℕ × ℕ × ℕ) :=
  match rnParseScheduleNumber cursor true with
  | none => none
  | some (initial, cursor) =>
    match rnParseScheduleNumber cursor true with
    | none => none
    | some (growth, cursor) =>
      match rnParseScheduleNumber cursor false with
      | none => none
      | some (maximum, _) => some (initial, growth, maximum)

/-- `rn_parse_policy_schedule`. -/
def rnParsePolicySchedule (value : Bytes) : Option Schedule :=
  if value.length > (ascii "fixed:").length && hasPrefix value "fixed:" then
    parseFixed (afterPrefix value "fixed:")
  else if value.length > (ascii "linear:").length && hasPrefix value "linear:" then
    match parseGrowing (afterPrefix value "linear:") with
    | none => none
    | some (initial, growth, maximum) =>
      if growth = 0 ∨ initial > maximum then none
      else some ⟨.linear, initial.toUInt32, maximum.toUInt32, growth.toUInt32, 0⟩
  else if value.length > (ascii "exponential:").length && hasPrefix value "exponential:" then
    match parseGrowing (afterPrefix value "exponential:") with
    | none => none
    | some (initial, growth, maximum) =>
      if growth < 2 ∨ initial > maximum then none
      else some ⟨.exponential, initial.toUInt32, maximum.toUInt32, 0, growth.toUInt32⟩
  else none

/-- The policy being read and the arguments already seen. -/
structure PolicyArgs where
  policy : Policy
  unitSet : Bool
  replaysSet : Bool
  replayGapSet : Bool
  finalWaitSet : Bool
  completionDeliverySet : Bool
  deriving DecidableEq, Repr

/-- One named argument of `ratelimitly_policy`. -/
def policyArg (env : ConfEnv) (kind : PolicyKind) (acc : PolicyArgs) (arg : Bytes) :
    Except ConfError PolicyArgs :=
  if hasPrefix arg "unit=" then
    if acc.unitSet then .error (.text "duplicate ratelimitly_policy unit=")
    else
      match rnParseProtocolDurationMs env.parseTime (afterPrefix arg "unit=") with
      | none => .error (.text "invalid ratelimitly_policy unit")
      | some number =>
        .ok { acc with policy := { acc.policy with unitMs := number.toUInt32 }, unitSet := true }
  else if kind = .standard then
    .error (.text "ratelimitly_policy standard accepts only unit=")
  else if kind = .singleRound then
    .error (.text "ratelimitly_policy single_round accepts only unit=")
  else if hasPrefix arg "replays=" then
    if acc.replaysSet then .error (.text "duplicate ratelimitly_policy replays=")
    else
      match (rnNumericParseU32 (afterPrefix arg "replays=")).val with
      | none => .error (.text "invalid ratelimitly_policy replays")
      | some number =>
        if number > rClientHaMaxReplayCount then
          .error (.text "invalid ratelimitly_policy replays")
        else
          .ok { acc with
            policy := { acc.policy with replayCount := number.toUInt32 }, replaysSet := true }
  else if hasPrefix arg "replay_gap=" then
    if acc.replayGapSet then .error (.text "duplicate ratelimitly_policy replay_gap=")
    else
      match rnParsePolicySchedule (afterPrefix arg "replay_gap=") with
      | none => .error (.text "invalid ratelimitly_policy replay_gap")
      | some schedule =>
        if schedule.initialUnits = 0 then
          .error (.text "invalid ratelimitly_policy replay_gap")
        else
          .ok { acc with
            policy := { acc.policy with replayGap := schedule }, replayGapSet := true }
  else if hasPrefix arg "final_wait_units=" then
    if acc.finalWaitSet then .error (.text "duplicate ratelimitly_policy final_wait_units=")
    else
      match (rnNumericParseU32 (afterPrefix arg "final_wait_units=")).val with
      | none => .error (.text "invalid ratelimitly_policy final_wait_units")
      | some number =>
        .ok { acc with
          policy := { acc.policy with finalReceiveUnits := number.toUInt32 },
          finalWaitSet := true }
  else if hasPrefix arg "completion_delivery=" then
    if acc.completionDeliverySet then
      .error (.text "duplicate ratelimitly_policy completion_delivery=")
    else
      let value := afterPrefix arg "completion_delivery="
      if sameName value (ascii "on") then
        .ok { acc with
          policy := { acc.policy with completionDelivery := true },
          completionDeliverySet := true }
      else if sameName value (ascii "off") then
        .ok { acc with
          policy := { acc.policy with completionDelivery := false },
          completionDeliverySet := true }
      else .error (.text "invalid ratelimitly_policy completion_delivery")
  else .error (.text "invalid ratelimitly_policy custom argument")

/-- The zeroed policy `custom` starts from. Every field is set before it is used. -/
def zeroPolicy : Policy :=
  ⟨0, 0, ⟨.fixed, 0, 0, 0, 0⟩, 0, false⟩

/-- The policy a policy name starts from. -/
def policyBase (env : ConfEnv) (name : Bytes) : Option (PolicyKind × Policy) :=
  if sameName name (ascii "standard") then some (.standard, env.defaultRequestPolicy)
  else if sameName name (ascii "single_round") then
    some (.singleRound, { env.defaultRequestPolicy with
      replayCount := 0, finalReceiveUnits := 0, completionDelivery := false })
  else if sameName name (ascii "custom") then some (.custom, zeroPolicy)
  else none

/-- `ngx_http_rn_set_policy`. -/
def ngxHttpRnSetPolicy (env : ConfEnv) (mcf : MainConf) : List Bytes → Except ConfError MainConf
  | [] => .error invalidNumberOfArguments
  | name :: args =>
    if mcf.requestPolicySet then .error (.text "is duplicate")
    else
      match policyBase env name with
      | none => .error (.text "invalid ratelimitly_policy name")
      | some (kind, policy) =>
        match args.foldlM (policyArg env kind) ⟨policy, false, false, false, false, false⟩ with
        | .error e => .error e
        | .ok acc =>
          if kind = .custom ∧ ¬(acc.unitSet ∧ acc.replaysSet ∧ acc.replayGapSet ∧
              acc.finalWaitSet ∧ acc.completionDeliverySet) then
            .error (.text ("ratelimitly_policy custom requires unit=, replays=, replay_gap=, " ++
              "final_wait_units=, and completion_delivery="))
          else
            match (rnPolicyHorizonMs acc.policy uint32Max.toUInt32).val with
            | none => .error (.text "ratelimitly_policy horizon exceeds the wire limit")
            | some _ =>
              .ok { mcf with
                requestPolicy := acc.policy, requestPolicyKind := kind, requestPolicySet := true }

/-- `ngx_http_rn_set_policy` with the configuration it writes through `conf` : what it
returns, and the main configuration after it. -/
def ngxHttpRnSetPolicyInto (env : ConfEnv) (mcf : MainConf) :
    List Bytes → Except ConfError Unit × MainConf
  | [] => (.error invalidNumberOfArguments, mcf)
  | name :: args =>
    if mcf.requestPolicySet then (.error (.text "is duplicate"), mcf)
    else
      match policyBase env name with
      | none => (.error (.text "invalid ratelimitly_policy name"), mcf)
      | some (kind, policy) =>
        match args.foldlM (policyArg env kind) ⟨policy, false, false, false, false, false⟩ with
        | .error e => (.error e, mcf)
        | .ok acc =>
          if kind = .custom ∧ ¬(acc.unitSet ∧ acc.replaysSet ∧ acc.replayGapSet ∧
              acc.finalWaitSet ∧ acc.completionDeliverySet) then
            (.error (.text ("ratelimitly_policy custom requires unit=, replays=, replay_gap=, " ++
              "final_wait_units=, and completion_delivery=")), mcf)
          else
            match (rnPolicyHorizonMs acc.policy uint32Max.toUInt32).val with
            | none => (.error (.text "ratelimitly_policy horizon exceeds the wire limit"), mcf)
            | some _ =>
              let mcf := { mcf with requestPolicy := acc.policy }
              let mcf := { mcf with requestPolicyKind := kind }
              let mcf := { mcf with requestPolicySet := true }
              (.ok (), mcf)

/-! ## Definitions -/

/-- One named argument of `ratelimitly_zone`. A repeated argument overrides. -/
def zoneArg (acc : Bytes × Bytes) (arg : Bytes) : Except ConfError (Bytes × Bytes) :=
  if hasPrefix arg "bucket=" then .ok (afterPrefix arg "bucket=", acc.2)
  else if hasPrefix arg "rate=" then .ok (acc.1, afterPrefix arg "rate=")
  else .error (.text "invalid ratelimitly_zone argument")

/-- `ngx_http_rn_zone`. -/
def ngxHttpRnZone (env : ConfEnv) (mcf : MainConf) : List Bytes → Except ConfError MainConf
  | [name, arg₁, arg₂] =>
    if badName name then
      .error (.text "ratelimitly_zone requires positional <name> as first argument")
    else
      match [arg₁, arg₂].foldlM zoneArg ([], []) with
      | .error e => .error e
      | .ok (bucket, rate) =>
        if bucket = [] ∨ rate = [] then
          .error (.text "ratelimitly_zone requires <name>, bucket=, rate=")
        else if rnHasLiteralValueQuotes bucket then
          .error (.text "quote the complete bucket= argument, not only its value")
        else if ngxHttpScriptVariablesCount bucket = 0 ∧ bucket.length > rnMaxBucketLen then
          .error (.logged ("ratelimitly_zone bucket is " ++ toString bucket.length ++
            " bytes; maximum is " ++ toString rnMaxBucketLen))
        else if ngxHttpScriptVariablesCount rate = 0 ∧ (rnNumericParseRate rate).isNone then
          .error (.text "invalid ratelimitly_zone rate")
        else if (rnFindZone mcf name).isSome then .error (.text "duplicate ratelimitly_zone name")
        else if env.compileComplexValue bucket && env.compileComplexValue rate then
          .ok { mcf with zones := mcf.zones ++ [⟨name, bucket, rate⟩] }
        else .error .confError
  | _ => .error invalidNumberOfArguments

/-- One `zone=` entry of `ratelimitly_group`. -/
def groupArg (mcf : MainConf) (zones : List Bytes) (arg : Bytes) : Except ConfError (List Bytes) :=
  if hasPrefix arg "zone=" then
    let zname := afterPrefix arg "zone="
    if zname = [] then .error (.text "ratelimitly_group requires nonempty zone= references")
    else if (rnFindZone mcf zname).isNone then
      .error (.text "ratelimitly_group references unknown zone")
    else .ok (zones ++ [zname])
  else .error (.text "ratelimitly_group expects zone=... entries")

/-- `ngx_http_rn_group`. -/
def ngxHttpRnGroup (mcf : MainConf) : List Bytes → Except ConfError MainConf
  | name :: arg :: args =>
    if badName name then
      .error (.text "ratelimitly_group requires positional <name> as first argument")
    else if (rnFindGroup mcf name).isSome then .error (.text "duplicate ratelimitly_group name")
    else
      match (arg :: args).foldlM (groupArg mcf) [] with
      | .error e => .error e
      | .ok zones => .ok { mcf with groups := mcf.groups ++ [⟨name, zones⟩] }
  | _ => .error invalidNumberOfArguments

/-- The tracker being read and the arguments already seen. -/
structure TrackerArgs where
  service : Bytes
  ttlMs : ℕ
  maxSamples : ℕ
  minSampleThreshold : ℕ
  serviceSet : Bool
  ttlSet : Bool
  maxSamplesSet : Bool
  minSampleThresholdSet : Bool
  deriving DecidableEq, Repr

/-- One named argument of `ratelimitly_tracker`. -/
def trackerArg (env : ConfEnv) (acc : TrackerArgs) (arg : Bytes) : Except ConfError TrackerArgs :=
  if hasPrefix arg "service=" then
    if acc.serviceSet then .error (.text "duplicate ratelimitly_tracker service=")
    else .ok { acc with service := afterPrefix arg "service=", serviceSet := true }
  else if hasPrefix arg "ttl=" then
    if acc.ttlSet then .error (.text "duplicate ratelimitly_tracker ttl=")
    else
      match rnParseProtocolDurationMs env.parseTime (afterPrefix arg "ttl=") with
      | none => .error (.text "invalid ratelimitly_tracker ttl")
      | some ttl => .ok { acc with ttlMs := ttl, ttlSet := true }
  else if hasPrefix arg "max_samples=" then
    if acc.maxSamplesSet then .error (.text "duplicate ratelimitly_tracker max_samples=")
    else
      match (rnNumericParseU32 (afterPrefix arg "max_samples=")).val with
      | none => .error (.text "invalid ratelimitly_tracker max_samples")
      | some n =>
        if n = 0 then .error (.text "invalid ratelimitly_tracker max_samples")
        else .ok { acc with maxSamples := n, maxSamplesSet := true }
  else if hasPrefix arg "buffer_size=" then
    .error (.text "ratelimitly_tracker buffer_size is no longer supported")
  else if hasPrefix arg "min_sample_threshold=" then
    if acc.minSampleThresholdSet then
      .error (.text "duplicate ratelimitly_tracker min_sample_threshold=")
    else
      match (rnNumericParseU32 (afterPrefix arg "min_sample_threshold=")).val with
      | none => .error (.text "invalid ratelimitly_tracker min_sample_threshold")
      | some n => .ok { acc with minSampleThreshold := n, minSampleThresholdSet := true }
  else .error (.text "invalid ratelimitly_tracker argument")

/-- `ngx_http_rn_tracker`. -/
def ngxHttpRnTracker (env : ConfEnv) (mcf : MainConf) : List Bytes → Except ConfError MainConf
  | name :: arg :: args =>
    if badName name then
      .error (.text "ratelimitly_tracker requires positional <name> as first argument")
    else if sameName name (ascii "off") then
      .error (.text "ratelimitly_tracker name \"off\" is reserved")
    else
      match (arg :: args).foldlM (trackerArg env)
          ⟨[], 30000, 128, 8, false, false, false, false⟩ with
      | .error e => .error e
      | .ok acc =>
        if acc.service = [] then
          .error (.text "ratelimitly_tracker requires <name> and service=")
        else if rnHasLiteralValueQuotes acc.service then
          .error (.text "quote the complete service= argument, not only its value")
        else if ngxHttpScriptVariablesCount acc.service = 0 ∧
            acc.service.length > rnMaxServiceLen then
          .error (.logged ("ratelimitly_tracker service is " ++ toString acc.service.length ++
            " bytes; maximum is " ++ toString rnMaxServiceLen))
        else if (rnFindTracker mcf name).isSome then
          .error (.text "duplicate ratelimitly_tracker name")
        else if env.compileComplexValue acc.service then
          .ok { mcf with trackers := mcf.trackers ++
            [⟨name, acc.service, acc.ttlMs, acc.maxSamples, acc.minSampleThreshold⟩] }
        else .error .confError
  | _ => .error invalidNumberOfArguments

/-- The guard being read and the arguments already seen. -/
structure GuardArgs where
  trackerName : Bytes
  threshold : Bytes
  trackerSet : Bool
  thresholdSet : Bool
  deriving DecidableEq, Repr

/-- One named argument of `ratelimitly_guard`. -/
def guardArg (acc : GuardArgs) (arg : Bytes) : Except ConfError GuardArgs :=
  if hasPrefix arg "tracker=" then
    if acc.trackerSet then .error (.text "duplicate ratelimitly_guard tracker=")
    else .ok { acc with trackerName := afterPrefix arg "tracker=", trackerSet := true }
  else if hasPrefix arg "threshold=" then
    if acc.thresholdSet then .error (.text "duplicate ratelimitly_guard threshold=")
    else .ok { acc with threshold := afterPrefix arg "threshold=", thresholdSet := true }
  else .error (.text "ratelimitly_guard expects tracker= and threshold=")

/-- `ngx_http_rn_guard`. -/
def ngxHttpRnGuard (env : ConfEnv) (mcf : MainConf) : List Bytes → Except ConfError MainConf
  | [name, arg₁, arg₂] =>
    if badName name then
      .error (.text "ratelimitly_guard requires positional <name> as first argument")
    else
      match [arg₁, arg₂].foldlM guardArg ⟨[], [], false, false⟩ with
      | .error e => .error e
      | .ok acc =>
        if acc.trackerName = [] ∨ acc.threshold = [] then
          .error (.text "ratelimitly_guard requires <name>, tracker=, threshold=")
        else if (rnFindTracker mcf acc.trackerName).isNone then
          .error (.text "ratelimitly_guard references unknown tracker")
        else if ngxHttpScriptVariablesCount acc.threshold = 0 ∧
            (rnParseProtocolDurationMs env.parseTime acc.threshold).isNone then
          .error (.text "invalid ratelimitly_guard threshold")
        else if (rnFindGuard mcf name).isSome then
          .error (.text "duplicate ratelimitly_guard name")
        else if env.compileComplexValue acc.threshold then
          .ok { mcf with guards := mcf.guards ++ [⟨name, acc.trackerName, acc.threshold⟩] }
        else .error .confError
  | _ => .error invalidNumberOfArguments

/-! ## Location directives -/

/-- The rule being read. -/
structure RuleArgs where
  zoneName : Bytes
  groupName : Bytes
  zoneSeen : Bool
  groupSeen : Bool
  guardNames : List Bytes
  deriving DecidableEq, Repr

/-- One argument of `ratelimitly`. -/
def ruleArg (mcf : MainConf) (acc : RuleArgs) (arg : Bytes) : Except ConfError RuleArgs :=
  if hasPrefix arg "zone=" then
    if acc.groupSeen ∨ acc.zoneSeen then
      .error (.text "ratelimitly expects exactly one of zone= or group=")
    else .ok { acc with zoneSeen := true, zoneName := afterPrefix arg "zone=" }
  else if hasPrefix arg "group=" then
    if acc.zoneSeen ∨ acc.groupSeen then
      .error (.text "ratelimitly expects exactly one of zone= or group=")
    else .ok { acc with groupSeen := true, groupName := afterPrefix arg "group=" }
  else if hasPrefix arg "guard=" then
    let gname := afterPrefix arg "guard="
    if gname = [] then .error (.text "ratelimitly requires nonempty guard= references")
    else if (rnFindGuard mcf gname).isNone then
      .error (.text "ratelimitly references unknown guard")
    else .ok { acc with guardNames := acc.guardNames ++ [gname] }
  else .error (.text "ratelimitly expects zone=, group=, and optional guard=")

/-- The rule the arguments of `ratelimitly` name. -/
def ruleOf (mcf : MainConf) (acc : RuleArgs) : Except ConfError RuleRef :=
  if ¬acc.zoneSeen ∧ ¬acc.groupSeen ∧ acc.guardNames = [] then
    .error (.text "ratelimitly requires zone=<name>, group=<name>, or guard=<name>")
  else if (acc.zoneSeen ∧ acc.zoneName = []) ∨ (acc.groupSeen ∧ acc.groupName = []) then
    .error (.text "ratelimitly requires a nonempty zone= or group= reference")
  else if acc.zoneSeen then
    if (rnFindZone mcf acc.zoneName).isNone then
      .error (.text "ratelimitly references unknown zone")
    else .ok ⟨.zone, acc.zoneName, acc.guardNames⟩
  else if acc.groupSeen then
    if (rnFindGroup mcf acc.groupName).isNone then
      .error (.text "ratelimitly references unknown group")
    else .ok ⟨.group, acc.groupName, acc.guardNames⟩
  else .ok ⟨.guardOnly, [], acc.guardNames⟩

/-- `ngx_http_rn_rule`. -/
def ngxHttpRnRule (mcf : MainConf) (lcf : LocConf) :
    List Bytes → Except ConfError (MainConf × LocConf)
  | [] => .error invalidNumberOfArguments
  | args =>
    match args.foldlM (ruleArg mcf) ⟨[], [], false, false, []⟩ with
    | .error e => .error e
    | .ok acc =>
      match ruleOf mcf acc with
      | .error e => .error e
      | .ok rule =>
        .ok ({ mcf with enabled := true },
          { lcf with rules := some (lcf.rules.getD [] ++ [rule]), enabled := .on })

/-- `ngx_http_rn_label`. -/
def ngxHttpRnLabel (env : ConfEnv) (mcf : MainConf) (lcf : LocConf) :
    List Bytes → Except ConfError (MainConf × LocConf)
  | [value] =>
    if ngxHttpScriptVariablesCount value = 0 ∧ value.length > rnMaxLabelLen then
      .error (.logged ("ratelimitly_label is " ++ toString value.length ++
        " bytes; maximum is " ++ toString rnMaxLabelLen))
    else if env.compileComplexValue value then
      .ok (mcf, { lcf with labelTemplate := value, labelSet := true })
    else .error .confError
  | _ => .error invalidNumberOfArguments

/-- `ngx_http_rn_report`. -/
def ngxHttpRnReport (mcf : MainConf) (lcf : LocConf) :
    List Bytes → Except ConfError (MainConf × LocConf)
  | [value] =>
    if lcf.reportSet then .error (.text "is duplicate")
    else if sameName value (ascii "off") then
      .ok (mcf, { lcf with reportSet := true, reportEnabled := false, reportTrackerName := [] })
    else if (rnFindTracker mcf value).isNone then
      .error (.text "ratelimitly_report references unknown tracker")
    else
      .ok ({ mcf with enabled := true },
        { lcf with reportSet := true, reportEnabled := true, reportTrackerName := value })
  | _ => .error invalidNumberOfArguments

/-! ## Reading a configuration -/

/-- The directives of the `http` block. -/
inductive MainCommand where
  | dnsSrv
  | dnsResolver
  | authKey
  | policy
  | fail
  | bind
  | debug
  | zone
  | tracker
  | guard
  | group
  deriving DecidableEq, Repr

/-- The directives of `server` and `location` blocks. -/
inductive LocCommand where
  | label
  | report
  | rule
  deriving DecidableEq, Repr

/-- `ngx_http_rn_commands`, the entries of the main configuration. -/
def MainCommand.run (env : ConfEnv) (mcf : MainConf) :
    MainCommand → List Bytes → Except ConfError MainConf
  | .dnsSrv => ngxHttpRnSetDnsSrv mcf
  | .dnsResolver => ngxHttpRnSetDnsResolver env mcf
  | .authKey => ngxHttpRnSetAuthKey env mcf
  | .policy => ngxHttpRnSetPolicy env mcf
  | .fail => ngxHttpRnSetFail mcf
  | .bind => ngxHttpRnSetBind env mcf
  | .debug => ngxHttpRnSetDebug mcf
  | .zone => ngxHttpRnZone env mcf
  | .tracker => ngxHttpRnTracker env mcf
  | .guard => ngxHttpRnGuard env mcf
  | .group => ngxHttpRnGroup mcf

/-- `ngx_http_rn_commands`, the entries of the location configuration. -/
def LocCommand.run (env : ConfEnv) (mcf : MainConf) (lcf : LocConf) :
    LocCommand → List Bytes → Except ConfError (MainConf × LocConf)
  | .label => ngxHttpRnLabel env mcf lcf
  | .report => ngxHttpRnReport mcf lcf
  | .rule => ngxHttpRnRule mcf lcf

/-- One step of reading the configuration. Blocks are numbered in the order they open;
the `http` block is 0, and its own location configuration takes no directive of the
module. -/
inductive Item where
  | main (cmd : MainCommand) (args : List Bytes)
  | block (parent : ℕ)
  | loc (block : ℕ) (cmd : LocCommand) (args : List Bytes)
  deriving DecidableEq, Repr

/-- A block with its parent and its location configuration. -/
structure Block where
  parent : ℕ
  conf : LocConf
  deriving DecidableEq, Repr

/-- The configuration read so far. -/
structure ConfState where
  main : MainConf
  blocks : List Block
  deriving DecidableEq, Repr

/-- The state before the first directive : the `http` block alone. -/
def ConfState.init (env : ConfEnv) : ConfState where
  main := ngxHttpRnCreateMainConf env
  blocks := [⟨0, ngxHttpRnCreateLocConf⟩]

/-- nginx hands a directive to its handler, or opens a block. -/
def ConfState.read (env : ConfEnv) (st : ConfState) : Item → Except ConfError ConfState
  | .main cmd args =>
    match cmd.run env st.main args with
    | .error e => .error e
    | .ok main => .ok { st with main }
  | .block parent =>
    if parent < st.blocks.length then
      .ok { st with blocks := st.blocks ++ [⟨parent, ngxHttpRnCreateLocConf⟩] }
    else .error .confError
  | .loc k cmd args =>
    if k = 0 then .error (.text "directive is not allowed here")
    else
      match st.blocks[k]? with
      | none => .error .confError
      | some b =>
        match cmd.run env st.main b.conf args with
        | .error e => .error e
        | .ok (main, conf) => .ok { main, blocks := st.blocks.set k { b with conf } }

/-- `ngx_http_rn_merge_loc_conf`. -/
def ngxHttpRnMergeLocConf (prev conf : LocConf) : LocConf where
  enabled :=
    match conf.enabled with
    | .unset => match prev.enabled with
      | .unset => .off
      | flag => flag
    | flag => flag
  rules := conf.rules <|> prev.rules
  reportSet := conf.reportSet || prev.reportSet
  reportEnabled :=
    if !conf.reportSet && prev.reportSet then prev.reportEnabled else conf.reportEnabled
  reportTrackerName :=
    if !conf.reportSet && prev.reportSet then prev.reportTrackerName else conf.reportTrackerName
  labelTemplate :=
    if !conf.labelSet && prev.labelSet then prev.labelTemplate else conf.labelTemplate
  labelSet := if !conf.labelSet && prev.labelSet then prev.labelSet else conf.labelSet

/-- nginx merges top down, after the `http` block is read : each block into the merged
configuration of its parent. The `http` block's own configuration stays as it is. -/
def mergeBlocks : List LocConf → List Block → List LocConf
  | merged, [] => merged
  | merged, b :: rest =>
    mergeBlocks
      (merged ++ [ngxHttpRnMergeLocConf (merged.getD b.parent ngxHttpRnCreateLocConf) b.conf]) rest

/-- The location configurations of `server` and `location` blocks after the merge. -/
def ConfState.locations (st : ConfState) : List LocConf :=
  match st.blocks with
  | [] => []
  | http :: rest => (mergeBlocks [http.conf] rest).tail

/-- `c-<key id>.p0.ratelimitly.com`. -/
def defaultTenantDns (keyId : UInt64) : Bytes :=
  ascii "c-" ++ ascii (toString keyId.toNat) ++ ascii ".p0.ratelimitly.com"

/-- `max_ttl_ms` of `ngx_http_rn_init`. -/
def maxTtlMs (mcf : MainConf) : UInt32 :=
  if mcf.authKeyInfo.dedupTtlMsMax = 0 then uint32Max.toUInt32
  else mcf.authKeyInfo.dedupTtlMsMax

/-- `ngx_http_rn_init`, the part that checks and completes the main configuration. -/
def ngxHttpRnInit (env : ConfEnv) (mcf : MainConf) : Except ConfError MainConf :=
  if !mcf.enabled then .ok mcf
  else if mcf.authKey.getD [] = [] then .error (.logged "ratelimitly_auth_key is required")
  else
    let mcf :=
      if mcf.tenantDns.getD [] = [] then
        { mcf with tenantDns := some (defaultTenantDns mcf.authKeyInfo.keyId) }
      else mcf
    match (rnPolicyHorizonMs mcf.requestPolicy (maxTtlMs mcf)).val with
    | none =>
      .error (.logged ("ratelimitly_policy horizon is invalid or exceeds the API-key " ++
        "dedup_ttl_ms_max of " ++ toString (maxTtlMs mcf).toNat ++ "ms"))
    | some _ =>
      if mcf.resolver.isSome then .ok mcf
      else if env.httpResolver then .ok { mcf with resolver := some .http }
      else if env.systemDnsResolver then .ok { mcf with resolver := some .system }
      else .error (.logged "failed to create system DNS resolver for ratelimitly")

/-- An accepted configuration : the main configuration and the merged location
configurations of its blocks. -/
structure Config where
  main : MainConf
  locations : List LocConf
  deriving DecidableEq, Repr

/-- Read the directives, merge, and run the module's postconfiguration. -/
def loadConf (env : ConfEnv) (items : List Item) : Except ConfError Config :=
  match items.foldlM (ConfState.read env) (ConfState.init env) with
  | .error e => .error e
  | .ok st =>
    match ngxHttpRnInit env st.main with
    | .error e => .error e
    | .ok main => .ok ⟨main, st.locations⟩

end RlNginx
