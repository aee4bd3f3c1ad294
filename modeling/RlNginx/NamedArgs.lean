import RlNginx.Directives
import RlNginx.Lib.Fallible
import RlNginx.Lib.Settings

/-!
# Named arguments

`ratelimitly_policy`, `ratelimitly_tracker` and `ratelimitly_guard` read their named
arguments in a loop with a flag for each name. Each loop is a reader of settings
(`policyReader`, `trackerReader`, `guardReader`), so the order of the arguments does not
matter. `ratelimitly_zone` has no flags : it takes exactly two arguments and refuses an
empty bucket or rate, so one of them is the bucket and the other the rate
(`zoneArgs_iff`).

`named_arguments` puts the four together with what an accepted directive says about its
arguments, and with what `ngx_http_rn_set_policy` leaves behind when it rejects.
-/

open Settings

namespace RlNginx

/-! ## Names -/

/-- Every argument begins with one of the names, and no two with the same one. -/
def KnownOnce (names : List String) (args : List Bytes) : Prop :=
  (∀ a ∈ args, ∃ n ∈ names, hasPrefix a n = true) ∧
  args.Pairwise fun a b => ∀ n ∈ names, ¬(hasPrefix a n = true ∧ hasPrefix b n = true)

/-- A branch of a reading loop : the flag of the name first, then the value. -/
theorem branch_toOption {S K V : Type*} {R : Reader S Bytes K V} {s : S} {k : K} {e : ConfError}
    {body : Except ConfError S} {value : Option V} (hbody : body.toOption = value.map (R.set s))
    (hkey : ∀ v, value = some v → R.key v = k) :
    (if R.seen s k then Except.error e else body).toOption =
      value.bind fun v => if R.seen s (R.key v) then none else some (R.set s v) := by
  rcases value with _ | v
  · split_ifs
    · rfl
    · exact hbody
  · rw [Option.bind_some, hkey v rfl]
    split_ifs
    · rfl
    · exact hbody

/-! ## `ratelimitly_policy` -/

/-- The named arguments of `ratelimitly_policy`. -/
inductive PolicyKey where
  | unit
  | replays
  | replayGap
  | finalWaitUnits
  | completionDelivery
  deriving DecidableEq, Repr

/-- The text before the value. -/
def PolicyKey.name : PolicyKey → String
  | .unit => "unit="
  | .replays => "replays="
  | .replayGap => "replay_gap="
  | .finalWaitUnits => "final_wait_units="
  | .completionDelivery => "completion_delivery="

/-- A named argument of `ratelimitly_policy` with its value. -/
inductive PolicySetting where
  | unit (ms : UInt32)
  | replays (count : UInt32)
  | replayGap (schedule : Schedule)
  | finalWaitUnits (units : UInt32)
  | completionDelivery (on : Bool)
  deriving DecidableEq, Repr

def PolicySetting.key : PolicySetting → PolicyKey
  | .unit _ => .unit
  | .replays _ => .replays
  | .replayGap _ => .replayGap
  | .finalWaitUnits _ => .finalWaitUnits
  | .completionDelivery _ => .completionDelivery

/-- The value a name takes, from the text after it. -/
def policyValue (env : ConfEnv) : PolicyKey → Bytes → Option PolicySetting
  | .unit, text => (rnParseProtocolDurationMs env.parseTime text).map fun ms => .unit ms.toUInt32
  | .replays, text =>
    (rnNumericParseU32 text).val.bind fun n =>
      if n > rClientHaMaxReplayCount then none else some (.replays n.toUInt32)
  | .replayGap, text =>
    (rnParsePolicySchedule text).bind fun s =>
      if s.initialUnits = 0 then none else some (.replayGap s)
  | .finalWaitUnits, text =>
    (rnNumericParseU32 text).val.map fun n => .finalWaitUnits n.toUInt32
  | .completionDelivery, text =>
    if sameName text (ascii "on") then some (.completionDelivery true)
    else if sameName text (ascii "off") then some (.completionDelivery false)
    else none

/-- The name an argument has. Only `custom` takes more than `unit=`. -/
def policyKey (kind : PolicyKind) (arg : Bytes) : Option PolicyKey :=
  ((if kind = .custom then
      [.unit, .replays, .replayGap, .finalWaitUnits, .completionDelivery]
    else [.unit]) : List PolicyKey).find? fun k => hasPrefix arg k.name

def policySetting (env : ConfEnv) (kind : PolicyKind) (arg : Bytes) : Option PolicySetting :=
  (policyKey kind arg).bind fun k => policyValue env k (afterPrefix arg k.name)

def PolicyArgs.seen (acc : PolicyArgs) : PolicyKey → Bool
  | .unit => acc.unitSet
  | .replays => acc.replaysSet
  | .replayGap => acc.replayGapSet
  | .finalWaitUnits => acc.finalWaitSet
  | .completionDelivery => acc.completionDeliverySet

def PolicyArgs.set (acc : PolicyArgs) : PolicySetting → PolicyArgs
  | .unit ms => { acc with policy := { acc.policy with unitMs := ms }, unitSet := true }
  | .replays n => { acc with policy := { acc.policy with replayCount := n }, replaysSet := true }
  | .replayGap s => { acc with policy := { acc.policy with replayGap := s }, replayGapSet := true }
  | .finalWaitUnits n =>
    { acc with policy := { acc.policy with finalReceiveUnits := n }, finalWaitSet := true }
  | .completionDelivery on =>
    { acc with policy := { acc.policy with completionDelivery := on },
               completionDeliverySet := true }

/-- The loop of `ngx_http_rn_set_policy` as a reader. -/
def policyReader (env : ConfEnv) (kind : PolicyKind) :
    Reader PolicyArgs Bytes PolicyKey PolicySetting where
  parse := policySetting env kind
  key := PolicySetting.key
  seen := PolicyArgs.seen
  set := PolicyArgs.set
  seen_set := by
    intro acc v k
    rcases v <;> rcases k <;> simp [PolicyArgs.seen, PolicyArgs.set, PolicySetting.key]
  set_comm := by
    intro acc v w h
    rcases v <;> rcases w <;> first | rfl | exact absurd rfl h

theorem policyValue_key {env : ConfEnv} {k : PolicyKey} {text : Bytes} {v : PolicySetting}
    (h : policyValue env k text = some v) : v.key = k := by
  rcases k <;> simp only [policyValue] at h
  · obtain ⟨ms, -, rfl⟩ := Option.map_eq_some_iff.mp h
    rfl
  · obtain ⟨n, -, hn⟩ := Option.bind_eq_some_iff.mp h
    split_ifs at hn
    cases hn
    rfl
  · obtain ⟨sch, -, hs⟩ := Option.bind_eq_some_iff.mp h
    split_ifs at hs
    cases hs
    rfl
  · obtain ⟨n, -, rfl⟩ := Option.map_eq_some_iff.mp h
    rfl
  · split_ifs at h
    · cases h
      rfl
    · cases h
      rfl

theorem policyReader_step {env : ConfEnv} {kind : PolicyKind} {acc : PolicyArgs} {arg : Bytes} :
    (policyReader env kind).step acc arg = (policyKey kind arg).bind fun k =>
      (policyValue env k (afterPrefix arg k.name)).bind fun v =>
        if acc.seen v.key then none else some (acc.set v) := by
  unfold Reader.step policyReader policySetting
  simp only [Option.bind_assoc]

/-- One argument of the loop, by the name it has. -/
theorem policyArg_toOption (env : ConfEnv) (kind : PolicyKind) (acc : PolicyArgs) (arg : Bytes) :
    (policyArg env kind acc arg).toOption = (policyReader env kind).step acc arg := by
  have hbranch : ∀ k {e : ConfError} {body : Except ConfError PolicyArgs},
      body.toOption = (policyValue env k (afterPrefix arg k.name)).map acc.set →
      policyKey kind arg = some k →
      (if acc.seen k then Except.error e else body).toOption =
        (policyReader env kind).step acc arg := by
    intro k e body hbody hk
    rw [policyReader_step, hk]
    exact branch_toOption (R := policyReader env kind) hbody fun v hv => policyValue_key hv
  unfold policyArg
  by_cases hunit : hasPrefix arg "unit=" = true
  · rw [if_pos hunit]
    refine hbranch .unit ?_ ?_
    · simp only [policyValue, PolicyKey.name]
      rcases rnParseProtocolDurationMs env.parseTime (afterPrefix arg "unit=") <;> rfl
    · unfold policyKey
      split_ifs <;> exact List.find?_cons_of_pos hunit
  rw [if_neg hunit]
  rcases kind
  · simp [policyReader_step, policyKey, PolicyKey.name, hunit, Except.toOption]
  · simp [policyReader_step, policyKey, PolicyKey.name, hunit, Except.toOption]
  simp only [reduceCtorEq, if_false]
  by_cases hreplays : hasPrefix arg "replays=" = true
  · rw [if_pos hreplays]
    refine hbranch .replays ?_ (by simp [policyKey, PolicyKey.name, hunit, hreplays])
    simp only [policyValue, PolicyKey.name]
    rcases (rnNumericParseU32 (afterPrefix arg "replays=")).val with _ | n
    · rfl
    · simp only [Option.bind_some]
      split_ifs <;> rfl
  rw [if_neg hreplays]
  by_cases hgap : hasPrefix arg "replay_gap=" = true
  · rw [if_pos hgap]
    refine hbranch .replayGap ?_ (by simp [policyKey, PolicyKey.name, hunit, hreplays, hgap])
    simp only [policyValue, PolicyKey.name]
    rcases rnParsePolicySchedule (afterPrefix arg "replay_gap=") with _ | sch
    · rfl
    · simp only [Option.bind_some]
      split_ifs <;> rfl
  rw [if_neg hgap]
  by_cases hwait : hasPrefix arg "final_wait_units=" = true
  · rw [if_pos hwait]
    refine hbranch .finalWaitUnits ?_
      (by simp [policyKey, PolicyKey.name, hunit, hreplays, hgap, hwait])
    simp only [policyValue, PolicyKey.name]
    rcases (rnNumericParseU32 (afterPrefix arg "final_wait_units=")).val <;> rfl
  rw [if_neg hwait]
  by_cases hdelivery : hasPrefix arg "completion_delivery=" = true
  · rw [if_pos hdelivery]
    refine hbranch .completionDelivery ?_
      (by simp [policyKey, PolicyKey.name, hunit, hreplays, hgap, hwait, hdelivery])
    show _ = (policyValue env .completionDelivery (afterPrefix arg "completion_delivery=")).map _
    simp only [policyValue]
    split_ifs <;> rfl
  · rw [if_neg hdelivery]
    simp [policyReader_step, policyKey, PolicyKey.name, hunit, hreplays, hgap, hwait, hdelivery,
      Except.toOption]

/-- The loop without its error texts. -/
theorem policyArgs_run (env : ConfEnv) (kind : PolicyKind) (args : List Bytes) (acc : PolicyArgs) :
    (args.foldlM (policyArg env kind) acc).toOption = (policyReader env kind).run args acc :=
  Fallible.foldlM_toOption (policyArg_toOption env kind) args acc

/-! ## `ratelimitly_tracker` -/

/-- The named arguments of `ratelimitly_tracker`. -/
inductive TrackerKey where
  | service
  | ttl
  | maxSamples
  | minSampleThreshold
  deriving DecidableEq, Repr

/-- The text before the value. -/
def TrackerKey.name : TrackerKey → String
  | .service => "service="
  | .ttl => "ttl="
  | .maxSamples => "max_samples="
  | .minSampleThreshold => "min_sample_threshold="

/-- A named argument of `ratelimitly_tracker` with its value. -/
inductive TrackerSetting where
  | service (template : Bytes)
  | ttl (ms : ℕ)
  | maxSamples (n : ℕ)
  | minSampleThreshold (n : ℕ)
  deriving DecidableEq, Repr

def TrackerSetting.key : TrackerSetting → TrackerKey
  | .service _ => .service
  | .ttl _ => .ttl
  | .maxSamples _ => .maxSamples
  | .minSampleThreshold _ => .minSampleThreshold

/-- The value a name takes, from the text after it. -/
def trackerValue (env : ConfEnv) : TrackerKey → Bytes → Option TrackerSetting
  | .service, text => some (.service text)
  | .ttl, text => (rnParseProtocolDurationMs env.parseTime text).map .ttl
  | .maxSamples, text =>
    (rnNumericParseU32 text).val.bind fun n => if n = 0 then none else some (.maxSamples n)
  | .minSampleThreshold, text => (rnNumericParseU32 text).val.map .minSampleThreshold

/-- The name an argument has. -/
def trackerKey (arg : Bytes) : Option TrackerKey :=
  [TrackerKey.service, .ttl, .maxSamples, .minSampleThreshold].find? fun k => hasPrefix arg k.name

def TrackerArgs.seen (acc : TrackerArgs) : TrackerKey → Bool
  | .service => acc.serviceSet
  | .ttl => acc.ttlSet
  | .maxSamples => acc.maxSamplesSet
  | .minSampleThreshold => acc.minSampleThresholdSet

def TrackerArgs.set (acc : TrackerArgs) : TrackerSetting → TrackerArgs
  | .service template => { acc with service := template, serviceSet := true }
  | .ttl ms => { acc with ttlMs := ms, ttlSet := true }
  | .maxSamples n => { acc with maxSamples := n, maxSamplesSet := true }
  | .minSampleThreshold n => { acc with minSampleThreshold := n, minSampleThresholdSet := true }

/-- The loop of `ngx_http_rn_tracker` as a reader. -/
def trackerReader (env : ConfEnv) : Reader TrackerArgs Bytes TrackerKey TrackerSetting where
  parse arg := (trackerKey arg).bind fun k => trackerValue env k (afterPrefix arg k.name)
  key := TrackerSetting.key
  seen := TrackerArgs.seen
  set := TrackerArgs.set
  seen_set := by
    intro acc v k
    rcases v <;> rcases k <;> simp [TrackerArgs.seen, TrackerArgs.set, TrackerSetting.key]
  set_comm := by
    intro acc v w h
    rcases v <;> rcases w <;> first | rfl | exact absurd rfl h

theorem trackerValue_key {env : ConfEnv} {k : TrackerKey} {text : Bytes} {v : TrackerSetting}
    (h : trackerValue env k text = some v) : v.key = k := by
  rcases k <;> simp only [trackerValue] at h
  · cases h
    rfl
  · obtain ⟨ms, -, rfl⟩ := Option.map_eq_some_iff.mp h
    rfl
  · obtain ⟨n, -, hn⟩ := Option.bind_eq_some_iff.mp h
    split_ifs at hn
    cases hn
    rfl
  · obtain ⟨n, -, rfl⟩ := Option.map_eq_some_iff.mp h
    rfl

theorem trackerReader_step {env : ConfEnv} {acc : TrackerArgs} {arg : Bytes} :
    (trackerReader env).step acc arg = (trackerKey arg).bind fun k =>
      (trackerValue env k (afterPrefix arg k.name)).bind fun v =>
        if acc.seen v.key then none else some (acc.set v) := by
  unfold Reader.step trackerReader
  simp only [Option.bind_assoc]

/-- One argument of the loop, by the name it has. -/
theorem trackerArg_toOption (env : ConfEnv) (acc : TrackerArgs) (arg : Bytes) :
    (trackerArg env acc arg).toOption = (trackerReader env).step acc arg := by
  have hbranch : ∀ k {e : ConfError} {body : Except ConfError TrackerArgs},
      body.toOption = (trackerValue env k (afterPrefix arg k.name)).map acc.set →
      trackerKey arg = some k →
      (if acc.seen k then Except.error e else body).toOption =
        (trackerReader env).step acc arg := by
    intro k e body hbody hk
    rw [trackerReader_step, hk]
    exact branch_toOption (R := trackerReader env) hbody fun v hv => trackerValue_key hv
  unfold trackerArg
  by_cases hservice : hasPrefix arg "service=" = true
  · rw [if_pos hservice]
    exact hbranch .service rfl (by simp [trackerKey, TrackerKey.name, hservice])
  rw [if_neg hservice]
  by_cases httl : hasPrefix arg "ttl=" = true
  · rw [if_pos httl]
    refine hbranch .ttl ?_ (by simp [trackerKey, TrackerKey.name, hservice, httl])
    simp only [trackerValue, TrackerKey.name]
    rcases rnParseProtocolDurationMs env.parseTime (afterPrefix arg "ttl=") <;> rfl
  rw [if_neg httl]
  by_cases hmax : hasPrefix arg "max_samples=" = true
  · rw [if_pos hmax]
    refine hbranch .maxSamples ?_ (by simp [trackerKey, TrackerKey.name, hservice, httl, hmax])
    simp only [trackerValue, TrackerKey.name]
    rcases (rnNumericParseU32 (afterPrefix arg "max_samples=")).val with _ | n
    · rfl
    · simp only [Option.bind_some]
      split_ifs <;> rfl
  rw [if_neg hmax]
  by_cases hmin : hasPrefix arg "min_sample_threshold=" = true
  · -- an argument does not begin with two names
    have hbuffer : hasPrefix arg "buffer_size=" ≠ true := by
      intro hbuffer
      obtain ⟨rest, rfl⟩ := (hasPrefix_iff (by decide)).mp hmin
      exact absurd hbuffer (by simp [hasPrefix, ascii, ngxStrncmp])
    rw [if_neg hbuffer, if_pos hmin]
    refine hbranch .minSampleThreshold ?_
      (by simp [trackerKey, TrackerKey.name, hservice, httl, hmax, hmin])
    simp only [trackerValue, TrackerKey.name]
    rcases (rnNumericParseU32 (afterPrefix arg "min_sample_threshold=")).val <;> rfl
  · have hnone : (trackerReader env).step acc arg = none := by
      simp [trackerReader_step, trackerKey, TrackerKey.name, hservice, httl, hmax, hmin]
    rw [hnone, if_neg hmin]
    split_ifs <;> rfl

/-- The loop without its error texts. -/
theorem trackerArgs_run (env : ConfEnv) (args : List Bytes) (acc : TrackerArgs) :
    (args.foldlM (trackerArg env) acc).toOption = (trackerReader env).run args acc :=
  Fallible.foldlM_toOption (trackerArg_toOption env) args acc

/-- The record the loop starts from. -/
def trackerDefaults : TrackerArgs :=
  ⟨[], 30000, 128, 8, false, false, false, false⟩

/-- An accepted `ratelimitly_tracker`. -/
structure TrackerAccepted (env : ConfEnv) (mcf : MainConf) (name : Bytes) (acc : TrackerArgs) :
    Prop where
  name_ok : badName name = false
  not_off : sameName name (ascii "off") = false
  service_ne : acc.service ≠ []
  unquoted : rnHasLiteralValueQuotes acc.service = false
  service_static : ngxHttpScriptVariablesCount acc.service = 0 →
    acc.service.length ≤ rnMaxServiceLen
  fresh : rnFindTracker mcf name = none
  compiles : env.compileComplexValue acc.service = true

/-- What `ngx_http_rn_tracker` has checked when it accepts. -/
theorem ngxHttpRnTracker_ok {env : ConfEnv} {mcf mcf' : MainConf} {name : Bytes}
    {args : List Bytes} (h : ngxHttpRnTracker env mcf (name :: args) = .ok mcf') :
    ∃ acc, args.foldlM (trackerArg env) trackerDefaults = .ok acc ∧
      TrackerAccepted env mcf name acc ∧
      mcf' = { mcf with trackers := mcf.trackers ++
        [⟨name, acc.service, acc.ttlMs, acc.maxSamples, acc.minSampleThreshold⟩] } := by
  rcases args with _ | ⟨arg, args⟩
  · cases h
  rw [ngxHttpRnTracker] at h
  by_cases hname : badName name = true
  · rw [if_pos hname] at h
    cases h
  by_cases hoff : sameName name (ascii "off") = true
  · rw [if_neg hname, if_pos hoff] at h
    cases h
  rw [if_neg hname, if_neg hoff] at h
  rcases hargs : (arg :: args).foldlM (trackerArg env) trackerDefaults with e | acc
  · simp only [trackerDefaults] at hargs
    simp only [hargs] at h
    cases h
  refine ⟨acc, rfl, ?_⟩
  simp only [trackerDefaults] at hargs
  simp only [hargs] at h
  split_ifs at h with hservice hquotes hlong hfind hcompile
  rw [not_and, not_lt] at hlong
  exact ⟨⟨by simpa using hname, by simpa using hoff, hservice, by simpa using hquotes, hlong,
    by simpa using hfind, hcompile⟩, (Except.ok.inj h).symm⟩

/-! ## `ratelimitly_guard` -/

/-- The named arguments of `ratelimitly_guard`. -/
inductive GuardKey where
  | tracker
  | threshold
  deriving DecidableEq, Repr

/-- The text before the value. -/
def GuardKey.name : GuardKey → String
  | .tracker => "tracker="
  | .threshold => "threshold="

/-- The name an argument has. -/
def guardKey (arg : Bytes) : Option GuardKey :=
  [GuardKey.tracker, .threshold].find? fun k => hasPrefix arg k.name

def GuardArgs.seen (acc : GuardArgs) : GuardKey → Bool
  | .tracker => acc.trackerSet
  | .threshold => acc.thresholdSet

/-- A setting is a name with the text after it. -/
def GuardArgs.set (acc : GuardArgs) : GuardKey × Bytes → GuardArgs
  | (.tracker, text) => { acc with trackerName := text, trackerSet := true }
  | (.threshold, text) => { acc with threshold := text, thresholdSet := true }

/-- The loop of `ngx_http_rn_guard` as a reader. -/
def guardReader : Reader GuardArgs Bytes GuardKey (GuardKey × Bytes) where
  parse arg := (guardKey arg).map fun k => (k, afterPrefix arg k.name)
  key := Prod.fst
  seen := GuardArgs.seen
  set := GuardArgs.set
  seen_set := by
    rintro acc ⟨v, text⟩ k
    rcases v <;> rcases k <;> simp [GuardArgs.seen, GuardArgs.set]
  set_comm := by
    rintro acc ⟨v, text⟩ ⟨w, text'⟩ h
    rcases v <;> rcases w <;> first | rfl | exact absurd rfl h

/-- One argument of the loop, by the name it has. -/
theorem guardArg_toOption (acc : GuardArgs) (arg : Bytes) :
    (guardArg acc arg).toOption = guardReader.step acc arg := by
  have hbranch : ∀ k {e : ConfError} {body : Except ConfError GuardArgs},
      body.toOption = some (acc.set (k, afterPrefix arg k.name)) → guardKey arg = some k →
      (if acc.seen k then Except.error e else body).toOption = guardReader.step acc arg := by
    intro k e body hbody hk
    have hparse : guardReader.parse arg = some (k, afterPrefix arg k.name) := by
      simp [guardReader, hk]
    rw [Reader.step, hparse]
    exact branch_toOption (R := guardReader) (k := k) hbody fun v hv => by cases hv; rfl
  unfold guardArg
  by_cases htracker : hasPrefix arg "tracker=" = true
  · rw [if_pos htracker]
    exact hbranch .tracker rfl (by simp [guardKey, GuardKey.name, htracker])
  rw [if_neg htracker]
  by_cases hthreshold : hasPrefix arg "threshold=" = true
  · rw [if_pos hthreshold]
    exact hbranch .threshold rfl (by simp [guardKey, GuardKey.name, htracker, hthreshold])
  · rw [if_neg hthreshold]
    simp [Reader.step, guardReader, guardKey, GuardKey.name, htracker, hthreshold, Except.toOption]

/-- The loop without its error texts. -/
theorem guardArgs_run (args : List Bytes) (acc : GuardArgs) :
    (args.foldlM guardArg acc).toOption = guardReader.run args acc :=
  Fallible.foldlM_toOption guardArg_toOption args acc

/-- The record the loop starts from. -/
def guardDefaults : GuardArgs :=
  ⟨[], [], false, false⟩

/-- An accepted `ratelimitly_guard`. -/
structure GuardAccepted (env : ConfEnv) (mcf : MainConf) (name : Bytes) (acc : GuardArgs) :
    Prop where
  name_ok : badName name = false
  tracker_ne : acc.trackerName ≠ []
  threshold_ne : acc.threshold ≠ []
  tracker_known : (rnFindTracker mcf acc.trackerName).isSome
  threshold_static : ngxHttpScriptVariablesCount acc.threshold = 0 →
    (rnParseProtocolDurationMs env.parseTime acc.threshold).isSome
  fresh : rnFindGuard mcf name = none
  compiles : env.compileComplexValue acc.threshold = true

/-- What `ngx_http_rn_guard` has checked when it accepts. -/
theorem ngxHttpRnGuard_ok {env : ConfEnv} {mcf mcf' : MainConf} {name : Bytes}
    {args : List Bytes} (h : ngxHttpRnGuard env mcf (name :: args) = .ok mcf') :
    ∃ acc, args.foldlM guardArg guardDefaults = .ok acc ∧ GuardAccepted env mcf name acc ∧
      mcf' = { mcf with guards := mcf.guards ++ [⟨name, acc.trackerName, acc.threshold⟩] } := by
  obtain ⟨a, b, rfl⟩ : ∃ a b, args = [a, b] := by
    rcases args with _ | ⟨a, _ | ⟨b, _ | ⟨c, rest⟩⟩⟩
    · cases h
    · cases h
    · exact ⟨a, b, rfl⟩
    · cases h
  rw [ngxHttpRnGuard] at h
  by_cases hname : badName name = true
  · rw [if_pos hname] at h
    cases h
  rw [if_neg hname] at h
  rcases hargs : [a, b].foldlM guardArg guardDefaults with e | acc
  · simp only [guardDefaults] at hargs
    simp only [hargs] at h
    cases h
  refine ⟨acc, rfl, ?_⟩
  simp only [guardDefaults] at hargs
  simp only [hargs] at h
  split_ifs at h with hempty htracker hthreshold hfind hcompile
  push Not at hempty
  rw [Option.isNone_iff_eq_none, ← ne_eq, Option.ne_none_iff_isSome] at htracker
  rw [not_and, Option.isNone_iff_eq_none, ← ne_eq, Option.ne_none_iff_isSome] at hthreshold
  exact ⟨⟨by simpa using hname, hempty.1, hempty.2, htracker, hthreshold, by simpa using hfind,
    hcompile⟩, (Except.ok.inj h).symm⟩

/-! ## `ratelimitly_zone` -/

/-- One argument of the loop : a bucket or a rate. -/
theorem zoneArg_ok {acc acc' : Bytes × Bytes} {arg : Bytes} (h : zoneArg acc arg = .ok acc') :
    (∃ text, arg = ascii "bucket=" ++ text ∧ acc' = (text, acc.2)) ∨
      ∃ text, arg = ascii "rate=" ++ text ∧ acc' = (acc.1, text) := by
  unfold zoneArg at h
  split_ifs at h with hbucket hrate
  · obtain ⟨text, rfl⟩ := (hasPrefix_iff (by decide)).mp hbucket
    exact .inl ⟨text, rfl, by simpa [afterPrefix] using (Except.ok.inj h).symm⟩
  · obtain ⟨text, rfl⟩ := (hasPrefix_iff (by decide)).mp hrate
    exact .inr ⟨text, rfl, by simpa [afterPrefix] using (Except.ok.inj h).symm⟩

theorem zoneArg_bucket (acc : Bytes × Bytes) (text : Bytes) :
    zoneArg acc (ascii "bucket=" ++ text) = .ok (text, acc.2) := by
  have hbucket : hasPrefix (ascii "bucket=" ++ text) "bucket=" = true :=
    (hasPrefix_iff (by decide)).mpr ⟨text, rfl⟩
  rw [zoneArg, if_pos hbucket, afterPrefix, List.drop_left]

theorem zoneArg_rate (acc : Bytes × Bytes) (text : Bytes) :
    zoneArg acc (ascii "rate=" ++ text) = .ok (acc.1, text) := by
  have hrate : hasPrefix (ascii "rate=" ++ text) "rate=" = true :=
    (hasPrefix_iff (by decide)).mpr ⟨text, rfl⟩
  have hbucket : hasPrefix (ascii "rate=" ++ text) "bucket=" ≠ true := by
    simp [hasPrefix, ascii, ngxStrncmp]
  rw [zoneArg, if_neg hbucket, if_pos hrate, afterPrefix, List.drop_left]

/-- With two arguments and both values present, one argument is the bucket and the other
the rate. -/
theorem zoneArgs_iff {a b bucket rate : Bytes} (hbucket : bucket ≠ []) (hrate : rate ≠ []) :
    [a, b].foldlM zoneArg ([], []) = .ok (bucket, rate) ↔
      (a = ascii "bucket=" ++ bucket ∧ b = ascii "rate=" ++ rate) ∨
      (a = ascii "rate=" ++ rate ∧ b = ascii "bucket=" ++ bucket) := by
  constructor
  · intro h
    obtain ⟨acc, hfirst, h⟩ := Fallible.foldlM_cons_ok h
    obtain ⟨acc', hsecond, h⟩ := Fallible.foldlM_cons_ok h
    obtain rfl : acc' = (bucket, rate) := Except.ok.inj h
    rcases zoneArg_ok hfirst with ⟨x, rfl, rfl⟩ | ⟨x, rfl, rfl⟩ <;>
      rcases zoneArg_ok hsecond with ⟨y, rfl, hacc⟩ | ⟨y, rfl, hacc⟩ <;>
      obtain ⟨rfl, rfl⟩ := Prod.mk.inj hacc
    · exact absurd rfl hrate
    · exact .inl ⟨rfl, rfl⟩
    · exact .inr ⟨rfl, rfl⟩
    · exact absurd rfl hbucket
  · rintro (⟨rfl, rfl⟩ | ⟨rfl, rfl⟩)
    · simp only [List.foldlM_cons, List.foldlM_nil, zoneArg_bucket, zoneArg_rate]
      rfl
    · simp only [List.foldlM_cons, List.foldlM_nil, zoneArg_bucket, zoneArg_rate]
      rfl

/-- An accepted `ratelimitly_zone`. -/
structure ZoneAccepted (env : ConfEnv) (mcf : MainConf) (name bucket rate : Bytes) : Prop where
  name_ok : badName name = false
  bucket_ne : bucket ≠ []
  rate_ne : rate ≠ []
  unquoted : rnHasLiteralValueQuotes bucket = false
  bucket_static : ngxHttpScriptVariablesCount bucket = 0 → bucket.length ≤ rnMaxBucketLen
  rate_static : ngxHttpScriptVariablesCount rate = 0 → (rnNumericParseRate rate).isSome
  fresh : rnFindZone mcf name = none
  bucket_compiles : env.compileComplexValue bucket = true
  rate_compiles : env.compileComplexValue rate = true

/-- `ngx_http_rn_zone` accepts two arguments, in either order, whose values pass its
checks. -/
theorem ngxHttpRnZone_ok_iff {env : ConfEnv} {mcf mcf' : MainConf} {name a b : Bytes} :
    ngxHttpRnZone env mcf [name, a, b] = .ok mcf' ↔ ∃ bucket rate,
      ((a = ascii "bucket=" ++ bucket ∧ b = ascii "rate=" ++ rate) ∨
        (a = ascii "rate=" ++ rate ∧ b = ascii "bucket=" ++ bucket)) ∧
      ZoneAccepted env mcf name bucket rate ∧
      mcf' = { mcf with zones := mcf.zones ++ [⟨name, bucket, rate⟩] } := by
  rw [ngxHttpRnZone]
  constructor
  · intro h
    by_cases hname : badName name = true
    · rw [if_pos hname] at h
      cases h
    rw [if_neg hname] at h
    rcases hargs : [a, b].foldlM zoneArg ([], []) with e | ⟨bucket, rate⟩
    · simp only [hargs] at h
      cases h
    simp only [hargs] at h
    split_ifs at h with hempty hquotes hbucket hrate hfind hcompile
    push Not at hempty
    rw [not_and, not_lt] at hbucket
    rw [not_and, Option.isNone_iff_eq_none, ← ne_eq, Option.ne_none_iff_isSome] at hrate
    rw [Bool.and_eq_true] at hcompile
    refine ⟨bucket, rate, (zoneArgs_iff hempty.1 hempty.2).mp hargs, ?_, (Except.ok.inj h).symm⟩
    exact ⟨by simpa using hname, hempty.1, hempty.2, by simpa using hquotes, hbucket, hrate,
      by simpa using hfind, hcompile.1, hcompile.2⟩
  · rintro ⟨bucket, rate, hargs, hok, rfl⟩
    have hfold := (zoneArgs_iff hok.bucket_ne hok.rate_ne).mpr hargs
    have hbucket : ¬(ngxHttpScriptVariablesCount bucket = 0 ∧ bucket.length > rnMaxBucketLen) := by
      rintro ⟨hvars, hlong⟩
      exact absurd (hok.bucket_static hvars) (by omega)
    have hrate : ¬(ngxHttpScriptVariablesCount rate = 0 ∧ (rnNumericParseRate rate).isNone) := by
      rintro ⟨hvars, hnone⟩
      have hsome := hok.rate_static hvars
      rw [Option.isNone_iff_eq_none.mp hnone] at hsome
      cases hsome
    rw [if_neg (by simp [hok.name_ok]), hfold]
    simp only
    rw [if_neg (by simp [hok.bucket_ne, hok.rate_ne]), if_neg (by simp [hok.unquoted]),
      if_neg hbucket, if_neg hrate, if_neg (by simp [hok.fresh]),
      if_pos (by simp [hok.bucket_compiles, hok.rate_compiles])]

/-! ## Order -/

variable {env : ConfEnv} {mcf : MainConf}

theorem ngxHttpRnSetPolicy_perm (name : Bytes) {args args' : List Bytes} (h : args.Perm args') :
    (ngxHttpRnSetPolicy env mcf (name :: args)).toOption =
      (ngxHttpRnSetPolicy env mcf (name :: args')).toOption := by
  have hloop : ∀ kind acc, (args.foldlM (policyArg env kind) acc).toOption =
      (args'.foldlM (policyArg env kind) acc).toOption := by
    intro kind acc
    rw [policyArgs_run, policyArgs_run, Reader.run_perm h]
  rw [ngxHttpRnSetPolicy, ngxHttpRnSetPolicy]
  split_ifs
  · rfl
  rcases policyBase env name with _ | ⟨kind, policy⟩
  · rfl
  rcases Fallible.toOption_cases (hloop kind ⟨policy, false, false, false, false, false⟩) with
    ⟨acc, hacc, hacc'⟩ | ⟨e, e', he, he'⟩
  · simp only [hacc, hacc']
  · simp only [he, he']
    rfl

theorem ngxHttpRnTracker_perm (name : Bytes) {args args' : List Bytes} (h : args.Perm args') :
    (ngxHttpRnTracker env mcf (name :: args)).toOption =
      (ngxHttpRnTracker env mcf (name :: args')).toOption := by
  rcases args with _ | ⟨a, args⟩
  · rw [h.nil_eq]
  rcases args' with _ | ⟨a', args'⟩
  · exact absurd h.symm (List.nil_perm.not.mpr (by simp))
  have hloop := trackerArgs_run env (a :: args) ⟨[], 30000, 128, 8, false, false, false, false⟩
  rw [Reader.run_perm h, ← trackerArgs_run] at hloop
  rw [ngxHttpRnTracker, ngxHttpRnTracker]
  rcases Fallible.toOption_cases hloop with ⟨acc, hacc, hacc'⟩ | ⟨e, e', he, he'⟩
  · simp only [hacc, hacc']
  · simp only [he, he']
    split_ifs <;> rfl

theorem perm_pair {a b c d : Bytes} (h : [a, b].Perm [c, d]) :
    (a = c ∧ b = d) ∨ (a = d ∧ b = c) := by
  have ha : a ∈ [c, d] := h.subset (by simp)
  simp only [List.mem_cons, List.not_mem_nil, or_false] at ha
  rcases ha with rfl | rfl
  · exact .inl ⟨rfl, List.singleton_perm_singleton.mp h.cons_inv⟩
  · exact .inr ⟨rfl, List.singleton_perm_singleton.mp (h.trans (.swap a c [])).cons_inv⟩

/-- A handler that takes two named arguments does not depend on the order of any number of
them, when it does not on the order of two. -/
theorem takes_two_perm {f : List Bytes → Except ConfError MainConf} {name : Bytes}
    (htwo : ∀ args, args.length ≠ 2 → (f (name :: args)).toOption = none)
    (hswap : ∀ a b, (f [name, a, b]).toOption = (f [name, b, a]).toOption)
    {args args' : List Bytes} (h : args.Perm args') :
    (f (name :: args)).toOption = (f (name :: args')).toOption := by
  by_cases hlen : args.length = 2
  · obtain ⟨a, b, rfl⟩ := List.length_eq_two.mp hlen
    obtain ⟨c, d, rfl⟩ := List.length_eq_two.mp (h.length_eq.symm.trans hlen)
    rcases perm_pair h with ⟨rfl, rfl⟩ | ⟨rfl, rfl⟩
    · rfl
    · exact hswap a b
  · rw [htwo args hlen, htwo args' (by rwa [← h.length_eq])]

theorem ngxHttpRnGuard_perm (name : Bytes) {args args' : List Bytes} (h : args.Perm args') :
    (ngxHttpRnGuard env mcf (name :: args)).toOption =
      (ngxHttpRnGuard env mcf (name :: args')).toOption := by
  refine takes_two_perm ?_ ?_ h
  · intro args hlen
    rcases args with _ | ⟨a, _ | ⟨b, _ | ⟨c, rest⟩⟩⟩
    · rfl
    · rfl
    · exact absurd rfl hlen
    · rfl
  · intro a b
    have hloop := guardArgs_run [a, b] ⟨[], [], false, false⟩
    rw [Reader.run_perm (.swap b a []), ← guardArgs_run] at hloop
    rw [ngxHttpRnGuard, ngxHttpRnGuard]
    rcases Fallible.toOption_cases hloop with ⟨acc, hacc, hacc'⟩ | ⟨e, e', he, he'⟩
    · simp only [hacc, hacc']
    · simp only [he, he']
      split_ifs <;> rfl

theorem ngxHttpRnZone_perm (name : Bytes) {args args' : List Bytes} (h : args.Perm args') :
    (ngxHttpRnZone env mcf (name :: args)).toOption =
      (ngxHttpRnZone env mcf (name :: args')).toOption := by
  refine takes_two_perm ?_ ?_ h
  · intro args hlen
    rcases args with _ | ⟨a, _ | ⟨b, _ | ⟨c, rest⟩⟩⟩
    · rfl
    · rfl
    · exact absurd rfl hlen
    · rfl
  · intro a b
    have half : ∀ a b mcf', ngxHttpRnZone env mcf [name, a, b] = .ok mcf' →
        ngxHttpRnZone env mcf [name, b, a] = .ok mcf' := by
      intro a b mcf' hok
      obtain ⟨bucket, rate, hargs, haccepted⟩ := ngxHttpRnZone_ok_iff.mp hok
      refine ngxHttpRnZone_ok_iff.mpr ⟨bucket, rate, ?_, haccepted⟩
      rcases hargs with ⟨ha, hb⟩ | ⟨ha, hb⟩
      · exact .inr ⟨hb, ha⟩
      · exact .inl ⟨hb, ha⟩
    exact Fallible.toOption_ext fun mcf' => ⟨half a b mcf', half b a mcf'⟩

/-! ## Accepted arguments -/

/-- Names none of which begins with another tell the texts after them apart. -/
theorem names_exclusive {K : Type*} {name : K → String} (hnul : ∀ k, NulFree (ascii (name k)))
    (hdistinct : ∀ k k', ascii (name k) <+: ascii (name k') → k = k') {a : Bytes} {k k' : K}
    (h : hasPrefix a (name k) = true) (h' : hasPrefix a (name k') = true) : k = k' := by
  have hk := (ngxStrncmp_prefix_iff a (hnul k)).mp h
  have hk' := (ngxStrncmp_prefix_iff a (hnul k')).mp h'
  rcases List.prefix_or_prefix_of_prefix hk hk' with hpre | hpre
  · exact hdistinct k k' hpre
  · exact (hdistinct k' k hpre).symm

/-- The arguments a reader accepts are known and given once. -/
theorem knownOnce_of_run {S K V : Type*} {R : Reader S Bytes K V} (name : K → String)
    (keys : List K) (hkeys : ∀ k, k ∈ keys) (hnul : ∀ k, NulFree (ascii (name k)))
    (hdistinct : ∀ k k', ascii (name k) <+: ascii (name k') → k = k')
    (hname : ∀ a v, R.parse a = some v → hasPrefix a (name (R.key v)) = true)
    {args : List Bytes} {s t : S} (h : R.run args s = some t) :
    KnownOnce (keys.map name) args := by
  obtain ⟨vs, hvs, hnodup, -, -⟩ := Reader.run_eq_some_iff.mp h
  have hparse : ∀ a ∈ args, ∃ v, R.parse a = some v := by
    intro a ha
    have hmem : R.parse a ∈ vs.map some := by
      rw [← hvs]
      exact List.mem_map_of_mem ha
    obtain ⟨v, -, hv⟩ := List.mem_map.mp hmem
    exact ⟨v, hv.symm⟩
  constructor
  · intro a ha
    obtain ⟨v, hv⟩ := hparse a ha
    exact ⟨name (R.key v), List.mem_map_of_mem (hkeys _), hname a v hv⟩
  · have hmap : args.map (fun a => (R.parse a).map R.key) = (vs.map R.key).map some := by
      have := congrArg (List.map (Option.map R.key)) hvs
      simpa [List.map_map, Function.comp_def] using this
    have hpairs : args.Pairwise fun a b => (R.parse a).map R.key ≠ (R.parse b).map R.key := by
      rw [← List.pairwise_map, hmap]
      exact hnodup.map (Option.some_injective K)
    refine hpairs.imp_of_mem fun {a b} ha hb hne n hn hboth => ?_
    obtain ⟨k, -, rfl⟩ := List.mem_map.mp hn
    obtain ⟨v, hv⟩ := hparse a ha
    obtain ⟨w, hw⟩ := hparse b hb
    have hvk := names_exclusive hnul hdistinct (hname a v hv) hboth.1
    have hwk := names_exclusive hnul hdistinct (hname b w hw) hboth.2
    rw [hv, hw, Option.map_some, Option.map_some, hvk, hwk] at hne
    exact hne rfl

/-- The keys of the policy loop and the text of each, as the parser tells them apart. -/
theorem policySetting_key {kind : PolicyKind} {a : Bytes} {v : PolicySetting}
    (h : (policyReader env kind).parse a = some v) :
    hasPrefix a v.key.name = true ∧
      policyValue env v.key (afterPrefix a v.key.name) = some v := by
  obtain ⟨k, hk, hv⟩ := Option.bind_eq_some_iff.mp h
  obtain rfl := policyValue_key hv
  exact ⟨by simpa using List.find?_some hk, hv⟩

theorem PolicyKey.name_nulFree (k : PolicyKey) : NulFree (ascii k.name) := by
  rcases k <;> decide

theorem PolicyKey.name_distinct (k k' : PolicyKey) (h : ascii k.name <+: ascii k'.name) :
    k = k' := by
  rcases k <;> rcases k' <;> first | rfl | exact absurd h (by decide)

theorem ngxHttpRnTracker_knownOnce {name : Bytes} {args : List Bytes} {mcf' : MainConf}
    (h : ngxHttpRnTracker env mcf (name :: args) = .ok mcf') :
    KnownOnce ["service=", "ttl=", "max_samples=", "min_sample_threshold="] args := by
  obtain ⟨acc, hloop, -⟩ := ngxHttpRnTracker_ok h
  have hrun := trackerArgs_run env args trackerDefaults
  rw [hloop] at hrun
  refine knownOnce_of_run TrackerKey.name [.service, .ttl, .maxSamples, .minSampleThreshold]
    ?_ ?_ ?_ ?_ hrun.symm
  · intro k
    rcases k <;> simp
  · intro k
    rcases k <;> decide
  · intro k k' hpre
    rcases k <;> rcases k' <;> first | rfl | exact absurd hpre (by decide)
  · intro a v hv
    obtain ⟨k, hk, hvalue⟩ := Option.bind_eq_some_iff.mp hv
    obtain rfl := trackerValue_key hvalue
    show hasPrefix a v.key.name = true
    simpa using List.find?_some hk

theorem ngxHttpRnGuard_knownOnce {name : Bytes} {args : List Bytes} {mcf' : MainConf}
    (h : ngxHttpRnGuard env mcf (name :: args) = .ok mcf') :
    KnownOnce ["tracker=", "threshold="] args := by
  obtain ⟨acc, hloop, -⟩ := ngxHttpRnGuard_ok h
  have hrun := guardArgs_run args guardDefaults
  rw [hloop] at hrun
  refine knownOnce_of_run GuardKey.name [.tracker, .threshold] ?_ ?_ ?_ ?_ hrun.symm
  · intro k
    rcases k <;> simp
  · intro k
    rcases k <;> decide
  · intro k k' hpre
    rcases k <;> rcases k' <;> first | rfl | exact absurd hpre (by decide)
  · intro a v hv
    obtain ⟨k, hk, rfl⟩ := Option.map_eq_some_iff.mp hv
    show hasPrefix a k.name = true
    simpa using List.find?_some hk

theorem ngxHttpRnZone_knownOnce {name : Bytes} {args : List Bytes} {mcf' : MainConf}
    (h : ngxHttpRnZone env mcf (name :: args) = .ok mcf') :
    KnownOnce ["bucket=", "rate="] args := by
  obtain ⟨a, b, rfl⟩ : ∃ a b, args = [a, b] := by
    rcases args with _ | ⟨a, _ | ⟨b, _ | ⟨c, rest⟩⟩⟩
    · cases h
    · cases h
    · exact ⟨a, b, rfl⟩
    · cases h
  obtain ⟨bucket, rate, hargs, -⟩ := ngxHttpRnZone_ok_iff.mp h
  have hbucket : hasPrefix (ascii "bucket=" ++ bucket) "bucket=" = true :=
    (hasPrefix_iff (by decide)).mpr ⟨bucket, rfl⟩
  have hrate : hasPrefix (ascii "rate=" ++ rate) "rate=" = true :=
    (hasPrefix_iff (by decide)).mpr ⟨rate, rfl⟩
  have hnotRate : hasPrefix (ascii "bucket=" ++ bucket) "rate=" = false := rfl
  have hnotBucket : hasPrefix (ascii "rate=" ++ rate) "bucket=" = false := rfl
  rcases hargs with ⟨rfl, rfl⟩ | ⟨rfl, rfl⟩ <;>
    simp [KnownOnce, hbucket, hrate, hnotRate, hnotBucket]

/-- The names a custom policy must give. -/
def PolicyKey.all : List PolicyKey :=
  [.unit, .replays, .replayGap, .finalWaitUnits, .completionDelivery]

/-- A custom policy gives each of the five names exactly once, with a value it takes. -/
def CustomOnce (env : ConfEnv) (args : List Bytes) : Prop :=
  ∃ text : PolicyKey → Bytes,
    args.Perm (PolicyKey.all.map fun k => ascii k.name ++ text k) ∧
    ∀ k, (policyValue env k (text k)).isSome

/-- A run of the loop that has seen all five names. -/
theorem customOnce_of_run {args : List Bytes} {acc acc' : PolicyArgs}
    (hnew : ∀ k, acc.seen k = false) (hall : ∀ k, acc'.seen k = true)
    (h : (policyReader env .custom).run args acc = some acc') : CustomOnce env args := by
  obtain ⟨vs, hvs, hnodup, -, rfl⟩ := Reader.run_eq_some_iff.mp h
  have hgiven : ∀ k, ∃ text, ascii k.name ++ text ∈ args ∧ (policyValue env k text).isSome := by
    intro k
    have hseen : (∃ v ∈ vs, v.key = k) ∨ acc.seen k = true :=
      (Reader.seen_foldl (R := policyReader env .custom)).mp (hall k)
    rw [hnew k] at hseen
    obtain ⟨v, hv, rfl⟩ := hseen.resolve_right (by simp)
    have hmem : some v ∈ args.map (policyReader env .custom).parse := by
      rw [hvs]
      exact List.mem_map_of_mem hv
    obtain ⟨a, ha, hparse⟩ := List.mem_map.mp hmem
    obtain ⟨hstarts, hvalue⟩ := policySetting_key hparse
    obtain ⟨rest, rfl⟩ := (hasPrefix_iff v.key.name_nulFree).mp hstarts
    rw [afterPrefix, List.drop_left] at hvalue
    exact ⟨rest, ha, by rw [hvalue]; rfl⟩
  choose text hmem hvalue using hgiven
  refine ⟨text, ?_, hvalue⟩
  have hdistinct : (PolicyKey.all.map fun k => ascii k.name ++ text k).Nodup := by
    refine List.Nodup.map ?_ (by decide)
    intro k k' heq
    refine names_exclusive (a := ascii k.name ++ text k) PolicyKey.name_nulFree
      PolicyKey.name_distinct ?_ ?_
    · exact (hasPrefix_iff k.name_nulFree).mpr ⟨_, rfl⟩
    · exact (hasPrefix_iff k'.name_nulFree).mpr ⟨_, heq⟩
  have hsub : (PolicyKey.all.map fun k => ascii k.name ++ text k).Subperm args := by
    refine List.subperm_of_subset hdistinct ?_
    intro a ha
    obtain ⟨k, -, rfl⟩ := List.mem_map.mp ha
    exact hmem k
  have hlength : args.length ≤ 5 := by
    have hkeys : (vs.map PolicySetting.key).Subperm PolicyKey.all :=
      List.subperm_of_subset hnodup fun k _ => by rcases k <;> decide
    have := congrArg List.length hvs
    have := hkeys.length_le
    simp only [List.length_map, PolicyKey.all, List.length_cons, List.length_nil] at *
    omega
  exact (hsub.perm_of_length_le (by simpa [PolicyKey.all] using hlength)).symm

/-- What `ngx_http_rn_set_policy` has read when it accepts. -/
theorem ngxHttpRnSetPolicy_ok {name : Bytes} {args : List Bytes} {mcf' : MainConf}
    (h : ngxHttpRnSetPolicy env mcf (name :: args) = .ok mcf') :
    ∃ kind policy acc, policyBase env name = some (kind, policy) ∧
      args.foldlM (policyArg env kind) ⟨policy, false, false, false, false, false⟩ = .ok acc ∧
      (kind = .custom → ∀ k, acc.seen k = true) := by
  rw [ngxHttpRnSetPolicy] at h
  by_cases hset : mcf.requestPolicySet = true
  · rw [if_pos hset] at h
    cases h
  rw [if_neg hset] at h
  rcases hbase : policyBase env name with _ | ⟨kind, policy⟩
  · simp only [hbase] at h
    cases h
  rcases hloop : args.foldlM (policyArg env kind) ⟨policy, false, false, false, false, false⟩ with
    e | acc
  · simp only [hbase, hloop] at h
    cases h
  refine ⟨kind, policy, acc, rfl, hloop, ?_⟩
  rintro rfl k
  simp only [hbase, hloop, true_and] at h
  split_ifs at h with hgiven
  obtain ⟨hunit, hreplays, hgap, hwait, hdelivery⟩ := hgiven
  rcases k
  · exact hunit
  · exact hreplays
  · exact hgap
  · exact hwait
  · exact hdelivery

theorem ngxHttpRnSetPolicy_custom {args : List Bytes} {mcf' : MainConf}
    (h : ngxHttpRnSetPolicy env mcf (ascii "custom" :: args) = .ok mcf') : CustomOnce env args := by
  obtain ⟨kind, policy, acc, hbase, hloop, hall⟩ := ngxHttpRnSetPolicy_ok h
  have hcustom : policyBase env (ascii "custom") = some (.custom, zeroPolicy) := rfl
  obtain ⟨rfl, rfl⟩ := Prod.mk.inj (Option.some.inj (hcustom.symm.trans hbase))
  have hrun := policyArgs_run env .custom args ⟨zeroPolicy, false, false, false, false, false⟩
  rw [hloop] at hrun
  exact customOnce_of_run (fun k => by rcases k <;> rfl) (hall rfl) hrun.symm

/-- The call does what the handler says, and writes the main configuration only when it
accepts. -/
theorem ngxHttpRnSetPolicyInto_cases (env : ConfEnv) (mcf : MainConf) (args : List Bytes) :
    (∃ mcf', ngxHttpRnSetPolicy env mcf args = .ok mcf' ∧
      ngxHttpRnSetPolicyInto env mcf args = (.ok (), mcf')) ∨
    ∃ e, ngxHttpRnSetPolicy env mcf args = .error e ∧
      ngxHttpRnSetPolicyInto env mcf args = (.error e, mcf) := by
  rcases args with _ | ⟨name, args⟩
  · exact .inr ⟨_, rfl, rfl⟩
  rw [ngxHttpRnSetPolicyInto, ngxHttpRnSetPolicy]
  split_ifs with hset
  · exact .inr ⟨_, rfl, rfl⟩
  rcases policyBase env name with _ | ⟨kind, policy⟩
  · exact .inr ⟨_, rfl, rfl⟩
  simp only
  rcases args.foldlM (policyArg env kind) ⟨policy, false, false, false, false, false⟩ with e | acc
  · exact .inr ⟨_, rfl, rfl⟩
  simp only
  split_ifs with hmissing
  · exact .inr ⟨_, rfl, rfl⟩
  rcases (rnPolicyHorizonMs acc.policy uint32Max.toUInt32).val with _ | horizon
  · exact .inr ⟨_, rfl, rfl⟩
  · exact .inl ⟨_, rfl, rfl⟩

/-- Named arguments may be given in any order. An accepted custom policy gives each of its
five names exactly once with a value it takes; an accepted tracker, guard or zone repeats
no name and has no unknown one. A rejected policy leaves the main configuration as it
was. -/
theorem named_arguments (env : ConfEnv) (mcf : MainConf) :
    (∀ (name : Bytes) (args args' : List Bytes), args.Perm args' →
      (ngxHttpRnSetPolicy env mcf (name :: args)).toOption =
        (ngxHttpRnSetPolicy env mcf (name :: args')).toOption ∧
      (ngxHttpRnTracker env mcf (name :: args)).toOption =
        (ngxHttpRnTracker env mcf (name :: args')).toOption ∧
      (ngxHttpRnGuard env mcf (name :: args)).toOption =
        (ngxHttpRnGuard env mcf (name :: args')).toOption ∧
      (ngxHttpRnZone env mcf (name :: args)).toOption =
        (ngxHttpRnZone env mcf (name :: args')).toOption) ∧
    (∀ (name : Bytes) (args : List Bytes) (mcf' : MainConf),
      (ngxHttpRnSetPolicy env mcf (ascii "custom" :: args) = .ok mcf' → CustomOnce env args) ∧
      (ngxHttpRnTracker env mcf (name :: args) = .ok mcf' →
        KnownOnce ["service=", "ttl=", "max_samples=", "min_sample_threshold="] args) ∧
      (ngxHttpRnGuard env mcf (name :: args) = .ok mcf' →
        KnownOnce ["tracker=", "threshold="] args) ∧
      (ngxHttpRnZone env mcf (name :: args) = .ok mcf' → KnownOnce ["bucket=", "rate="] args)) ∧
    ∀ (args : List Bytes) (e : ConfError),
      (ngxHttpRnSetPolicyInto env mcf args).1 = .error e →
      ngxHttpRnSetPolicy env mcf args = .error e ∧
      (ngxHttpRnSetPolicyInto env mcf args).2.requestPolicy = mcf.requestPolicy ∧
      (ngxHttpRnSetPolicyInto env mcf args).2.requestPolicyKind = mcf.requestPolicyKind ∧
      (ngxHttpRnSetPolicyInto env mcf args).2.requestPolicySet = mcf.requestPolicySet := by
  refine ⟨?_, ?_, ?_⟩
  · intro name args args' h
    exact ⟨ngxHttpRnSetPolicy_perm name h, ngxHttpRnTracker_perm name h,
      ngxHttpRnGuard_perm name h, ngxHttpRnZone_perm name h⟩
  · intro name args mcf'
    exact ⟨ngxHttpRnSetPolicy_custom, ngxHttpRnTracker_knownOnce, ngxHttpRnGuard_knownOnce,
      ngxHttpRnZone_knownOnce⟩
  · intro args e h
    rcases ngxHttpRnSetPolicyInto_cases env mcf args with ⟨mcf', -, hcall⟩ | ⟨e', he, hcall⟩
    · rw [hcall] at h
      cases h
    · rw [hcall] at h ⊢
      cases h
      exact ⟨he, rfl, rfl, rfl⟩

end RlNginx
