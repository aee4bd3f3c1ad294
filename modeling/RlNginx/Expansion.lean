import RlNginx.Checked
import RlNginx.World

/-!
# What the rules of a location expand to

One entry per zone occurrence, in rule order and group order, and one guard per distinct
definition, where it is first referred to. `Expansion.Built` says so for the lists that
`addRule` fills, and `ZoneEntry` and `IsGuard` say what an entry is made of.

The code fills C arrays whose capacity a first pass has counted. `Arrays` models them with
their counters, and records every cell that a build function is given, also when it fails
(`fillArrays`). `fillArrays_agrees` carries the lists over to the arrays, and no write is
out of bounds.
-/

open Registry Fallible

namespace RlNginx

/-! ## Entries -/

/-- The resource of a zone : the rendered rate and window, one token, and the identifier
derived from the rendered bucket with both. -/
structure IsResource (env : ReqEnv) (zone : Zone) (e : ResourceRequest) : Prop where
  rate : ∃ text, env.complexValue zone.rateTemplate = some text ∧
    rnNumericParseRate text = some (e.rateLimit, e.windowSizeMs)
  bucket : ∃ bucket, env.complexValue zone.bucketTemplate = some bucket ∧ bucket ≠ [] ∧
    bucket.length ≤ rnMaxBucketLen ∧
    env.deriveBucketId bucket e.windowSizeMs e.rateLimit = some e.bucketId
  tokens : e.tokensRequested = 1

/-- The guard of a definition : its own rendered threshold, with the settings of its
tracker and the identifier derived from them. -/
structure IsGuard (env : ReqEnv) (mcf : MainConf) (guard : Guard) (e : LatencyGuard) : Prop where
  threshold : ∃ text, env.complexValue guard.thresholdTemplate = some text ∧
    rnParseProtocolDurationMs env.parseTime text = some e.thresholdMs
  tracker : ∃ tracker, rnFindTracker mcf guard.trackerName = some tracker ∧
    e.ttlMs = tracker.val.ttlMs ∧ e.maxSamples = tracker.val.maxSamples ∧
    e.minSampleThreshold = tracker.val.minSampleThreshold ∧
    ∃ service, env.complexValue tracker.val.serviceTemplate = some service ∧ service ≠ [] ∧
      service.length ≤ rnMaxServiceLen ∧
      env.deriveLatencyTrackerId service e.ttlMs e.maxSamples e.minSampleThreshold =
        some e.latencyTrackerId

section Entries

variable {env : ReqEnv} {mcf : MainConf}

theorem rnZoneRateForRequest_ok_iff {zone : Zone} {out : ℕ × ℕ} :
    rnZoneRateForRequest env zone = .ok out ↔
      ∃ text, env.complexValue zone.rateTemplate = some text ∧
        rnNumericParseRate text = some out := by
  unfold rnZoneRateForRequest
  rcases env.complexValue zone.rateTemplate with _ | text
  · simp
  · rcases hparse : rnNumericParseRate text with _ | out' <;> simp [hparse]

theorem rnBuildZoneResource_ok_iff {zone : Zone} {e : ResourceRequest} :
    rnBuildZoneResource env zone = .ok e ↔ IsResource env zone e := by
  constructor
  · intro h
    unfold rnBuildZoneResource at h
    split at h
    · cases h
    next bucket hbucket =>
    split_ifs at h with hlen
    rw [not_or, List.length_eq_zero_iff, not_lt] at hlen
    split at h
    · cases h
    next rate window hrate =>
    split at h
    · cases h
    next id hid =>
    cases h
    exact ⟨rnZoneRateForRequest_ok_iff.mp hrate, ⟨bucket, hbucket, hlen.1, hlen.2, hid⟩, rfl⟩
  · rintro ⟨hrate, ⟨bucket, hbucket, hne, hlen, hid⟩, htokens⟩
    have hbad : ¬(bucket.length = 0 ∨ bucket.length > rnMaxBucketLen) := by
      rw [not_or, List.length_eq_zero_iff, not_lt]
      exact ⟨hne, hlen⟩
    unfold rnBuildZoneResource
    simp only [hbucket, hbad, if_false, rnZoneRateForRequest_ok_iff.mpr hrate, hid, ← htokens]

theorem rnBuildTrackerValues_ok_iff {tracker : Tracker} {v : TrackerValues} :
    rnBuildTrackerValues env tracker = .ok v ↔
      v.ttlMs = tracker.ttlMs ∧ v.maxSamples = tracker.maxSamples ∧
      v.minSampleThreshold = tracker.minSampleThreshold ∧
      ∃ service, env.complexValue tracker.serviceTemplate = some service ∧ service ≠ [] ∧
        service.length ≤ rnMaxServiceLen ∧
        env.deriveLatencyTrackerId service v.ttlMs v.maxSamples v.minSampleThreshold =
          some v.id := by
  constructor
  · intro h
    unfold rnBuildTrackerValues at h
    split at h
    · cases h
    next service hservice =>
    split_ifs at h with hlen
    rw [not_or, List.length_eq_zero_iff, not_lt] at hlen
    split at h
    · cases h
    next id hid =>
    cases h
    exact ⟨rfl, rfl, rfl, service, hservice, hlen.1, hlen.2, hid⟩
  · rintro ⟨httl, hmax, hmin, service, hservice, hne, hlen, hid⟩
    have hbad : ¬(service.length = 0 ∨ service.length > rnMaxServiceLen) := by
      rw [not_or, List.length_eq_zero_iff, not_lt]
      exact ⟨hne, hlen⟩
    unfold rnBuildTrackerValues
    simp only [hservice, hbad, if_false, ← httl, ← hmax, ← hmin, hid]

theorem rnBuildGuardEntries_ok_iff {guard : Guard} {e : LatencyGuard} :
    rnBuildGuardEntries env mcf guard = .ok e ↔ IsGuard env mcf guard e := by
  constructor
  · intro h
    unfold rnBuildGuardEntries at h
    split at h
    · cases h
    next tracker htracker =>
    split at h
    · cases h
    next text htext =>
    split at h
    · cases h
    next thresholdMs hthreshold =>
    split at h
    · cases h
    next v hv =>
    cases h
    exact ⟨⟨text, htext, hthreshold⟩, tracker, htracker, rnBuildTrackerValues_ok_iff.mp hv⟩
  · rintro ⟨⟨text, htext, hthreshold⟩, tracker, htracker, hvalues⟩
    have hv : rnBuildTrackerValues env tracker.val =
        .ok ⟨e.latencyTrackerId, e.ttlMs, e.maxSamples, e.minSampleThreshold⟩ :=
      rnBuildTrackerValues_ok_iff.mpr hvalues
    unfold rnBuildGuardEntries
    simp only [htracker, htext, hthreshold, hv]

end Entries

/-! ## Rules -/

/-- The zones of a rule : its own, or those of its group. -/
def RuleRef.zoneNames (mcf : MainConf) (r : RuleRef) : List Bytes :=
  match r.kind with
  | .zone => [r.name]
  | .group => ((rnFindGroup mcf r.name).map (·.val.zones)).getD []
  | .guardOnly => []

/-- The zone occurrences of the rules, in rule order and group order. -/
def zoneNames (mcf : MainConf) (rules : List RuleRef) : List Bytes :=
  rules.flatMap (·.zoneNames mcf)

/-- The guard references of the rules. -/
def guardNames (rules : List RuleRef) : List Bytes :=
  rules.flatMap (·.guards)

/-- The groups of the rules are found. -/
def GroupsFound (mcf : MainConf) (rules : List RuleRef) : Prop :=
  ∀ r ∈ rules, r.kind = .group → (rnFindGroup mcf r.name).isSome

/-- The entry of a zone occurrence. -/
def ZoneEntry (mcf : MainConf) (env : ReqEnv) (name : Bytes) (e : ResourceRequest) : Prop :=
  ∃ zone, rnFindZone mcf name = some zone ∧ IsResource env zone.val e

/-- The names are those of the definitions, in turn. -/
def FindsGuards (mcf : MainConf) (names : List Bytes) (refs : List (Ref Guard)) : Prop :=
  List.Forall₂ (fun name guard => rnFindGuard mcf name = some guard) names refs

/-- The guards of the references : one per distinct definition, where it is first seen. -/
def GuardsBuilt (mcf : MainConf) (env : ReqEnv) (refs : List (Ref Guard))
    (guards : List LatencyGuard) : Prop :=
  List.Forall₂ (fun guard e => IsGuard env mcf guard.val e) refs.eraseDups guards

/-- What the second pass has filled after some rules. -/
structure Expansion.Built (mcf : MainConf) (env : ReqEnv) (names gnames : List Bytes)
    (x : Expansion) : Prop where
  resources : List.Forall₂ (ZoneEntry mcf env) names x.resources
  guards : ∃ refs, FindsGuards mcf gnames refs ∧ x.guardDefs = refs.eraseDups.map Ref.idx ∧
    GuardsBuilt mcf env refs x.guards

section Rules

variable {mcf : MainConf} {env : ReqEnv} {x y : Expansion} {names gnames : List Bytes}

/-- The address of a definition determines it. -/
theorem FindsGuards.idx_injective {refs : List (Ref Guard)} (h : FindsGuards mcf gnames refs)
    {g g' : Ref Guard} {name : Bytes} (hg : rnFindGuard mcf name = some g) (hg' : g' ∈ refs)
    (hidx : g.idx = g'.idx) : g = g' := by
  obtain ⟨name', -, hname'⟩ : ∃ n ∈ gnames, rnFindGuard mcf n = some g' := by
    obtain ⟨k, hk, rfl⟩ := List.mem_iff_getElem.mp hg'
    have hlen := h.length_eq
    exact ⟨gnames[k], List.getElem_mem _, h.get (by omega) hk⟩
  have hval := (find_spec hg).1
  have hval' := (find_spec hname').1
  rw [hidx, hval'] at hval
  obtain ⟨idx, val⟩ := g
  obtain ⟨idx', val'⟩ := g'
  obtain rfl := Option.some.inj hval
  obtain rfl : idx = idx' := hidx
  rfl

theorem addGuard_built {name : Bytes} (hx : x.Built mcf env names gnames)
    (h : addGuard mcf env x name = .ok y) : y.Built mcf env names (gnames ++ [name]) := by
  obtain ⟨hres, refs, hrefs, hdefs, hguards⟩ := hx
  unfold addGuard at h
  split at h
  · cases h
  next g hg =>
  have hsnoc : FindsGuards mcf (gnames ++ [name]) (refs ++ [g]) :=
    List.rel_append hrefs (.cons hg .nil)
  have hmem : g.idx ∈ x.guardDefs ↔ g ∈ refs := by
    rw [hdefs, List.mem_map]
    constructor
    · rintro ⟨g', hg', hidx⟩
      have hg' := List.mem_eraseDups.mp hg'
      rwa [hrefs.idx_injective hg hg' hidx.symm]
    · exact fun hmem => ⟨g, List.mem_eraseDups.mpr hmem, rfl⟩
  split_ifs at h with hseen
  · cases h
    have herase : (refs ++ [g]).eraseDups = refs.eraseDups := by
      simp [List.eraseDups_append, List.removeAll, hmem.mp hseen]
    refine ⟨hres, refs ++ [g], hsnoc, ?_, ?_⟩
    · rw [herase, hdefs]
    · rw [GuardsBuilt, herase]
      exact hguards
  · split at h
    · cases h
    next e he =>
    cases h
    have herase : (refs ++ [g]).eraseDups = refs.eraseDups ++ [g] := by
      simp [List.eraseDups_append, List.eraseDups_cons, List.removeAll, mt hmem.mpr hseen]
    refine ⟨hres, refs ++ [g], hsnoc, ?_, ?_⟩
    · rw [herase, hdefs, List.map_append]
      rfl
    · rw [GuardsBuilt, herase]
      exact List.rel_append hguards (.cons (rnBuildGuardEntries_ok_iff.mp he) .nil)

theorem addZone_built {name : Bytes} (hx : x.Built mcf env names gnames)
    (h : addZone mcf env x name = .ok y) : y.Built mcf env (names ++ [name]) gnames := by
  unfold addZone at h
  split at h
  · cases h
  next zone hzone =>
  split at h
  · cases h
  next e he =>
  cases h
  refine ⟨List.rel_append hx.resources (.cons ?_ .nil), hx.guards⟩
  exact ⟨zone, hzone, rnBuildZoneResource_ok_iff.mp he⟩

theorem foldlM_addGuard_built {more : List Bytes} (hx : x.Built mcf env names gnames)
    (h : more.foldlM (addGuard mcf env) x = .ok y) : y.Built mcf env names (gnames ++ more) :=
  foldlM_seen (fun _ _ _ _ => addGuard_built) h hx

theorem foldlM_addZone_built {more : List Bytes} (hx : x.Built mcf env names gnames)
    (h : more.foldlM (addZone mcf env) x = .ok y) : y.Built mcf env (names ++ more) gnames :=
  foldlM_seen (I := fun names x => x.Built mcf env names gnames)
    (fun _ _ _ _ => addZone_built) h hx

theorem addRule_built {r : RuleRef} (hx : x.Built mcf env names gnames)
    (h : addRule mcf env x r = .ok y) :
    y.Built mcf env (names ++ r.zoneNames mcf) (gnames ++ r.guards) ∧
      (r.kind = .group → (rnFindGroup mcf r.name).isSome) := by
  unfold addRule at h
  split at h
  · cases h
  next x' hx' =>
  have hguards := foldlM_addGuard_built hx hx'
  unfold RuleRef.zoneNames
  split at h
  next hkind =>
    simp only [hkind]
    exact ⟨addZone_built hguards h, by simp⟩
  next hkind =>
    simp only [hkind]
    split at h
    · cases h
    next g hg =>
    rw [hg]
    exact ⟨foldlM_addZone_built hguards h, by simp⟩
  next hkind =>
    simp only [hkind]
    cases h
    exact ⟨by simpa using hguards, by simp⟩

/-- The second pass fills one entry per zone occurrence and one per distinct guard. -/
theorem foldlM_addRule_built {rules : List RuleRef}
    (h : rules.foldlM (addRule mcf env) ⟨[], [], []⟩ = .ok y) :
    y.Built mcf env (zoneNames mcf rules) (guardNames rules) ∧ GroupsFound mcf rules := by
  have hinit : Expansion.Built mcf env (zoneNames mcf []) (guardNames []) ⟨[], [], []⟩ ∧
      GroupsFound mcf [] := by
    refine ⟨⟨.nil, [], .nil, by simp, ?_⟩, by simp [GroupsFound]⟩
    rw [GuardsBuilt, List.eraseDups_nil]
    exact .nil
  have hall := foldlM_seen (I := fun rules x =>
    x.Built mcf env (zoneNames mcf rules) (guardNames rules) ∧ GroupsFound mcf rules) ?_ h hinit
  · simpa using hall
  · rintro seen x r x' ⟨hx, hgroups⟩ hstep
    obtain ⟨hbuilt, hgroup⟩ := addRule_built hx hstep
    refine ⟨by simpa [zoneNames, guardNames] using hbuilt, ?_⟩
    exact List.forall_mem_append.mpr ⟨hgroups, by simpa using hgroup⟩

/-- Every value the rules need renders and builds. -/
structure Builds (mcf : MainConf) (env : ReqEnv) (rules : List RuleRef) : Prop where
  groups : GroupsFound mcf rules
  zones : ∀ name ∈ zoneNames mcf rules, ∃ e, ZoneEntry mcf env name e
  guards : ∀ name ∈ guardNames rules, ∃ guard e, rnFindGuard mcf name = some guard ∧
    IsGuard env mcf guard.val e

theorem addGuard_total {name : Bytes}
    (h : ∃ guard e, rnFindGuard mcf name = some guard ∧ IsGuard env mcf guard.val e)
    (x : Expansion) : ∃ y, addGuard mcf env x name = .ok y := by
  obtain ⟨guard, e, hguard, he⟩ := h
  unfold addGuard
  simp only [hguard, rnBuildGuardEntries_ok_iff.mpr he]
  split_ifs
  · exact ⟨_, rfl⟩
  · exact ⟨_, rfl⟩

theorem addZone_total {name : Bytes} (h : ∃ e, ZoneEntry mcf env name e) (x : Expansion) :
    ∃ y, addZone mcf env x name = .ok y := by
  obtain ⟨e, zone, hzone, he⟩ := h
  unfold addZone
  simp only [hzone, rnBuildZoneResource_ok_iff.mpr he]
  exact ⟨_, rfl⟩

/-- When every value builds, the second pass does not stop. -/
theorem foldlM_addRule_total {rules : List RuleRef} (h : Builds mcf env rules) (x : Expansion) :
    ∃ y, rules.foldlM (addRule mcf env) x = .ok y := by
  refine foldlM_total ?_ x
  intro r hr x
  have hguards : ∀ name ∈ r.guards, ∀ x, ∃ y, addGuard mcf env x name = .ok y :=
    fun name hname => addGuard_total (h.guards name (List.mem_flatMap.mpr ⟨r, hr, hname⟩))
  have hzones : ∀ name ∈ r.zoneNames mcf, ∀ x, ∃ y, addZone mcf env x name = .ok y :=
    fun name hname => addZone_total (h.zones name (List.mem_flatMap.mpr ⟨r, hr, hname⟩))
  have hgroup := h.groups r hr
  obtain ⟨x', hx'⟩ := foldlM_total hguards x
  unfold RuleRef.zoneNames at hzones
  unfold addRule
  simp only [hx']
  rcases hkind : r.kind with _ | _ | _
  · simp only [hkind] at hzones
    exact hzones r.name (by simp) x'
  · obtain ⟨g, hg⟩ := Option.isSome_iff_exists.mp (hgroup hkind)
    simp only [hkind, hg] at hzones ⊢
    exact foldlM_total hzones x'
  · exact ⟨x', rfl⟩

/-- The first pass counts the zone occurrences and the guard references. -/
theorem countRules_ok_iff {rules : List RuleRef} {total refs : ℕ} {out : ℕ × ℕ} :
    countRules mcf rules (total, refs) = .ok out ↔ GroupsFound mcf rules ∧
      out = (total + (zoneNames mcf rules).length, refs + (guardNames rules).length) := by
  induction rules generalizing total refs with
  | nil =>
    rw [countRules, Except.ok.injEq, eq_comm]
    simp [GroupsFound, zoneNames, guardNames]
  | cons r rules ih =>
    have hgroups : GroupsFound mcf (r :: rules) ↔
        (r.kind = .group → (rnFindGroup mcf r.name).isSome) ∧ GroupsFound mcf rules := by
      simp [GroupsFound]
    have hzones : (zoneNames mcf (r :: rules)).length =
        (r.zoneNames mcf).length + (zoneNames mcf rules).length := by
      simp [zoneNames]
    have hguards : (guardNames (r :: rules)).length =
        r.guards.length + (guardNames rules).length := by
      simp [guardNames]
    rw [hgroups, hzones, hguards, countRules, RuleRef.zoneNames]
    rcases hkind : r.kind with _ | _ | _
    · simp [ih, add_assoc]
    · rcases hfind : rnFindGroup mcf r.name with _ | g
      · simp
      · simp [ih, add_assoc]
    · simp [ih, add_assoc]

end Rules

/-! ## Arrays -/

/-- The arrays of the second pass. -/
inductive Target where
  | resources
  | guards
  | guardDefs
  deriving DecidableEq, Repr

/-- The arrays with their counters. A cell is empty until an entry is built in it, and
`writes` are the cells that the pass has handed out for writing. -/
structure Arrays where
  resources : List (Option ResourceRequest)
  guards : List (Option LatencyGuard)
  guardDefs : List (Option ℕ)
  idx : ℕ
  guardIdx : ℕ
  writes : List (Target × ℕ)
  deriving DecidableEq, Repr

/-- The allocations before the second pass. -/
def Arrays.alloc (total totalGuardRefs : ℕ) : Arrays where
  resources := List.replicate total none
  guards := List.replicate totalGuardRefs none
  guardDefs := List.replicate totalGuardRefs none
  idx := 0
  guardIdx := 0
  writes := []

/-- A cell is handed out for writing. -/
def Arrays.write (a : Arrays) (target : Target) (i : ℕ) : Arrays :=
  { a with writes := a.writes ++ [(target, i)] }

/-- One guard reference of a rule. `rn_build_guard_entries` is given `&guards[guard_idx]`. -/
def Arrays.addGuard (mcf : MainConf) (env : ReqEnv) (a : Arrays) (name : Bytes) :
    Arrays × Option Stop :=
  match rnFindGuard mcf name with
  | none => (a, some .unknownGuard)
  | some guard =>
    if some guard.idx ∈ a.guardDefs.take a.guardIdx then (a, none)
    else
      let a := a.write .guards a.guardIdx
      match rnBuildGuardEntries env mcf guard.val with
      | .error e => (a, some (.guardBuild e))
      | .ok entry =>
        let a := a.write .guardDefs a.guardIdx
        ({ a with
          guards := a.guards.set a.guardIdx (some entry)
          guardDefs := a.guardDefs.set a.guardIdx (some guard.idx)
          guardIdx := a.guardIdx + 1 }, none)

/-- One zone reference. `rn_build_zone_resource` is given `&resources[idx]`. -/
def Arrays.addZone (mcf : MainConf) (env : ReqEnv) (a : Arrays) (name : Bytes) :
    Arrays × Option Stop :=
  match rnFindZone mcf name with
  | none => (a, some .unknownZone)
  | some zone =>
    let a := a.write .resources a.idx
    match rnBuildZoneResource env zone.val with
    | .error e => (a, some (.zoneBuild e))
    | .ok entry =>
      ({ a with resources := a.resources.set a.idx (some entry), idx := a.idx + 1 }, none)

/-- The body of the second pass. -/
def Arrays.addRule (mcf : MainConf) (env : ReqEnv) (a : Arrays) (rule : RuleRef) :
    Arrays × Option Stop :=
  match sweep (Arrays.addGuard mcf env) a rule.guards with
  | (a, some e) => (a, some e)
  | (a, none) =>
    match rule.kind with
    | .zone => a.addZone mcf env rule.name
    | .group =>
      match rnFindGroup mcf rule.name with
      | none => (a, some .unknownGroup)
      | some group => sweep (Arrays.addZone mcf env) a group.val.zones
    | .guardOnly => (a, none)

/-- The second pass, over arrays of the counted capacity. -/
def fillArrays (mcf : MainConf) (env : ReqEnv) (rules : List RuleRef) (total totalGuardRefs : ℕ) :
    Arrays × Option Stop :=
  sweep (Arrays.addRule mcf env) (Arrays.alloc total totalGuardRefs) rules

/-- Every write is within its array. -/
def Arrays.InBounds (total totalGuardRefs : ℕ) (a : Arrays) : Prop :=
  ∀ w ∈ a.writes, w.2 < if w.1 = .resources then total else totalGuardRefs

/-- The arrays hold the lists, with room for the zones and guard references to come. -/
structure Arrays.Holds (total totalGuardRefs zones refs : ℕ) (x : Expansion) (a : Arrays) :
    Prop where
  idx : a.idx = x.resources.length
  guardIdx : a.guardIdx = x.guards.length
  guardDefs_length : x.guardDefs.length = x.guards.length
  resources : x.resources.map some <+: a.resources
  guards : x.guards.map some <+: a.guards
  guardDefs : x.guardDefs.map some <+: a.guardDefs
  capacity : a.resources.length = total ∧ a.guards.length = totalGuardRefs ∧
    a.guardDefs.length = totalGuardRefs
  room : a.idx + zones ≤ total ∧ a.guardIdx + refs ≤ totalGuardRefs
  inBounds : a.InBounds total totalGuardRefs

section Arrays

variable {mcf : MainConf} {env : ReqEnv} {total totalGuardRefs zones refs : ℕ} {x : Expansion}
  {a : Arrays}

/-- An entry written after the others. -/
theorem map_some_prefix_set {α : Type*} {l : List α} {cells : List (Option α)}
    (h : l.map some <+: cells) (hlt : l.length < cells.length) (v : α) :
    (l ++ [v]).map some <+: cells.set l.length (some v) := by
  obtain ⟨rest, rfl⟩ := h
  rcases rest with _ | ⟨c, rest⟩
  · simp at hlt
  · rw [List.set_append_right _ _ (by simp), List.map_append]
    simp

theorem Arrays.InBounds.write (h : a.InBounds total totalGuardRefs) (target : Target) (i : ℕ)
    (hi : i < if target = .resources then total else totalGuardRefs) :
    (a.write target i).InBounds total totalGuardRefs := by
  intro w hw
  rcases List.mem_append.mp hw with hw | hw
  · exact h w hw
  · obtain rfl := List.mem_singleton.mp hw
    exact hi

theorem addGuard_agrees {name : Bytes} (h : a.Holds total totalGuardRefs zones (refs + 1) x) :
    Agrees (Arrays.Holds total totalGuardRefs zones refs) (Arrays.InBounds total totalGuardRefs)
      (addGuard mcf env x name) (a.addGuard mcf env name) := by
  have hroom := h.room
  have hlt : a.guardIdx < totalGuardRefs := by omega
  have hguard := h.inBounds.write .guards a.guardIdx (by simpa using hlt)
  have hdef := hguard.write .guardDefs a.guardIdx (by simpa using hlt)
  unfold addGuard Arrays.addGuard
  rcases rnFindGuard mcf name with _ | guard
  · exact .error h.inBounds
  have hseen : some guard.idx ∈ a.guardDefs.take a.guardIdx ↔ guard.idx ∈ x.guardDefs := by
    have htake : a.guardDefs.take a.guardIdx = x.guardDefs.map some := by
      obtain ⟨rest, hrest⟩ := h.guardDefs
      rw [h.guardIdx, ← h.guardDefs_length, ← hrest, List.take_left' (by simp)]
    rw [htake]
    simp
  by_cases hmem : guard.idx ∈ x.guardDefs
  · simp only [hseen, hmem, if_true]
    exact .ok { h with room := ⟨hroom.1, by omega⟩ }
  · simp only [hseen, hmem, if_false]
    rcases rnBuildGuardEntries env mcf guard.val with e | entry
    · exact .error hguard
    · refine .ok ⟨h.idx, ?_, ?_, h.resources, ?_, ?_, ?_, ⟨hroom.1, ?_⟩, hdef⟩
      · simpa [Arrays.write] using h.guardIdx
      · simpa using h.guardDefs_length
      · simpa [Arrays.write, h.guardIdx] using
          map_some_prefix_set h.guards (by rw [h.capacity.2.1]; have := h.guardIdx; omega) entry
      · simpa [Arrays.write, h.guardIdx, h.guardDefs_length] using
          map_some_prefix_set h.guardDefs
            (by rw [h.capacity.2.2, h.guardDefs_length]; have := h.guardIdx; omega) guard.idx
      · simpa [Arrays.write] using h.capacity
      · simp only [Arrays.write]
        omega

theorem addZone_agrees {name : Bytes} (h : a.Holds total totalGuardRefs (zones + 1) refs x) :
    Agrees (Arrays.Holds total totalGuardRefs zones refs) (Arrays.InBounds total totalGuardRefs)
      (addZone mcf env x name) (a.addZone mcf env name) := by
  have hroom := h.room
  have hlt : a.idx < total := by omega
  have hwrite := h.inBounds.write .resources a.idx (by simpa using hlt)
  unfold addZone Arrays.addZone
  rcases rnFindZone mcf name with _ | zone
  · exact .error h.inBounds
  simp only
  rcases rnBuildZoneResource env zone.val with e | entry
  · exact .error hwrite
  · refine .ok ⟨?_, h.guardIdx, h.guardDefs_length, ?_, h.guards, h.guardDefs, ?_, ⟨?_, hroom.2⟩,
      hwrite⟩
    · simpa [Arrays.write] using h.idx
    · simpa [Arrays.write, h.idx] using
        map_some_prefix_set h.resources (by rw [h.capacity.1]; have := h.idx; omega) entry
    · simpa [Arrays.write] using h.capacity
    · simp only [Arrays.write]
      omega

theorem sweep_addGuard_agrees {names : List Bytes}
    (h : a.Holds total totalGuardRefs zones (names.length + refs) x) :
    Agrees (Arrays.Holds total totalGuardRefs zones refs) (Arrays.InBounds total totalGuardRefs)
      (names.foldlM (addGuard mcf env) x) (sweep (Arrays.addGuard mcf env) a names) := by
  have hrun := sweep_agrees (f := addGuard mcf env) (g := Arrays.addGuard mcf env)
    (R := fun l => Arrays.Holds total totalGuardRefs zones (l.length + refs))
    (J := Arrays.InBounds total totalGuardRefs) ?_ h
  · simpa using hrun
  · intro name l x a h
    rw [List.length_cons, Nat.add_right_comm] at h
    exact addGuard_agrees h

theorem sweep_addZone_agrees {names : List Bytes}
    (h : a.Holds total totalGuardRefs (names.length + zones) refs x) :
    Agrees (Arrays.Holds total totalGuardRefs zones refs) (Arrays.InBounds total totalGuardRefs)
      (names.foldlM (addZone mcf env) x) (sweep (Arrays.addZone mcf env) a names) := by
  have hrun := sweep_agrees (f := addZone mcf env) (g := Arrays.addZone mcf env)
    (R := fun l => Arrays.Holds total totalGuardRefs (l.length + zones) refs)
    (J := Arrays.InBounds total totalGuardRefs) ?_ h
  · simpa using hrun
  · intro name l x a h
    rw [List.length_cons, Nat.add_right_comm] at h
    exact addZone_agrees h

theorem addRule_agrees {r : RuleRef}
    (h : a.Holds total totalGuardRefs ((r.zoneNames mcf).length + zones)
      (r.guards.length + refs) x) :
    Agrees (Arrays.Holds total totalGuardRefs zones refs) (Arrays.InBounds total totalGuardRefs)
      (addRule mcf env x r) (a.addRule mcf env r) := by
  have hguards : Agrees
      (Arrays.Holds total totalGuardRefs ((r.zoneNames mcf).length + zones) refs)
      (Arrays.InBounds total totalGuardRefs)
      (r.guards.foldlM (addGuard mcf env) x) (sweep (Arrays.addGuard mcf env) a r.guards) :=
    sweep_addGuard_agrees h
  unfold addRule Arrays.addRule
  generalize r.guards.foldlM (addGuard mcf env) x = y,
    sweep (Arrays.addGuard mcf env) a r.guards = b at hguards ⊢
  rcases hguards with hholds | hbounds
  · unfold RuleRef.zoneNames at hholds
    rcases hkind : r.kind with _ | _ | _
    · simp only [hkind, List.length_singleton, Nat.add_comm 1] at hholds
      exact addZone_agrees hholds
    · rcases hfind : rnFindGroup mcf r.name with _ | group
      · exact .error hholds.inBounds
      · simp only [hkind, hfind] at hholds
        exact sweep_addZone_agrees hholds
    · simp only [hkind, List.length_nil, Nat.zero_add] at hholds
      exact .ok hholds
  · exact .error hbounds

/-- The arrays follow the lists, within the capacity of the first pass. -/
theorem fillArrays_agrees {rules : List RuleRef}
    (hcount : countRules mcf rules (0, 0) = .ok (total, totalGuardRefs)) :
    Agrees (Arrays.Holds total totalGuardRefs 0 0) (Arrays.InBounds total totalGuardRefs)
      (rules.foldlM (addRule mcf env) ⟨[], [], []⟩)
      (fillArrays mcf env rules total totalGuardRefs) := by
  obtain ⟨-, hout⟩ := countRules_ok_iff.mp hcount
  obtain ⟨htotal, hrefs⟩ := Prod.mk.inj hout
  refine sweep_agrees (R := fun rules =>
    Arrays.Holds total totalGuardRefs (zoneNames mcf rules).length (guardNames rules).length) ?_ ?_
  · intro r rules x a h
    refine addRule_agrees ?_
    simpa [zoneNames, guardNames] using h
  · constructor <;> simp [Arrays.alloc, Arrays.InBounds, htotal, hrefs]

end Arrays

/-! ## The submitted check -/

/-- The check that the rules of a location expand to. -/
structure RateCheck.Expands (mcf : MainConf) (env : ReqEnv) (lcf : LocConf) (check : RateCheck) :
    Prop where
  resources : List.Forall₂ (ZoneEntry mcf env) (zoneNames mcf (lcf.rules.getD [])) check.resources
  guards : ∃ refs, FindsGuards mcf (guardNames (lcf.rules.getD [])) refs ∧
    GuardsBuilt mcf env refs check.guards
  label : renderLabel env lcf = .ok check.label

/-- The arrays and counts of the code are those of the check. -/
def RateCheck.InArrays (mcf : MainConf) (env : ReqEnv) (rules : List RuleRef)
    (check : RateCheck) : Prop :=
  ∃ total refs a, countRules mcf rules (0, 0) = .ok (total, refs) ∧
    fillArrays mcf env rules total refs = (a, none) ∧
    a.idx = check.resources.length ∧ a.guardIdx = check.guards.length ∧
    check.resources.map some <+: a.resources ∧ check.guards.map some <+: a.guards

/-- A check that passes the preflight is the expansion of the rules, as it stands in the
arrays. -/
theorem rnPreflight_ok {mcf : MainConf} {lcf : LocConf} {env : ReqEnv} {check : RateCheck}
    (h : rnPreflight mcf lcf env = .ok check) :
    check.Expands mcf env lcf ∧ check.InArrays mcf env (lcf.rules.getD []) := by
  simp only [rnPreflight] at h
  split_ifs at h
  split at h
  · cases h
  next total refs hcount =>
  split_ifs at h
  split at h
  · cases h
  next x hx =>
  split at h
  · cases h
  next label hlabel =>
  cases h
  obtain ⟨hbuilt, -⟩ := foldlM_addRule_built hx
  refine ⟨⟨hbuilt.resources, ?_, hlabel⟩, ?_⟩
  · obtain ⟨refs, hrefs, -, hguards⟩ := hbuilt.guards
    exact ⟨refs, hrefs, hguards⟩
  · have hagrees : Agrees (Arrays.Holds total refs 0 0) (Arrays.InBounds total refs)
        (.ok x) (fillArrays mcf env (lcf.rules.getD []) total refs) :=
      hx ▸ fillArrays_agrees hcount
    rcases hfill : fillArrays mcf env (lcf.rules.getD []) total refs with ⟨a, stop⟩
    rw [hfill] at hagrees
    rcases hagrees with hholds | _
    exact ⟨total, refs, a, hcount, hfill, hholds.idx, hholds.guardIdx, hholds.resources,
      hholds.guards⟩

/-- The values of the definitions that the rules name render and build. -/
structure ValuesBuild (mcf : MainConf) (env : ReqEnv) (lcf : LocConf) : Prop where
  zones : ∀ name ∈ zoneNames mcf (lcf.rules.getD []), ∀ zone ∈ rnFindZone mcf name,
    ∃ e, IsResource env zone.val e
  guards : ∀ name ∈ guardNames (lcf.rules.getD []), ∀ guard ∈ rnFindGuard mcf name,
    ∃ e, IsGuard env mcf guard.val e
  label : ∃ label, renderLabel env lcf = .ok label
  alloc : env.allocResources = true ∧ env.allocGuards = true

section Accepted

variable {cenv : ConfEnv} {mcf : MainConf} {lcf : LocConf}

/-- What a rule of an accepted location refers to is found. -/
theorem LocConf.Checked.rule_found (hl : lcf.Checked mcf) {r : RuleRef}
    (hr : r ∈ lcf.rules.getD []) : ∀ ρ ∈ r.references, (mcf.resolve ρ).isSome :=
  (forall_mem_references.mp hl.found).1 r hr

theorem LocConf.Checked.groups_found (hl : lcf.Checked mcf) :
    GroupsFound mcf (lcf.rules.getD []) := by
  intro r hr hkind
  have hfound := hl.rule_found hr ⟨.group, r.name⟩ (by simp [RuleRef.references, hkind])
  simpa [MainConf.resolve] using hfound

theorem LocConf.Checked.guard_found (hl : lcf.Checked mcf) :
    ∀ name ∈ guardNames (lcf.rules.getD []), (rnFindGuard mcf name).isSome := by
  intro name hname
  obtain ⟨r, hr, hname⟩ := List.mem_flatMap.mp hname
  have hfound := hl.rule_found hr ⟨.guard, name⟩ (by simp [RuleRef.references, hname])
  simpa [MainConf.resolve] using hfound

theorem LocConf.Checked.zone_found (hm : mcf.Checked cenv) (hl : lcf.Checked mcf) :
    ∀ name ∈ zoneNames mcf (lcf.rules.getD []), (rnFindZone mcf name).isSome := by
  intro name hname
  obtain ⟨r, hr, hname⟩ := List.mem_flatMap.mp hname
  unfold RuleRef.zoneNames at hname
  split at hname
  next hkind =>
    obtain rfl := List.mem_singleton.mp hname
    have hfound := hl.rule_found hr ⟨.zone, r.name⟩ (by simp [RuleRef.references, hkind])
    simpa [MainConf.resolve] using hfound
  next hkind =>
    obtain ⟨g, hg⟩ := Option.isSome_iff_exists.mp (hl.groups_found r hr hkind)
    rw [hg] at hname
    have hmem : g.val ∈ mcf.groups := List.mem_of_getElem? (find_spec hg).1
    have hfound := hm.found ⟨.zone, name⟩ (by
      refine List.mem_append.mpr (.inr (List.mem_flatMap.mpr ⟨g.val, hmem, ?_⟩))
      exact List.mem_map.mpr ⟨name, hname, rfl⟩)
    simpa [MainConf.resolve] using hfound
  next => simp at hname

/-- A rule of an accepted location names a zone or a guard. -/
theorem LocConf.Checked.names_ne (hm : mcf.Checked cenv) (hl : lcf.Checked mcf) {r : RuleRef}
    (hr : r ∈ lcf.rules.getD []) : 0 < (r.zoneNames mcf).length + r.guards.length := by
  unfold RuleRef.zoneNames
  rcases hkind : r.kind with _ | _ | _
  · simp
  · obtain ⟨g, hg⟩ := Option.isSome_iff_exists.mp (hl.groups_found r hr hkind)
    have hne := hm.group_zones g.val (List.mem_of_getElem? (find_spec hg).1)
    have hpos := List.length_pos_iff.mpr hne
    simp only [hg, Option.map_some, Option.getD_some]
    omega
  · have hpos := List.length_pos_iff.mpr (hl.guardOnly r hr hkind)
    simp only
    omega

/-- When the values build, an accepted location passes the preflight. -/
theorem LocConf.Checked.preflight (hm : mcf.Checked cenv) (hl : lcf.Checked mcf) {env : ReqEnv}
    (hrules : lcf.rules ≠ none) (hvalues : ValuesBuild mcf env lcf) :
    ∃ check, rnPreflight mcf lcf env = .ok check := by
  have hne : lcf.rules.getD [] ≠ [] := by
    obtain ⟨rules, hsome⟩ := Option.ne_none_iff_exists'.mp hrules
    rintro hnil
    rw [hsome, Option.getD_some] at hnil
    exact hl.rules_ne (hnil ▸ hsome)
  have hbuilds : Builds mcf env (lcf.rules.getD []) := by
    refine ⟨hl.groups_found, ?_, ?_⟩
    · intro name hname
      obtain ⟨zone, hzone⟩ := Option.isSome_iff_exists.mp (hl.zone_found hm name hname)
      obtain ⟨e, he⟩ := hvalues.zones name hname zone hzone
      exact ⟨e, zone, hzone, he⟩
    · intro name hname
      obtain ⟨guard, hguard⟩ := Option.isSome_iff_exists.mp (hl.guard_found name hname)
      obtain ⟨e, he⟩ := hvalues.guards name hname guard hguard
      exact ⟨guard, e, hguard, he⟩
  obtain ⟨x, hx⟩ := foldlM_addRule_total hbuilds ⟨[], [], []⟩
  obtain ⟨label, hlabel⟩ := hvalues.label
  have hcount : countRules mcf (lcf.rules.getD []) (0, 0) =
      .ok (0 + (zoneNames mcf (lcf.rules.getD [])).length,
        0 + (guardNames (lcf.rules.getD [])).length) :=
    countRules_ok_iff.mpr ⟨hl.groups_found, rfl⟩
  have hpos : ¬(0 + (zoneNames mcf (lcf.rules.getD [])).length = 0 ∧
      0 + (guardNames (lcf.rules.getD [])).length = 0) := by
    obtain ⟨r, rules, hcons⟩ := List.exists_cons_of_ne_nil hne
    have hr := hl.names_ne hm (r := r) (by simp [hcons])
    simp only [hcons, zoneNames, guardNames, List.flatMap_cons, List.length_append]
    omega
  refine ⟨⟨x.resources, x.guards, label⟩, ?_⟩
  unfold rnPreflight
  simp only [hne, if_false, hcount, hpos, hvalues.alloc, hx, hlabel]
  simp

end Accepted

/-- The handler can allocate and register a context for a main request without one, and has a
client. -/
structure Frame.Ready (s : Setup) (env : HandlerEnv) (f : Frame) : Prop where
  main : f.req.main = true
  fresh : (rnGetRequestCtx f.req).ctx = none
  allocCtx : env.allocCtx = true
  cleanupAdd : env.cleanupAdd = true
  ensured : (rnEnsured s env.init f.proc).2 = true
  client : (rnEnsured s env.init f.proc).1.client.isSome

/-- What the start section submits and stores. -/
theorem rnStart_call (mcf : MainConf) (env : HandlerEnv) (i : ℕ) (client : Client)
    (check : RateCheck) (l : Live) : (rnStart mcf env i client check l).call = some check ∧
      (rnStart mcf env i client check l).live.ctx.expectedGuardCount = check.guards.length ∧
      (rnStart mcf env i client check l).live.ctx.expectedResourceCount =
        check.resources.length := by
  simp only [rnStart]
  split_ifs <;> exact ⟨rfl, rfl, rfl⟩

/-- A handler that is ready submits the check that passed the preflight. -/
theorem ngxHttpRnHandler_submits {s : Setup} {env : HandlerEnv} {f : Frame} {check : RateCheck}
    (hready : f.Ready s env) (hadm : f.req.lcf.admission = true)
    (henabled : s.conf.main.enabled = true)
    (hcheck : rnPreflight s.conf.main f.req.lcf env.values = .ok check) (i : ℕ) :
    (ngxHttpRnHandler s env i f).1.req.startCalls = f.req.startCalls ++ [check] ∧
      ∃ x ∈ (ngxHttpRnHandler s env i f).1.req.ctx,
        x.expectedGuardCount = check.guards.length ∧
        x.expectedResourceCount = check.resources.length := by
  obtain ⟨hmain, hfresh, halloc, hcleanup, hensured, hclient⟩ := hready
  obtain ⟨client, hclient⟩ := Option.isSome_iff_exists.mp hclient
  have hens : rnEnsured s env.init f.proc = ((rnEnsured s env.init f.proc).1, true) :=
    Prod.ext rfl hensured
  have hadmit : ∀ l : Live, l.proc = f.proc →
      ∃ l', rnAdmit s f.req.lcf env i l = rnStart s.conf.main env i client check l' := by
    intro l hl
    unfold rnAdmit
    rw [hl, hens]
    simp only [hclient, rnCheck, hadm, Bool.not_true, Bool.false_eq_true, if_false, hcheck]
    exact ⟨_, rfl⟩
  obtain ⟨l, hl⟩ := hadmit ⟨f.proc, (rnGetRequestCtx f.req).count,
    ReqCtx.new s.conf.main f.req.lcf⟩ rfl
  have hrun : (ngxHttpRnHandler s env i f).1 =
      (rnAdmission s env i { f with req := rnGetRequestCtx f.req }).1 := by
    simp [ngxHttpRnHandler, hmain, rnGetRequestCtx_lcf, hadm, henabled, hfresh]
  obtain ⟨hcall, hguards, hresources⟩ := rnStart_call s.conf.main env i client check l
  rw [hrun]
  simp only [rnAdmission, halloc, hcleanup, Bool.not_true, Bool.false_eq_true, if_false,
    rnGetRequestCtx_lcf, hl, rnGetRequestCtx_startCalls, hcall]
  refine ⟨rfl, (rnStart s.conf.main env i client check l).live.ctx, ?_, hguards, hresources⟩
  simp [Request.ctx]

/-- Every effective rule list of an accepted configuration expands, for a request whose values
build, to one resource per zone occurrence and one guard per distinct definition, which the
handler submits and counts. No run of the second pass, complete or not, writes beyond what
the first one counted. -/
theorem rule_expansion {cenv : ConfEnv} {items : List Item} {cfg : Config}
    (hload : loadConf cenv items = .ok cfg) {lcf : LocConf} (hlcf : lcf ∈ cfg.locations)
    (hrules : lcf.rules ≠ none) :
    (∀ (s : Setup) (env : HandlerEnv) (i : ℕ) (f : Frame), s.conf = cfg → f.req.lcf = lcf →
      f.Ready s env → ValuesBuild cfg.main env.values lcf →
      ∃ check : RateCheck, check.Expands cfg.main env.values lcf ∧
        check.InArrays cfg.main env.values (lcf.rules.getD []) ∧
        (ngxHttpRnHandler s env i f).1.req.startCalls = f.req.startCalls ++ [check] ∧
        ∃ x ∈ (ngxHttpRnHandler s env i f).1.req.ctx,
          x.expectedGuardCount = check.guards.length ∧
          x.expectedResourceCount = check.resources.length) ∧
    ∀ (mcf : MainConf) (env : ReqEnv) (rules : List RuleRef) (total refs : ℕ),
      countRules mcf rules (0, 0) = .ok (total, refs) →
      (fillArrays mcf env rules total refs).1.InBounds total refs := by
  obtain ⟨hm, hlocs⟩ := loadConf_checked hload
  have hl := hlocs lcf hlcf
  refine ⟨?_, ?_⟩
  · rintro s env i f rfl rfl hready hvalues
    obtain ⟨check, hcheck⟩ := hl.preflight hm hrules hvalues
    obtain ⟨hexpands, harrays⟩ := rnPreflight_ok hcheck
    obtain ⟨hon, henabled⟩ := hl.enabled hrules
    have hadm : f.req.lcf.admission = true := by
      rw [LocConf.admission, hon]
      rfl
    exact ⟨check, hexpands, harrays, ngxHttpRnHandler_submits hready hadm henabled hcheck i⟩
  · intro mcf env rules total refs hcount
    have hagrees : Agrees (Arrays.Holds total refs 0 0) (Arrays.InBounds total refs)
        (rules.foldlM (addRule mcf env) ⟨[], [], []⟩) (fillArrays mcf env rules total refs) :=
      fillArrays_agrees hcount
    generalize rules.foldlM (addRule mcf env) ⟨[], [], []⟩ = x,
      fillArrays mcf env rules total refs = y at hagrees ⊢
    rcases hagrees with hholds | hbounds
    · exact hholds.inBounds
    · exact hbounds

/-! ### Repeated zones and guards -/

/-- Thresholds of 100 and 200 milliseconds. -/
def repeatedEnv : ConfEnv :=
  { sampleEnv with
    parseTime := fun s =>
      if s = ascii "100ms" then some 100 else if s = ascii "200ms" then some 200 else none }

/-- A location whose rules name a zone by itself and again in a group, and two guards twice each,
the one that is defined first after the other. -/
def repeatedItems : List Item :=
  [.main .authKey
    [ascii "rl-aes1qypsqqqqqqqqqqqrqvpsxqcrqvpsxqcrqvpsxqcrqvpsxqcrqvpsxqcrqvpsxqcrqdgrrulcvcn0x5"],
   .main .zone [ascii "primary", ascii "bucket=primary", ascii "rate=100r/s"],
   .main .zone [ascii "second", ascii "bucket=other", ascii "rate=5r/2m"],
   .main .group [ascii "both", ascii "zone=second", ascii "zone=primary"],
   .main .tracker [ascii "latency", ascii "service=service:latency"],
   .main .guard [ascii "fast", ascii "tracker=latency", ascii "threshold=100ms"],
   .main .guard [ascii "slow", ascii "tracker=latency", ascii "threshold=200ms"],
   .block 0,
   .loc 1 .rule [ascii "zone=primary", ascii "guard=slow", ascii "guard=fast"],
   .loc 1 .rule [ascii "group=both", ascii "guard=fast"],
   .loc 1 .rule [ascii "guard=slow"]]

/-- The merged location. -/
def repeatedLoc : LocConf :=
  { protectedLoc with
    rules := some [⟨.zone, ascii "primary", [ascii "slow", ascii "fast"]⟩,
      ⟨.group, ascii "both", [ascii "fast"]⟩, ⟨.guardOnly, [], [ascii "slow"]⟩] }

/-- What the configuration loads to. -/
def repeatedConfig : Config where
  main := { sampleConfig.main with
    zones := [⟨ascii "primary", ascii "primary", ascii "100r/s"⟩,
      ⟨ascii "second", ascii "other", ascii "5r/2m"⟩]
    groups := [⟨ascii "both", [ascii "second", ascii "primary"]⟩]
    guards := [⟨ascii "fast", ascii "latency", ascii "100ms"⟩,
      ⟨ascii "slow", ascii "latency", ascii "200ms"⟩] }
  locations := [repeatedLoc]

theorem repeated_loads : loadConf repeatedEnv repeatedItems = .ok repeatedConfig := by
  decide +kernel

/-- Values that render to themselves. -/
def repeatedReqEnv : ReqEnv :=
  { sampleReqEnv with parseTime := repeatedEnv.parseTime }

theorem exists_resource {env : ReqEnv} {zone : Zone}
    (h : (rnBuildZoneResource env zone).isOk = true) : ∃ e, IsResource env zone e := by
  rcases hbuild : rnBuildZoneResource env zone with e | e
  · rw [hbuild] at h
    cases h
  · exact ⟨e, rnBuildZoneResource_ok_iff.mp hbuild⟩

theorem exists_guard {env : ReqEnv} {mcf : MainConf} {guard : Guard}
    (h : (rnBuildGuardEntries env mcf guard).isOk = true) : ∃ e, IsGuard env mcf guard e := by
  rcases hbuild : rnBuildGuardEntries env mcf guard with e | e
  · rw [hbuild] at h
    cases h
  · exact ⟨e, rnBuildGuardEntries_ok_iff.mp hbuild⟩

theorem repeated_values : ValuesBuild repeatedConfig.main repeatedReqEnv repeatedLoc where
  zones := by
    have hbuild : ∀ name ∈ zoneNames repeatedConfig.main (repeatedLoc.rules.getD []),
        ∀ zone ∈ rnFindZone repeatedConfig.main name,
          (rnBuildZoneResource repeatedReqEnv zone.val).isOk = true := by
      decide +kernel
    exact fun name hname zone hzone => exists_resource (hbuild name hname zone hzone)
  guards := by
    have hbuild : ∀ name ∈ guardNames (repeatedLoc.rules.getD []),
        ∀ guard ∈ rnFindGuard repeatedConfig.main name,
          (rnBuildGuardEntries repeatedReqEnv repeatedConfig.main guard.val).isOk = true := by
      decide +kernel
    exact fun name hname guard hguard => exists_guard (hbuild name hname guard hguard)
  label := ⟨[], rfl⟩
  alloc := ⟨rfl, rfl⟩

/-- Three resources, one for each occurrence of a zone, and two guards, one for each definition. -/
theorem sample_expands :
    RateCheck.Expands repeatedConfig.main repeatedReqEnv repeatedLoc
      ⟨[⟨ascii "primary", 1000, 100, 1⟩, ⟨ascii "other", 120000, 5, 1⟩,
          ⟨ascii "primary", 1000, 100, 1⟩],
        [⟨ascii "service:latency", 200, 30000, 128, 8⟩,
          ⟨ascii "service:latency", 100, 30000, 128, 8⟩], []⟩ := by
  obtain ⟨hsubmits, -⟩ := rule_expansion repeated_loads
    (by decide : repeatedLoc ∈ repeatedConfig.locations) (by decide)
  obtain ⟨check, hexpands, -, hcalls, -⟩ := hsubmits ⟨repeatedConfig, none⟩
    { sampleHandlerEnv with values := repeatedReqEnv } 0
    ⟨Proc.init, Request.new true repeatedLoc 0⟩ rfl rfl
    ⟨rfl, rfl, rfl, rfl, by decide, by decide⟩ repeated_values
  have hcheck : (ngxHttpRnHandler ⟨repeatedConfig, none⟩
      { sampleHandlerEnv with values := repeatedReqEnv } 0
      ⟨Proc.init, Request.new true repeatedLoc 0⟩).1.req.startCalls =
        [⟨[⟨ascii "primary", 1000, 100, 1⟩, ⟨ascii "other", 120000, 5, 1⟩,
            ⟨ascii "primary", 1000, 100, 1⟩],
          [⟨ascii "service:latency", 200, 30000, 128, 8⟩,
            ⟨ascii "service:latency", 100, 30000, 128, 8⟩], []⟩] := by
    decide +kernel
  obtain rfl := List.singleton_inj.mp (hcheck.symm.trans hcalls)
  exact hexpands

end RlNginx
