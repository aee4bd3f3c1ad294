import RlNginx.Closed
import RlNginx.Preflight

/-!
# Accepted configurations

What holds of a configuration because it was accepted. Its references resolve, on the
request path, to the definitions they named when they were stored, so the handler's
exits for unknown references and empty expansions are never taken (`loadConf_closed`).
The horizon of its request policy was checked when the directive was read and again
against the credential (`loadConf_horizon`).
-/

open Registry Fallible Word

namespace RlNginx

/-! ## The expansion of a closed location -/

/-- The exits of the handler that a closed configuration excludes. -/
def Stop.UnknownReference : Stop → Prop
  | .noRules => True
  | .emptyRuleExpansion => True
  | .unknownGroup => True
  | .unknownGuard => True
  | .unknownZone => True
  | .guardBuild .unknownTracker => True
  | _ => False

section Expansion

variable {m : MainConf}

theorem Knows.zone {name : Bytes} (h : m.Knows ⟨.zone, name⟩) :
    ∃ r, rnFindZone m name = some r := by
  obtain ⟨-, d, hd⟩ := h
  obtain ⟨r, hr, -⟩ := Option.map_eq_some_iff.mp hd
  exact ⟨r, hr⟩

theorem Knows.tracker {name : Bytes} (h : m.Knows ⟨.tracker, name⟩) :
    ∃ r, rnFindTracker m name = some r := by
  obtain ⟨-, d, hd⟩ := h
  obtain ⟨r, hr, -⟩ := Option.map_eq_some_iff.mp hd
  exact ⟨r, hr⟩

/-- A known guard is found, and so is its tracker. -/
theorem Knows.guard (hm : m.Closed) {name : Bytes} (h : m.Knows ⟨.guard, name⟩) :
    ∃ r, rnFindGuard m name = some r ∧ m.Knows ⟨.tracker, r.val.trackerName⟩ := by
  obtain ⟨hnul, d, hd⟩ := h
  obtain ⟨r, hr, -⟩ := Option.map_eq_some_iff.mp hd
  have hmem := List.mem_of_getElem? (rnFind_name hm.guard_nulFree hnul hr).1
  refine ⟨r, hr, hm.knows _ ?_⟩
  exact List.mem_append.mpr (.inl (List.mem_flatMap.mpr ⟨r.val, hmem, by simp [Guard.references]⟩))

/-- A known group is found, has zones, and so are these. -/
theorem Knows.group (hm : m.Closed) {name : Bytes} (h : m.Knows ⟨.group, name⟩) :
    ∃ r, rnFindGroup m name = some r ∧ r.val.zones ≠ [] ∧
      ∀ z ∈ r.val.zones, m.Knows ⟨.zone, z⟩ := by
  obtain ⟨hnul, d, hd⟩ := h
  obtain ⟨r, hr, -⟩ := Option.map_eq_some_iff.mp hd
  have hmem := List.mem_of_getElem? (rnFind_name hm.group_nulFree hnul hr).1
  refine ⟨r, hr, hm.group_zones _ hmem, fun z hz => hm.knows _ ?_⟩
  exact List.mem_append.mpr (.inr (List.mem_flatMap.mpr
    ⟨r.val, hmem, List.mem_map_of_mem hz⟩))

theorem RuleRef.Accepted.zone {r : RuleRef} (hr : r.Accepted m) (hk : r.kind = .zone) :
    m.Knows ⟨.zone, r.name⟩ :=
  hr.knows _ (by simp [RuleRef.references, hk])

theorem RuleRef.Accepted.group {r : RuleRef} (hr : r.Accepted m) (hk : r.kind = .group) :
    m.Knows ⟨.group, r.name⟩ :=
  hr.knows _ (by simp [RuleRef.references, hk])

theorem RuleRef.Accepted.guard {r : RuleRef} (hr : r.Accepted m) {g : Bytes} (hg : g ∈ r.guards) :
    m.Knows ⟨.guard, g⟩ :=
  hr.knows _ (List.mem_append.mpr (.inr (List.mem_map_of_mem hg)))

theorem LocConf.Closed.accepted {l : LocConf} (hl : l.Closed m) :
    ∀ r ∈ l.rules.getD [], r.Accepted m :=
  fun r hr => ⟨rules_known hl r hr, hl.guardOnly r hr⟩

theorem LocConf.Closed.rules_getD_ne {l : LocConf} (hl : l.Closed m) (henabled : l.enabled = .on) :
    l.rules.getD [] ≠ [] := by
  obtain ⟨rules, hrules⟩ := Option.isSome_iff_exists.mp (hl.enabled_iff.mp henabled)
  intro hnil
  rw [hrules] at hnil
  exact hl.rules_ne (hrules.trans (congrArg some hnil))

/-- The first pass succeeds, and every rule adds to a total. -/
theorem countRules_ok (hm : m.Closed) :
    ∀ {rules : List RuleRef} (total refs : ℕ), (∀ r ∈ rules, r.Accepted m) →
      ∃ total' refs', countRules m rules (total, refs) = .ok (total', refs') ∧
        total + refs + rules.length ≤ total' + refs'
  | [], total, refs, _ => ⟨total, refs, rfl, by simp⟩
  | r :: rules, total, refs, hrules => by
    have hr := hrules r (by simp)
    have hrest := fun r' hr' => hrules r' (List.mem_cons_of_mem r hr')
    simp only [countRules, List.length_cons]
    cases hk : r.kind with
    | zone =>
      obtain ⟨t, g, hcount, hle⟩ := countRules_ok hm
        (total + 1) (refs + r.guards.length) hrest
      exact ⟨t, g, hcount, by omega⟩
    | group =>
      obtain ⟨d, hd, hne, -⟩ := Knows.group hm (hr.group hk)
      obtain ⟨t, g, hcount, hle⟩ := countRules_ok hm
        (total + d.val.zones.length) (refs + r.guards.length) hrest
      have hpos := List.length_pos_iff.mpr hne
      exact ⟨t, g, by simpa only [hd] using hcount, by omega⟩
    | guardOnly =>
      have hpos := List.length_pos_iff.mpr (hr.guardOnly hk)
      obtain ⟨t, g, hcount, hle⟩ := countRules_ok hm
        total (refs + r.guards.length) hrest
      exact ⟨t, g, hcount, by omega⟩

theorem rnBuildTrackerValues_error {env : ReqEnv} {t : Tracker} {e : BuildError}
    (h : rnBuildTrackerValues env t = .error e) : e ≠ .unknownTracker := by
  unfold rnBuildTrackerValues at h
  split at h
  · cases h; simp
  · split_ifs at h
    · cases h; simp
    · split at h <;> cases h
      simp

theorem rnBuildGuardEntries_error {env : ReqEnv} {d : Guard}
    (ht : m.Knows ⟨.tracker, d.trackerName⟩) {e : BuildError}
    (h : rnBuildGuardEntries env m d = .error e) : e ≠ .unknownTracker := by
  obtain ⟨t, ht⟩ := Knows.tracker ht
  simp only [rnBuildGuardEntries, ht] at h
  split at h
  · cases h; simp
  · split at h
    · cases h; simp
    · split at h <;> cases h
      exact rnBuildTrackerValues_error ‹_›

theorem addGuard_stop (hm : m.Closed) {env : ReqEnv} {x : Expansion} {g : Bytes} {stop : Stop}
    (hg : m.Knows ⟨.guard, g⟩) (h : addGuard m env x g = .error stop) :
    ¬stop.UnknownReference := by
  obtain ⟨d, hd, ht⟩ := Knows.guard hm hg
  simp only [addGuard, hd] at h
  split_ifs at h
  split at h <;> cases h
  rename_i e he
  have hne := rnBuildGuardEntries_error ht he
  cases e <;> simp_all [Stop.UnknownReference]

theorem addZone_stop {env : ReqEnv} {x : Expansion} {z : Bytes} {stop : Stop}
    (hz : m.Knows ⟨.zone, z⟩) (h : addZone m env x z = .error stop) :
    ¬stop.UnknownReference := by
  obtain ⟨d, hd⟩ := Knows.zone hz
  simp only [addZone, hd] at h
  split at h <;> cases h
  exact id

theorem addRule_stop (hm : m.Closed) {env : ReqEnv} {x : Expansion} {r : RuleRef} {stop : Stop}
    (hr : r.Accepted m) (h : addRule m env x r = .error stop) : ¬stop.UnknownReference := by
  unfold addRule at h
  split at h
  · rename_i e he
    cases h
    obtain ⟨g, hg, y, hy⟩ := foldlM_error he
    exact addGuard_stop hm (hr.guard hg) hy
  · split at h
    · exact addZone_stop (hr.zone ‹_›) h
    · obtain ⟨d, hd, -, hzones⟩ := Knows.group hm (hr.group ‹_›)
      simp only [hd] at h
      obtain ⟨z, hz, y, hy⟩ := foldlM_error h
      exact addZone_stop (hzones z hz) hy
    · cases h

/-- In a closed location the handler takes no unknown-reference exit. -/
theorem rnPreflight_stop (hm : m.Closed) {l : LocConf} (hl : l.Closed m)
    (henabled : l.enabled = .on) {env : ReqEnv} {stop : Stop}
    (h : rnPreflight m l env = .error stop) : ¬stop.UnknownReference := by
  have hne := hl.rules_getD_ne henabled
  obtain ⟨total, refs, hcount, hle⟩ := countRules_ok hm 0 0 hl.accepted
  have hpos := List.length_pos_iff.mpr hne
  simp only [rnPreflight, hcount] at h
  split_ifs at h with h1 h2 h3 h4
  · exact absurd h1 hne
  · omega
  · cases h; exact id
  · cases h; exact id
  · split at h
    · rename_i e he
      cases h
      obtain ⟨r, hr, y, hy⟩ := foldlM_error he
      exact addRule_stop hm (hl.accepted r hr) hy
    · split at h
      · rename_i e he
        cases h
        unfold renderLabel at he
        split_ifs at he
        split at he
        · cases he; exact id
        · split_ifs at he
          cases he; exact id
      · cases h

/-- The guard array and the array of its definitions have the same length. -/
def Expansion.Paired (x : Expansion) : Prop :=
  x.guardDefs.length = x.guards.length

/-- Something is sent. -/
def Expansion.Filled (x : Expansion) : Prop :=
  x.Paired ∧ (x.resources ≠ [] ∨ x.guards ≠ [])

theorem addGuard_filled {env : ReqEnv} {x x' : Expansion} {g : Bytes} (hx : x.Paired)
    (h : addGuard m env x g = .ok x') : x'.Filled := by
  unfold addGuard at h
  split at h
  · cases h
  · split_ifs at h with hmem
    · cases h
      have hpos := List.length_pos_of_mem hmem
      rw [hx] at hpos
      exact ⟨hx, .inr (List.length_pos_iff.mp hpos)⟩
    · split at h <;> cases h
      exact ⟨by simpa [Expansion.Paired] using hx, by simp⟩

theorem addZone_filled {env : ReqEnv} {x x' : Expansion} {z : Bytes} (hx : x.Paired)
    (h : addZone m env x z = .ok x') : x'.Filled := by
  unfold addZone at h
  split at h
  · cases h
  · split at h <;> cases h
    exact ⟨hx, by simp⟩

theorem addRule_filled (hm : m.Closed) {env : ReqEnv} {x x' : Expansion} {r : RuleRef}
    (hr : r.Accepted m) (hx : x.Paired) (h : addRule m env x r = .ok x') : x'.Filled := by
  have weak : ∀ y : Expansion, y.Filled → y.Paired := fun _ hy => hy.1
  unfold addRule at h
  split at h
  · cases h
  · rename_i y hy
    have hpaired : y.Paired :=
      foldlM_invariant hy hx fun _ _ _ _ hx hstep => (addGuard_filled hx hstep).1
    split at h
    · exact addZone_filled hpaired h
    · obtain ⟨d, hd, hne, -⟩ := Knows.group hm (hr.group ‹_›)
      simp only [hd] at h
      exact foldlM_establish h hne hpaired weak fun _ _ _ _ hx hstep => addZone_filled hx hstep
    · cases h
      exact foldlM_establish hy (hr.guardOnly ‹_›) hx weak
        fun _ _ _ _ hx hstep => addGuard_filled hx hstep

/-- The rate check of a closed location asks for something. -/
theorem rnPreflight_filled (hm : m.Closed) {l : LocConf} (hl : l.Closed m) {env : ReqEnv}
    {chk : RateCheck} (h : rnPreflight m l env = .ok chk) :
    chk.resources ≠ [] ∨ chk.guards ≠ [] := by
  simp only [rnPreflight] at h
  split_ifs at h with hne
  split at h
  · cases h
  · split_ifs at h
    split at h
    · cases h
    · rename_i x hx
      split at h <;> cases h
      exact (foldlM_establish hx hne (I := Expansion.Paired) rfl (fun _ hy => hy.1)
        fun _ r _ hr hx hstep => addRule_filled hm (hl.accepted r hr) hx hstep).2

end Expansion

/-! ## Accepted configurations -/

/-- The directives read so far. -/
def readAll (env : ConfEnv) (items : List Item) : Except ConfError ConfState :=
  items.foldlM (ConfState.read env) (ConfState.init env)

theorem readAll_append {env : ConfEnv} {items : List Item} {it : Item} {st : ConfState}
    (h : readAll env (items ++ [it]) = .ok st) :
    ∃ st₀, readAll env items = .ok st₀ ∧ st₀.read env it = .ok st := by
  obtain ⟨st₀, h₀, hlast⟩ := foldlM_append_ok h
  obtain ⟨st', hread, hnil⟩ := foldlM_cons_ok hlast
  cases hnil
  exact ⟨st₀, h₀, hread⟩

theorem readAll_closed {env : ConfEnv} {items : List Item} (hitems : ∀ it ∈ items, it.NulFree)
    {st : ConfState} (h : readAll env items = .ok st) : st.Closed :=
  foldlM_invariant h (ConfState.init_closed env) fun _ it _ hit hst hread =>
    (ConfState.read_spec (hitems it hit) hst hread).1

/-- Later items only add definitions. -/
theorem read_grows {env : ConfEnv} {items : List Item} (hitems : ∀ it ∈ items, it.NulFree)
    {st st' : ConfState} (hst : st.Closed) (h : items.foldlM (ConfState.read env) st = .ok st') :
    st.main.Grows st'.main := by
  refine (foldlM_invariant (I := fun s => s.Closed ∧ st.main.Grows s.main) h
    ⟨hst, .refl _⟩ ?_).2
  intro s it s' hit hs hread
  obtain ⟨hclosed, hgrows, -⟩ := ConfState.read_spec (hitems it hit) hs.1 hread
  exact ⟨hclosed, hs.2.trans hgrows⟩

/-- Some item first stored the reference, which named `d` when the item was read. -/
def StoredAs (env : ConfEnv) (items : List Item) (ρ : Reference) (d : Definition) : Prop :=
  ∃ pre it post st st', items = pre ++ it :: post ∧ readAll env pre = .ok st ∧
    st.read env it = .ok st' ∧ ρ ∉ st.references ∧ ρ ∈ st'.references ∧ st.main.resolve ρ = some d

theorem StoredAs.append {env : ConfEnv} {items : List Item} {ρ : Reference} {d : Definition}
    (h : StoredAs env items ρ d) (more : List Item) : StoredAs env (items ++ more) ρ d := by
  obtain ⟨pre, it, post, st, st', rfl, hrest⟩ := h
  exact ⟨pre, it, post ++ more, st, st', by simp, hrest⟩

/-- Every reference of what was read was stored by an item, and resolves to what it named
there. -/
theorem readAll_stored {env : ConfEnv} {items : List Item} :
    ∀ {st : ConfState}, (∀ it ∈ items, it.NulFree) → readAll env items = .ok st →
      ∀ ρ ∈ st.references, ∃ d, StoredAs env items ρ d ∧ st.main.resolve ρ = some d := by
  induction items using List.reverseRecOn with
  | nil =>
    intro st _ h ρ hρ
    cases h
    simp [ConfState.init, ConfState.references, MainConf.references, ngxHttpRnCreateMainConf,
      ngxHttpRnCreateLocConf, LocConf.references] at hρ
  | append_singleton items it ih =>
    intro st hitems h ρ hρ
    obtain ⟨st₀, h₀, hread⟩ := readAll_append h
    have hclosed := readAll_closed (fun it' hit' => hitems it' (by simp [hit'])) h₀
    obtain ⟨-, hgrows, hknown⟩ := ConfState.read_spec (hitems it (by simp)) hclosed hread
    by_cases hold : ρ ∈ st₀.references
    · obtain ⟨d, hd, hres⟩ := ih (fun it' hit' => hitems it' (by simp [hit'])) h₀ ρ hold
      exact ⟨d, hd.append [it], hgrows.resolve hres⟩
    · obtain ⟨-, d, hd⟩ := hknown ρ hρ
      exact ⟨d, ⟨items, it, [], st₀, st, rfl, h₀, hread, hold, hρ, hd⟩, hgrows.resolve hd⟩

/-- `ngx_http_rn_init` completes two settings, after checking the horizon of an enabled
module. -/
theorem ngxHttpRnInit_spec {env : ConfEnv} {m m' : MainConf} (h : ngxHttpRnInit env m = .ok m') :
    (∃ tenantDns resolver, m' = { m with tenantDns, resolver }) ∧
      (m.enabled = true → ∃ H, (rnPolicyHorizonMs m.requestPolicy (maxTtlMs m)).val = some H) := by
  unfold ngxHttpRnInit at h
  split_ifs at h with hoff hkey hdns
  · cases h
    exact ⟨⟨_, _, rfl⟩, fun henabled => by simp [henabled] at hoff⟩
  all_goals
    dsimp only at h
    split at h
    · cases h
    · rename_i H hH
      refine ⟨?_, fun _ => ⟨H, hH⟩⟩
      split_ifs at h <;> cases h <;> exact ⟨_, _, rfl⟩

theorem ngxHttpRnInit_step {env : ConfEnv} {m m' : MainConf} (h : ngxHttpRnInit env m = .ok m') :
    MainStep m m' := by
  obtain ⟨⟨_, _, rfl⟩, -⟩ := ngxHttpRnInit_spec h
  exact .keep rfl rfl rfl rfl rfl

theorem ngxHttpRnInit_references {env : ConfEnv} {m m' : MainConf}
    (h : ngxHttpRnInit env m = .ok m') : m'.references = m.references := by
  obtain ⟨⟨_, _, rfl⟩, -⟩ := ngxHttpRnInit_spec h
  rfl

/-- What was read, and what it became. -/
theorem loadConf_spec {env : ConfEnv} {items : List Item} {cfg : Config}
    (h : loadConf env items = .ok cfg) : ∃ st, readAll env items = .ok st ∧
      ngxHttpRnInit env st.main = .ok cfg.main ∧ cfg.locations = st.locations := by
  unfold loadConf at h
  split at h
  · cases h
  · rename_i st hst
    split at h <;> cases h
    exact ⟨st, hst, ‹_›, rfl⟩

/-- The locations of an accepted configuration are closed. -/
theorem loadConf_locations {env : ConfEnv} {items : List Item} {cfg : Config}
    (hitems : ∀ it ∈ items, it.NulFree) (h : loadConf env items = .ok cfg) :
    cfg.main.Closed ∧ ∀ l ∈ cfg.locations, l.Closed cfg.main ∧ l.enabled ≠ .unset := by
  obtain ⟨st, hread, hinit, hlocs⟩ := loadConf_spec h
  have hst := readAll_closed hitems hread
  have hstep := ngxHttpRnInit_step hinit
  refine ⟨hstep.closed hst.main, fun l hl => ?_⟩
  rw [hlocs] at hl
  obtain ⟨hclosed, hne, -⟩ := ConfState.locations_spec hst l hl
  exact ⟨hclosed.grows hstep.grows, hne⟩

/-- In an accepted configuration admission is a flag that was set, with the module. -/
theorem loadConf_admission {env : ConfEnv} {items : List Item} {cfg : Config}
    (hitems : ∀ it ∈ items, it.NulFree) (h : loadConf env items = .ok cfg) {l : LocConf}
    (hl : l ∈ cfg.locations) (hadm : l.admission = true) : l.enabled = .on := by
  obtain ⟨-, hlocs⟩ := loadConf_locations hitems h
  have hne := (hlocs l hl).2
  cases henabled : l.enabled with
  | unset => exact absurd henabled hne
  | off => simp [LocConf.admission, ConfFlag.truthy, henabled] at hadm
  | on => rfl

/-- The policy of an accepted configuration was checked against its limit. -/
theorem loadConf_horizon {env : ConfEnv} {items : List Item} {cfg : Config}
    (h : loadConf env items = .ok cfg) (henabled : cfg.main.enabled = true) :
    cfg.main.requestPolicy.Admissible (maxTtlMs cfg.main).toNat := by
  obtain ⟨st, -, hinit, -⟩ := loadConf_spec h
  obtain ⟨⟨dns, resolver, hmain⟩, hhorizon⟩ := ngxHttpRnInit_spec hinit
  rw [hmain] at henabled ⊢
  obtain ⟨H, hH⟩ := hhorizon henabled
  exact ((rnPolicyHorizonMs_val _ _ _).mp hH).1

/-- The limit is the credential's, when that is not zero, and fits 32 bits. -/
theorem maxTtlMs_spec (m : MainConf) : (maxTtlMs m).toNat < 2 ^ 32 ∧
    (m.authKeyInfo.dedupTtlMsMax ≠ 0 → (maxTtlMs m).toNat = m.authKeyInfo.dedupTtlMsMax.toNat) := by
  refine ⟨(maxTtlMs m).toNat_lt, fun hne => ?_⟩
  rw [maxTtlMs, if_neg hne]

/-! ### An accepted configuration -/

/-- The environment of a small configuration : its key, its threshold, and the C client's
default policy. -/
def sampleEnv : ConfEnv where
  compileComplexValue := fun _ => true
  parseTime := fun s => if s = ascii "100ms" then some 100 else none
  parseAuthKey := fun s =>
    if s = ascii "rl-aes1qypsqqqqqqqqqqqrqvpsxqcrqvpsxqcrqvpsxqcrqvpsxqcrqvpsxqcrqvpsxqcrqdgrrulcvcn0x5"
    then some ⟨1, 3, 300⟩ else none
  parseAddr := fun _ => false
  resolverCreate := fun _ => false
  defaultRequestPolicy := ⟨20, 1, ⟨.fixed, 1, 1, 0, 0⟩, 1, true⟩
  httpResolver := true
  systemDnsResolver := false

/-- One server with a protected location, a report-only location and a plain one. -/
def sampleItems : List Item :=
  [.main .authKey
    [ascii "rl-aes1qypsqqqqqqqqqqqrqvpsxqcrqvpsxqcrqvpsxqcrqvpsxqcrqvpsxqcrqvpsxqcrqdgrrulcvcn0x5"],
   .main .zone [ascii "primary", ascii "bucket=primary", ascii "rate=100r/s"],
   .main .group [ascii "combined", ascii "zone=primary"],
   .main .tracker [ascii "latency", ascii "service=service:latency"],
   .main .guard [ascii "fast", ascii "tracker=latency", ascii "threshold=100ms"],
   .block 0,
   .block 1,
   .loc 2 .rule [ascii "group=combined", ascii "guard=fast"],
   .block 1,
   .loc 3 .report [ascii "latency"],
   .block 1]

/-- The merged protected location. -/
def protectedLoc : LocConf where
  enabled := .on
  rules := some [⟨.group, ascii "combined", [ascii "fast"]⟩]
  reportSet := false
  reportEnabled := false
  reportTrackerName := []
  labelTemplate := []
  labelSet := false

/-- The merged report-only location. -/
def reportLoc : LocConf where
  enabled := .off
  rules := none
  reportSet := true
  reportEnabled := true
  reportTrackerName := ascii "latency"
  labelTemplate := []
  labelSet := false

/-- The server, and a location without directives of the module. -/
def plainLoc : LocConf where
  enabled := .off
  rules := none
  reportSet := false
  reportEnabled := false
  reportTrackerName := []
  labelTemplate := []
  labelSet := false

/-- What the small configuration loads to. -/
def sampleConfig : Config where
  main := {
    zones := [⟨ascii "primary", ascii "primary", ascii "100r/s"⟩]
    trackers := [⟨ascii "latency", ascii "service:latency", 30000, 128, 8⟩]
    guards := [⟨ascii "fast", ascii "latency", ascii "100ms"⟩]
    groups := [⟨ascii "combined", [ascii "primary"]⟩]
    tenantDns := some (ascii "c-3.p0.ratelimitly.com")
    authKey := some (ascii
      "rl-aes1qypsqqqqqqqqqqqrqvpsxqcrqvpsxqcrqvpsxqcrqvpsxqcrqvpsxqcrqvpsxqcrqdgrrulcvcn0x5")
    authKeyInfo := ⟨1, 3, 300⟩
    requestPolicy := ⟨20, 1, ⟨.fixed, 1, 1, 0, 0⟩, 1, true⟩
    requestPolicyKind := .standard
    requestPolicySet := false
    failOpen := true
    enabled := true
    bindAddr := none
    resolver := some .http
    debug := false
    debugSet := false }
  locations := [plainLoc, protectedLoc, reportLoc, plainLoc]

theorem sample_loads : loadConf sampleEnv sampleItems = .ok sampleConfig := by
  decide +kernel

/-! ## Closed, and with an exact horizon -/

section Loaded

variable {env : ConfEnv} {items : List Item} {cfg : Config}

/-- What a directive refers to was defined before it, and later directives leave that
definition as it is. -/
theorem loadConf_resolves (hitems : ∀ it ∈ items, it.NulFree) (h : loadConf env items = .ok cfg)
    {pre post : List Item} {it : Item} {st st' : ConfState} (hsplit : items = pre ++ it :: post)
    (hpre : readAll env pre = .ok st) (hit : st.read env it = .ok st') :
    ∀ ρ ∈ st'.references, ∃ d, st.main.resolve ρ = some d ∧ d.name = ρ.name ∧
      cfg.main.resolve ρ = some d := by
  intro ρ hρ
  subst hsplit
  obtain ⟨last, hread, hinit, -⟩ := loadConf_spec h
  have hclosed := readAll_closed (fun i hi => hitems i (by simp [hi])) hpre
  obtain ⟨hclosed', hgrows, hknown⟩ := ConfState.read_spec (hitems it (by simp)) hclosed hit
  obtain ⟨hnul, d, hd⟩ := hknown ρ hρ
  obtain ⟨st₂, hpre₂, hrest⟩ := foldlM_append_ok hread
  obtain rfl : st = st₂ := Except.ok.inj (hpre.symm.trans hpre₂)
  obtain ⟨st₃, hit₃, hpost⟩ := foldlM_cons_ok hrest
  obtain rfl : st' = st₃ := Except.ok.inj (hit.symm.trans hit₃)
  have hlast := read_grows (fun i hi => hitems i (by simp [hi])) hclosed' hpost
  exact ⟨d, hd, hclosed.main.resolve_name hnul hd,
    ((hgrows.trans hlast).trans (ngxHttpRnInit_step hinit).grows).resolve hd⟩

/-- A reference of the loaded configuration resolves to what it was stored as. -/
theorem loadConf_stored (hitems : ∀ it ∈ items, it.NulFree) (h : loadConf env items = .ok cfg) :
    ∀ ρ ∈ cfg.references, ∃ d, StoredAs env items ρ d ∧ d.name = ρ.name ∧
      cfg.main.resolve ρ = some d := by
  obtain ⟨st, hread, hinit, hloc⟩ := loadConf_spec h
  have hst := readAll_closed hitems hread
  have hsub : ∀ ρ ∈ cfg.references, ρ ∈ st.references := by
    simp only [Config.references, List.forall_mem_append, List.forall_mem_flatMap, hloc]
    refine ⟨fun ρ hρ => ?_, fun l hl => (ConfState.locations_spec hst l hl).2.2⟩
    have hrefs : cfg.main.references = st.main.references := ngxHttpRnInit_references hinit
    rw [hrefs] at hρ
    exact List.mem_append.mpr (.inl hρ)
  intro ρ hρ
  obtain ⟨d, hstored, hd⟩ := readAll_stored hitems hread ρ (hsub ρ hρ)
  have hnul : NulFree ρ.name := (forall_mem_confReferences.mpr
    ⟨hst.main.knows, fun b hb => (hst.blocks b hb).knows⟩ ρ (hsub ρ hρ)).1
  exact ⟨d, hstored, hst.main.resolve_name hnul hd, (ngxHttpRnInit_step hinit).grows.resolve hd⟩

/-- The rules of a location with admission expand to something, whatever the request. -/
theorem loadConf_expands (hitems : ∀ it ∈ items, it.NulFree) (h : loadConf env items = .ok cfg)
    {l : LocConf} (hl : l ∈ cfg.locations) (hadm : l.admission = true) :
    l.rules.getD [] ≠ [] ∧
      (∃ total refs, countRules cfg.main (l.rules.getD []) (0, 0) = .ok (total, refs) ∧
        0 < total + refs) ∧
      ∀ renv : ReqEnv, (∀ stop, rnPreflight cfg.main l renv = .error stop →
          ¬stop.UnknownReference) ∧
        ∀ chk, rnPreflight cfg.main l renv = .ok chk → chk.resources ≠ [] ∨ chk.guards ≠ [] := by
  obtain ⟨hmain, hlocs⟩ := loadConf_locations hitems h
  have hon := loadConf_admission hitems h hl hadm
  have hclosed := (hlocs l hl).1
  obtain ⟨total, refs, hcount, hle⟩ := countRules_ok hmain 0 0 hclosed.accepted
  have hne := hclosed.rules_getD_ne hon
  have hpos := List.length_pos_iff.mpr hne
  exact ⟨hne, ⟨total, refs, hcount, by omega⟩, fun renv =>
    ⟨fun stop => rnPreflight_stop hmain hclosed hon, fun chk => rnPreflight_filled hmain hclosed⟩⟩

end Loaded

/-- Accepted configurations are closed : names are unique; a reference, wherever it is
stored, resolves on the request path to the definition it named when it was accepted; a
location with admission expands to at least one resource or guard; and the exits of the
request path for unknown references are not taken. -/
theorem loadConf_closed {env : ConfEnv} {items : List Item} {cfg : Config}
    (hitems : ∀ it ∈ items, it.NulFree) (h : loadConf env items = .ok cfg) :
    ((cfg.main.zones.map Zone.name).Nodup ∧ (cfg.main.trackers.map Tracker.name).Nodup ∧
      (cfg.main.guards.map Guard.name).Nodup ∧ (cfg.main.groups.map Group.name).Nodup) ∧
    (∀ pre it post st st', items = pre ++ it :: post → readAll env pre = .ok st →
      st.read env it = .ok st' → ∀ ρ ∈ st'.references, ∃ d, st.main.resolve ρ = some d ∧
        d.name = ρ.name ∧ cfg.main.resolve ρ = some d) ∧
    (∀ ρ ∈ cfg.references, ∃ d, StoredAs env items ρ d ∧ d.name = ρ.name ∧
      cfg.main.resolve ρ = some d) ∧
    (∀ l ∈ cfg.locations, l.admission = true → l.rules.getD [] ≠ [] ∧
      (∃ total refs, countRules cfg.main (l.rules.getD []) (0, 0) = .ok (total, refs) ∧
        0 < total + refs) ∧
      ∀ renv : ReqEnv, (∀ stop, rnPreflight cfg.main l renv = .error stop →
          ¬stop.UnknownReference) ∧
        ∀ chk, rnPreflight cfg.main l renv = .ok chk → chk.resources ≠ [] ∨ chk.guards ≠ []) ∧
    ∀ l ∈ cfg.locations, l.reportEnabled = true →
      ∃ t, rnFindTracker cfg.main l.reportTrackerName = some t := by
  obtain ⟨hmain, hlocs⟩ := loadConf_locations hitems h
  refine ⟨⟨hmain.zoneNames, hmain.trackerNames, hmain.guardNames, hmain.groupNames⟩,
    fun pre it post st st' hsplit hpre hit => loadConf_resolves hitems h hsplit hpre hit,
    loadConf_stored hitems h, fun l hl hadm => loadConf_expands hitems h hl hadm,
    fun l hl hreport => ?_⟩
  exact Knows.tracker (report_known (hlocs l hl).1 hreport)

theorem sample_closed : (sampleConfig.main.zones.map Zone.name).Nodup ∧
    (∀ ρ ∈ sampleConfig.references, ∃ d, StoredAs sampleEnv sampleItems ρ d ∧ d.name = ρ.name ∧
      sampleConfig.main.resolve ρ = some d) ∧
    protectedLoc ∈ sampleConfig.locations ∧ protectedLoc.admission = true ∧
    sampleConfig.references.length = 5 := by
  have h := loadConf_closed (by decide +kernel) sample_loads
  exact ⟨h.1.1, h.2.2.1, by decide, rfl, rfl⟩

/-- The horizon is exact : `rn_policy_horizon_ms` succeeds exactly on admissible policies,
with the horizon; its operations do not wrap, but for the counter of the exponential loop,
which is decremented once more at zero; and an accepted configuration with the module
enabled has a horizon within 32 bits and within the credential's limit. -/
theorem policy_horizon_exact :
    (∀ (p : Policy) (T : UInt32) (H : ℕ), (rnPolicyHorizonMs p T).val = some H ↔
      p.Admissible T.toNat ∧ H = p.horizon) ∧
    (∀ (p : Policy) (T : UInt32), ∀ o ∈ (rnPolicyHorizonMs p T).ops,
      o.Fits ∨ p.replayGap.kind = .exponential ∧ o = roundUnderflow) ∧
    (∀ (env : ConfEnv) (items : List Item) (cfg : Config), loadConf env items = .ok cfg →
      cfg.main.enabled = true → cfg.main.requestPolicy.horizon < 2 ^ 32 ∧
        (rnPolicyHorizonMs cfg.main.requestPolicy (maxTtlMs cfg.main)).val =
          some cfg.main.requestPolicy.horizon ∧
        (cfg.main.authKeyInfo.dedupTtlMsMax ≠ 0 →
          cfg.main.requestPolicy.horizon ≤ cfg.main.authKeyInfo.dedupTtlMsMax.toNat)) ∧
    rClientHaMaxReplayCount = 65535 := by
  refine ⟨rnPolicyHorizonMs_val, rnPolicyHorizonMs_all, ?_, rfl⟩
  intro env items cfg h henabled
  have hadm := loadConf_horizon h henabled
  have hle := hadm.horizon_le
  obtain ⟨hlt, hkey⟩ := maxTtlMs_spec cfg.main
  refine ⟨by omega, (rnPolicyHorizonMs_val _ _ _).mpr ⟨hadm, rfl⟩, fun hne => ?_⟩
  rw [← hkey hne]
  exact hle

theorem sample_horizon : sampleConfig.main.requestPolicy.horizon ≤ 300 :=
  (policy_horizon_exact.2.2.1 sampleEnv sampleItems sampleConfig sample_loads rfl).2.2 (by decide)

/-- One round of an exponential policy already decrements `round` at zero. -/
theorem exponential_round_wraps :
    (rnPolicyHorizonMs ⟨1, 0, ⟨.exponential, 1, 1, 0, 2⟩, 0, false⟩ 10).val = some 1 ∧
      ∃ o ∈ (rnPolicyHorizonMs ⟨1, 0, ⟨.exponential, 1, 1, 0, 2⟩, 0, false⟩ 10).ops, ¬o.Fits := by
  refine ⟨rfl, roundUnderflow, ?_, by decide⟩
  decide

end RlNginx
