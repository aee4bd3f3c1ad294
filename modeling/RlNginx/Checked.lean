import RlNginx.Inheritance
import RlNginx.NamedArgs

/-!
# What an accepted configuration was checked for

Every value of an accepted configuration passed the checks of its directive, and every
name it stores was found. Definitions are only added, so both still hold when a request
is handled (`loadConf_checked`). Nothing here asks for names without a NUL : a name is
found again by the comparison that found it first.
-/

open Registry Fallible

namespace RlNginx

/-! ## Checks -/

/-- The checks of `ngx_http_rn_zone` on its values. -/
structure Zone.Checked (z : Zone) : Prop where
  bucket_ne : z.bucketTemplate ≠ []
  bucket : ngxHttpScriptVariablesCount z.bucketTemplate = 0 →
    z.bucketTemplate.length ≤ rnMaxBucketLen
  rate : ngxHttpScriptVariablesCount z.rateTemplate = 0 →
    (rnNumericParseRate z.rateTemplate).isSome

/-- The checks of `ngx_http_rn_tracker` on its service. -/
structure Tracker.Checked (t : Tracker) : Prop where
  service_ne : t.serviceTemplate ≠ []
  service : ngxHttpScriptVariablesCount t.serviceTemplate = 0 →
    t.serviceTemplate.length ≤ rnMaxServiceLen

/-- The check of `ngx_http_rn_guard` on its threshold. -/
def Guard.Checked (env : ConfEnv) (g : Guard) : Prop :=
  ngxHttpScriptVariablesCount g.thresholdTemplate = 0 →
    (rnParseProtocolDurationMs env.parseTime g.thresholdTemplate).isSome

/-- The definitions passed their checks, and what they refer to is found. -/
structure MainConf.Checked (env : ConfEnv) (m : MainConf) : Prop where
  zones : ∀ z ∈ m.zones, z.Checked
  trackers : ∀ t ∈ m.trackers, t.Checked
  guards : ∀ g ∈ m.guards, g.Checked env
  group_zones : ∀ g ∈ m.groups, g.zones ≠ []
  found : ∀ ρ ∈ m.references, (m.resolve ρ).isSome

/-- What a location refers to is found, its rules name something and enable the module, and
its label passed its check. -/
structure LocConf.Checked (m : MainConf) (l : LocConf) : Prop where
  found : ∀ ρ ∈ l.references, (m.resolve ρ).isSome
  guardOnly : ∀ r ∈ l.rules.getD [], r.kind = .guardOnly → r.guards ≠ []
  rules_ne : l.rules ≠ some []
  enabled : l.rules ≠ none → l.enabled = .on ∧ m.enabled = true
  label : l.labelSet = true → ngxHttpScriptVariablesCount l.labelTemplate = 0 →
    l.labelTemplate.length ≤ rnMaxLabelLen

/-- What was found is found again. -/
theorem MainConf.Grows.found {m m' : MainConf} (h : m.Grows m') {ρ : Reference}
    (hρ : (m.resolve ρ).isSome) : (m'.resolve ρ).isSome := by
  obtain ⟨d, hd⟩ := Option.isSome_iff_exists.mp hρ
  rw [h.resolve hd]
  rfl

theorem LocConf.Checked.grows {m m' : MainConf} {l : LocConf} (h : l.Checked m)
    (hg : m.Grows m') : l.Checked m' :=
  { h with
    found := fun ρ hρ => hg.found (h.found ρ hρ)
    enabled := fun hrules => (h.enabled hrules).imp_right hg.enabled }

/-- A block without rules of its own leaves the flag to its parent. -/
def LocConf.FlagUnset (l : LocConf) : Prop :=
  l.rules = none → l.enabled = .unset

/-- The tracker of a guard is found. -/
theorem MainConf.Checked.tracker_found {env : ConfEnv} {m : MainConf} (h : m.Checked env)
    {g : Guard} (hg : g ∈ m.guards) : (rnFindTracker m g.trackerName).isSome := by
  have hfound := h.found ⟨.tracker, g.trackerName⟩
    (List.mem_append.mpr (.inl (List.mem_flatMap.mpr ⟨g, hg, by simp [Guard.references]⟩)))
  simpa [MainConf.resolve] using hfound

/-- A configuration with the same definitions. -/
theorem MainConf.Checked.same {env : ConfEnv} {m m' : MainConf} (h : m.Checked env)
    (hz : m'.zones = m.zones) (ht : m'.trackers = m.trackers) (hg : m'.guards = m.guards)
    (hgr : m'.groups = m.groups) : m'.Checked env := by
  have hrefs : m'.references = m.references := by
    rw [MainConf.references, MainConf.references, hg, hgr]
  have hresolve : ∀ ρ, m'.resolve ρ = m.resolve ρ := by
    intro ρ
    rw [MainConf.resolve, MainConf.resolve, rnFindZone, rnFindTracker, rnFindGuard, rnFindGroup,
      hz, ht, hg, hgr]
    rfl
  refine ⟨?_, ?_, ?_, ?_, ?_⟩
  · rw [hz]
    exact h.zones
  · rw [ht]
    exact h.trackers
  · rw [hg]
    exact h.guards
  · rw [hgr]
    exact h.group_zones
  · rw [hrefs]
    intro ρ hρ
    rw [hresolve]
    exact h.found ρ hρ

/-! ## Every directive keeps the checks -/

section Directives

variable {env : ConfEnv} {m m' : MainConf}

theorem ngxHttpRnZone_checked {args : List Bytes} (hm : m.Checked env)
    (h : ngxHttpRnZone env m args = .ok m') : m'.Checked env ∧ m.Grows m' := by
  obtain ⟨name, a, b, rfl⟩ : ∃ name a b, args = [name, a, b] := by
    rcases args with _ | ⟨name, _ | ⟨a, _ | ⟨b, _ | ⟨c, rest⟩⟩⟩⟩
    · cases h
    · cases h
    · cases h
    · exact ⟨name, a, b, rfl⟩
    · cases h
  obtain ⟨bucket, rate, -, hok, rfl⟩ := ngxHttpRnZone_ok_iff.mp h
  have hgrows : m.Grows { m with zones := m.zones ++ [⟨name, bucket, rate⟩] } :=
    { MainConf.Grows.refl m with zones := List.prefix_append _ _ }
  have hnew : Zone.Checked ⟨name, bucket, rate⟩ :=
    ⟨hok.bucket_ne, hok.bucket_static, hok.rate_static⟩
  exact ⟨{ hm with
    zones := forall_mem_push hm.zones hnew
    found := fun ρ hρ => hgrows.found (hm.found ρ hρ) }, hgrows⟩

theorem ngxHttpRnTracker_checked {args : List Bytes} (hm : m.Checked env)
    (h : ngxHttpRnTracker env m args = .ok m') : m'.Checked env ∧ m.Grows m' := by
  rcases args with _ | ⟨name, args⟩
  · cases h
  obtain ⟨acc, -, hok, rfl⟩ := ngxHttpRnTracker_ok h
  have hgrows : m.Grows { m with trackers := m.trackers ++
      [⟨name, acc.service, acc.ttlMs, acc.maxSamples, acc.minSampleThreshold⟩] } :=
    { MainConf.Grows.refl m with trackers := List.prefix_append _ _ }
  have hnew : Tracker.Checked
      ⟨name, acc.service, acc.ttlMs, acc.maxSamples, acc.minSampleThreshold⟩ :=
    ⟨hok.service_ne, hok.service_static⟩
  exact ⟨{ hm with
    trackers := forall_mem_push hm.trackers hnew
    found := fun ρ hρ => hgrows.found (hm.found ρ hρ) }, hgrows⟩

theorem ngxHttpRnGuard_checked {args : List Bytes} (hm : m.Checked env)
    (h : ngxHttpRnGuard env m args = .ok m') : m'.Checked env ∧ m.Grows m' := by
  rcases args with _ | ⟨name, args⟩
  · cases h
  obtain ⟨acc, -, hok, rfl⟩ := ngxHttpRnGuard_ok h
  have hgrows : m.Grows { m with
      guards := m.guards ++ [⟨name, acc.trackerName, acc.threshold⟩] } :=
    { MainConf.Grows.refl m with guards := List.prefix_append _ _ }
  have hnew : Guard.Checked env ⟨name, acc.trackerName, acc.threshold⟩ := hok.threshold_static
  refine ⟨{ hm with guards := forall_mem_push hm.guards hnew, found := ?_ }, hgrows⟩
  intro ρ hρ
  refine hgrows.found ?_
  simp only [MainConf.references, List.flatMap_append, List.mem_append] at hρ
  rcases hρ with (hρ | hρ) | hρ
  · exact hm.found ρ (List.mem_append.mpr (.inl hρ))
  · simp only [Guard.references, List.flatMap_cons, List.flatMap_nil, List.append_nil,
      List.mem_singleton] at hρ
    subst hρ
    simpa [MainConf.resolve] using hok.tracker_known
  · exact hm.found ρ (List.mem_append.mpr (.inr hρ))

/-- The `zone=` entries of a group name zones that are found. -/
theorem groupArg_found {args zones : List Bytes} (h : args.foldlM (groupArg m) [] = .ok zones) :
    ∀ z ∈ zones, (rnFindZone m z).isSome := by
  refine foldlM_invariant (I := fun zones => ∀ z ∈ zones, (rnFindZone m z).isSome) h (by simp) ?_
  intro zones a zones' ha hzones hstep
  simp only [groupArg] at hstep
  split_ifs at hstep with _ hempty hfind
  cases hstep
  exact forall_mem_push hzones (by simpa [Option.isSome_iff_ne_none] using hfind)

theorem ngxHttpRnGroup_checked {args : List Bytes} (hm : m.Checked env)
    (h : ngxHttpRnGroup m args = .ok m') : m'.Checked env ∧ m.Grows m' := by
  unfold ngxHttpRnGroup at h
  split at h
  next name arg args =>
    split_ifs at h with hname hfind
    split at h
    · cases h
    next zones hzones =>
    cases h
    have hgrows : m.Grows { m with groups := m.groups ++ [⟨name, zones⟩] } :=
      { MainConf.Grows.refl m with groups := List.prefix_append _ _ }
    refine ⟨{ hm with
      group_zones := forall_mem_push hm.group_zones (groupArg_ne_nil hzones), found := ?_ }, hgrows⟩
    intro ρ hρ
    refine hgrows.found ?_
    simp only [MainConf.references, List.flatMap_append, List.mem_append] at hρ
    rcases hρ with hρ | hρ | hρ
    · exact hm.found ρ (List.mem_append.mpr (.inl hρ))
    · exact hm.found ρ (List.mem_append.mpr (.inr hρ))
    · simp only [Group.references, List.flatMap_cons, List.flatMap_nil, List.append_nil,
        List.mem_map] at hρ
      obtain ⟨z, hz, rfl⟩ := hρ
      simpa [MainConf.resolve] using groupArg_found hzones z hz
  · cases h

theorem mainCommand_checked {cmd : MainCommand} {args : List Bytes} (hm : m.Checked env)
    (h : cmd.run env m args = .ok m') : m'.Checked env ∧ m.Grows m' := by
  by_cases hcmd : cmd ≠ .zone ∧ cmd ≠ .tracker ∧ cmd ≠ .guard ∧ cmd ≠ .group
  · obtain ⟨hz, ht, hg, hgr, he⟩ := settings_same hcmd h
    exact ⟨hm.same hz ht hg hgr, ⟨by rw [hz], by rw [ht], by rw [hg], by rw [hgr],
      by rw [he]; exact id⟩⟩
  · cases cmd
    case zone => exact ngxHttpRnZone_checked hm h
    case tracker => exact ngxHttpRnTracker_checked hm h
    case guard => exact ngxHttpRnGuard_checked hm h
    case group => exact ngxHttpRnGroup_checked hm h
    all_goals simp at hcmd

/-- The `guard=` references of a rule are found. -/
theorem ruleArg_found {args : List Bytes} {acc : RuleArgs}
    (h : args.foldlM (ruleArg m) ⟨[], [], false, false, []⟩ = .ok acc) :
    ∀ g ∈ acc.guardNames, (rnFindGuard m g).isSome := by
  refine foldlM_invariant (I := fun acc => ∀ g ∈ acc.guardNames, (rnFindGuard m g).isSome) h
    (by simp) ?_
  intro acc a acc' ha hacc hstep
  simp only [ruleArg] at hstep
  split_ifs at hstep with _ _ _ _ _ _ hfind <;> cases hstep
  · exact hacc
  · exact hacc
  · exact forall_mem_push hacc (by simpa [Option.isSome_iff_ne_none] using hfind)

/-- An accepted rule refers to what is found, and names something. -/
theorem ruleOf_found {acc : RuleArgs} (hacc : ∀ g ∈ acc.guardNames, (rnFindGuard m g).isSome)
    {r : RuleRef} (h : ruleOf m acc = .ok r) :
    (∀ ρ ∈ r.references, (m.resolve ρ).isSome) ∧ (r.kind = .guardOnly → r.guards ≠ []) := by
  have hguards : ∀ ρ ∈ acc.guardNames.map (⟨DefKind.guard, ·⟩ : Bytes → Reference),
      (m.resolve ρ).isSome := by
    intro ρ hρ
    obtain ⟨g, hg, rfl⟩ := List.mem_map.mp hρ
    simpa [MainConf.resolve] using hacc g hg
  unfold ruleOf at h
  split_ifs at h with hnone hempty hz hfind hg hfind <;> cases h
  · refine ⟨?_, by simp⟩
    rw [RuleRef.references, List.forall_mem_append, List.forall_mem_singleton]
    refine ⟨?_, hguards⟩
    simpa [MainConf.resolve, Option.isSome_iff_ne_none] using hfind
  · refine ⟨?_, by simp⟩
    rw [RuleRef.references, List.forall_mem_append, List.forall_mem_singleton]
    refine ⟨?_, hguards⟩
    simpa [MainConf.resolve, Option.isSome_iff_ne_none] using hfind
  · exact ⟨hguards, fun _ hguards => hnone ⟨hz, hg, hguards⟩⟩

theorem locCommand_checked {l l' : LocConf} {cmd : LocCommand} {args : List Bytes}
    (hl : l.Checked m) (hflag : l.FlagUnset) (h : cmd.run env m l args = .ok (m', l')) :
    l'.Checked m' ∧ l'.FlagUnset ∧ (m' = m ∨ m' = { m with enabled := true }) := by
  have hrefs := forall_mem_references.mp hl.found
  rcases cmd
  · simp only [LocCommand.run, ngxHttpRnLabel] at h
    split at h
    · split_ifs at h with hlong hcompile
      cases h
      rw [not_and, not_lt] at hlong
      exact ⟨{ hl with label := fun _ => hlong }, hflag, .inl rfl⟩
    · cases h
  · simp only [LocCommand.run, ngxHttpRnReport] at h
    split at h
    · split_ifs at h with hset hoff hfind <;> cases h
      · refine ⟨{ hl with found := forall_mem_references.mpr ⟨hrefs.1, ?_⟩ }, hflag, .inl rfl⟩
        intro hfalse
        cases hfalse
      · refine ⟨{ hl.grows (.enable m) with
          found := forall_mem_references.mpr ⟨hrefs.1, fun _ => ?_⟩ }, hflag, .inr rfl⟩
        refine (MainConf.Grows.enable m).found ?_
        simpa [MainConf.resolve, Option.isSome_iff_ne_none] using hfind
    · cases h
  · simp only [LocCommand.run, ngxHttpRnRule] at h
    split at h
    · cases h
    split at h
    · cases h
    next acc hacc =>
    split at h
    · cases h
    next r hr =>
    cases h
    obtain ⟨hfound, hguardOnly⟩ := ruleOf_found (ruleArg_found hacc) hr
    refine ⟨⟨forall_mem_references.mpr ⟨?_, hrefs.2⟩, ?_, by simp, by simp, hl.label⟩, ?_, .inr rfl⟩
    · exact forall_mem_push hrefs.1 hfound
    · exact forall_mem_push hl.guardOnly hguardOnly
    · intro hnone
      cases hnone

end Directives

/-! ## Accepted configurations -/

/-- What has been read passed its checks. -/
structure ConfState.Checked (env : ConfEnv) (st : ConfState) : Prop where
  main : st.main.Checked env
  blocks : ∀ b ∈ st.blocks, b.conf.Checked st.main ∧ b.conf.FlagUnset

theorem createLocConf_checked (m : MainConf) : ngxHttpRnCreateLocConf.Checked m := by
  constructor <;> simp [ngxHttpRnCreateLocConf, LocConf.references]

theorem ConfState.init_checked (env : ConfEnv) : (ConfState.init env).Checked env := by
  constructor
  · constructor <;> simp [ConfState.init, ngxHttpRnCreateMainConf, MainConf.references]
  · intro b hb
    obtain rfl := List.mem_singleton.mp hb
    exact ⟨createLocConf_checked _, fun _ => rfl⟩

theorem ConfState.read_checked {env : ConfEnv} {st st' : ConfState} {it : Item}
    (hst : st.Checked env) (h : st.read env it = .ok st') : st'.Checked env := by
  rcases it with ⟨cmd, args⟩ | parent | ⟨k, cmd, args⟩
  · simp only [ConfState.read] at h
    split at h
    · cases h
    next main hmain =>
    cases h
    obtain ⟨hchecked, hgrows⟩ := mainCommand_checked hst.main hmain
    exact ⟨hchecked, fun b hb => (hst.blocks b hb).imp_left (·.grows hgrows)⟩
  · simp only [ConfState.read] at h
    split_ifs at h
    cases h
    exact ⟨hst.main, forall_mem_push hst.blocks
      ⟨createLocConf_checked st.main, fun _ => rfl⟩⟩
  · simp only [ConfState.read] at h
    split_ifs at h
    split at h
    · cases h
    next b hb =>
    split at h
    · cases h
    next main conf hrun =>
    cases h
    obtain ⟨hb, hflag⟩ := hst.blocks b (List.mem_of_getElem? hb)
    obtain ⟨hconf, hflag, hmain⟩ := locCommand_checked hb hflag hrun
    have hkept : main.Checked env ∧ st.main.Grows main := by
      rcases hmain with rfl | rfl
      · exact ⟨hst.main, .refl _⟩
      · exact ⟨hst.main.same rfl rfl rfl rfl, .enable _⟩
    refine ⟨hkept.1, fun b' hb' => ?_⟩
    rcases List.mem_or_eq_of_mem_set hb' with hb' | rfl
    · exact (hst.blocks b' hb').imp_left (·.grows hkept.2)
    · exact ⟨hconf, hflag⟩

/-- The merge takes its rules, its report and its label from checked configurations. -/
theorem mergeLocConf_checked {m : MainConf} {prev conf : LocConf} (hprev : prev.Checked m)
    (hconf : conf.Checked m) (hflag : conf.FlagUnset) :
    (ngxHttpRnMergeLocConf prev conf).Checked m := by
  have hrules : (ngxHttpRnMergeLocConf prev conf).rules = conf.rules ∨
      (ngxHttpRnMergeLocConf prev conf).rules = prev.rules := by
    rw [(merge_or prev conf).1]
    rcases conf.rules with _ | rules
    · exact .inr rfl
    · exact .inl rfl
  refine ⟨mergeLocConf_references hprev.found hconf.found, ?_, ?_, ?_, ?_⟩
  · rcases hrules with h | h <;> rw [h]
    · exact hconf.guardOnly
    · exact hprev.guardOnly
  · rcases hrules with h | h <;> rw [h]
    · exact hconf.rules_ne
    · exact hprev.rules_ne
  · rcases hown : conf.rules with _ | rules
    · simp only [ngxHttpRnMergeLocConf, hown, hflag hown]
      intro hne
      obtain ⟨hon, hmain⟩ := hprev.enabled (by simpa using hne)
      exact ⟨by rw [hon], hmain⟩
    · obtain ⟨hon, hmain⟩ := hconf.enabled (by simp [hown])
      intro
      exact ⟨by simp only [ngxHttpRnMergeLocConf, hon], hmain⟩
  · simp only [ngxHttpRnMergeLocConf]
    split_ifs
    · exact hprev.label
    · exact hconf.label

/-- Every merged location passed its checks. -/
theorem ConfState.locations_checked {env : ConfEnv} {st : ConfState} (hst : st.Checked env) :
    ∀ l ∈ st.locations, l.Checked st.main := by
  unfold ConfState.locations
  rcases hblocks : st.blocks with _ | ⟨http, rest⟩
  · simp
  · have hraw := hst.blocks
    rw [hblocks] at hraw
    have hstep : ∀ prev : LocConf, prev.Checked st.main →
        ∀ b ∈ rest, (ngxHttpRnMergeLocConf prev b.conf).Checked st.main := by
      intro prev hprev b hb
      obtain ⟨hb, hflag⟩ := hraw b (List.mem_cons_of_mem http hb)
      exact mergeLocConf_checked hprev hb hflag
    have hhttp : ∀ l ∈ [http.conf], l.Checked st.main := by
      simpa using (hraw http (by simp)).1
    obtain ⟨new, hnew, hforall⟩ := mergeBlocks_spec (createLocConf_checked st.main) hstep hhttp
    intro l hl
    simp only [hnew] at hl
    obtain ⟨prev, hprev, b, hb, rfl⟩ := hforall l (by simpa using hl)
    exact hstep prev hprev b hb

/-- An accepted configuration holds checked values and names that are found. -/
theorem loadConf_checked {env : ConfEnv} {items : List Item} {cfg : Config}
    (h : loadConf env items = .ok cfg) :
    cfg.main.Checked env ∧ ∀ l ∈ cfg.locations, l.Checked cfg.main := by
  obtain ⟨st, hread, hinit, hlocs⟩ := loadConf_spec h
  have hst : st.Checked env :=
    foldlM_invariant hread (ConfState.init_checked env) fun _ _ _ _ hst hstep =>
      ConfState.read_checked hst hstep
  obtain ⟨⟨dns, resolver, hmain⟩, -⟩ := ngxHttpRnInit_spec hinit
  have hgrows : st.main.Grows cfg.main := (ngxHttpRnInit_step hinit).grows
  refine ⟨?_, ?_⟩
  · rw [hmain]
    exact hst.main.same rfl rfl rfl rfl
  · intro l hl
    rw [hlocs] at hl
    exact (ConfState.locations_checked hst l hl).grows hgrows

end RlNginx
