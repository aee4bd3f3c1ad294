import RlNginx.Lib.Fallible
import RlNginx.Directives

/-!
# Closed configurations

Definitions refer to each other by name : a guard to its tracker, a group to its zones, a
rule to a zone or a group and to guards, a location to the tracker it reports to. The
directive handlers check each reference when they accept it, and the request path looks
it up again. `MainConf.resolve` is that lookup, `references` lists what is stored.

`MainStep` and `LocStep` say what an accepted directive does : the four arrays only grow,
and what is stored refers to definitions already there. `Closed` is kept by every one of
them (`ConfState.read_spec`) and by the merge (`ConfState.locations_spec`).
-/

open Registry Fallible

namespace RlNginx

/-! ## References -/

/-- The four definition arrays. -/
inductive DefKind where
  | zone
  | tracker
  | guard
  | group
  deriving DecidableEq, Repr

/-- A stored name, with the array it is looked up in. -/
structure Reference where
  kind : DefKind
  name : Bytes
  deriving DecidableEq, Repr

/-- What a lookup returns : the definition and its index. -/
inductive Definition where
  | zone (d : Ref Zone)
  | tracker (d : Ref Tracker)
  | guard (d : Ref Guard)
  | group (d : Ref Group)
  deriving DecidableEq, Repr

/-- The name of a definition. -/
def Definition.name : Definition → Bytes
  | .zone d => d.val.name
  | .tracker d => d.val.name
  | .guard d => d.val.name
  | .group d => d.val.name

/-- The lookup of a reference. -/
def MainConf.resolve (m : MainConf) (ρ : Reference) : Option Definition :=
  match ρ.kind with
  | .zone => (rnFindZone m ρ.name).map .zone
  | .tracker => (rnFindTracker m ρ.name).map .tracker
  | .guard => (rnFindGuard m ρ.name).map .guard
  | .group => (rnFindGroup m ρ.name).map .group

/-- The references a guard definition stores. -/
def Guard.references (g : Guard) : List Reference :=
  [⟨.tracker, g.trackerName⟩]

/-- The references a group definition stores. -/
def Group.references (g : Group) : List Reference :=
  g.zones.map (⟨.zone, ·⟩)

/-- The references a rule stores. -/
def RuleRef.references (r : RuleRef) : List Reference :=
  (match r.kind with
    | .zone => [⟨.zone, r.name⟩]
    | .group => [⟨.group, r.name⟩]
    | .guardOnly => []) ++ r.guards.map (⟨.guard, ·⟩)

/-- The references of the main configuration. -/
def MainConf.references (m : MainConf) : List Reference :=
  m.guards.flatMap Guard.references ++ m.groups.flatMap Group.references

/-- The references of a location. -/
def LocConf.references (l : LocConf) : List Reference :=
  (l.rules.getD []).flatMap RuleRef.references ++
    if l.reportEnabled then [⟨.tracker, l.reportTrackerName⟩] else []

/-- The references stored while a configuration is read. -/
def ConfState.references (st : ConfState) : List Reference :=
  st.main.references ++ st.blocks.flatMap fun b => b.conf.references

/-- The references of an accepted configuration. -/
def Config.references (cfg : Config) : List Reference :=
  cfg.main.references ++ cfg.locations.flatMap LocConf.references

/-! ## Growth -/

/-- The four arrays only grow, and the module is not disabled again. -/
structure MainConf.Grows (m m' : MainConf) : Prop where
  zones : m.zones <+: m'.zones
  trackers : m.trackers <+: m'.trackers
  guards : m.guards <+: m'.guards
  groups : m.groups <+: m'.groups
  enabled : m.enabled = true → m'.enabled = true

namespace MainConf.Grows

variable {m m' m'' : MainConf}

theorem refl (m : MainConf) : m.Grows m :=
  ⟨List.prefix_rfl, List.prefix_rfl, List.prefix_rfl, List.prefix_rfl, id⟩

theorem trans (h : m.Grows m') (h' : m'.Grows m'') : m.Grows m'' :=
  ⟨h.zones.trans h'.zones, h.trackers.trans h'.trackers, h.guards.trans h'.guards,
    h.groups.trans h'.groups, h'.enabled ∘ h.enabled⟩

theorem enable (m : MainConf) : m.Grows { m with enabled := true } :=
  { refl m with enabled := fun _ => rfl }

/-- What a reference resolves to does not change. -/
theorem resolve (h : m.Grows m') {ρ : Reference} {d : Definition} (hd : m.resolve ρ = some d) :
    m'.resolve ρ = some d := by
  obtain ⟨kind, name⟩ := ρ
  cases kind <;>
    (obtain ⟨r, hr, rfl⟩ := Option.map_eq_some_iff.mp hd
     refine Option.map_eq_some_iff.mpr ⟨r, ?_, rfl⟩)
  · obtain ⟨more, hmore⟩ := h.zones
    simpa only [rnFindZone, ← hmore] using rnFind_append_of_some hr more
  · obtain ⟨more, hmore⟩ := h.trackers
    simpa only [rnFindTracker, ← hmore] using rnFind_append_of_some hr more
  · obtain ⟨more, hmore⟩ := h.guards
    simpa only [rnFindGuard, ← hmore] using rnFind_append_of_some hr more
  · obtain ⟨more, hmore⟩ := h.groups
    simpa only [rnFindGroup, ← hmore] using rnFind_append_of_some hr more

end MainConf.Grows

/-! ## Closedness -/

/-- A reference without a NUL that names a definition. -/
def MainConf.Knows (m : MainConf) (ρ : Reference) : Prop :=
  NulFree ρ.name ∧ ∃ d, m.resolve ρ = some d

theorem MainConf.Grows.knows {m m' : MainConf} (h : m.Grows m') {ρ : Reference}
    (hρ : m.Knows ρ) : m'.Knows ρ :=
  ⟨hρ.1, hρ.2.imp fun _ => h.resolve⟩

/-- The definitions have distinct names without a NUL, and refer to definitions. -/
structure MainConf.Closed (m : MainConf) : Prop where
  zoneNames : (m.zones.map Zone.name).Nodup
  trackerNames : (m.trackers.map Tracker.name).Nodup
  guardNames : (m.guards.map Guard.name).Nodup
  groupNames : (m.groups.map Group.name).Nodup
  zone_nulFree : ∀ d ∈ m.zones, NulFree d.name
  tracker_nulFree : ∀ d ∈ m.trackers, NulFree d.name
  guard_nulFree : ∀ d ∈ m.guards, NulFree d.name
  group_nulFree : ∀ d ∈ m.groups, NulFree d.name
  group_zones : ∀ d ∈ m.groups, d.zones ≠ []
  knows : ∀ ρ ∈ m.references, m.Knows ρ

/-- A location refers to definitions, is enabled exactly when it has rules, and is active
only when the module is. -/
structure LocConf.Closed (m : MainConf) (l : LocConf) : Prop where
  knows : ∀ ρ ∈ l.references, m.Knows ρ
  guardOnly : ∀ r ∈ l.rules.getD [], r.kind = .guardOnly → r.guards ≠ []
  rules_ne : l.rules ≠ some []
  enabled_iff : l.enabled = .on ↔ l.rules.isSome
  active : l.enabled = .on ∨ l.reportEnabled = true → m.enabled = true

theorem LocConf.Closed.grows {m m' : MainConf} {l : LocConf} (h : l.Closed m)
    (hg : m.Grows m') : l.Closed m' :=
  { h with
    knows := fun ρ hρ => hg.knows (h.knows ρ hρ)
    active := fun ha => hg.enabled (h.active ha) }

/-- A reference to a definition resolves to one of its name. -/
theorem MainConf.Closed.resolve_name {m : MainConf} (h : m.Closed) {ρ : Reference}
    (hρ : NulFree ρ.name) {d : Definition} (hd : m.resolve ρ = some d) : d.name = ρ.name := by
  obtain ⟨kind, name⟩ := ρ
  cases kind <;> obtain ⟨r, hr, rfl⟩ := Option.map_eq_some_iff.mp hd
  · exact (rnFind_name h.zone_nulFree hρ hr).2
  · exact (rnFind_name h.tracker_nulFree hρ hr).2
  · exact (rnFind_name h.guard_nulFree hρ hr).2
  · exact (rnFind_name h.group_nulFree hρ hr).2

/-- A definition pushed after its name was not found keeps the names distinct. -/
theorem nodup_push {α : Type*} {name : α → Bytes} {defs : List α} {d : α}
    (hnd : (defs.map name).Nodup) (hfind : rnFind name defs (name d) = none) :
    ((defs ++ [d]).map name).Nodup := by
  rw [List.map_append, List.map_singleton, List.nodup_append]
  refine ⟨hnd, List.nodup_singleton _, ?_⟩
  rintro x hx y hy rfl
  obtain rfl := List.mem_singleton.mp hy
  obtain ⟨d', hd', hname⟩ := List.mem_map.mp hx
  have hne := rnFind_eq_none_iff.mp hfind d' hd'
  rw [hname, sameName_self] at hne
  cases hne

/-! ## What an accepted directive does -/

/-- A directive of the `http` block defines at most one thing. -/
inductive MainStep (m : MainConf) : MainConf → Prop where
  | keep {m' : MainConf} : m'.zones = m.zones → m'.trackers = m.trackers →
      m'.guards = m.guards → m'.groups = m.groups → m'.enabled = m.enabled → MainStep m m'
  | zone (d : Zone) : NulFree d.name → rnFindZone m d.name = none →
      MainStep m { m with zones := m.zones ++ [d] }
  | tracker (d : Tracker) : NulFree d.name → rnFindTracker m d.name = none →
      MainStep m { m with trackers := m.trackers ++ [d] }
  | guard (d : Guard) : NulFree d.name → rnFindGuard m d.name = none →
      (∀ ρ ∈ d.references, m.Knows ρ) → MainStep m { m with guards := m.guards ++ [d] }
  | group (d : Group) : NulFree d.name → rnFindGroup m d.name = none → d.zones ≠ [] →
      (∀ ρ ∈ d.references, m.Knows ρ) → MainStep m { m with groups := m.groups ++ [d] }

theorem knows_of_isNone {m : MainConf} {ρ : Reference} (hnul : NulFree ρ.name)
    (h : ¬(m.resolve ρ).isNone = true) : m.Knows ρ :=
  ⟨hnul, Option.ne_none_iff_exists'.mp (by simpa using h)⟩

theorem eq_none_of_isSome {α : Type*} {o : Option α} (h : ¬o.isSome = true) : o = none := by
  simpa using h

theorem ngxHttpRnZone_step {env : ConfEnv} {m m' : MainConf} {args : List Bytes}
    (hargs : ∀ a ∈ args, NulFree a) (h : ngxHttpRnZone env m args = .ok m') : MainStep m m' := by
  unfold ngxHttpRnZone at h
  split at h
  · rename_i name arg₁ arg₂
    cases hacc : [arg₁, arg₂].foldlM zoneArg ([], []) with
    | error e =>
      rw [hacc] at h
      split_ifs at h
    | ok acc =>
      simp only [hacc] at h
      split_ifs at h with _ _ _ _ _ hfind
      cases h
      exact .zone _ (hargs name (by simp)) (eq_none_of_isSome hfind)
  · cases h

theorem ngxHttpRnTracker_step {env : ConfEnv} {m m' : MainConf} {args : List Bytes}
    (hargs : ∀ a ∈ args, NulFree a) (h : ngxHttpRnTracker env m args = .ok m') :
    MainStep m m' := by
  unfold ngxHttpRnTracker at h
  split at h
  · rename_i name arg args
    cases hacc : (arg :: args).foldlM (trackerArg env)
        ⟨[], 30000, 128, 8, false, false, false, false⟩ with
    | error e =>
      rw [hacc] at h
      split_ifs at h
    | ok acc =>
      simp only [hacc] at h
      split_ifs at h with _ _ _ _ _ hfind
      cases h
      exact .tracker _ (hargs name (by simp)) (eq_none_of_isSome hfind)
  · cases h

/-- A `tracker=` value is the rest of an argument. -/
theorem guardArg_nulFree {args : List Bytes} (hargs : ∀ a ∈ args, NulFree a) {acc : GuardArgs}
    (h : args.foldlM guardArg ⟨[], [], false, false⟩ = .ok acc) : NulFree acc.trackerName := by
  refine foldlM_invariant (I := fun acc => NulFree acc.trackerName) h (by simp [NulFree]) ?_
  intro acc a acc' ha hacc hstep
  unfold guardArg at hstep
  split_ifs at hstep <;> cases hstep
  · exact (hargs a ha).drop _
  · exact hacc

theorem ngxHttpRnGuard_step {env : ConfEnv} {m m' : MainConf} {args : List Bytes}
    (hargs : ∀ a ∈ args, NulFree a) (h : ngxHttpRnGuard env m args = .ok m') :
    MainStep m m' := by
  unfold ngxHttpRnGuard at h
  split at h
  · rename_i name arg₁ arg₂
    cases hacc : [arg₁, arg₂].foldlM guardArg ⟨[], [], false, false⟩ with
    | error e =>
      rw [hacc] at h
      split_ifs at h
    | ok acc =>
      simp only [hacc] at h
      split_ifs at h with _ _ htracker _ hfind
      cases h
      have hnul : NulFree acc.trackerName :=
        guardArg_nulFree (fun a ha => hargs a (List.mem_cons_of_mem _ ha)) hacc
      refine .guard _ (hargs name (by simp)) (eq_none_of_isSome hfind) ?_
      intro ρ hρ
      obtain rfl := List.mem_singleton.mp hρ
      exact knows_of_isNone hnul (by simpa [MainConf.resolve] using htracker)
  · cases h

/-- The `zone=` entries of a group are known zones, and there is one for each entry. -/
theorem groupArg_known {m : MainConf} {args zones : List Bytes}
    (hargs : ∀ a ∈ args, NulFree a) (h : args.foldlM (groupArg m) [] = .ok zones) :
    ∀ z ∈ zones, m.Knows ⟨.zone, z⟩ := by
  refine foldlM_invariant (I := fun zones => ∀ z ∈ zones, m.Knows ⟨.zone, z⟩) h (by simp) ?_
  intro zones a zones' ha hzones hstep
  simp only [groupArg] at hstep
  split_ifs at hstep with _ hempty hfind
  cases hstep
  intro z hz
  rcases List.mem_append.mp hz with hz | hz
  · exact hzones z hz
  · obtain rfl := List.mem_singleton.mp hz
    exact knows_of_isNone ((hargs a ha).drop _) (by simpa [MainConf.resolve] using hfind)

theorem groupArg_ne_nil {m : MainConf} {arg : Bytes} {args zones : List Bytes}
    (h : (arg :: args).foldlM (groupArg m) [] = .ok zones) : zones ≠ [] := by
  refine foldlM_establish (I := fun _ => True) (K := (· ≠ [])) h (by simp) trivial
    (fun _ _ => trivial) ?_
  intro zones a zones' _ _ hstep
  simp only [groupArg] at hstep
  split_ifs at hstep
  cases hstep
  simp

theorem ngxHttpRnGroup_step {m m' : MainConf} {args : List Bytes}
    (hargs : ∀ a ∈ args, NulFree a) (h : ngxHttpRnGroup m args = .ok m') : MainStep m m' := by
  unfold ngxHttpRnGroup at h
  split at h
  · rename_i name arg args
    split_ifs at h with _ hfind
    split at h
    · cases h
    · rename_i zones hzones
      cases h
      have hknown := groupArg_known (fun a ha => hargs a (List.mem_cons_of_mem _ ha)) hzones
      refine .group _ (hargs name (by simp)) (eq_none_of_isSome hfind) (groupArg_ne_nil hzones) ?_
      intro ρ hρ
      obtain ⟨z, hz, rfl⟩ := List.mem_map.mp hρ
      exact hknown z hz
  · cases h

/-- The other directives of the `http` block leave the definitions alone. -/
theorem settings_same {env : ConfEnv} {m m' : MainConf} {args : List Bytes} {cmd : MainCommand}
    (hcmd : cmd ≠ .zone ∧ cmd ≠ .tracker ∧ cmd ≠ .guard ∧ cmd ≠ .group)
    (h : cmd.run env m args = .ok m') : m'.zones = m.zones ∧ m'.trackers = m.trackers ∧
      m'.guards = m.guards ∧ m'.groups = m.groups ∧ m'.enabled = m.enabled := by
  cases cmd <;> simp only [MainCommand.run, ngxHttpRnSetDnsSrv, ngxHttpRnSetDnsResolver,
    ngxHttpRnSetAuthKey, ngxHttpRnSetPolicy, ngxHttpRnSetFail, ngxHttpRnSetBind,
    ngxHttpRnSetDebug] at h <;> repeat' split at h
  all_goals first
    | (cases h; exact ⟨rfl, rfl, rfl, rfl, rfl⟩)
    | cases h
    | simp at hcmd

theorem settings_keep {env : ConfEnv} {m m' : MainConf} {args : List Bytes} {cmd : MainCommand}
    (hcmd : cmd ≠ .zone ∧ cmd ≠ .tracker ∧ cmd ≠ .guard ∧ cmd ≠ .group)
    (h : cmd.run env m args = .ok m') : MainStep m m' := by
  obtain ⟨hz, ht, hg, hgr, he⟩ := settings_same hcmd h
  exact .keep hz ht hg hgr he

theorem mainCommand_step {env : ConfEnv} {m m' : MainConf} {args : List Bytes}
    {cmd : MainCommand} (hargs : ∀ a ∈ args, NulFree a) (h : cmd.run env m args = .ok m') :
    MainStep m m' := by
  by_cases hcmd : cmd ≠ .zone ∧ cmd ≠ .tracker ∧ cmd ≠ .guard ∧ cmd ≠ .group
  · exact settings_keep hcmd h
  · cases cmd
    case zone => exact ngxHttpRnZone_step hargs h
    case tracker => exact ngxHttpRnTracker_step hargs h
    case guard => exact ngxHttpRnGuard_step hargs h
    case group => exact ngxHttpRnGroup_step hargs h
    all_goals simp at hcmd

/-- A rule refers to definitions, and has guards when it names no zone or group. -/
structure RuleRef.Accepted (m : MainConf) (r : RuleRef) : Prop where
  knows : ∀ ρ ∈ r.references, m.Knows ρ
  guardOnly : r.kind = .guardOnly → r.guards ≠ []

/-- A directive of a `server` or `location` block. -/
inductive LocStep (m : MainConf) (l : LocConf) : MainConf → LocConf → Prop where
  | label (template : Bytes) : LocStep m l m { l with labelTemplate := template, labelSet := true }
  | reportOff : LocStep m l m
      { l with reportSet := true, reportEnabled := false, reportTrackerName := [] }
  | report (name : Bytes) : m.Knows ⟨.tracker, name⟩ → LocStep m l { m with enabled := true }
      { l with reportSet := true, reportEnabled := true, reportTrackerName := name }
  | rule (r : RuleRef) : r.Accepted m → LocStep m l { m with enabled := true }
      { l with rules := some (l.rules.getD [] ++ [r]), enabled := .on }

/-- The arguments of `ratelimitly` carry names without a NUL, and known guards. -/
structure RuleArgs.Known (m : MainConf) (acc : RuleArgs) : Prop where
  zone : NulFree acc.zoneName
  group : NulFree acc.groupName
  guards : ∀ g ∈ acc.guardNames, m.Knows ⟨.guard, g⟩

theorem ruleArg_known {m : MainConf} {args : List Bytes} (hargs : ∀ a ∈ args, NulFree a)
    {acc : RuleArgs} (h : args.foldlM (ruleArg m) ⟨[], [], false, false, []⟩ = .ok acc) :
    acc.Known m := by
  refine foldlM_invariant (I := RuleArgs.Known m) h ⟨by simp [NulFree], by simp [NulFree],
    by simp⟩ ?_
  intro acc a acc' ha hacc hstep
  simp only [ruleArg] at hstep
  split_ifs at hstep with _ _ _ _ _ _ hfind <;> cases hstep
  · exact { hacc with zone := (hargs a ha).drop _ }
  · exact { hacc with group := (hargs a ha).drop _ }
  · refine { hacc with guards := fun g hg => ?_ }
    rcases List.mem_append.mp hg with hg | hg
    · exact hacc.guards g hg
    · obtain rfl := List.mem_singleton.mp hg
      exact knows_of_isNone ((hargs a ha).drop _) (by simpa [MainConf.resolve] using hfind)

theorem ruleOf_accepted {m : MainConf} {acc : RuleArgs} (hacc : acc.Known m) {r : RuleRef}
    (h : ruleOf m acc = .ok r) : r.Accepted m := by
  have hguards : ∀ ρ ∈ acc.guardNames.map (⟨DefKind.guard, ·⟩ : Bytes → Reference), m.Knows ρ := by
    intro ρ hρ
    obtain ⟨g, hg, rfl⟩ := List.mem_map.mp hρ
    exact hacc.guards g hg
  unfold ruleOf at h
  split_ifs at h with hnone hempty hz hfind hg hfind <;> cases h
  · refine ⟨?_, by simp⟩
    rw [RuleRef.references, List.forall_mem_append, List.forall_mem_singleton]
    exact ⟨knows_of_isNone hacc.zone (by simpa [MainConf.resolve] using hfind), hguards⟩
  · refine ⟨?_, by simp⟩
    rw [RuleRef.references, List.forall_mem_append, List.forall_mem_singleton]
    exact ⟨knows_of_isNone hacc.group (by simpa [MainConf.resolve] using hfind), hguards⟩
  · exact ⟨hguards, fun _ hguards => hnone ⟨hz, hg, hguards⟩⟩

theorem locCommand_step {env : ConfEnv} {m m' : MainConf} {l l' : LocConf} {args : List Bytes}
    {cmd : LocCommand} (hargs : ∀ a ∈ args, NulFree a)
    (h : cmd.run env m l args = .ok (m', l')) : LocStep m l m' l' := by
  cases cmd with
  | label =>
    simp only [LocCommand.run, ngxHttpRnLabel] at h
    split at h
    · split_ifs at h
      cases h
      exact .label _
    · cases h
  | report =>
    simp only [LocCommand.run, ngxHttpRnReport] at h
    split at h
    · rename_i value
      split_ifs at h with _ _ hfind <;> cases h
      · exact .reportOff
      · refine .report _ (knows_of_isNone (hargs value (by simp)) ?_)
        simpa [MainConf.resolve] using hfind
    · cases h
  | rule =>
    simp only [LocCommand.run, ngxHttpRnRule] at h
    split at h
    · cases h
    · split at h
      · cases h
      · rename_i acc hacc
        split at h
        · cases h
        · rename_i r hr
          cases h
          exact .rule r (ruleOf_accepted (ruleArg_known hargs hacc) hr)

/-! ## Every directive keeps closedness -/

theorem MainStep.grows {m m' : MainConf} (h : MainStep m m') : m.Grows m' := by
  cases h with
  | keep hz ht hg hgr he =>
    exact ⟨by rw [hz], by rw [ht], by rw [hg], by rw [hgr], by rw [he]; exact id⟩
  | zone d => exact { MainConf.Grows.refl m with zones := List.prefix_append _ _ }
  | tracker d => exact { MainConf.Grows.refl m with trackers := List.prefix_append _ _ }
  | guard d => exact { MainConf.Grows.refl m with guards := List.prefix_append _ _ }
  | group d => exact { MainConf.Grows.refl m with groups := List.prefix_append _ _ }

theorem LocStep.grows {m m' : MainConf} {l l' : LocConf} (h : LocStep m l m' l') : m.Grows m' := by
  cases h with
  | label => exact .refl m
  | reportOff => exact .refl m
  | report => exact .enable m
  | rule => exact .enable m

theorem forall_mem_push {α : Type*} {p : α → Prop} {l : List α} {a : α} (hl : ∀ x ∈ l, p x)
    (ha : p a) : ∀ x ∈ l ++ [a], p x := by
  rw [List.forall_mem_append, List.forall_mem_singleton]
  exact ⟨hl, ha⟩

/-- What a directive of the `http` block stores was known before it. -/
theorem MainStep.known {m m' : MainConf} (h : MainStep m m') (hm : m.Closed) :
    ∀ ρ ∈ m'.references, m.Knows ρ := by
  have hknows := hm.knows
  simp only [MainConf.references, List.forall_mem_append, List.forall_mem_flatMap] at hknows ⊢
  cases h with
  | keep hz ht hg hgr he => rwa [hg, hgr]
  | zone d => exact hknows
  | tracker d => exact hknows
  | guard d _ _ hd => exact ⟨forall_mem_push hknows.1 hd, hknows.2⟩
  | group d _ _ _ hd => exact ⟨hknows.1, forall_mem_push hknows.2 hd⟩

theorem MainStep.closed {m m' : MainConf} (h : MainStep m m') (hm : m.Closed) : m'.Closed := by
  have hknows : ∀ ρ ∈ m'.references, m'.Knows ρ := fun ρ hρ => h.grows.knows (h.known hm ρ hρ)
  cases h with
  | keep hz ht hg hgr he =>
    constructor
    · rw [hz]; exact hm.zoneNames
    · rw [ht]; exact hm.trackerNames
    · rw [hg]; exact hm.guardNames
    · rw [hgr]; exact hm.groupNames
    · rw [hz]; exact hm.zone_nulFree
    · rw [ht]; exact hm.tracker_nulFree
    · rw [hg]; exact hm.guard_nulFree
    · rw [hgr]; exact hm.group_nulFree
    · rw [hgr]; exact hm.group_zones
    · exact hknows
  | zone d hnul hfind =>
    exact { hm with
      zoneNames := nodup_push hm.zoneNames hfind
      zone_nulFree := forall_mem_push hm.zone_nulFree hnul
      knows := hknows }
  | tracker d hnul hfind =>
    exact { hm with
      trackerNames := nodup_push hm.trackerNames hfind
      tracker_nulFree := forall_mem_push hm.tracker_nulFree hnul
      knows := hknows }
  | guard d hnul hfind _ =>
    exact { hm with
      guardNames := nodup_push hm.guardNames hfind
      guard_nulFree := forall_mem_push hm.guard_nulFree hnul
      knows := hknows }
  | group d hnul hfind hne _ =>
    exact { hm with
      groupNames := nodup_push hm.groupNames hfind
      group_nulFree := forall_mem_push hm.group_nulFree hnul
      group_zones := forall_mem_push hm.group_zones hne
      knows := hknows }

theorem MainConf.Closed.enable {m : MainConf} (hm : m.Closed) :
    ({ m with enabled := true } : MainConf).Closed :=
  { hm with knows := fun ρ hρ => (MainConf.Grows.enable m).knows (hm.knows ρ hρ) }

theorem LocStep.main_closed {m m' : MainConf} {l l' : LocConf} (h : LocStep m l m' l')
    (hm : m.Closed) : m'.Closed := by
  cases h with
  | label => exact hm
  | reportOff => exact hm
  | report => exact hm.enable
  | rule => exact hm.enable

/-- A location configuration before the merge : closed, and not switched off. -/
structure LocConf.Raw (m : MainConf) (l : LocConf) : Prop extends l.Closed m where
  not_off : l.enabled ≠ .off

theorem rules_known {m : MainConf} {l : LocConf} (hl : l.Closed m) :
    ∀ r ∈ l.rules.getD [], ∀ ρ ∈ r.references, m.Knows ρ := by
  intro r hr ρ hρ
  exact hl.knows ρ (List.mem_append.mpr (.inl (List.mem_flatMap.mpr ⟨r, hr, hρ⟩)))

theorem report_known {m : MainConf} {l : LocConf} (hl : l.Closed m)
    (hreport : l.reportEnabled = true) : m.Knows ⟨.tracker, l.reportTrackerName⟩ :=
  hl.knows _ (by simp [LocConf.references, hreport])

/-- The references of a location are those of its rules and of its report. -/
theorem forall_mem_references {l : LocConf} {p : Reference → Prop} :
    (∀ ρ ∈ l.references, p ρ) ↔ (∀ r ∈ l.rules.getD [], ∀ ρ ∈ r.references, p ρ) ∧
      (l.reportEnabled = true → p ⟨.tracker, l.reportTrackerName⟩) := by
  simp only [LocConf.references, List.forall_mem_append, List.forall_mem_flatMap]
  cases l.reportEnabled <;> simp

/-- What a directive of a location stores was known before it. -/
theorem LocStep.known {m m' : MainConf} {l l' : LocConf} (h : LocStep m l m' l')
    (hl : l.Closed m) : ∀ ρ ∈ l'.references, m.Knows ρ := by
  have hrules := rules_known hl
  have hreport : l.reportEnabled = true → m.Knows ⟨.tracker, l.reportTrackerName⟩ :=
    report_known hl
  cases h with
  | label => exact hl.knows
  | reportOff => exact forall_mem_references.mpr ⟨hrules, by simp⟩
  | report name hname => exact forall_mem_references.mpr ⟨hrules, fun _ => hname⟩
  | rule r hr =>
    exact forall_mem_references.mpr ⟨forall_mem_push hrules hr.knows, hreport⟩

theorem LocStep.raw {m m' : MainConf} {l l' : LocConf} (h : LocStep m l m' l')
    (hl : l.Raw m) : l'.Raw m' := by
  have hknows : ∀ ρ ∈ l'.references, m'.Knows ρ :=
    fun ρ hρ => h.grows.knows (h.known hl.toClosed ρ hρ)
  cases h with
  | label => exact { hl with knows := hknows }
  | reportOff =>
    exact { hl with knows := hknows, active := fun ha => hl.active (ha.imp_right (by simp)) }
  | report => exact { hl with knows := hknows, active := fun _ => rfl }
  | rule r hr =>
    exact {
      knows := hknows
      guardOnly := forall_mem_push hl.guardOnly hr.guardOnly
      rules_ne := by simp
      enabled_iff := by simp
      active := fun _ => rfl
      not_off := by simp }

/-! ## Every configuration read so far is closed -/

/-- Closedness of what has been read. -/
structure ConfState.Closed (st : ConfState) : Prop where
  main : st.main.Closed
  blocks : ∀ b ∈ st.blocks, b.conf.Raw st.main

theorem createLocConf_raw (m : MainConf) : ngxHttpRnCreateLocConf.Raw m := by
  constructor
  · constructor <;> simp [ngxHttpRnCreateLocConf, LocConf.references]
  · simp [ngxHttpRnCreateLocConf]

theorem ConfState.init_closed (env : ConfEnv) : (ConfState.init env).Closed := by
  constructor
  · constructor <;> simp [ConfState.init, ngxHttpRnCreateMainConf, MainConf.references]
  · intro b hb
    obtain rfl := List.mem_singleton.mp hb
    exact createLocConf_raw _

/-- The arguments of a directive have no NUL. -/
def Item.NulFree : Item → Prop
  | .main _ args => ∀ a ∈ args, RlNginx.NulFree a
  | .block _ => True
  | .loc _ _ args => ∀ a ∈ args, RlNginx.NulFree a

instance : (it : Item) → Decidable it.NulFree
  | .main _ args => inferInstanceAs (Decidable (∀ a ∈ args, RlNginx.NulFree a))
  | .block _ => inferInstanceAs (Decidable True)
  | .loc _ _ args => inferInstanceAs (Decidable (∀ a ∈ args, RlNginx.NulFree a))

theorem forall_mem_confReferences {st : ConfState} {p : Reference → Prop} :
    (∀ ρ ∈ st.references, p ρ) ↔ (∀ ρ ∈ st.main.references, p ρ) ∧
      ∀ b ∈ st.blocks, ∀ ρ ∈ b.conf.references, p ρ := by
  simp only [ConfState.references, List.forall_mem_append, List.forall_mem_flatMap]

/-- What reading one item does : closedness is kept, the definitions only grow, and every
reference stored was known before the item. -/
theorem ConfState.read_spec {env : ConfEnv} {st st' : ConfState} {it : Item}
    (hit : it.NulFree) (hst : st.Closed) (h : st.read env it = .ok st') :
    st'.Closed ∧ st.main.Grows st'.main ∧ ∀ ρ ∈ st'.references, st.main.Knows ρ := by
  cases it with
  | main cmd args =>
    simp only [ConfState.read] at h
    split at h
    · cases h
    · rename_i main hmain
      cases h
      have hstep := mainCommand_step hit hmain
      refine ⟨⟨hstep.closed hst.main, fun b hb => ?_⟩, hstep.grows, ?_⟩
      · exact { (hst.blocks b hb).toClosed.grows hstep.grows with
          not_off := (hst.blocks b hb).not_off }
      · exact forall_mem_confReferences.mpr
          ⟨hstep.known hst.main, fun b hb => (hst.blocks b hb).knows⟩
  | block parent =>
    simp only [ConfState.read] at h
    split_ifs at h
    cases h
    have hblocks := forall_mem_push (a := ⟨parent, ngxHttpRnCreateLocConf⟩) hst.blocks
      (createLocConf_raw st.main)
    exact ⟨⟨hst.main, hblocks⟩, .refl _, forall_mem_confReferences.mpr
      ⟨hst.main.knows, fun b hb => (hblocks b hb).knows⟩⟩
  | loc k cmd args =>
    simp only [ConfState.read] at h
    split_ifs at h
    split at h
    · cases h
    · rename_i b hb
      split at h
      · cases h
      · rename_i main conf hrun
        cases h
        have hraw := hst.blocks b (List.mem_of_getElem? hb)
        have hstep := locCommand_step hit hrun
        refine ⟨⟨hstep.main_closed hst.main, fun b' hb' => ?_⟩, hstep.grows, ?_⟩
        · rcases List.mem_or_eq_of_mem_set hb' with hb' | rfl
          · exact { (hst.blocks b' hb').toClosed.grows hstep.grows with
              not_off := (hst.blocks b' hb').not_off }
          · exact hstep.raw hraw
        · refine forall_mem_confReferences.mpr ⟨fun ρ hρ => ?_, fun b' hb' => ?_⟩
          · refine hst.main.knows ρ ?_
            cases hstep <;> exact hρ
          · rcases List.mem_or_eq_of_mem_set hb' with hb' | rfl
            · exact (hst.blocks b' hb').knows
            · exact hstep.known hraw.toClosed

/-! ## The merge -/

/-- A merged configuration stores what the two merged ones store. -/
theorem mergeLocConf_references {prev conf : LocConf} {p : Reference → Prop}
    (hprev : ∀ ρ ∈ prev.references, p ρ) (hconf : ∀ ρ ∈ conf.references, p ρ) :
    ∀ ρ ∈ (ngxHttpRnMergeLocConf prev conf).references, p ρ := by
  rw [forall_mem_references] at hprev hconf ⊢
  constructor
  · intro r hr
    cases hrules : conf.rules with
    | none => exact hprev.1 r (by simpa [ngxHttpRnMergeLocConf, hrules] using hr)
    | some rules => exact hconf.1 r (by simpa [ngxHttpRnMergeLocConf, hrules] using hr)
  · intro hreport
    simp only [ngxHttpRnMergeLocConf] at hreport ⊢
    split_ifs at hreport ⊢
    · exact hprev.2 hreport
    · exact hconf.2 hreport

/-- The rules of a merged configuration are its own, or else those it inherits with the
flag. -/
theorem mergeLocConf_cases {m : MainConf} (prev : LocConf) {conf : LocConf} (hconf : conf.Raw m) :
    conf.enabled = .on ∧ (ngxHttpRnMergeLocConf prev conf).enabled = .on ∧
      (ngxHttpRnMergeLocConf prev conf).rules = conf.rules ∨
    (ngxHttpRnMergeLocConf prev conf).enabled = (if prev.enabled = .on then .on else .off) ∧
      (ngxHttpRnMergeLocConf prev conf).rules = prev.rules := by
  have hiff := hconf.enabled_iff
  cases henabled : conf.enabled with
  | on =>
    obtain ⟨rules, hrules⟩ := Option.isSome_iff_exists.mp (hiff.mp henabled)
    left
    simp [ngxHttpRnMergeLocConf, henabled, hrules]
  | off => exact absurd henabled hconf.not_off
  | unset =>
    have hrules : conf.rules = none := by simpa [henabled] using hiff
    right
    cases hprev : prev.enabled <;> simp [ngxHttpRnMergeLocConf, henabled, hrules, hprev]

theorem mergeLocConf_closed {m : MainConf} {prev conf : LocConf} (hprev : prev.Closed m)
    (hconf : conf.Raw m) : (ngxHttpRnMergeLocConf prev conf).Closed m := by
  have hknows := mergeLocConf_references hprev.knows hconf.knows
  have hreport : (ngxHttpRnMergeLocConf prev conf).reportEnabled = true → m.enabled = true := by
    intro hreport
    simp only [ngxHttpRnMergeLocConf] at hreport
    split_ifs at hreport
    · exact hprev.active (.inr hreport)
    · exact hconf.active (.inr hreport)
  rcases mergeLocConf_cases prev hconf with ⟨hon, henabled, hrules⟩ | ⟨henabled, hrules⟩
  · refine ⟨hknows, ?_, ?_, ?_, fun ha => ha.elim (fun _ => hconf.active (.inl hon)) hreport⟩
    · rw [hrules]; exact hconf.guardOnly
    · rw [hrules]; exact hconf.rules_ne
    · rw [henabled, hrules, ← hconf.enabled_iff, hon]
  · have hiff : (ngxHttpRnMergeLocConf prev conf).enabled = .on ↔ prev.enabled = .on := by
      rw [henabled]
      split_ifs with hon <;> simp [hon]
    refine ⟨hknows, ?_, ?_, ?_,
      fun ha => ha.elim (fun h => hprev.active (.inl (hiff.mp h))) hreport⟩
    · rw [hrules]; exact hprev.guardOnly
    · rw [hrules]; exact hprev.rules_ne
    · rw [hiff, hrules, hprev.enabled_iff]

theorem mergeLocConf_ne_unset {m : MainConf} (prev : LocConf) {conf : LocConf}
    (hconf : conf.Raw m) : (ngxHttpRnMergeLocConf prev conf).enabled ≠ .unset := by
  rcases mergeLocConf_cases prev hconf with ⟨-, henabled, -⟩ | ⟨henabled, -⟩ <;> rw [henabled]
  · simp
  · split_ifs <;> simp

/-- Blocks are merged in turn, each into one merged before : what the merge keeps holds of
every parent. -/
theorem mergeBlocks_spec {p : LocConf → Prop} (hnew : p ngxHttpRnCreateLocConf)
    {rest : List Block}
    (hmerge : ∀ prev, p prev → ∀ b ∈ rest, p (ngxHttpRnMergeLocConf prev b.conf)) :
    ∀ {merged : List LocConf}, (∀ l ∈ merged, p l) →
      ∃ new, mergeBlocks merged rest = merged ++ new ∧
      ∀ l ∈ new, ∃ prev, p prev ∧ ∃ b ∈ rest, l = ngxHttpRnMergeLocConf prev b.conf := by
  induction rest with
  | nil => exact fun _ => ⟨[], by simp [mergeBlocks], by simp⟩
  | cons b rest ih =>
    intro merged hmerged
    have hparent : p (merged.getD b.parent ngxHttpRnCreateLocConf) := by
      rw [List.getD_eq_getElem?_getD]
      cases hget : merged[b.parent]? with
      | none => exact hnew
      | some l => exact hmerged l (List.mem_of_getElem? hget)
    obtain ⟨new, hnew', hforall⟩ := ih
      (fun prev hprev b' hb' => hmerge prev hprev b' (List.mem_cons_of_mem _ hb'))
      (forall_mem_push hmerged (hmerge _ hparent b (by simp)))
    refine ⟨ngxHttpRnMergeLocConf (merged.getD b.parent ngxHttpRnCreateLocConf) b.conf :: new,
      by rw [mergeBlocks, hnew']; simp, ?_⟩
    intro l hl
    rcases List.mem_cons.mp hl with rfl | hl
    · exact ⟨_, hparent, b, by simp, rfl⟩
    · obtain ⟨prev, hprev, b', hb', rfl⟩ := hforall l hl
      exact ⟨prev, hprev, b', List.mem_cons_of_mem _ hb', rfl⟩

/-- The merged locations are closed, decided, and store nothing new. -/
theorem ConfState.locations_spec {st : ConfState} (hst : st.Closed) :
    ∀ l ∈ st.locations, l.Closed st.main ∧ l.enabled ≠ .unset ∧
      ∀ ρ ∈ l.references, ρ ∈ st.references := by
  have hrefs : ∀ b ∈ st.blocks, ∀ ρ ∈ b.conf.references, ρ ∈ st.references :=
    (forall_mem_confReferences.mp fun ρ hρ => hρ).2
  unfold ConfState.locations
  cases hblocks : st.blocks with
  | nil => simp
  | cons http rest =>
    rw [hblocks] at hrefs
    have hraw := hst.blocks
    rw [hblocks] at hraw
    have hstep : ∀ prev, (prev.Closed st.main ∧ ∀ ρ ∈ prev.references, ρ ∈ st.references) →
        ∀ b ∈ rest, (ngxHttpRnMergeLocConf prev b.conf).Closed st.main ∧
          ∀ ρ ∈ (ngxHttpRnMergeLocConf prev b.conf).references, ρ ∈ st.references := by
      intro prev hprev b hb
      have hb' := List.mem_cons_of_mem http hb
      exact ⟨mergeLocConf_closed hprev.1 (hraw b hb'),
        mergeLocConf_references hprev.2 (hrefs b hb')⟩
    have hhttp : ∀ l ∈ [http.conf],
        l.Closed st.main ∧ ∀ ρ ∈ l.references, ρ ∈ st.references := by
      simpa using ⟨(hraw http (by simp)).toClosed, hrefs http (by simp)⟩
    obtain ⟨new, hnew, hforall⟩ := mergeBlocks_spec
      ⟨(createLocConf_raw st.main).toClosed, by simp [ngxHttpRnCreateLocConf, LocConf.references]⟩
      hstep hhttp
    intro l hl
    simp only [hnew] at hl
    obtain ⟨prev, hprev, b, hb, rfl⟩ := hforall l (by simpa using hl)
    obtain ⟨hclosed, hsub⟩ := hstep prev hprev b hb
    exact ⟨hclosed, mergeLocConf_ne_unset prev (hraw b (List.mem_cons_of_mem _ hb)), hsub⟩

end RlNginx
