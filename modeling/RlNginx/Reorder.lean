import RlNginx.Lib.Shuffle
import RlNginx.Accepted

/-!
# The order of directives

Which directives of a configuration may trade places. `Component` names the parts of the
configuration being read, and `Item.consults` and `Item.sets` say which of them a directive
looks at and which it changes (`Item.footprint`). Two directives are `Linked` when one sets
what the other consults, or both set the same part. The directives that nginx refuses a
second time are not linked to themselves : with two of them no order is accepted.

A configuration loads the same in every order that keeps the linked directives in theirs
(`loadConf_reorder`). The settings of the `http` block may so stand anywhere, and a
definition anywhere before its uses.
-/

open Shuffle Fallible

namespace RlNginx

/-! ## Components -/

/-- The parts of a configuration that directives consult and set. -/
inductive Component where
  | tenantDns
  | resolver
  | authKey
  | policy
  | failOpen
  | bindAddr
  | debug
  | zones
  | trackers
  | guards
  | groups
  | enabled
  | blockCount
  | block (k : ℕ)
  deriving DecidableEq, Repr

/-- What a component holds. -/
def Component.Value : Component → Type
  | .tenantDns => Option Bytes
  | .resolver => Option ResolverSource
  | .authKey => Option Bytes × AuthKeyInfo
  | .policy => Policy × PolicyKind × Bool
  | .failOpen => Bool
  | .bindAddr => Option Bytes
  | .debug => Bool × Bool
  | .zones => List Zone
  | .trackers => List Tracker
  | .guards => List Guard
  | .groups => List Group
  | .enabled => Bool
  | .blockCount => ℕ
  | .block _ => Option Block

/-- A component of the configuration read so far. -/
def ConfState.component (st : ConfState) : (c : Component) → c.Value
  | .tenantDns => st.main.tenantDns
  | .resolver => st.main.resolver
  | .authKey => (st.main.authKey, st.main.authKeyInfo)
  | .policy => (st.main.requestPolicy, st.main.requestPolicyKind, st.main.requestPolicySet)
  | .failOpen => st.main.failOpen
  | .bindAddr => st.main.bindAddr
  | .debug => (st.main.debug, st.main.debugSet)
  | .zones => st.main.zones
  | .trackers => st.main.trackers
  | .guards => st.main.guards
  | .groups => st.main.groups
  | .enabled => st.main.enabled
  | .blockCount => st.blocks.length
  | .block k => st.blocks[k]?

/-- The components make up the configuration. -/
theorem ConfState.component_injective : Function.Injective ConfState.component := by
  intro st st' h
  have hc : ∀ c, st.component c = st'.component c := fun c => congrFun h c
  have hblocks : st.blocks = st'.blocks := List.ext_getElem? fun k => hc (.block k)
  have hauth := Prod.mk.inj (hc .authKey)
  have hpolicy := Prod.mk.inj (hc .policy)
  have hkind := Prod.mk.inj hpolicy.2
  have hdebug := Prod.mk.inj (hc .debug)
  have hmain : st.main = st'.main := by
    rw [MainConf.mk.injEq]
    exact ⟨hc .zones, hc .trackers, hc .guards, hc .groups, hc .tenantDns, hauth.1, hauth.2,
      hpolicy.1, hkind.1, hkind.2, hc .failOpen, hc .enabled, hc .bindAddr, hc .resolver,
      hdebug.1, hdebug.2⟩
  rw [ConfState.mk.injEq]
  exact ⟨hmain, hblocks⟩

/-! ## Footprints of the `http` block's directives -/

/-- The component a directive of the `http` block sets. -/
def MainCommand.sets : MainCommand → Component
  | .dnsSrv => .tenantDns
  | .dnsResolver => .resolver
  | .authKey => .authKey
  | .policy => .policy
  | .fail => .failOpen
  | .bind => .bindAddr
  | .debug => .debug
  | .zone => .zones
  | .tracker => .trackers
  | .guard => .guards
  | .group => .groups

/-- The components a directive of the `http` block consults : its own, to refuse a duplicate,
and the definitions it refers to. -/
def MainCommand.consults : MainCommand → Set Component
  | .fail => ∅
  | .guard => {.guards, .trackers}
  | .group => {.groups, .zones}
  | cmd => {cmd.sets}

/-- `t` with the component that a directive sets taken from `m`. -/
def MainConf.take (t m : MainConf) : MainCommand → MainConf
  | .dnsSrv => { t with tenantDns := m.tenantDns }
  | .dnsResolver => { t with resolver := m.resolver }
  | .authKey => { t with authKey := m.authKey, authKeyInfo := m.authKeyInfo }
  | .policy => { t with
      requestPolicy := m.requestPolicy,
      requestPolicyKind := m.requestPolicyKind,
      requestPolicySet := m.requestPolicySet }
  | .fail => { t with failOpen := m.failOpen }
  | .bind => { t with bindAddr := m.bindAddr }
  | .debug => { t with debug := m.debug, debugSet := m.debugSet }
  | .zone => { t with zones := m.zones }
  | .tracker => { t with trackers := m.trackers }
  | .guard => { t with guards := m.guards }
  | .group => { t with groups := m.groups }

theorem component_take_sets (st st' : ConfState) (m : MainConf) (cmd : MainCommand) :
    ConfState.component ⟨st.main.take m cmd, st.blocks⟩ cmd.sets =
      ConfState.component ⟨m, st'.blocks⟩ cmd.sets := by
  cases cmd <;> rfl

theorem component_take_other (st : ConfState) (m : MainConf) {cmd : MainCommand} {c : Component}
    (hc : c ≠ cmd.sets) :
    ConfState.component ⟨st.main.take m cmd, st.blocks⟩ c = st.component c := by
  cases cmd <;> cases c <;> first | rfl | exact absurd rfl hc

section Handlers

variable {env : ConfEnv} {m t : MainConf} (args : List Bytes)

theorem ngxHttpRnSetDnsSrv_take (h : m.tenantDns = t.tenantDns) :
    ngxHttpRnSetDnsSrv t args = (ngxHttpRnSetDnsSrv m args).map (t.take · .dnsSrv) := by
  unfold ngxHttpRnSetDnsSrv
  rw [h]
  split
  · split_ifs <;> rfl
  · rfl

theorem ngxHttpRnSetDnsResolver_take (h : m.resolver = t.resolver) :
    ngxHttpRnSetDnsResolver env t args =
      (ngxHttpRnSetDnsResolver env m args).map (t.take · .dnsResolver) := by
  unfold ngxHttpRnSetDnsResolver
  rw [h]
  split
  · rfl
  · split_ifs <;> rfl

theorem ngxHttpRnSetAuthKey_take (h : m.authKey = t.authKey) :
    ngxHttpRnSetAuthKey env t args =
      (ngxHttpRnSetAuthKey env m args).map (t.take · .authKey) := by
  unfold ngxHttpRnSetAuthKey
  rw [h]
  split
  · split_ifs
    · rfl
    · rfl
    · split <;> rfl
  · rfl

theorem ngxHttpRnSetFail_take :
    ngxHttpRnSetFail t args = (ngxHttpRnSetFail m args).map (t.take · .fail) := by
  unfold ngxHttpRnSetFail
  split
  · split_ifs <;> rfl
  · rfl

theorem ngxHttpRnSetBind_take (h : m.bindAddr = t.bindAddr) :
    ngxHttpRnSetBind env t args = (ngxHttpRnSetBind env m args).map (t.take · .bind) := by
  unfold ngxHttpRnSetBind
  rw [h]
  split
  · split_ifs <;> rfl
  · rfl

theorem ngxHttpRnSetDebug_take (h : m.debugSet = t.debugSet) :
    ngxHttpRnSetDebug t args = (ngxHttpRnSetDebug m args).map (t.take · .debug) := by
  unfold ngxHttpRnSetDebug
  rw [h]
  split
  · split_ifs <;> rfl
  · rfl

theorem ngxHttpRnSetPolicy_take (h : m.requestPolicySet = t.requestPolicySet) :
    ngxHttpRnSetPolicy env t args = (ngxHttpRnSetPolicy env m args).map (t.take · .policy) := by
  unfold ngxHttpRnSetPolicy
  rw [h]
  split
  · rfl
  · split_ifs
    · rfl
    · split
      · rfl
      · split
        · rfl
        · split_ifs
          · rfl
          · split <;> rfl

theorem ngxHttpRnZone_take (h : m.zones = t.zones) :
    ngxHttpRnZone env t args = (ngxHttpRnZone env m args).map (t.take · .zone) := by
  unfold ngxHttpRnZone rnFindZone
  rw [h]
  split
  · rename_i arg₁ arg₂
    cases [arg₁, arg₂].foldlM zoneArg ([], []) <;> simp only <;>
      split_ifs <;> rfl
  · rfl

theorem ngxHttpRnTracker_take (h : m.trackers = t.trackers) :
    ngxHttpRnTracker env t args = (ngxHttpRnTracker env m args).map (t.take · .tracker) := by
  unfold ngxHttpRnTracker rnFindTracker
  rw [h]
  split
  · rename_i arg args
    cases (arg :: args).foldlM (trackerArg env)
        ⟨[], 30000, 128, 8, false, false, false, false⟩ <;> simp only <;>
      split_ifs <;> rfl
  · rfl

theorem ngxHttpRnGuard_take (h : m.guards = t.guards) (htrackers : m.trackers = t.trackers) :
    ngxHttpRnGuard env t args = (ngxHttpRnGuard env m args).map (t.take · .guard) := by
  unfold ngxHttpRnGuard rnFindGuard rnFindTracker
  rw [h, htrackers]
  split
  · rename_i arg₁ arg₂
    cases [arg₁, arg₂].foldlM guardArg ⟨[], [], false, false⟩ <;> simp only <;>
      split_ifs <;> rfl
  · rfl

theorem groupArg_same (hzones : m.zones = t.zones) : groupArg m = groupArg t := by
  unfold groupArg rnFindZone
  rw [hzones]

theorem ngxHttpRnGroup_take (h : m.groups = t.groups) (hzones : m.zones = t.zones) :
    ngxHttpRnGroup t args = (ngxHttpRnGroup m args).map (t.take · .group) := by
  unfold ngxHttpRnGroup rnFindGroup
  rw [h, groupArg_same hzones]
  split
  · split_ifs
    · rfl
    · rfl
    · split <;> rfl
  · rfl

end Handlers

/-- A directive of the `http` block computes what it sets from what it consults. -/
theorem mainCommand_take (env : ConfEnv) {st st' : ConfState} (cmd : MainCommand)
    (args : List Bytes) (h : ∀ c ∈ cmd.consults, st.component c = st'.component c) :
    cmd.run env st'.main args = (cmd.run env st.main args).map (st'.main.take · cmd) := by
  have hown : cmd.sets ∈ cmd.consults → st.component cmd.sets = st'.component cmd.sets := h _
  cases cmd with
  | dnsSrv => exact ngxHttpRnSetDnsSrv_take args (hown rfl)
  | dnsResolver => exact ngxHttpRnSetDnsResolver_take args (hown rfl)
  | authKey => exact ngxHttpRnSetAuthKey_take args (Prod.mk.inj (hown rfl)).1
  | policy =>
    exact ngxHttpRnSetPolicy_take args (Prod.mk.inj (Prod.mk.inj (hown rfl)).2).2
  | fail => exact ngxHttpRnSetFail_take args
  | bind => exact ngxHttpRnSetBind_take args (hown rfl)
  | debug => exact ngxHttpRnSetDebug_take args (Prod.mk.inj (hown rfl)).2
  | zone => exact ngxHttpRnZone_take args (hown rfl)
  | tracker => exact ngxHttpRnTracker_take args (hown rfl)
  | guard => exact ngxHttpRnGuard_take args (hown (.inl rfl)) (h .trackers (.inr rfl))
  | group => exact ngxHttpRnGroup_take args (hown (.inl rfl)) (h .zones (.inr rfl))

/-! ## Footprints of location directives -/

/-- The definitions a location directive refers to. -/
def LocCommand.consults : LocCommand → Set Component
  | .label => ∅
  | .report => {.trackers}
  | .rule => {.zones, .guards, .groups}

/-- The directive turns the module on. -/
def LocCommand.enables : LocCommand → List Bytes → Bool
  | .label, _ => false
  | .report, args => args.all fun value => !sameName value (ascii "off")
  | .rule, _ => true

section Location

variable {env : ConfEnv} {m t : MainConf} {lcf : LocConf} (args : List Bytes)

/-- The main configuration after a location directive. -/
def MainConf.enable (t : MainConf) (on : Bool) : MainConf :=
  { t with enabled := on || t.enabled }

theorem ngxHttpRnLabel_enable : ngxHttpRnLabel env t lcf args =
    (ngxHttpRnLabel env m lcf args).map fun r =>
      (t.enable (LocCommand.label.enables args), r.2) := by
  unfold ngxHttpRnLabel
  split
  · split_ifs <;> rfl
  · rfl

theorem ngxHttpRnReport_enable (htrackers : m.trackers = t.trackers) :
    ngxHttpRnReport t lcf args = (ngxHttpRnReport m lcf args).map fun r =>
      (t.enable (LocCommand.report.enables args), r.2) := by
  unfold ngxHttpRnReport rnFindTracker
  rw [htrackers]
  split
  · rename_i value
    have hon : LocCommand.report.enables [value] = !sameName value (ascii "off") := by
      simp [LocCommand.enables]
    rw [hon]
    split_ifs with _ hoff
    · rfl
    · rw [hoff]
      rfl
    · rfl
    · rw [Bool.eq_false_of_not_eq_true hoff]
      rfl
  · rfl

theorem ruleArg_same (hguards : m.guards = t.guards) : ruleArg m = ruleArg t := by
  unfold ruleArg rnFindGuard
  rw [hguards]

theorem ruleOf_same (hzones : m.zones = t.zones) (hgroups : m.groups = t.groups) :
    ruleOf m = ruleOf t := by
  unfold ruleOf rnFindZone rnFindGroup
  rw [hzones, hgroups]

theorem ngxHttpRnRule_enable (hzones : m.zones = t.zones) (hguards : m.guards = t.guards)
    (hgroups : m.groups = t.groups) :
    ngxHttpRnRule t lcf args = (ngxHttpRnRule m lcf args).map fun r =>
      (t.enable (LocCommand.rule.enables args), r.2) := by
  unfold ngxHttpRnRule
  rw [ruleArg_same hguards, ruleOf_same hzones hgroups]
  split
  · rfl
  · split
    · rfl
    · split <;> rfl

end Location

/-- A location directive computes its block from what it consults. -/
theorem locCommand_enable (env : ConfEnv) {st st' : ConfState} (lcf : LocConf) (cmd : LocCommand)
    (args : List Bytes) (h : ∀ c ∈ cmd.consults, st.component c = st'.component c) :
    cmd.run env st'.main lcf args = (cmd.run env st.main lcf args).map fun r =>
      (st'.main.enable (cmd.enables args), r.2) := by
  cases cmd with
  | label => exact ngxHttpRnLabel_enable args
  | report => exact ngxHttpRnReport_enable args (h .trackers rfl)
  | rule =>
    exact ngxHttpRnRule_enable args (h .zones (.inl rfl)) (h .guards (.inr (.inl rfl)))
      (h .groups (.inr (.inr rfl)))

/-! ## Footprints of items -/

/-- The table of blocks. -/
def Component.IsBlocks (c : Component) : Prop :=
  c = .blockCount ∨ ∃ k, c = .block k

/-- What an item looks at. -/
def Item.consults : Item → Set Component
  | .main cmd _ => cmd.consults
  | .block _ => {c | c.IsBlocks}
  | .loc k cmd _ => insert (.block k) cmd.consults

/-- What an item may change. -/
def Item.sets : Item → Set Component
  | .main cmd _ => {cmd.sets}
  | .block _ => {c | c.IsBlocks}
  | .loc k cmd args => {c | c = .block k ∨ (c = .enabled ∧ cmd.enables args = true)}

/-- Reading an item, without the reason when it is refused. -/
def ConfState.readItem (env : ConfEnv) (st : ConfState) (it : Item) : Option ConfState :=
  (ConfState.read env st it).toOption

theorem readItem_main {env : ConfEnv} {st st' : ConfState} {cmd : MainCommand}
    {args : List Bytes} : st.readItem env (.main cmd args) = some st' ↔
      ∃ m, cmd.run env st.main args = .ok m ∧ st' = ⟨m, st.blocks⟩ := by
  simp only [ConfState.readItem, ConfState.read]
  cases cmd.run env st.main args <;> simp [Except.toOption, eq_comm]

theorem main_footprint (env : ConfEnv) (cmd : MainCommand) (args : List Bytes) :
    Footprint ConfState.component (ConfState.readItem env · (.main cmd args))
      (Item.main cmd args).consults (Item.main cmd args).sets := by
  constructor
  · intro st st' h c hc
    obtain ⟨m, hm, rfl⟩ := readItem_main.mp h
    have hself : ∀ c ∈ cmd.consults, st.component c = st.component c := fun _ _ => rfl
    have htake := mainCommand_take env cmd args hself
    rw [hm] at htake
    have hm' : m = st.main.take m cmd := Except.ok.inj htake
    rw [hm']
    exact component_take_other st m hc
  · intro st t st' hsame h
    obtain ⟨m, hm, rfl⟩ := readItem_main.mp h
    have htake := mainCommand_take env cmd args hsame
    rw [hm] at htake
    refine ⟨⟨t.main.take m cmd, t.blocks⟩, readItem_main.mpr ⟨_, htake, rfl⟩, ?_⟩
    rintro c rfl
    exact (component_take_sets t st m cmd).symm

theorem block_footprint (env : ConfEnv) (parent : ℕ) :
    Footprint ConfState.component (ConfState.readItem env · (.block parent))
      (Item.block parent).consults (Item.block parent).sets := by
  have hread : ∀ (st st' : ConfState), st.readItem env (.block parent) = some st' ↔
      parent < st.blocks.length ∧
        st' = ⟨st.main, st.blocks ++ [⟨parent, ngxHttpRnCreateLocConf⟩]⟩ := by
    intro st st'
    simp only [ConfState.readItem, ConfState.read]
    split_ifs with h <;> simp [Except.toOption, h, eq_comm]
  constructor
  · intro st st' h c hc
    obtain ⟨-, rfl⟩ := (hread st st').mp h
    cases c with
    | blockCount => exact absurd (.inl rfl) hc
    | block k => exact absurd (.inr ⟨k, rfl⟩) hc
    | _ => rfl
  · intro st t st' hsame h
    obtain ⟨hparent, rfl⟩ := (hread st st').mp h
    have hblocks : st.blocks = t.blocks :=
      List.ext_getElem? fun k => hsame (.block k) (.inr ⟨k, rfl⟩)
    rw [hblocks] at hparent ⊢
    refine ⟨_, (hread t _).mpr ⟨hparent, rfl⟩, ?_⟩
    rintro c (rfl | ⟨k, rfl⟩) <;> rfl

theorem readItem_loc {env : ConfEnv} {st st' : ConfState} {k : ℕ} {cmd : LocCommand}
    {args : List Bytes} : st.readItem env (.loc k cmd args) = some st' ↔
      k ≠ 0 ∧ ∃ b r, st.blocks[k]? = some b ∧ cmd.run env st.main b.conf args = .ok r ∧
        st' = ⟨r.1, st.blocks.set k ⟨b.parent, r.2⟩⟩ := by
  simp only [ConfState.readItem, ConfState.read]
  split_ifs with hk
  · simp [Except.toOption, hk]
  · cases hb : st.blocks[k]? with
    | none => simp [Except.toOption]
    | some b =>
      cases hrun : cmd.run env st.main b.conf args with
      | error e => simp [Except.toOption, hrun]
      | ok r =>
        rcases r with ⟨m, conf⟩
        simp [Except.toOption, hrun, hk, eq_comm]

/-- What a location directive does not set it leaves alone. -/
theorem component_loc_other (st : ConfState) {k : ℕ} {on : Bool} {b : Block} {c : Component}
    (hblock : c ≠ .block k) (henabled : ¬(c = .enabled ∧ on = true)) :
    ConfState.component ⟨st.main.enable on, st.blocks.set k b⟩ c = st.component c := by
  cases c with
  | blockCount => exact List.length_set
  | block j =>
    refine List.getElem?_set_ne fun h => hblock ?_
    rw [h]
  | enabled =>
    have hoff : on = false := by simpa using henabled
    rw [hoff]
    rfl
  | _ => rfl

theorem loc_footprint (env : ConfEnv) (k : ℕ) (cmd : LocCommand) (args : List Bytes) :
    Footprint ConfState.component (ConfState.readItem env · (.loc k cmd args))
      (Item.loc k cmd args).consults (Item.loc k cmd args).sets := by
  have hrun : ∀ {st st' : ConfState} {lcf : LocConf} {r : MainConf × LocConf},
      (∀ c ∈ cmd.consults, st.component c = st'.component c) →
        cmd.run env st.main lcf args = .ok r →
          cmd.run env st'.main lcf args = .ok (st'.main.enable (cmd.enables args), r.2) := by
    intro st st' lcf r hsame h
    rw [locCommand_enable env lcf cmd args hsame, h]
    rfl
  constructor
  · intro st st' h c hc
    obtain ⟨-, b, r, hb, hr, rfl⟩ := readItem_loc.mp h
    have hself : ∀ c ∈ cmd.consults, st.component c = st.component c := fun _ _ => rfl
    have hr' := hrun hself hr
    rw [hr, Except.ok.injEq] at hr'
    rw [hr']
    exact component_loc_other st (fun h => hc (.inl h)) fun h => hc (.inr h)
  · intro st t st' hsame h
    obtain ⟨hk, b, r, hb, hr, rfl⟩ := readItem_loc.mp h
    have hcmd : ∀ c ∈ cmd.consults, st.component c = t.component c :=
      fun c hc => hsame c (Set.mem_insert_of_mem _ hc)
    have hblock : st.blocks[k]? = t.blocks[k]? := hsame (.block k) (Set.mem_insert _ _)
    have hb' : t.blocks[k]? = some b := hblock.symm.trans hb
    have hself : ∀ c ∈ cmd.consults, st.component c = st.component c := fun _ _ => rfl
    have hr' := hrun hself hr
    rw [hr, Except.ok.injEq] at hr'
    refine ⟨_, readItem_loc.mpr ⟨hk, b, _, hb', hrun hcmd hr, rfl⟩, ?_⟩
    rintro c (rfl | ⟨rfl, hon⟩)
    · have hlt := (List.getElem?_eq_some_iff.mp hb).1
      have hlt' := (List.getElem?_eq_some_iff.mp hb').1
      show (st.blocks.set k ⟨b.parent, r.2⟩)[k]? = (t.blocks.set k ⟨b.parent, r.2⟩)[k]?
      rw [List.getElem?_set_self hlt, List.getElem?_set_self hlt']
    · rw [hr', hon]
      rfl

/-- What an item looks at and what it may change. -/
theorem Item.footprint (env : ConfEnv) (it : Item) :
    Footprint ConfState.component (ConfState.readItem env · it) it.consults it.sets := by
  cases it with
  | main cmd args => exact main_footprint env cmd args
  | block parent => exact block_footprint env parent
  | loc k cmd args => exact loc_footprint env k cmd args

/-! ## Directives that may trade places -/

/-- The directives of which nginx refuses a second one. -/
def MainCommand.once : MainCommand → Bool
  | .dnsSrv | .dnsResolver | .authKey | .policy | .bind | .debug => true
  | _ => false

/-- Two directives of one kind of which nginx refuses the second. -/
def Item.Twice : Item → Item → Prop
  | .main cmd _, .main cmd' _ => cmd = cmd' ∧ cmd.once = true
  | _, _ => False

/-- The order of the two items matters : one sets what the other consults, or both set the
same part other than the flag that a location directive raises. -/
def Item.Linked (a b : Item) : Prop :=
  ¬a.Twice b ∧ ∃ c, (c ∈ a.sets ∧ c ∈ b.consults) ∨ (c ∈ b.sets ∧ c ∈ a.consults) ∨
    (c ∈ a.sets ∧ c ∈ b.sets ∧ c ≠ .enabled)

theorem Item.Twice.symm {a b : Item} (h : a.Twice b) : b.Twice a := by
  cases a with
  | main cmd args =>
    cases b with
    | main cmd' args' =>
      obtain ⟨rfl, honce⟩ := h
      exact ⟨rfl, honce⟩
    | _ => exact h.elim
  | _ => exact h.elim

theorem Item.Linked.symm {a b : Item} (h : a.Linked b) : b.Linked a := by
  obtain ⟨htwice, c, hc⟩ := h
  refine ⟨fun h => htwice h.symm, c, ?_⟩
  rcases hc with hc | hc | ⟨ha, hb, hne⟩
  · exact .inr (.inl hc)
  · exact .inl hc
  · exact .inr (.inr ⟨hb, ha, hne⟩)

/-- The directive was given. -/
def MainCommand.seen (m : MainConf) : MainCommand → Bool
  | .dnsSrv => m.tenantDns.isSome
  | .dnsResolver => m.resolver.isSome
  | .authKey => m.authKey.isSome
  | .policy => m.requestPolicySet
  | .bind => m.bindAddr.isSome
  | .debug => m.debugSet
  | _ => false

section Once

variable {env : ConfEnv} {m m' : MainConf} {cmd : MainCommand} {args : List Bytes}

theorem once_seen (honce : cmd.once = true) (h : cmd.run env m args = .ok m') :
    cmd.seen m' = true := by
  cases cmd <;> simp only [MainCommand.run, ngxHttpRnSetDnsSrv, ngxHttpRnSetDnsResolver,
    ngxHttpRnSetAuthKey, ngxHttpRnSetPolicy, ngxHttpRnSetBind, ngxHttpRnSetDebug] at h <;>
    repeat' split at h
  all_goals first
    | (cases h; rfl)
    | cases h
    | cases honce

/-- After a directive that may be given once, the next of its kind is refused. -/
theorem seen_refused (env : ConfEnv) (args : List Bytes) (honce : cmd.once = true)
    (h : cmd.seen m = true) : (cmd.run env m args).toOption = none := by
  cases cmd <;> simp only [MainCommand.seen] at h <;> simp only [MainCommand.run,
    ngxHttpRnSetDnsSrv, ngxHttpRnSetDnsResolver, ngxHttpRnSetAuthKey, ngxHttpRnSetPolicy,
    ngxHttpRnSetBind, ngxHttpRnSetDebug, h, if_true]
  all_goals first
    | (split <;> rfl)
    | cases honce

end Once

theorem Item.Twice.independent (env : ConfEnv) {a b : Item} (h : a.Twice b) :
    Independent (ConfState.readItem env) a b := by
  cases a with
  | main cmd args =>
    cases b with
    | main cmd' args' =>
      obtain ⟨rfl, honce⟩ := h
      have hnone : ∀ (st : ConfState) (args args' : List Bytes),
          (st.readItem env (.main cmd args)).bind (ConfState.readItem env · (.main cmd args')) =
            none := by
        intro st args args'
        rw [Option.bind_eq_none_iff]
        intro st' h
        obtain ⟨m, hm, rfl⟩ := readItem_main.mp h
        have hrefused := seen_refused env args' honce (once_seen honce hm)
        rw [Option.eq_none_iff_forall_ne_some]
        intro st'' h'
        obtain ⟨m', hm', -⟩ := readItem_main.mp h'
        rw [hm'] at hrefused
        cases hrefused
      intro st
      rw [hnone, hnone]
    | _ => exact h.elim
  | _ => exact h.elim

/-- The flag that a location directive raises is up after it. -/
theorem readItem_enabled {env : ConfEnv} {st st' : ConfState} {it : Item}
    (hit : Component.enabled ∈ it.sets) (h : st.readItem env it = some st') :
    st'.main.enabled = true := by
  cases it with
  | main cmd args => cases cmd <;> cases hit
  | block parent => rcases hit with hit | ⟨k, hit⟩ <;> cases hit
  | loc k cmd args =>
    obtain ⟨-, b, r, -, hr, rfl⟩ := readItem_loc.mp h
    obtain hit | ⟨-, hon⟩ := hit
    · cases hit
    have hself : ∀ c ∈ cmd.consults, st.component c = st.component c := fun _ _ => rfl
    have hsame := locCommand_enable env b.conf cmd args hself
    rw [hr, hon] at hsame
    rw [show r = _ from Except.ok.inj hsame]
    rfl

/-- Items that are not linked may be read in either order. -/
theorem Item.independent (env : ConfEnv) {a b : Item} (h : ¬a.Linked b) :
    Independent (ConfState.readItem env) a b := by
  by_cases htwice : a.Twice b
  · exact htwice.independent env
  have hfree : ∀ c, ¬((c ∈ a.sets ∧ c ∈ b.consults) ∨ (c ∈ b.sets ∧ c ∈ a.consults) ∨
      (c ∈ a.sets ∧ c ∈ b.sets ∧ c ≠ .enabled)) := fun c hc => h ⟨htwice, c, hc⟩
  refine (a.footprint env).independent ConfState.component_injective (b.footprint env)
    (fun c hc hc' => hfree c (.inl ⟨hc, hc'⟩))
    (fun c hc hc' => hfree c (.inr (.inl ⟨hc, hc'⟩))) ?_
  intro st st' t' hst' ht' c hc hc'
  have henabled : c = .enabled := by
    by_contra hne
    exact hfree c (.inr (.inr ⟨hc, hc', hne⟩))
  subst henabled
  exact (readItem_enabled hc hst').trans (readItem_enabled hc' ht').symm

/-- Only directives of its own kind touch what such a setting sets. -/
theorem once_touched {cmd : MainCommand} (honce : cmd.once = true) {b : Item}
    (h : cmd.sets ∈ b.sets ∨ cmd.sets ∈ b.consults) : ∃ args, b = .main cmd args := by
  cases b with
  | main cmd' args' =>
    refine ⟨args', ?_⟩
    cases cmd <;> cases honce <;> cases cmd' <;>
      simp [Item.sets, Item.consults, MainCommand.sets, MainCommand.consults] at h ⊢
  | block parent =>
    cases cmd <;> cases honce <;>
      simp [Item.sets, Item.consults, MainCommand.sets, Component.IsBlocks] at h
  | loc k cmd' args' =>
    cases cmd <;> cases honce <;> cases cmd' <;>
      simp [Item.sets, Item.consults, MainCommand.sets, LocCommand.consults] at h

/-- A setting that may be given once is linked with nothing : it may stand anywhere. -/
theorem Item.not_linked_once {cmd : MainCommand} (honce : cmd.once = true) (args : List Bytes)
    (b : Item) : ¬(Item.main cmd args).Linked b := by
  have hown : cmd.consults = {cmd.sets} := by
    cases cmd <;> first | rfl | cases honce
  rintro ⟨htwice, c, hc⟩
  have htouch : cmd.sets ∈ b.sets ∨ cmd.sets ∈ b.consults := by
    rcases hc with ⟨rfl, hc⟩ | ⟨hc, hcon⟩ | ⟨rfl, hc, -⟩
    · exact .inr hc
    · have hsets : c ∈ cmd.consults := hcon
      rw [hown] at hsets
      obtain rfl : c = cmd.sets := hsets
      exact .inl hc
    · exact .inl hc
  obtain ⟨args', rfl⟩ := once_touched honce htouch
  exact htwice ⟨rfl, honce⟩

/-! ## Configurations -/

/-- Loading reads the items, then completes the main configuration. -/
theorem loadConf_readItem (env : ConfEnv) (items : List Item) : (loadConf env items).toOption =
    (items.foldlM (ConfState.readItem env) (ConfState.init env)).bind fun st =>
      (ngxHttpRnInit env st.main).toOption.map fun main => ⟨main, st.locations⟩ := by
  have hfold := foldlM_toOption (f := ConfState.read env) (g := ConfState.readItem env)
    (fun _ _ => rfl) items (ConfState.init env)
  rw [← hfold]
  unfold loadConf
  cases items.foldlM (ConfState.read env) (ConfState.init env) with
  | error e => rfl
  | ok st => cases hinit : ngxHttpRnInit env st.main <;> simp [Except.toOption, hinit]

/-- A configuration loads, or is refused, the same in every order that keeps the order of the
linked directives. -/
theorem loadConf_reorder {env : ConfEnv} {items items' : List Item} (hperm : items.Perm items')
    (horder : ∀ a ∈ items, ∀ b ∈ items, a.Linked b → pick a b items = pick a b items') :
    (loadConf env items).toOption = (loadConf env items').toOption := by
  have hsame : SameOrder (ConfState.readItem env) items items' := by
    intro a ha b hb
    by_cases hlinked : a.Linked b
    · exact .inr (horder a ha b hb hlinked)
    · exact .inl (a.independent env hlinked)
  rw [loadConf_readItem, loadConf_readItem, foldlM_reorder hperm hsame]

/-- The key of the small configuration may stand last. -/
theorem sample_reorder : (loadConf sampleEnv sampleItems).toOption =
    (loadConf sampleEnv (sampleItems.drop 1 ++ sampleItems.take 1)).toOption := by
  have hsplit : sampleItems.take 1 ++ sampleItems.drop 1 = sampleItems :=
    List.take_append_drop 1 sampleItems
  refine loadConf_reorder (hsplit ▸ List.perm_append_comm) ?_
  intro a _ b _ hlinked
  have ha : ∀ x ∈ sampleItems.take 1, ¬(x = a ∨ x = b) := by
    intro x hx h
    obtain rfl := List.mem_singleton.mp hx
    rcases h with rfl | rfl
    · exact Item.not_linked_once rfl _ b hlinked
    · exact Item.not_linked_once rfl _ a hlinked.symm
  have hnil : pick a b (sampleItems.take 1) = [] := by
    rw [List.eq_nil_iff_forall_not_mem]
    intro x hx
    exact ha x (mem_pick.mp hx).1 (mem_pick.mp hx).2
  calc pick a b sampleItems
      = pick a b (sampleItems.take 1 ++ sampleItems.drop 1) := by rw [hsplit]
    _ = pick a b (sampleItems.drop 1 ++ sampleItems.take 1) := by
      rw [pick_append, pick_append, hnil, List.append_nil, List.nil_append]

end RlNginx
