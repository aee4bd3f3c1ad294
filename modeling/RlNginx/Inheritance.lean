import RlNginx.Accepted
import RlNginx.Lib.Inherit

/-!
# Inheritance of rules, reports and labels

nginx reads the directives of each block into the block's own location configuration and
then merges from the `http` block down, each block into the merged configuration of its
parent. Rules are set when the array is not `NULL`, the report when its flag is, the label
when its own flag is.

`declaredRules`, `declaredReport` and `declaredLabel` are what the directives of a block
say. After the merge every `server` and `location` block has, for each of the three on its
own, what its nearest ancestor or self declares (`nearest_declaration`).
-/

open Fallible Inherit

namespace RlNginx

/-! ## What the directives of a block declare -/

/-- The text of an argument after a name. -/
def argAfter (p : String) (arg : Bytes) : Option Bytes :=
  if hasPrefix arg p then some (afterPrefix arg p) else none

/-- The rule that the arguments of `ratelimitly` name. -/
def declaredRule (args : List Bytes) : RuleRef :=
  match args.findSome? (argAfter "zone="), args.findSome? (argAfter "group=") with
  | some zone, _ => ⟨.zone, zone, args.filterMap (argAfter "guard=")⟩
  | none, some group => ⟨.group, group, args.filterMap (argAfter "guard=")⟩
  | none, none => ⟨.guardOnly, [], args.filterMap (argAfter "guard=")⟩

/-- The rule an item declares in block `k`. -/
def Item.ruleIn (k : ℕ) : Item → Option RuleRef
  | .loc j .rule args => if j = k then some (declaredRule args) else none
  | _ => none

/-- The argument of a `ratelimitly_report` in block `k`. -/
def Item.reportIn (k : ℕ) : Item → Option Bytes
  | .loc j .report [value] => if j = k then some value else none
  | _ => none

/-- The argument of a `ratelimitly_label` in block `k`. -/
def Item.labelIn (k : ℕ) : Item → Option Bytes
  | .loc j .label [value] => if j = k then some value else none
  | _ => none

/-- The rules declared in a block, in order. -/
def declaredRules (items : List Item) (k : ℕ) : Option (List RuleRef) :=
  if items.filterMap (Item.ruleIn k) = [] then none else some (items.filterMap (Item.ruleIn k))

/-- The report declared in a block : a tracker, or `none` for `off`. -/
def declaredReport (items : List Item) (k : ℕ) : Option (Option Bytes) :=
  (items.filterMap (Item.reportIn k)).getLast?.map fun value =>
    if value = ascii "off" then none else some value

/-- The last label declared in a block. -/
def declaredLabel (items : List Item) (k : ℕ) : Option Bytes :=
  (items.filterMap (Item.labelIn k)).getLast?

/-- The parent a block opens in. -/
def Item.opens : Item → Option ℕ
  | .block parent => some parent
  | _ => none

/-- The parents of the blocks, the `http` block first. -/
def blockParents (items : List Item) : List ℕ :=
  0 :: items.filterMap Item.opens

/-- The parent of block `k`. -/
def blockParent (items : List Item) (k : ℕ) : ℕ :=
  (blockParents items).getD k 0

/-- The report of a configuration : unset, suppressed, or a tracker. -/
def LocConf.report (l : LocConf) : Option (Option Bytes) :=
  if l.reportSet then some (if l.reportEnabled then some l.reportTrackerName else none) else none

/-- The label of a configuration. -/
def LocConf.label (l : LocConf) : Option Bytes :=
  if l.labelSet then some l.labelTemplate else none

/-! ## A block holds what it declares -/

/-- The zone, group and guards read so far. -/
def RuleArgs.zone (acc : RuleArgs) : Option Bytes :=
  if acc.zoneSeen then some acc.zoneName else none

def RuleArgs.group (acc : RuleArgs) : Option Bytes :=
  if acc.groupSeen then some acc.groupName else none

/-- One argument adds the zone, the group or a guard it names. -/
theorem ruleArg_adds {mcf : MainConf} {acc acc' : RuleArgs} {arg : Bytes}
    (h : ruleArg mcf acc arg = .ok acc') :
    acc'.zone = acc.zone.or (argAfter "zone=" arg) ∧
    acc'.group = acc.group.or (argAfter "group=" arg) ∧
    acc'.guardNames = acc.guardNames ++ (argAfter "guard=" arg).toList := by
  unfold ruleArg at h
  by_cases hzone : hasPrefix arg "zone=" = true
  · obtain ⟨rest, rfl⟩ := (hasPrefix_iff (by decide)).mp hzone
    have hgroup : hasPrefix (ascii "zone=" ++ rest) "group=" = false := rfl
    have hguard : hasPrefix (ascii "zone=" ++ rest) "guard=" = false := rfl
    rw [if_pos hzone] at h
    split_ifs at h with hseen
    cases h
    push Not at hseen
    simp [RuleArgs.zone, RuleArgs.group, argAfter, hzone, hgroup, hguard, hseen.2]
  rw [if_neg hzone] at h
  by_cases hgroup : hasPrefix arg "group=" = true
  · obtain ⟨rest, rfl⟩ := (hasPrefix_iff (by decide)).mp hgroup
    have hguard : hasPrefix (ascii "group=" ++ rest) "guard=" = false := rfl
    rw [if_pos hgroup] at h
    split_ifs at h with hseen
    cases h
    push Not at hseen
    simp [RuleArgs.zone, RuleArgs.group, argAfter, hzone, hgroup, hguard, hseen.2]
  rw [if_neg hgroup] at h
  by_cases hguard : hasPrefix arg "guard=" = true
  · rw [if_pos hguard] at h
    simp only at h
    split_ifs at h
    cases h
    simp [RuleArgs.zone, RuleArgs.group, argAfter, hzone, hgroup, hguard]
  · rw [if_neg hguard] at h
    cases h

/-- The arguments of a rule, read to the end. -/
theorem ruleArgs_adds {mcf : MainConf} : ∀ {args : List Bytes} {acc acc' : RuleArgs},
    args.foldlM (ruleArg mcf) acc = .ok acc' →
    acc'.zone = acc.zone.or (args.findSome? (argAfter "zone=")) ∧
    acc'.group = acc.group.or (args.findSome? (argAfter "group=")) ∧
    acc'.guardNames = acc.guardNames ++ args.filterMap (argAfter "guard=")
  | [], acc, acc', h => by
    cases h
    simp
  | arg :: args, acc, acc', h => by
    obtain ⟨acc₁, hfirst, hrest⟩ := foldlM_cons_ok h
    obtain ⟨hz, hg, hn⟩ := ruleArg_adds hfirst
    obtain ⟨hz', hg', hn'⟩ := ruleArgs_adds hrest
    refine ⟨?_, ?_, ?_⟩
    · rw [hz', hz, Option.or_assoc, List.findSome?_cons]
      rcases argAfter "zone=" arg <;> rfl
    · rw [hg', hg, Option.or_assoc, List.findSome?_cons]
      rcases argAfter "group=" arg <;> rfl
    · rw [hn', hn, List.append_assoc, List.filterMap_cons]
      rcases argAfter "guard=" arg <;> rfl

/-- An accepted rule is the one its arguments name. -/
theorem ruleOf_declared {mcf : MainConf} {args : List Bytes} {acc : RuleArgs} {rule : RuleRef}
    (hargs : args.foldlM (ruleArg mcf) ⟨[], [], false, false, []⟩ = .ok acc)
    (hrule : ruleOf mcf acc = .ok rule) : rule = declaredRule args := by
  obtain ⟨hzone, hgroup, hguards⟩ := ruleArgs_adds hargs
  simp only [RuleArgs.zone, RuleArgs.group, Bool.false_eq_true, if_false, Option.none_or,
    List.nil_append] at hzone hgroup hguards
  unfold declaredRule
  rw [← hzone, ← hgroup, ← hguards]
  unfold ruleOf at hrule
  split_ifs at hrule with hempty hname hz hfind hg hfind'
  · cases hrule
    rw [if_pos hz]
  · cases hrule
    rw [if_neg hz, if_pos hg]
  · cases hrule
    rw [if_neg hz, if_neg hg]

section Append

variable {items : List Item} {it : Item} {k : ℕ}

theorem declaredRules_append_none (h : it.ruleIn k = none) :
    declaredRules (items ++ [it]) k = declaredRules items k := by
  have hsame : (items ++ [it]).filterMap (Item.ruleIn k) = items.filterMap (Item.ruleIn k) := by
    simp [List.filterMap_append, h]
  rw [declaredRules, hsame, declaredRules]

theorem declaredRules_append_some {rule : RuleRef} (h : it.ruleIn k = some rule) :
    declaredRules (items ++ [it]) k = some ((declaredRules items k).getD [] ++ [rule]) := by
  have hmore : (items ++ [it]).filterMap (Item.ruleIn k) =
      items.filterMap (Item.ruleIn k) ++ [rule] := by
    simp [List.filterMap_append, h]
  have hold : (declaredRules items k).getD [] = items.filterMap (Item.ruleIn k) := by
    unfold declaredRules
    split_ifs with hnil
    · exact hnil.symm
    · rfl
  rw [declaredRules, hmore, if_neg (by simp), hold]

theorem declaredReport_append_none (h : it.reportIn k = none) :
    declaredReport (items ++ [it]) k = declaredReport items k := by
  simp [declaredReport, List.filterMap_append, h]

theorem declaredReport_append_some {value : Bytes} (h : it.reportIn k = some value) :
    declaredReport (items ++ [it]) k = some (if value = ascii "off" then none else some value) := by
  simp [declaredReport, List.filterMap_append, h]

theorem declaredLabel_append_none (h : it.labelIn k = none) :
    declaredLabel (items ++ [it]) k = declaredLabel items k := by
  simp [declaredLabel, List.filterMap_append, h]

theorem declaredLabel_append_some {value : Bytes} (h : it.labelIn k = some value) :
    declaredLabel (items ++ [it]) k = some value := by
  simp [declaredLabel, List.filterMap_append, h]

end Append

/-- What a block's own configuration says about what was declared in it. -/
structure Mirrors (items : List Item) (k : ℕ) (conf : LocConf) : Prop where
  rules : conf.rules = declaredRules items k
  report : conf.report = declaredReport items k
  label : conf.label = declaredLabel items k
  enabled : conf.enabled = if conf.rules.isSome then .on else .unset

/-- An item that declares nothing in a block leaves its declarations as they were. -/
theorem Mirrors.other {items : List Item} {it : Item} {k : ℕ} {conf : LocConf}
    (h : Mirrors items k conf) (hrule : it.ruleIn k = none) (hreport : it.reportIn k = none)
    (hlabel : it.labelIn k = none) : Mirrors (items ++ [it]) k conf where
  rules := by rw [declaredRules_append_none hrule, h.rules]
  report := by rw [declaredReport_append_none hreport, h.report]
  label := by rw [declaredLabel_append_none hlabel, h.label]
  enabled := h.enabled

theorem Mirrors.labelled {env : ConfEnv} {items : List Item} {k : ℕ} {mcf mcf' : MainConf}
    {conf conf' : LocConf} {args : List Bytes} (h : Mirrors items k conf)
    (hrun : ngxHttpRnLabel env mcf conf args = .ok (mcf', conf')) :
    Mirrors (items ++ [.loc k .label args]) k conf' := by
  obtain ⟨value, rfl⟩ : ∃ value, args = [value] := by
    rcases args with _ | ⟨value, _ | ⟨b, rest⟩⟩
    · cases hrun
    · exact ⟨value, rfl⟩
    · cases hrun
  simp only [ngxHttpRnLabel] at hrun
  split_ifs at hrun with hlong hcompile
  cases hrun
  refine ⟨?_, ?_, ?_, h.enabled⟩
  · rw [declaredRules_append_none rfl]
    exact h.rules
  · rw [declaredReport_append_none rfl]
    exact h.report
  · have hin : (Item.loc k .label [value]).labelIn k = some value := if_pos rfl
    rw [declaredLabel_append_some hin]
    rfl

theorem Mirrors.reported {items : List Item} {k : ℕ} {mcf mcf' : MainConf}
    {conf conf' : LocConf} {args : List Bytes} (h : Mirrors items k conf)
    (hrun : ngxHttpRnReport mcf conf args = .ok (mcf', conf')) :
    Mirrors (items ++ [.loc k .report args]) k conf' := by
  obtain ⟨value, rfl⟩ : ∃ value, args = [value] := by
    rcases args with _ | ⟨value, _ | ⟨b, rest⟩⟩
    · cases hrun
    · exact ⟨value, rfl⟩
    · cases hrun
  have hoff := sameName_literal (s := value) (p := ascii "off") (by decide)
  have hin : (Item.loc k .report [value]).reportIn k = some value := if_pos rfl
  have hrules : conf.rules = declaredRules (items ++ [.loc k .report [value]]) k := by
    rw [declaredRules_append_none rfl]
    exact h.rules
  have hlabel : conf.label = declaredLabel (items ++ [.loc k .report [value]]) k := by
    rw [declaredLabel_append_none rfl]
    exact h.label
  simp only [ngxHttpRnReport] at hrun
  split_ifs at hrun with hset hvalue hfind
  · cases hrun
    refine ⟨hrules, ?_, hlabel, h.enabled⟩
    rw [declaredReport_append_some hin, if_pos (hoff.mp hvalue)]
    rfl
  · cases hrun
    refine ⟨hrules, ?_, hlabel, h.enabled⟩
    rw [declaredReport_append_some hin, if_neg (mt hoff.mpr hvalue)]
    rfl

theorem Mirrors.ruled {items : List Item} {k : ℕ} {mcf mcf' : MainConf}
    {conf conf' : LocConf} {args : List Bytes} (h : Mirrors items k conf)
    (hrun : ngxHttpRnRule mcf conf args = .ok (mcf', conf')) :
    Mirrors (items ++ [.loc k .rule args]) k conf' := by
  rcases args with _ | ⟨arg, args⟩
  · cases hrun
  simp only [ngxHttpRnRule] at hrun
  rcases hargs : (arg :: args).foldlM (ruleArg mcf) ⟨[], [], false, false, []⟩ with e | acc
  · simp only [hargs] at hrun
    cases hrun
  rcases hrule : ruleOf mcf acc with e | rule
  · simp only [hargs, hrule] at hrun
    cases hrun
  simp only [hargs, hrule] at hrun
  cases hrun
  obtain rfl := ruleOf_declared hargs hrule
  have hin : (Item.loc k .rule (arg :: args)).ruleIn k = some (declaredRule (arg :: args)) :=
    if_pos rfl
  refine ⟨?_, ?_, ?_, rfl⟩
  · rw [declaredRules_append_some hin, h.rules]
  · rw [declaredReport_append_none rfl]
    exact h.report
  · rw [declaredLabel_append_none rfl]
    exact h.label

/-- A directive of the block changes its configuration as it says. -/
theorem Mirrors.command {env : ConfEnv} {items : List Item} {k : ℕ} {mcf mcf' : MainConf}
    {conf conf' : LocConf} {cmd : LocCommand} {args : List Bytes} (h : Mirrors items k conf)
    (hrun : cmd.run env mcf conf args = .ok (mcf', conf')) :
    Mirrors (items ++ [.loc k cmd args]) k conf' := by
  rcases cmd
  · exact h.labelled hrun
  · exact h.reported hrun
  · exact h.ruled hrun

/-- The configuration of block `k`, or that of a block before its first directive. -/
def ConfState.confAt (st : ConfState) (k : ℕ) : LocConf :=
  (st.blocks[k]?.map Block.conf).getD ngxHttpRnCreateLocConf

/-- What has been read holds what the items declare : the blocks stand below their parents,
and each has the configuration its own directives give it. -/
structure ReadAs (items : List Item) (st : ConfState) : Prop where
  parents : st.blocks.map Block.parent = blockParents items
  ordered : ∀ k b, 0 < k → st.blocks[k]? = some b → b.parent < k
  mirrors : ∀ k, Mirrors items k (st.confAt k)

theorem ReadAs.init (env : ConfEnv) : ReadAs [] (ConfState.init env) := by
  refine ⟨rfl, ?_, ?_⟩
  · intro k b hk hb
    rcases k with _ | k
    · omega
    · simp [ConfState.init] at hb
  · intro k
    have hconf : (ConfState.init env).confAt k = ngxHttpRnCreateLocConf := by
      rcases k with _ | k
      · rfl
      · rfl
    rw [hconf]
    exact ⟨rfl, rfl, rfl, rfl⟩

section Read

variable {env : ConfEnv} {items : List Item} {st : ConfState}

/-- A new block stands below its parent, and nothing is declared in it yet. -/
theorem ReadAs.block (h : ReadAs items st) {parent : ℕ} (hparent : parent < st.blocks.length) :
    ReadAs (items ++ [.block parent])
      { st with blocks := st.blocks ++ [⟨parent, ngxHttpRnCreateLocConf⟩] } := by
  refine ⟨?_, ?_, ?_⟩
  · rw [List.map_append, h.parents]
    simp [blockParents, List.filterMap_append, Item.opens]
  · intro k b hk hb
    by_cases hlt : k < st.blocks.length
    · rw [List.getElem?_append_left hlt] at hb
      exact h.ordered k b hk hb
    · rw [List.getElem?_append_right (by omega)] at hb
      obtain rfl := List.mem_singleton.mp (List.mem_of_getElem? hb)
      show parent < k
      omega
  · intro k
    have hsame : ConfState.confAt
        { st with blocks := st.blocks ++ [⟨parent, ngxHttpRnCreateLocConf⟩] } k =
        st.confAt k := by
      unfold ConfState.confAt
      by_cases hlt : k < st.blocks.length
      · rw [List.getElem?_append_left hlt]
      · have hnone : st.blocks[k]? = none := List.getElem?_eq_none (by omega)
        rw [List.getElem?_append_right (by omega), hnone]
        rcases k - st.blocks.length with _ | j <;> rfl
    rw [hsame]
    exact (h.mirrors k).other rfl rfl rfl

/-- A directive in block `k` changes the configuration of that block only. -/
theorem ReadAs.command (h : ReadAs items st) {k : ℕ} {cmd : LocCommand} {args : List Bytes}
    {b : Block} {main : MainConf} {conf : LocConf} (hk : 0 < k) (hb : st.blocks[k]? = some b)
    (hrun : cmd.run env st.main b.conf args = .ok (main, conf)) :
    ReadAs (items ++ [.loc k cmd args]) ⟨main, st.blocks.set k { b with conf }⟩ := by
  obtain ⟨hlt, hget⟩ := List.getElem?_eq_some_iff.mp hb
  have hopens : (Item.loc k cmd args).opens = none := rfl
  refine ⟨?_, ?_, ?_⟩
  · simp only [blockParents, List.filterMap_append, List.filterMap_cons, hopens,
      List.filterMap_nil, List.append_nil]
    rw [← blockParents, ← h.parents, List.map_set]
    refine List.ext_getElem? fun j => ?_
    rw [List.getElem?_set]
    split_ifs with hj hlt'
    · rw [← hj, List.getElem?_map, hb]
      rfl
    · rw [List.length_map] at hlt'
      omega
    · rfl
  · intro j b' hj hb'
    rw [List.getElem?_set] at hb'
    split_ifs at hb' with hjk
    · cases hb'
      rw [← hjk]
      exact h.ordered k b hk hb
    · exact h.ordered j b' hj hb'
  · intro j
    by_cases hjk : k = j
    · subst hjk
      have hconf : st.confAt k = b.conf := by
        rw [ConfState.confAt, hb]
        rfl
      have hnew : ConfState.confAt ⟨main, st.blocks.set k { b with conf }⟩ k = conf := by
        rw [ConfState.confAt, List.getElem?_set, if_pos rfl, if_pos hlt]
        rfl
      rw [hnew]
      refine Mirrors.command ?_ hrun
      rw [← hconf]
      exact h.mirrors k
    · have hsame : ConfState.confAt ⟨main, st.blocks.set k { b with conf }⟩ j =
          st.confAt j := by
        rw [ConfState.confAt, List.getElem?_set, if_neg hjk, ConfState.confAt]
      rw [hsame]
      refine (h.mirrors j).other ?_ ?_ ?_
      · rcases cmd <;> simp [Item.ruleIn, hjk]
      · rcases cmd <;> rcases args with _ | ⟨a, _ | ⟨a', rest⟩⟩ <;> simp [Item.reportIn, hjk]
      · rcases cmd <;> rcases args with _ | ⟨a, _ | ⟨a', rest⟩⟩ <;> simp [Item.labelIn, hjk]

/-- Reading one more item. -/
theorem ReadAs.read {it : Item} {st' : ConfState} (h : ReadAs items st)
    (hread : st.read env it = .ok st') : ReadAs (items ++ [it]) st' := by
  rcases it with ⟨cmd, args⟩ | parent | ⟨k, cmd, args⟩
  · simp only [ConfState.read] at hread
    split at hread
    · cases hread
    cases hread
    refine ⟨?_, h.ordered, fun k => (h.mirrors k).other rfl rfl rfl⟩
    rw [h.parents]
    simp [blockParents, List.filterMap_append, Item.opens]
  · simp only [ConfState.read] at hread
    split_ifs at hread with hparent
    cases hread
    exact h.block hparent
  · simp only [ConfState.read] at hread
    split_ifs at hread with hzero
    split at hread
    · cases hread
    next b hb =>
    split at hread
    · cases hread
    next main conf hrun =>
    cases hread
    exact h.command (by omega) hb hrun

end Read

/-- What a whole configuration holds. -/
theorem readAll_readAs {env : ConfEnv} {items : List Item} :
    ∀ {st : ConfState}, readAll env items = .ok st → ReadAs items st := by
  induction items using List.reverseRecOn with
  | nil =>
    intro st h
    cases h
    exact ReadAs.init env
  | append_singleton items it ih =>
    intro st h
    obtain ⟨st₀, h₀, hread⟩ := readAll_append h
    exact (ih h₀).read hread

/-! ## The merge -/

/-- The merge takes each of the three on its own : the block's, or else the parent's. -/
theorem merge_or (prev conf : LocConf) :
    (ngxHttpRnMergeLocConf prev conf).rules = conf.rules.or prev.rules ∧
    (ngxHttpRnMergeLocConf prev conf).report = conf.report.or prev.report ∧
    (ngxHttpRnMergeLocConf prev conf).label = conf.label.or prev.label := by
  refine ⟨?_, ?_, ?_⟩
  · rcases hrules : conf.rules <;> simp [ngxHttpRnMergeLocConf, hrules]
  · rcases hconf : conf.reportSet <;> rcases hprev : prev.reportSet <;>
      simp [ngxHttpRnMergeLocConf, LocConf.report, hconf, hprev]
  · rcases hconf : conf.labelSet <;> rcases hprev : prev.labelSet <;>
      simp [ngxHttpRnMergeLocConf, LocConf.label, hconf, hprev]

/-- The flag of a merged block says whether it has rules. -/
theorem merge_enabled {prev conf : LocConf} (hprev : prev.enabled = .on ↔ prev.rules.isSome)
    (hconf : conf.enabled = if conf.rules.isSome then .on else .unset) :
    (ngxHttpRnMergeLocConf prev conf).enabled =
      if (ngxHttpRnMergeLocConf prev conf).rules.isSome then .on else .off := by
  rcases hrules : conf.rules with _ | rules
  · rw [hrules] at hconf
    rcases hp : prev.enabled <;> rw [hp] at hprev <;>
      simp_all [ngxHttpRnMergeLocConf]
  · rw [hrules] at hconf
    simp [ngxHttpRnMergeLocConf, hrules, hconf]

/-- The table of merged blocks : it begins with what was merged before, and each block is
merged into an earlier entry. -/
theorem mergeBlocks_table : ∀ {rest : List Block} {merged : List LocConf},
    (∀ j b, rest[j]? = some b → b.parent < merged.length + j) →
    merged <+: mergeBlocks merged rest ∧
    (mergeBlocks merged rest).length = merged.length + rest.length ∧
    ∀ j b, rest[j]? = some b → ∃ prev, (mergeBlocks merged rest)[b.parent]? = some prev ∧
      (mergeBlocks merged rest)[merged.length + j]? = some (ngxHttpRnMergeLocConf prev b.conf)
  | [], merged, _ => by simp [mergeBlocks]
  | b :: rest, merged, h => by
    have hparent : b.parent < merged.length := h 0 b rfl
    obtain ⟨prev, hprev⟩ : ∃ prev, merged[b.parent]? = some prev :=
      ⟨_, List.getElem?_eq_getElem hparent⟩
    have hnew : merged.getD b.parent ngxHttpRnCreateLocConf = prev := by
      rw [List.getD_eq_getElem?_getD, hprev]
      rfl
    have hrest : ∀ j b', rest[j]? = some b' →
        b'.parent < (merged ++ [ngxHttpRnMergeLocConf prev b.conf]).length + j := by
      intro j b' hb'
      have := h (j + 1) b' hb'
      simp only [List.length_append, List.length_singleton]
      omega
    obtain ⟨⟨more, hmore⟩, hlength, htable⟩ := mergeBlocks_table hrest
    rw [mergeBlocks, hnew]
    simp only [List.length_append, List.length_singleton] at hlength htable
    refine ⟨⟨[ngxHttpRnMergeLocConf prev b.conf] ++ more, by rw [← List.append_assoc, hmore]⟩,
      by rw [hlength, List.length_cons]; omega, ?_⟩
    intro j b' hb'
    rcases j with _ | j
    · obtain rfl : b = b' := Option.some.inj hb'
      refine ⟨prev, ?_, ?_⟩
      · rw [← hmore, List.append_assoc, List.getElem?_append_left hparent, hprev]
      · rw [← hmore, List.append_assoc, List.getElem?_append_right (by omega)]
        simp
    · obtain ⟨prev', hprev', hmerged⟩ := htable j b' hb'
      exact ⟨prev', hprev', by rw [← hmerged, Nat.add_assoc, Nat.add_comm 1 j]⟩

/-- The merged configurations by block number : each block but `http` is merged into its
parent. -/
structure MergedTable (items : List Item) (st : ConfState) (table : ℕ → LocConf) : Prop where
  http : table 0 = st.confAt 0
  merged : ∀ k, 0 < k → k < (blockParents items).length →
    st.locations[k - 1]? = some (table k) ∧ blockParent items k < k ∧
    table k = ngxHttpRnMergeLocConf (table (blockParent items k)) (st.confAt k)

theorem locations_table {items : List Item} {st : ConfState} (h : ReadAs items st) :
    ∃ table : ℕ → LocConf, MergedTable items st table := by
  have hparents := h.parents
  rcases hblocks : st.blocks with _ | ⟨http, rest⟩
  · rw [hblocks] at hparents
    simp [blockParents] at hparents
  have hordered : ∀ j b, rest[j]? = some b → b.parent < [http.conf].length + j := by
    intro j b hb
    have := h.ordered (j + 1) b (by omega) (by rw [hblocks]; exact hb)
    simp only [List.length_singleton]
    omega
  obtain ⟨⟨more, hmore⟩, hlength, htable⟩ := mergeBlocks_table hordered
  refine ⟨fun k => ((mergeBlocks [http.conf] rest)[k]?).getD ngxHttpRnCreateLocConf, ?_, ?_⟩
  · rw [ConfState.confAt, hblocks, ← hmore]
    rfl
  · intro k hk hlt
    obtain ⟨j, rfl⟩ : ∃ j, k = j + 1 := ⟨k - 1, by omega⟩
    have hj : j < rest.length := by
      have := congrArg List.length hparents
      rw [hblocks] at this
      simp only [List.length_map, List.length_cons] at this
      omega
    have hb : rest[j]? = some rest[j] := List.getElem?_eq_getElem hj
    have hparent : blockParent items (j + 1) = rest[j].parent := by
      rw [blockParent, ← hparents, hblocks, List.getD_eq_getElem?_getD, List.getElem?_map,
        List.getElem?_cons_succ, hb]
      rfl
    have hconf : st.confAt (j + 1) = rest[j].conf := by
      rw [ConfState.confAt, hblocks, List.getElem?_cons_succ, hb]
      rfl
    obtain ⟨prev, hprev, hmerged⟩ := htable j _ hb
    rw [List.length_singleton, Nat.add_comm] at hmerged
    refine ⟨?_, ?_, ?_⟩
    · rw [ConfState.locations, hblocks]
      simp only [Nat.add_sub_cancel, List.getElem?_tail, hmerged, Option.getD_some]
    · have := hordered j _ hb
      rw [hparent]
      simp only [List.length_singleton] at this
      omega
    · simp only [hparent, hconf, hprev, hmerged, Option.getD_some]

section Merged

variable {items : List Item} {st : ConfState} {table : ℕ → LocConf}

/-- What a merge takes from the block, or else from its parent, comes from the nearest block that
declares it. -/
theorem MergedTable.view_eq (h : MergedTable items st table) {α : Type} (view : LocConf → Option α)
    (decl : ℕ → Option α) (hview : ∀ j, view (st.confAt j) = decl j)
    (hmerge : ∀ prev conf, view (ngxHttpRnMergeLocConf prev conf) = (view conf).or (view prev)) :
    ∀ j < (blockParents items).length, view (table j) = nearest (blockParent items) decl j := by
  refine eq_nearest ?_ ?_
  · intro j hj hnot
    obtain rfl : j = 0 := by
      by_contra hne
      exact hnot (h.merged j (by omega) hj).2.1
    rw [h.http, hview]
  · intro j hj hparent
    obtain ⟨-, -, hentry⟩ := h.merged j (by omega) hj
    rw [hentry, hmerge, hview]

/-- The flag of a block says whether it has rules, and below `http` it is set. -/
theorem MergedTable.enabled (h : MergedTable items st table) (hread : ReadAs items st) :
    ∀ j < (blockParents items).length,
      ((table j).enabled = .on ↔ (table j).rules.isSome) ∧
      (0 < j → (table j).enabled = if (table j).rules.isSome then .on else .off) := by
  intro j
  induction j using Nat.strongRecOn with
  | _ j ih =>
    intro hj
    rcases Nat.eq_zero_or_pos j with rfl | hpos
    · rw [h.http, (hread.mirrors 0).enabled]
      refine ⟨?_, fun h0 => absurd h0 (Nat.lt_irrefl 0)⟩
      split_ifs with hsome <;> simp [hsome]
    · obtain ⟨-, hparent, hentry⟩ := h.merged j hpos hj
      have hflag : (table j).enabled = if (table j).rules.isSome then .on else .off := by
        rw [hentry]
        exact merge_enabled (ih _ hparent (by omega)).1 (hread.mirrors j).enabled
      refine ⟨?_, fun _ => hflag⟩
      rw [hflag]
      split_ifs with hsome <;> simp [hsome]

end Merged

/-- Each `server` and `location` block has, after the merge, the rules, the report and the
label of its nearest ancestor or self that declares them, and its flag says whether there
are rules. -/
theorem nearest_declaration {env : ConfEnv} {items : List Item} {st : ConfState}
    (h : readAll env items = .ok st) (k : ℕ) (hk : 0 < k) (hlt : k < (blockParents items).length) :
    blockParent items k < k ∧ ∃ conf, st.locations[k - 1]? = some conf ∧
      conf.rules = nearest (blockParent items) (declaredRules items) k ∧
      conf.report = nearest (blockParent items) (declaredReport items) k ∧
      conf.label = nearest (blockParent items) (declaredLabel items) k ∧
      conf.enabled =
        if (nearest (blockParent items) (declaredRules items) k).isSome then .on else .off := by
  have hread := readAll_readAs h
  obtain ⟨table, htable⟩ := locations_table hread
  have hrules := htable.view_eq LocConf.rules (declaredRules items)
    (fun j => (hread.mirrors j).rules) fun prev conf => (merge_or prev conf).1
  have hreport := htable.view_eq LocConf.report (declaredReport items)
    (fun j => (hread.mirrors j).report) fun prev conf => (merge_or prev conf).2.1
  have hlabel := htable.view_eq LocConf.label (declaredLabel items)
    (fun j => (hread.mirrors j).label) fun prev conf => (merge_or prev conf).2.2
  obtain ⟨hget, hparent, -⟩ := htable.merged k hk hlt
  refine ⟨hparent, table k, hget, hrules k hlt, hreport k hlt, hlabel k hlt, ?_⟩
  rw [← hrules k hlt]
  exact (htable.enabled hread k hlt).2 hk

/-- A server with a rule, a report and a label, a location in it that turns the report off,
and a location in that one with two labels. -/
def nestedItems : List Item :=
  [.main .zone [ascii "primary", ascii "bucket=primary", ascii "rate=100r/s"],
   .main .tracker [ascii "latency", ascii "service=service:latency"],
   .block 0,
   .loc 1 .rule [ascii "zone=primary"],
   .loc 1 .report [ascii "latency"],
   .loc 1 .label [ascii "outer"],
   .block 1,
   .loc 2 .report [ascii "off"],
   .block 2,
   .loc 3 .label [ascii "first"],
   .loc 3 .label [ascii "last"]]

/-- The innermost location : the server's rule, the suppressed report of the location around
it, and its own last label. -/
theorem nested_nearest : ∃ st conf, readAll sampleEnv nestedItems = .ok st ∧
    st.locations[2]? = some conf ∧ conf.rules = some [⟨.zone, ascii "primary", []⟩] ∧
    conf.report = some none ∧ conf.label = some (ascii "last") ∧ conf.enabled = .on := by
  have hreads : (readAll sampleEnv nestedItems).toOption.isSome = true := by decide +kernel
  rcases hst : readAll sampleEnv nestedItems with e | st
  · rw [hst] at hreads
    cases hreads
  obtain ⟨-, conf, hget, hrules, hreport, hlabel, henabled⟩ :=
    nearest_declaration hst 3 (by decide) (by decide)
  have hlineage : lineage (blockParent nestedItems) 3 = [3, 2, 1, 0] := by
    rw [lineage_of_lt (by decide), lineage_of_lt (by decide), lineage_of_lt (by decide),
      lineage_of_root (by decide)]
    rfl
  simp only [nearest, hlineage] at hrules hreport hlabel henabled
  exact ⟨st, conf, rfl, hget, hrules.trans (by decide +kernel), hreport.trans (by decide +kernel),
    hlabel.trans (by decide +kernel), henabled.trans (by decide +kernel)⟩

end RlNginx
