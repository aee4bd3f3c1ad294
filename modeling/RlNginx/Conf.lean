import RlNginx.Lib.Registry
import RlNginx.Bytes
import RlNginx.Policy

/-!
# Configuration data

The records behind the directives : zones, trackers, guards and groups in the main
configuration, and the rules, report target and label of a location. A complex value is
kept as its template : what it renders to is a function of the template and of the
request.

`rnFindZone`, `rnFindTracker`, `rnFindGuard` and `rnFindGroup` are one search. They
return the definition with its index, which stands for the pointer the code returns.
-/

open Registry

namespace RlNginx

/-- `RN_MAX_BUCKET_LEN`. -/
def rnMaxBucketLen : ℕ := 1024

/-- `RN_MAX_SERVICE_LEN`. -/
def rnMaxServiceLen : ℕ := 1024

/-- `RN_MAX_LABEL_LEN`. -/
def rnMaxLabelLen : ℕ := 256

/-- `rn_zone_t`. -/
structure Zone where
  name : Bytes
  bucketTemplate : Bytes
  rateTemplate : Bytes
  deriving DecidableEq, Repr

/-- `rn_tracker_t`. -/
structure Tracker where
  name : Bytes
  serviceTemplate : Bytes
  ttlMs : ℕ
  maxSamples : ℕ
  minSampleThreshold : ℕ
  deriving DecidableEq, Repr

/-- `rn_guard_t`. -/
structure Guard where
  name : Bytes
  trackerName : Bytes
  thresholdTemplate : Bytes
  deriving DecidableEq, Repr

/-- `rn_group_t`. -/
structure Group where
  name : Bytes
  zones : List Bytes
  deriving DecidableEq, Repr

/-- `rn_policy_kind_t`. -/
inductive PolicyKind where
  | standard
  | singleRound
  | custom
  deriving DecidableEq, Repr

/-- `r_auth_key_info_t`, the fields the module keeps. -/
structure AuthKeyInfo where
  authType : ℕ
  keyId : UInt64
  dedupTtlMsMax : UInt32
  deriving DecidableEq, Repr

/-- Where `mcf->resolver` comes from. -/
inductive ResolverSource where
  | directive (addresses : List Bytes)
  | http
  | system
  deriving DecidableEq, Repr

/-- `rn_main_conf_t` as configuration leaves it. A `NULL` array is the empty one : no code
tells them apart. -/
structure MainConf where
  zones : List Zone
  trackers : List Tracker
  guards : List Guard
  groups : List Group
  tenantDns : Option Bytes
  authKey : Option Bytes
  authKeyInfo : AuthKeyInfo
  requestPolicy : Policy
  requestPolicyKind : PolicyKind
  requestPolicySet : Bool
  failOpen : Bool
  enabled : Bool
  bindAddr : Option Bytes
  resolver : Option ResolverSource
  debug : Bool
  debugSet : Bool
  deriving DecidableEq, Repr

/-- `rn_rule_kind_t`. -/
inductive RuleKind where
  | zone
  | group
  | guardOnly
  deriving DecidableEq, Repr

/-- `rn_rule_ref_t`. -/
structure RuleRef where
  kind : RuleKind
  name : Bytes
  guards : List Bytes
  deriving DecidableEq, Repr

/-- An `ngx_flag_t` of a configuration : `NGX_CONF_UNSET` is `-1`. -/
inductive ConfFlag where
  | unset
  | off
  | on
  deriving DecidableEq, Repr

/-- The flag in a C condition, where `-1` counts as true. -/
def ConfFlag.truthy : ConfFlag → Bool
  | .off => false
  | _ => true

/-- `rn_loc_conf_t`. `rules` is `none` while the array is `NULL`. -/
structure LocConf where
  enabled : ConfFlag
  rules : Option (List RuleRef)
  reportSet : Bool
  reportEnabled : Bool
  reportTrackerName : Bytes
  labelTemplate : Bytes
  labelSet : Bool
  deriving DecidableEq, Repr

/-- `ngx_http_rn_create_loc_conf`. -/
def ngxHttpRnCreateLocConf : LocConf where
  enabled := .unset
  rules := none
  reportSet := false
  reportEnabled := false
  reportTrackerName := []
  labelTemplate := []
  labelSet := false

/-- `admission_enabled` of the request handler. -/
def LocConf.admission (l : LocConf) : Bool :=
  l.enabled.truthy

/-! ## Lookups -/

/-- The loop of the `rn_find_*` functions. -/
def rnFind {α : Type*} (name : α → Bytes) (defs : List α) (key : Bytes) : Option (Ref α) :=
  find (fun d => sameName (name d) key) defs

/-- `rn_find_zone`. -/
def rnFindZone (mcf : MainConf) (key : Bytes) : Option (Ref Zone) :=
  rnFind Zone.name mcf.zones key

/-- `rn_find_tracker`. -/
def rnFindTracker (mcf : MainConf) (key : Bytes) : Option (Ref Tracker) :=
  rnFind Tracker.name mcf.trackers key

/-- `rn_find_guard`. -/
def rnFindGuard (mcf : MainConf) (key : Bytes) : Option (Ref Guard) :=
  rnFind Guard.name mcf.guards key

/-- `rn_find_group`. -/
def rnFindGroup (mcf : MainConf) (key : Bytes) : Option (Ref Group) :=
  rnFind Group.name mcf.groups key

section Find

variable {α : Type*} {name : α → Bytes} {defs : List α} {key : Bytes}

theorem rnFind_append_of_some {r : Ref α} (h : rnFind name defs key = some r) (more : List α) :
    rnFind name (defs ++ more) key = some r :=
  find_append_of_some h more

/-- A lookup that fails says that no definition has the name. -/
theorem rnFind_eq_none_iff : rnFind name defs key = none ↔
    ∀ d ∈ defs, sameName (name d) key = false :=
  find_eq_none_iff

/-- The definition a lookup returns has the name. -/
theorem rnFind_name (hdefs : ∀ d ∈ defs, NulFree (name d)) (hkey : NulFree key) {r : Ref α}
    (h : rnFind name defs key = some r) : defs[r.idx]? = some r.val ∧ name r.val = key := by
  obtain ⟨hget, hsame⟩ := find_spec h
  exact ⟨hget, (sameName_iff (hdefs _ (List.mem_of_getElem? hget)) hkey).mp hsame⟩

end Find

end RlNginx
