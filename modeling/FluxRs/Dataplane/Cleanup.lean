import FluxRs.Lib.Fallible
import FluxRs.Netlink.Objects

/-!
# FluxRs.Dataplane.Cleanup — removing what Flux has left in the kernel

`cleanup_owned` and `cleanup_plan` of `crates/fluxd/src/dataplane/platform.rs` with the filters of
`attachment.rs`.  The environment says which call fails, what the kernel becomes after a deletion and what others
make of it between the two plans; the detail texts of errors are left out.
-/

namespace FluxRs.Dataplane

open FluxRs.Lib Fallible

def HOST_NAME : String := "flxrs0"

def PEER_NAME : String := "flxrs1"

def HOST_ALIAS : String := "flux-rs:managed:v1:host"

def PEER_ALIAS : String := "flux-rs:managed:v1:peer"

def ROUTE_TABLE : U32 := 20260

def ROUTE_PROTOCOL : U8 := 202

def RULE_PRIORITY : U32 := 100

def TC_PREF_PREFERRED : U16 := 2

def TC_PREF_CLAT_MAX : U16 := 4

def TC_CHAIN : U32 := 0

def TC_HANDLE_EGRESS : U32 := 1

def TC_HANDLE_INGRESS : U32 := 2

def TC_HANDLE_VERIFY : U32 := 3

def PROG_CAP_L2 : String := "flx_cap_l2"

def PROG_CAP_L3 : String := "flx_cap_l3"

def PROG_IN : String := "flx_in"

def PROG_VERIFY : String := "flx_verify"

/-- The names of `PROG_SECTIONS`. -/
def PROG_NAMES : List String := [PROG_CAP_L2, PROG_CAP_L3, PROG_IN, PROG_VERIFY]

def AF_INET : U8 := 2

def AF_INET6 : U8 := 10

def BPF_PROG_TYPE_SCHED_CLS : U32 := 3

def ENOENT : ℤ := 2

def ENODEV : ℤ := 19

/-! ### Ownership -/

inductive CleanupError where
  | new (code : String)
  /-- Code `{operation}:{errno}`. -/
  | io (operation : String) (error : Netlink.IoError)
  /-- `bpf::LoadError::syscall`. -/
  | bpf (stage : String) (error : Netlink.IoError)
  deriving DecidableEq

def linkNamed (snapshot : Netlink.NetworkSnapshot) (name : String) : Option Netlink.Link :=
  snapshot.links.find? fun link => link.name == name

/-- The guard of the exact pair. -/
def exactPair (host peer : Netlink.Link) : Bool :=
  host.kind == some "veth"
    && peer.kind == some "veth"
    && host.ifalias == some HOST_ALIAS
    && peer.ifalias == some PEER_ALIAS
    && host.peerIfindex == some peer.ifindex
    && peer.peerIfindex == some host.ifindex
    && host.masterIfindex.isNone
    && peer.masterIfindex.isNone

def classifyPair (snapshot : Netlink.NetworkSnapshot) : Except CleanupError (Option (Netlink.Link × Netlink.Link)) :=
  match linkNamed snapshot HOST_NAME, linkNamed snapshot PEER_NAME with
  | none, none => .ok none
  | some host, some peer =>
    if exactPair host peer then .ok (some (host, peer))
    else if host.ifalias ≠ some HOST_ALIAS then .error (.new "veth_conflict:flxrs0 alias mismatch")
    else if peer.ifalias ≠ some PEER_ALIAS then .error (.new "veth_conflict:flxrs1 alias mismatch")
    else .error (.new "veth_conflict:layout mismatch")
  | some host, none =>
    if host.ifalias ≠ some HOST_ALIAS then .error (.new "veth_conflict:flxrs0 alias mismatch")
    else .error (.new "veth_conflict:layout mismatch")
  | none, some peer =>
    if peer.ifalias ≠ some PEER_ALIAS then .error (.new "veth_conflict:flxrs1 alias mismatch")
    else .error (.new "veth_conflict:layout mismatch")

def isOwnedRule (rule : Netlink.Rule) : Bool :=
  (rule.family == AF_INET || rule.family == AF_INET6)
    && rule.dstLen == 0
    && rule.srcLen == 0
    && rule.table == ROUTE_TABLE
    && rule.action == 1
    && rule.priority == some RULE_PRIORITY
    && rule.iifName == some PEER_NAME
    && rule.suppressPrefixLen == some 0xffffffff
    && rule.protocol == some 0
    && !rule.extraAttrs

def isOwnedRoute (route : Netlink.Route) (loIfindex : U32) : Bool :=
  (route.family == AF_INET || route.family == AF_INET6)
    && route.dstLen == 0
    && route.table == ROUTE_TABLE
    && route.protocol == ROUTE_PROTOCOL
    && route.kind == 2
    && route.oif == some loIfindex
    && !route.hasDst
    && (if route.family == AF_INET then
        route.scope == 254 && route.metric.isNone && route.preference.isNone
      else
        route.family == AF_INET6 && route.scope == 0 && route.metric == some 1024 && route.preference == some 0)
    && !route.extraAttrs

/-- `str::starts_with`. -/
def startsWith (name stem : String) : Bool := stem.toList.isPrefixOf name.toList

def excludedKind (kind : Option String) : Bool :=
  kind.any fun kind => ["tun", "tap", "bridge", "bond", "veth", "dummy", "team", "ifb", "vlan", "vrf", "wireguard",
    "ipip", "sit", "gre", "gretap", "erspan"].contains kind

def isClatLink (link : Netlink.Link) : Bool :=
  startsWith link.name "v4-" && link.arphrd == 0xfffe && link.kind == some "tun"

def expectedStaleFilter (link : Netlink.Link) (peerIfindex : Option U32) (parent : U32) (filter : Netlink.Filter)
    (name : String) : Bool :=
  if parent == Netlink.TC_H_INGRESS then
    peerIfindex == some link.ifindex
      && name == PROG_IN
      && filter.chain == TC_CHAIN
      && filter.priority == 1
      && filter.protocol == Netlink.ETH_P_ALL
      && filter.handle == TC_HANDLE_INGRESS
  else if parent != Netlink.TC_H_EGRESS
      || link.masterIfindex.isSome
      || (excludedKind link.kind && !isClatLink link)
      || filter.chain != TC_CHAIN
      || decide (filter.priority < TC_PREF_PREFERRED)
      || (startsWith link.name "v4-" && decide (TC_PREF_CLAT_MAX ≤ filter.priority)) then false
  else if name == PROG_VERIFY then filter.handle == TC_HANDLE_VERIFY && filter.protocol == Netlink.ETH_P_ALL
  else if name == PROG_CAP_L2 then
    link.arphrd == 1 && filter.handle == TC_HANDLE_EGRESS && filter.protocol == Netlink.ETH_P_ALL
  else if name == PROG_CAP_L3 then
    (link.arphrd == 519 || isClatLink link)
      && filter.handle == TC_HANDLE_EGRESS
      && filter.protocol == if startsWith link.name "v4-" then 0x0800 else Netlink.ETH_P_ALL
  else false

def exactClsact (qdisc : Netlink.Qdisc) (ifindex : U32) : Bool :=
  qdisc.ifindex == ifindex
    && qdisc.handle == Netlink.TC_CLSACT_HANDLE
    && qdisc.parent == Netlink.TC_H_CLSACT
    && qdisc.kind == some "clsact"
    && !qdisc.optionsNonempty
    && !qdisc.ingressBlock
    && !qdisc.egressBlock
    && !qdisc.unknownAttrs
    && !qdisc.duplicateAttrs

/-- `sorted_names`. -/
def sortedNames (names : List String) : List String := names.mergeSort fun a b => decide (a ≤ b)

def expectedProgramMaps (name : String) : List String :=
  if name == PROG_CAP_L2 || name == PROG_CAP_L3 then
    sortedNames ["uid_policy_0", "uid_policy_1", "bypass_v4_0", "bypass_v4_1", "bypass_v6_0", "bypass_v6_1",
      "self_addr_v4_0", "self_addr_v4_1", "self_addr_v6_0", "self_addr_v6_1", "uid_stats", "tcp_decision",
      "control_root", "fault_latch", "fault_events", "counters"]
  else if name == PROG_IN then sortedNames ["control_root", "fault_latch", "fault_events", "counters"]
  else if name == PROG_VERIFY then sortedNames ["counters"]
  else []

/-- The names that `program_maps` returns. -/
def programMaps (program : Netlink.Program) : List String := sortedNames (program.maps.dedup.map Netlink.MapInfo.name)

/-! ### Calls -/

/-- Less the names of lower filters, which the cleanup leaves empty. -/
structure OwnedFilter where
  ifname : String
  identity : Netlink.FilterIdentity
  deriving DecidableEq

structure Session where
  kernel : Netlink.Kernel
  /-- The calls made so far. -/
  calls : ℕ
  /-- The deletions sent so far. -/
  sent : List Netlink.Deletion
  attached : List OwnedFilter

/-- The environment: the error of each call that fails, what the kernel answers to a deletion, and what others make
of the kernel between the two plans. -/
structure Answers where
  fault : ℕ → Option Netlink.IoError
  meanwhile : Netlink.Kernel → Netlink.Kernel
  delete : ℕ → Netlink.Kernel → Netlink.Deletion → Except Netlink.IoError Netlink.Kernel

abbrev Act := Fallible CleanupError Session

variable (answers : Answers)

/-- A call that reads. -/
def call {α : Type} (f : Netlink.Kernel → α) : Act (Except Netlink.IoError α) := fun s =>
  match answers.fault s.calls with
  | some error => (.ok (.error error), { s with calls := s.calls + 1 })
  | none => (.ok (.ok (f s.kernel)), { s with calls := s.calls + 1 })

/-- A deletion. -/
def send (request : Netlink.Deletion) : Act (Except Netlink.IoError Unit) := fun s =>
  let s' := { s with calls := s.calls + 1, sent := s.sent ++ [request] }
  match answers.delete s.calls s.kernel request with
  | .ok kernel => (.ok (.ok ()), { s' with kernel })
  | .error error => (.ok (.error error), s')

/-- `result.map_err(f)?`. -/
def mapErr {α : Type} (f : Netlink.IoError → CleanupError) : Except Netlink.IoError α → Act α
  | .ok a => pure a
  | .error error => fail (f error)

/-- `result?`. -/
def orFail {α : Type} : Except CleanupError α → Act α
  | .ok a => pure a
  | .error error => fail error

def ignoreAbsent : Except Netlink.IoError Unit → Except Netlink.IoError Unit
  | .error error => if error.rawOsError = some ENOENT then .ok () else .error error
  | .ok () => .ok ()

/-- `attached_program_owned` after the program was found. -/
def programMatches (program : Netlink.Program) (id : U32) (name : String) (tag : List U8) : Act Bool := do
  let info ← mapErr (.bpf "prog_info") (← call answers fun _ => program)
  if info.programType ≠ BPF_PROG_TYPE_SCHED_CLS ∨ info.id ≠ id ∨ info.name ≠ name ∨ info.tag ≠ tag then
    pure false
  else do
    let names ← mapErr (.bpf "prog_map_info") (← call answers fun _ => programMaps program)
    pure (names == expectedProgramMaps name)

def attachedProgramOwned (id : U32) (name : String) (tag : List U8) : Act Bool :=
  if name ∉ PROG_NAMES then pure false
  else do
    let found ← call answers fun k => k.programs.find? fun program => program.id == id
    match found with
    | .ok (some program) => programMatches answers program id name tag
    | .ok none => pure false
    | .error error => if error.rawOsError = some ENOENT then pure false else fail (.bpf "prog_id_recheck" error)

/-! ### The plan -/

structure CleanupPlan where
  tcFilters : List OwnedFilter
  hostIfindex : Option U32
  loIfindex : U32
  ruleFamilies : List U8
  routeFamilies : List U8
  deriving DecidableEq

def tcFilterConflict (link : Netlink.Link) : CleanupError := .new ("tc_filter_conflict:" ++ link.name)

/-- `filter.prog_name.as_deref().unwrap_or_default()`. -/
def filterName (filter : Netlink.Filter) : String := filter.progName.getD ""

def fixedIngressSlot (parent : U32) (filter : Netlink.Filter) : Bool :=
  parent == Netlink.TC_H_INGRESS
    && filter.chain == TC_CHAIN
    && filter.priority == 1
    && filter.protocol == Netlink.ETH_P_ALL
    && filter.handle == TC_HANDLE_INGRESS

/-- The identity that the plan writes down, if the filter tells its program. -/
def identityOf (link : Netlink.Link) (parent : U32) (filter : Netlink.Filter) : Option Netlink.FilterIdentity := do
  let progId ← filter.progId
  let progTag ← filter.progTag
  let flagsGen ← filter.flagsGen
  pure {
    ifindex := link.ifindex
    parent
    handle := filter.handle
    chain := TC_CHAIN
    priority := filter.priority
    protocol := filter.protocol
    progId
    progTag
    progName := filterName filter
    flagsGen }

/-- A filter that is reserved, by its name or its slot. -/
def planReserved (link : Netlink.Link) (peerIfindex : Option U32) (qdiscOwned : Bool) (parent : U32)
    (filter : Netlink.Filter) : Act (List OwnedFilter) :=
  match identityOf link parent filter with
  | none => fail (tcFilterConflict link)
  | some identity =>
    if !(qdiscOwned && expectedStaleFilter link peerIfindex parent filter (filterName filter))
        || !identity.matchesFilter filter then fail (tcFilterConflict link)
    else do
      if ← attachedProgramOwned answers identity.progId (filterName filter) identity.progTag then
        pure [⟨link.name, identity⟩]
      else fail (tcFilterConflict link)

def reservedFilter (parent : U32) (filter : Netlink.Filter) : Bool :=
  startsWith (filterName filter) "flx_" || fixedIngressSlot parent filter

def planFilter (link : Netlink.Link) (peerIfindex : Option U32) (qdiscOwned : Bool) (parent : U32)
    (filter : Netlink.Filter) : Act (List OwnedFilter) :=
  if reservedFilter parent filter then planReserved answers link peerIfindex qdiscOwned parent filter else pure []

def parentsOf (link : Netlink.Link) (peerIfindex : Option U32) : List U32 :=
  (if peerIfindex = some link.ifindex then [Netlink.TC_H_INGRESS] else []) ++
    if link.name ≠ HOST_NAME ∧ link.name ≠ PEER_NAME ∧ link.name ≠ "lo" then [Netlink.TC_H_EGRESS] else []

def planParent (link : Netlink.Link) (peerIfindex : Option U32) (qdiscOwned : Bool) (parent : U32) :
    Act (List OwnedFilter) := do
  let filters ← mapErr (.io "tc_dump_failed") (← call answers fun k => k.dumpFilters link.ifindex parent)
  collect (planFilter answers link peerIfindex qdiscOwned parent) filters

/-- The link's `clsact`. -/
def clsactOf (snapshot : Netlink.NetworkSnapshot) (link : Netlink.Link) : Option Netlink.Qdisc :=
  snapshot.qdiscs.find? fun qdisc => qdisc.ifindex == link.ifindex && qdisc.kind == some "clsact"

def planLink (snapshot : Netlink.NetworkSnapshot) (peerIfindex : Option U32) (link : Netlink.Link) :
    Act (List OwnedFilter) :=
  match clsactOf snapshot link with
  | none => pure []
  | some qdisc =>
    collect (planParent answers link peerIfindex (exactClsact qdisc link.ifindex)) (parentsOf link peerIfindex)

/-- The order of `sort_by`. -/
def OwnedFilter.before (left right : OwnedFilter) : Bool :=
  compareLex (compareOn fun o => o.identity.ifindex.toNat)
    (compareLex (compareOn fun o => o.identity.parent.toNat)
      (compareLex (compareOn fun o => o.identity.priority.toNat)
        (compareLex (compareOn fun o => o.identity.protocol.toNat)
          (compareLex (compareOn fun o => o.identity.handle.toNat)
            (compareOn fun o => o.identity.progId.toNat))))) left right != .gt

def tcCleanupPlan (snapshot : Netlink.NetworkSnapshot) (peerIfindex : Option U32) : Act (List OwnedFilter) := do
  let owned ← collect (planLink answers snapshot peerIfindex) snapshot.links
  pure (owned.mergeSort OwnedFilter.before)

/-- The families of the objects of a reserved slot, sorted, each once. -/
def ownedFamilies {α : Type} (owned : α → Bool) (family : α → U8) (conflict : CleanupError) :
    List α → Except CleanupError (List U8)
  | [] => .ok []
  | object :: objects =>
    if owned object then (ownedFamilies owned family conflict objects).map (family object :: ·) else .error conflict

/-- `sort_unstable` and `dedup`. -/
def sortedFamilies (families : List U8) : List U8 := (families.mergeSort fun a b => decide (a ≤ b)).dedup

def ruleFamilies (snapshot : Netlink.NetworkSnapshot) : Except CleanupError (List U8) :=
  ownedFamilies isOwnedRule Netlink.Rule.family (.new "rule_conflict:priority 100 occupied")
    (snapshot.rules.filter fun rule => rule.priority == some RULE_PRIORITY)

def routeFamilies (snapshot : Netlink.NetworkSnapshot) (loIfindex : U32) : Except CleanupError (List U8) :=
  ownedFamilies (isOwnedRoute · loIfindex) Netlink.Route.family (.new "route_table_conflict:20260")
    (snapshot.routes.filter fun route => route.table == ROUTE_TABLE)

def cleanupPlan : Act CleanupPlan := do
  let snapshot ← mapErr (.io "rtnetlink_dump") (← call answers Netlink.Kernel.snapshot)
  let lo ← orFail ((linkNamed snapshot "lo").elim (.error (.new "loopback_missing")) .ok)
  let pair ← orFail (classifyPair snapshot)
  let tcFilters ← tcCleanupPlan answers snapshot (pair.map fun pair => pair.2.ifindex)
  let rules ← orFail (ruleFamilies snapshot)
  let routes ← orFail (routeFamilies snapshot lo.ifindex)
  pure ⟨tcFilters, pair.map fun pair => pair.1.ifindex, lo.ifindex, sortedFamilies rules, sortedFamilies routes⟩

/-! ### The deletions -/

/-- What a dump of a recorded parent says; `none` where the interface is gone. -/
def recordedParent : Except Netlink.IoError (List Netlink.Filter) → Act (Option (List Netlink.Filter))
  | .ok filters => pure (some filters)
  | .error error =>
    if error.rawOsError = some ENODEV ∨ error.rawOsError = some ENOENT then pure none
    else fail (.io "tc_dump_failed" error)

def dumpRecordedParent (owned : OwnedFilter) : Act (Option (List Netlink.Filter)) := do
  recordedParent (← call answers fun k => k.dumpFilters owned.identity.ifindex owned.identity.parent)

/-- The request of `detach_filter`. -/
def detachRequest (identity : Netlink.FilterIdentity) : Netlink.Deletion :=
  .filter identity.ifindex identity.parent identity.handle identity.chain identity.priority identity.protocol

/-- `detach_identity` after the record was found twice. -/
def detachFound (owned : OwnedFilter) : Act Unit := do
  -- a filter that matches has the id, the name and the tag of the record
  if ← attachedProgramOwned answers owned.identity.progId owned.identity.progName owned.identity.progTag then do
    let index ← call answers fun k => (k.links.find? fun link => link.name == owned.ifname).map Netlink.Link.ifindex
    if index = .ok (some owned.identity.ifindex) then
      mapErr (.io "tc_detach_failed") (← send answers (detachRequest owned.identity))
    else fail (.new "tc_filter:ESTALE")
  else fail (.new "tc_filter:ESTALE")

def detachIdentity (owned : OwnedFilter) : Act Unit := do
  match ← dumpRecordedParent answers owned with
  | none => pure ()
  | some first => do
    match ← dumpRecordedParent answers owned with
    | none => pure ()
    | some second =>
      if first ≠ second then fail (.new "tc_filter:ESTALE")
      else if second.any owned.identity.matchesFilter then detachFound answers owned
      else pure ()

def deleteRule (family : U8) : Act Unit := do
  mapErr (.io "rule_delete") (ignoreAbsent (← send answers (.rule family RULE_PRIORITY ROUTE_TABLE PEER_NAME)))

def deleteLocalRoute (loIfindex : U32) (family : U8) : Act Unit := do
  mapErr (.io "route_delete")
    (ignoreAbsent (← send answers (.route family ROUTE_TABLE ROUTE_PROTOCOL loIfindex)))

def deleteLink (ifindex : U32) : Act Unit := do
  mapErr (.io "veth_delete") (ignoreAbsent (← send answers (.link ifindex)))

def cleanupOwned : Act Unit := do
  let first ← cleanupPlan answers
  update fun s => { s with kernel := answers.meanwhile s.kernel }
  let second ← cleanupPlan answers
  if first ≠ second then fail (.new "network_snapshot_stale")
  else do
    each (detachIdentity answers) second.tcFilters
    each (deleteRule answers) second.ruleFamilies
    each (deleteLocalRoute answers second.loIfindex) second.routeFamilies
    each (deleteLink answers) second.hostIfindex.toList
    update fun s => { s with attached := [] }

end FluxRs.Dataplane
