import Mathlib.Data.List.Nodup
import Mathlib.Tactic.Tauto
import FluxRs.Lib.Bytes
import FluxRs.Netlink.Wire

/-!
# FluxRs.Netlink.Objects — what the routing socket dumps and deletes

The records of `crates/fluxd/src/netlink/route.rs` and its four deletions.  A deletion carries a few fields only;
`Deletion.Names` says which objects of the kernel it may mean.  Attributes that no predicate of the cleanup reads
(flags, MTU and hardware address of a link, the kinds of extra attributes) are left out.
-/

namespace FluxRs.Netlink

open FluxRs.Lib

structure Link where
  ifindex : U32
  name : String
  ifalias : Option String
  kind : Option String
  peerIfindex : Option U32
  masterIfindex : Option U32
  arphrd : U16
  deriving DecidableEq

structure Route where
  family : U8
  dstLen : U8
  table : U32
  protocol : U8
  scope : U8
  kind : U8
  oif : Option U32
  hasDst : Bool
  metric : Option U32
  preference : Option U8
  extraAttrs : Bool
  deriving DecidableEq

structure Rule where
  family : U8
  dstLen : U8
  srcLen : U8
  table : U32
  action : U8
  priority : Option U32
  iifName : Option String
  suppressPrefixLen : Option U32
  protocol : Option U8
  extraAttrs : Bool
  deriving DecidableEq

structure Qdisc where
  ifindex : U32
  handle : U32
  parent : U32
  kind : Option String
  optionsNonempty : Bool
  ingressBlock : Bool
  egressBlock : Bool
  unknownAttrs : Bool
  duplicateAttrs : Bool
  deriving DecidableEq

structure Filter where
  ifindex : U32
  parent : U32
  handle : U32
  chain : U32
  priority : U16
  protocol : U16
  kind : Option String
  directAction : Bool
  bpfFlags : Option U32
  progId : Option U32
  progTag : Option (List U8)
  progName : Option String
  flagsGen : Option U32
  unknownAttrs : Bool
  duplicateAttrs : Bool
  deriving DecidableEq

structure FilterIdentity where
  ifindex : U32
  parent : U32
  handle : U32
  chain : U32
  priority : U16
  protocol : U16
  progId : U32
  progTag : List U8
  progName : String
  flagsGen : U32
  deriving DecidableEq

def TCA_BPF_FLAG_ACT_DIRECT : U32 := 1

def TC_H_CLSACT : U32 := 0xfffffff1

def TC_H_INGRESS : U32 := 0xfffffff2

def TC_H_EGRESS : U32 := 0xfffffff3

def TC_CLSACT_HANDLE : U32 := 0xffff0000

def ETH_P_ALL : U16 := 0x0003

def FilterIdentity.matchesFilter (identity : FilterIdentity) (filter : Filter) : Bool :=
  !filter.unknownAttrs
    && !filter.duplicateAttrs
    && filter.ifindex == identity.ifindex
    && filter.parent == identity.parent
    && filter.handle == identity.handle
    && filter.chain == identity.chain
    && filter.priority == identity.priority
    && filter.protocol == identity.protocol
    && filter.kind == some "bpf"
    && filter.directAction
    && filter.bpfFlags == some TCA_BPF_FLAG_ACT_DIRECT
    && filter.flagsGen == some identity.flagsGen
    && filter.progId == some identity.progId
    && filter.progTag == some identity.progTag
    && filter.progName == some identity.progName

/-! ### The kernel -/

/-- What tells the filters of a kernel apart. -/
def Filter.key (filter : Filter) : U32 × U32 × U32 × U16 × U16 × U32 :=
  (filter.ifindex, filter.parent, filter.chain, filter.priority, filter.protocol, filter.handle)

structure MapInfo where
  id : U32
  name : String
  deriving DecidableEq

/-- A loaded program, as `program_info` and `program_map_ids` tell it. -/
structure Program where
  id : U32
  programType : U32
  name : String
  tag : List U8
  maps : List MapInfo
  deriving DecidableEq

/-- The objects of one network namespace and the loaded programs. -/
structure Kernel where
  links : List Link
  routes : List Route
  rules : List Rule
  qdiscs : List Qdisc
  filters : List Filter
  programs : List Program
  ifindex_nodup : (links.map Link.ifindex).Nodup
  name_nodup : (links.map Link.name).Nodup
  filter_nodup : (filters.map Filter.key).Nodup

/-- `NetworkSnapshot`, less the addresses. -/
structure NetworkSnapshot where
  links : List Link
  routes : List Route
  rules : List Rule
  qdiscs : List Qdisc

def Kernel.snapshot (k : Kernel) : NetworkSnapshot := ⟨k.links, k.routes, k.rules, k.qdiscs⟩

def Kernel.dumpFilters (k : Kernel) (ifindex parent : U32) : List Filter :=
  k.filters.filter fun filter => filter.ifindex == ifindex && filter.parent == parent

/-! ### Deletions -/

inductive Deletion where
  /-- `detach_filter`. -/
  | filter (ifindex parent handle chain : U32) (priority protocol : U16)
  /-- `delete_rule`. -/
  | rule (family : U8) (priority table : U32) (iif : String)
  /-- `delete_local_route`. -/
  | route (family : U8) (table : U32) (protocol : U8) (loIfindex : U32)
  /-- `delete_link`. -/
  | link (ifindex : U32)
  deriving DecidableEq

inductive Object where
  | link (link : Link)
  | route (route : Route)
  | rule (rule : Rule)
  | qdisc (qdisc : Qdisc)
  | filter (filter : Filter)

def Kernel.Has (k : Kernel) : Object → Prop
  | .link link => link ∈ k.links
  | .route route => route ∈ k.routes
  | .rule rule => rule ∈ k.rules
  | .qdisc qdisc => qdisc ∈ k.qdiscs
  | .filter filter => filter ∈ k.filters

/-- The objects that a deletion may mean: those with the values it carries.  No handle or no priority means every
filter there is, and an end of a virtual pair takes the other end along. -/
def Deletion.Names (k : Kernel) : Deletion → Object → Prop
  | .filter ifindex parent handle chain priority protocol, .filter f =>
    f.ifindex = ifindex ∧ f.parent = parent ∧ f.chain = chain ∧ (priority = 0 ∨ f.priority = priority) ∧
      f.protocol = protocol ∧ (handle = 0 ∨ f.handle = handle)
  | .rule family priority table iif, .rule r =>
    r.family = family ∧ r.priority = some priority ∧ r.table = table ∧ r.iifName = some iif
  | .route family table protocol loIfindex, .route r =>
    r.family = family ∧ r.table = table ∧ r.protocol = protocol ∧ r.oif = some loIfindex
  | .link ifindex, .link l =>
    l.ifindex = ifindex ∨ ∃ h ∈ k.links, h.ifindex = ifindex ∧ h.kind = some "veth" ∧ h.peerIfindex = some l.ifindex
  | _, _ => False

theorem Kernel.link_of_ifindex {k : Kernel} {l l' : Link} (hl : l ∈ k.links) (hl' : l' ∈ k.links)
    (h : l.ifindex = l'.ifindex) : l = l' := List.inj_on_of_nodup_map k.ifindex_nodup hl hl' h

theorem Kernel.link_of_name {k : Kernel} {l l' : Link} (hl : l ∈ k.links) (hl' : l' ∈ k.links)
    (h : l.name = l'.name) : l = l' := List.inj_on_of_nodup_map k.name_nodup hl hl' h

theorem Kernel.filter_of_key {k : Kernel} {f f' : Filter} (hf : f ∈ k.filters) (hf' : f' ∈ k.filters)
    (h : f.key = f'.key) : f = f' := List.inj_on_of_nodup_map k.filter_nodup hf hf' h

theorem Kernel.mem_dumpFilters {k : Kernel} {ifindex parent : U32} {f : Filter} :
    f ∈ k.dumpFilters ifindex parent ↔ f ∈ k.filters ∧ f.ifindex = ifindex ∧ f.parent = parent := by
  rw [Kernel.dumpFilters, List.mem_filter, Bool.and_eq_true, beq_iff_eq, beq_iff_eq]

def FilterIdentity.key (identity : FilterIdentity) : U32 × U32 × U32 × U16 × U16 × U32 :=
  (identity.ifindex, identity.parent, identity.chain, identity.priority, identity.protocol, identity.handle)

theorem FilterIdentity.key_of_matches {identity : FilterIdentity} {f : Filter} (h : identity.matchesFilter f = true) :
    f.key = identity.key := by
  simp only [FilterIdentity.matchesFilter, Bool.and_eq_true, beq_iff_eq] at h
  simp only [Filter.key, FilterIdentity.key, Prod.mk.injEq]
  tauto

end FluxRs.Netlink
