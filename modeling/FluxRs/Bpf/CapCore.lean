import FluxRs.Bpf.Packet
import FluxRs.Dataplane.Manager

/-!
# FluxRs.Bpf.CapCore — the egress classifier

`cap_core` of `bpf/flux.bpf.c` with what it calls, over the maps of `bpf/include/flux_abi.h`.  The
counters, the fault latch and the per-UID totals are left out: no verdict reads them.  What the kernel
answers to the helpers is a record of outcomes, and the trie lookup is a parameter.
-/

namespace FluxRs.Bpf

open FluxRs.Lib FluxRs.Net FluxRs.Dataplane
open Std (ExtTreeMap ExtTreeSet)

abbrev U64 := BitVec 64

/-- `FLUX_ABI_MAGIC` and `FLUX_DECISION_MAGIC`. -/
def abiMagic : U32 := 0xf10c0905
def decisionMagic : U32 := 0xd3c15100

/-- `OVERFLOWUID`. -/
def overflowUid : U32 := 65534

/-- `FLUX_CIDR_WHITELIST`. -/
def cidrWhitelist : U16 := 1

/-- `enum flux_decision_mode`. -/
def decDirect : U8 := 1
def decCaptured : U8 := 2

/-- `BPF_TCP_LISTEN`. -/
def bpfTcpListen : ℕ := 10

/-! ### Maps and snapshots -/

/-- `struct flux_control`, the fields the classifier reads; ports in host order. -/
structure FluxControl where
  abiMagic : U32
  active : U32
  generation : U64
  flxrs0Ifindex : U32
  listenPortV4 : U16
  listenPortV6 : U16
  listenV4 : Ipv4Addr
  probeRemoteV4 : Ipv4Addr
  probeRemotePort : U16
  cidrMode : U16
  listenV6 : Ipv6Addr
  probeRemoteV6 : Ipv6Addr
  policyBank : U8
  deriving DecidableEq

/-- One of the two banks of policy maps. -/
structure Bank where
  uidPolicy : ExtTreeMap U32 U8
  bypassV4 : List (Entry Ipv4Addr U8)
  bypassV6 : List (Entry Ipv6Addr U8)
  selfAddrV4 : AddrSet 32
  selfAddrV6 : AddrSet 128

structure Maps where
  bank0 : Bank
  bank1 : Bank

/-- The constant `if` of every policy lookup. -/
def Maps.live (maps : Maps) (c : FluxControl) : Bank := if c.policyBank ≠ 0 then maps.bank1 else maps.bank0

/-- `struct flux_decision`. -/
structure FluxDecision where
  magic : U32
  mode : U8
  reserved : BitVec 24
  generation : U64
  deriving DecidableEq

/-- `ctrl()`: a snapshot of another ABI is no snapshot. -/
def ctrl (root : Option FluxControl) : Option FluxControl :=
  root.filter fun c => c.abiMagic == abiMagic

/-! ### Packets and what the kernel answers -/

structure BpfSock where
  fullsock : Bool
  deriving DecidableEq

/-- `struct __sk_buff`, with `bpf_get_socket_uid`. -/
structure SkBuff where
  protocol : U16
  vlanPresent : Bool
  sk : Option BpfSock
  uid : U32
  bytes : List U8
  deriving DecidableEq

/-- `struct bpf_sock_tuple` of a listener lookup. -/
structure SockTuple where
  remote : Dest
  remotePort : U16
  listen : Dest
  listenPort : U16

/-- The fields of a looked-up `struct bpf_sock`. -/
structure ListenSock where
  state : ℕ
  src : Dest
  srcPort : U32

/-- The outcomes of the helpers during one invocation. -/
structure Helpers where
  /-- The bytes made linear beyond those asked for, unless `bpf_skb_pull_data` fails. -/
  pulled : Option ℕ
  lookup : SockTuple → U8 → Option ListenSock
  /-- `CREATE` returns null: a lost race or a failed allocation. -/
  createNull : Bool
  changeHead : Bool
  storeBytes : Bool
  redirected : Bool

/-- TC actions. -/
inductive Act where
  | unspec
  | shot
  | redirect (ifindex : U32)
  deriving DecidableEq, Repr

section Classifier

variable (lpmLookup : ∀ w, List (Entry (BitVec w) U8) → BitVec w → Option U8)

/-- `pull_headers`: how much of the packet is linear afterwards. -/
def pullHeaders (env : Helpers) (skb : SkBuff) : Option ℕ :=
  env.pulled.map fun extra => min skb.bytes.length (min maxPullBytes skb.bytes.length + extra)

/-- One family of `bypass_hit`. -/
def bypassTag {w : ℕ} (self : AddrSet w) (trie : List (Entry (BitVec w) U8)) (addr : BitVec w) :
    Option U8 :=
  if self.contains addr then none else some ((lpmLookup w trie addr).getD 0)

def bypassHit (bank : Bank) (c : FluxControl) (p : FluxPkt) : Bool :=
  let tag := match p.dest with
    | .v4 addr => bypassTag lpmLookup bank.selfAddrV4 bank.bypassV4 addr
    | .v6 addr => bypassTag lpmLookup bank.selfAddrV6 bank.bypassV6 addr
  match tag with
  | none => true
  | some tag =>
    if tag = BypassTag.reserved.asU8 then true
    else if c.cidrMode = cidrWhitelist then decide (tag = 0)
    else decide (tag ≠ 0)

/-- `listener_lookup`: the fixed remote makes the key the same on every call. -/
def listenerTuple (c : FluxControl) : Dest → SockTuple
  | .v4 _ => ⟨.v4 c.probeRemoteV4, c.probeRemotePort, .v4 c.listenV4, c.listenPortV4⟩
  | .v6 _ => ⟨.v6 c.probeRemoteV6, c.probeRemotePort, .v6 c.listenV6, c.listenPortV6⟩

def listenerGuard (sk : ListenSock) (c : FluxControl) (dest : Dest) (proto : U8) : Bool :=
  if proto = ipprotoTcp ∧ sk.state ≠ bpfTcpListen then false
  else
    let want := listenerTuple c dest
    decide (sk.src = want.listen) && decide (sk.srcPort = want.listenPort.setWidth 32)

def listenerAlive (env : Helpers) (c : FluxControl) (dest : Dest) (proto : U8) : Bool :=
  (env.lookup (listenerTuple c dest) proto).any fun sk => listenerGuard sk c dest proto

def handoff (env : Helpers) (c : FluxControl) (l3 : Bool) : Act :=
  if l3 && !env.changeHead then .shot
  else if l3 && !env.storeBytes then .shot
  else if env.redirected then .redirect c.flxrs0Ifindex
  else .shot

/-- E0 and the socket half of E1. -/
def identified (skb : SkBuff) (l3 : Bool) : Bool :=
  if skb.protocol ≠ ethPIp ∧ skb.protocol ≠ ethPIpv6 then false
  else if !l3 && skb.vlanPresent then false
  else match skb.sk with
    | none => false
    | some sk => sk.fullsock && skb.uid != overflowUid

/-- E2: an existing decision short-circuits everything. -/
def onDecision (env : Helpers) (c : FluxControl) (l3 : Bool) (d : FluxDecision) : Act :=
  if d.magic ≠ decisionMagic ∨ d.reserved ≠ 0 then .shot
  else if d.mode = decDirect then .unspec
  else if d.mode ≠ decCaptured then .shot
  else if c.active = 0 then .shot
  else if d.generation ≠ c.generation then .shot
  else handoff env c l3

/-- The decision that a first SYN proposes. -/
def candidate (bank : Bank) (env : Helpers) (c : FluxControl) (mode : U8) (p : FluxPkt) : FluxDecision :=
  if mode = UidMode.selected.asU8 ∧ c.active ≠ 0 ∧ bypassHit lpmLookup bank c p = false ∧
      listenerAlive env c p.dest ipprotoTcp = true then
    ⟨decisionMagic, decCaptured, 0, c.generation⟩
  else ⟨decisionMagic, decDirect, 0, 0⟩

/-- What a packet without a decision comes to. -/
inductive Undecided where
  | done (act : Act)
  | create (cand : FluxDecision)
  deriving DecidableEq

/-- E3 to E5, up to the creation of a decision. -/
def undecided (bank : Bank) (env : Helpers) (c : FluxControl) (mode : U8) (skb : SkBuff) (l3 : Bool) :
    Undecided :=
  match pullHeaders env skb with
  | none => .done .unspec
  | some head =>
    match parsePkt skb.bytes head skb.protocol (if l3 then 0 else ethHlen) with
    | none => .done .unspec
    | some p =>
      if p.fragment then
        if bypassHit lpmLookup bank c p then .done .unspec
        else if mode = UidMode.selected.asU8 ∧ c.active ≠ 0 then .done .shot
        else .done .unspec
      else if !p.haveL4 then .done .unspec
      else if p.l4proto = ipprotoTcp then
        if !(p.tcpSyn && !p.tcpAck) then .done .unspec
        else .create (candidate lpmLookup bank env c mode p)
      else if mode ≠ UidMode.selected.asU8 then .done .unspec
      else if c.active = 0 then .done .unspec
      else if bypassHit lpmLookup bank c p then .done .unspec
      else if !listenerAlive env c p.dest ipprotoUdp then .done .unspec
      else .done (handoff env c l3)

/-- The winner of the creation is obeyed, even against the candidate. -/
def obeyWinner (env : Helpers) (c : FluxControl) (l3 : Bool) (d : FluxDecision) : Act :=
  if d.mode = decDirect then .unspec
  else if d.mode ≠ decCaptured then .shot
  else if c.active = 0 then .shot
  else if d.generation ≠ c.generation then .shot
  else handoff env c l3

/-- `bpf_sk_storage_get` with `CREATE`: an atomic insert-if-absent, unless it returns null. -/
def createDecision (createNull : Bool) (storage : Option FluxDecision) (cand : FluxDecision) :
    Option FluxDecision × Option FluxDecision :=
  if createNull then (none, storage)
  else match storage with
    | some d => (some d, storage)
    | none => (some cand, some cand)

/-- `cap_core`, run alone: the action and the storage of the socket afterwards. -/
def capCore (maps : Maps) (root : Option FluxControl) (storage : Option FluxDecision) (skb : SkBuff)
    (l3 : Bool) (env : Helpers) : Act × Option FluxDecision :=
  if !identified skb l3 then (.unspec, storage)
  else match ctrl root with
    | none => (.unspec, storage)
    | some c =>
      match (maps.live c).uidPolicy[skb.uid]? with
      | none => (.unspec, storage)
      | some mode =>
        match storage with
        | some d => (onDecision env c l3 d, storage)
        | none =>
          match undecided lpmLookup (maps.live c) env c mode skb l3 with
          | .done act => (act, none)
          | .create cand =>
            let (found, after) := createDecision env.createNull none cand
            match found.or after with
            | none => (.unspec, after)
            | some d => (obeyWinner env c l3 d, after)

end Classifier

end FluxRs.Bpf
