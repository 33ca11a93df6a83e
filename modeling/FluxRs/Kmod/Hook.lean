import FluxRs.Kmod.Bypass

/-!
# FluxRs.Kmod.Hook — the LOCAL_OUT hook, its UID table and its steal queue

`kmod/fluxrs_hook.c` and `kmod/fluxrs_ctl.c` at the product stage (6): what each control operation
publishes, how a packet is classified, and what the worker does with a stolen one.  The counters of
`GET_STATUS` are left out; allocation outcomes and the `nf_tproxy` lookups are parameters.
-/

namespace FluxRs.Kmod

open FluxRs.Lib FluxRs.Net

/-- `FLUXRS_OVERFLOWUID`. -/
def overflowUid : U32 := 65534

/-- `FLUXRS_STEAL_QMAX`. -/
def stealQMax : ℕ := 4096

def ipprotoTcp : U8 := 6

def ipprotoUdp : U8 := 17

/-! ### Packets -/

/-- The owner of a packet. -/
structure Sock where
  id : ℕ
  fullsock : Bool
  uid : U32
  deriving DecidableEq, Repr

/-- IPv6 extension headers that may precede the upper-layer header. -/
inductive ExtHdr where
  | hopByHop
  | routing
  | fragment
  | auth
  | destOpts
  | mobility
  deriving DecidableEq, Repr

def ExtHdr.proto : ExtHdr → U8
  | .hopByHop => 0
  | .routing => 43
  | .fragment => 44
  | .auth => 51
  | .destOpts => 60
  | .mobility => 135

/-- The network layer of a packet: the destination and what carries the transport protocol. -/
inductive Ip where
  | v4 (daddr : Ipv4Addr) (protocol : U8)
  | v6 (daddr : Ipv6Addr) (exts : List ExtHdr) (upper : U8)
  deriving DecidableEq, Repr

namespace Ip

def dest : Ip → Dest
  | .v4 daddr _ => .v4 daddr
  | .v6 daddr _ _ => .v6 daddr

/-- The transport protocol behind any extension headers. -/
def transport : Ip → U8
  | .v4 _ protocol => protocol
  | .v6 _ _ upper => upper

def exts : Ip → List ExtHdr
  | .v4 _ _ => []
  | .v6 _ exts _ => exts

/-- `ip_hdr(skb)->protocol`, or `ipv6_hdr(skb)->nexthdr`: the first header of the chain. -/
def headerProto : Ip → U8
  | .v4 _ protocol => protocol
  | .v6 _ [] upper => upper
  | .v6 _ (h :: _) _ => h.proto

end Ip

structure Skb where
  sk : Option Sock
  ip : Ip
  deriving DecidableEq, Repr

/-! ### The module's state -/

/-- `struct fluxrs_listeners`; addresses and ports as the raw network-order fields. -/
structure Listeners where
  v4Addr : U32
  v4Port : U16
  v6Addr : List U8
  v6Port : U16
  deriving DecidableEq, Repr

def Listeners.zero : Listeners := ⟨0, 0, List.replicate 16 0, 0⟩

/-- The statics of the loaded module. -/
structure Kernel where
  live : Bool
  symReady : Bool
  uidSorted : List U32
  uidN : ℕ
  listeners : Listeners
  listenersSet : Bool
  bypassLive : Option FluxrsSet
  stealQ : List Skb
  deriving DecidableEq

namespace Kernel

/-- `fluxrs_init`: zeroed statics; the symbols resolve or they do not. -/
def init (symReady : Bool) : Kernel where
  live := false
  symReady := symReady
  uidSorted := List.replicate uidSlotMax 0
  uidN := 0
  listeners := .zero
  listenersSet := false
  bypassLive := none
  stealQ := []

/-- `fluxrs_set_live`, from opening and closing the control node. -/
def setLive (k : Kernel) (on : Bool) : Kernel :=
  if on then { k with live := true }
  else { k with live := false, listenersSet := false, listeners := .zero, uidN := 0, stealQ := [] }

/-- Nobody holds the control node. -/
structure Closed (k : Kernel) : Prop where
  live : k.live = false
  uidN : k.uidN = 0
  listenersSet : k.listenersSet = false

def setListeners (k : Kernel) (l : Listeners) : Kernel :=
  { k with listeners := l, listenersSet := l.v4Port != 0 || l.v6Port != 0 }

def clearUids (k : Kernel) : Kernel := { k with uidN := 0 }

/-- The pointer swap at the end of `fluxrs_set_bypass`. -/
def setBypass (k : Kernel) (s : FluxrsSet) : Kernel := { k with bypassLive := some s }

end Kernel

/-- `struct fluxrs_uids`. -/
structure Uids where
  count : U32
  uids : List U32

/-- The body `LoadedModule::set_uids` submits: the slots after the last UID are zero. -/
def uidsBody (uids : List U32) : Uids where
  count := BitVec.ofNat 32 uids.length
  uids := uids ++ List.replicate (uidSlotMax - uids.length) 0

section SetUids

variable (srt : Sorter)

/-- The table `fluxrs_set_uids` builds in `tmp`. -/
def uidTable (u : Uids) : List U32 :=
  let tmp := (u.uids.take u.count.toNat).filter fun uid => !(uid == 0 || uid == overflowUid)
  let sorted := if 1 < tmp.length then srt.sort cmpKey tmp else tmp
  if 1 < tmp.length then uniqueKey sorted else sorted

/-- The checks of `fluxrs_set_uids` before anything is published. -/
def setUidsTable (alloc : Bool) (u : Uids) : Except Errno (List U32) :=
  if uidSlotMax < u.count.toNat then .error .EINVAL
  else if !alloc then .error .ENOMEM
  else .ok (uidTable srt u)

/-- What a packet can see while a table is published: no UID, the copied table, the table. -/
def publishUids (k : Kernel) (table : List U32) : List Kernel :=
  let zero := { k with uidN := 0 }
  let copied := { zero with uidSorted := table ++ k.uidSorted.drop table.length }
  [zero, copied, { copied with uidN := table.length }]

def Kernel.setUids (k : Kernel) (table : List U32) : Kernel :=
  { k with uidSorted := table ++ k.uidSorted.drop table.length, uidN := table.length }

end SetUids

/-! ### Classification -/

section Classify

variable (e : Endian)

def uidSelected (k : Kernel) (uid : U32) : Bool :=
  if uid == 0 || uid == overflowUid then false
  else (bsearch (fun i => k.uidSorted.getD i 0) uid k.uidN 0 k.uidN).isSome

/-- `fluxrs_reserved_dest`. -/
def reservedDest (l : Listeners) : Dest → Bool
  | .v4 daddr =>
    let raw := e.load (octets daddr)
    let a := e.ntohl raw
    (l.v4Port != 0 && raw == l.v4Addr)
      || (a &&& 0xff000000#32 == 0x00000000#32)
      || (a &&& 0xff000000#32 == 0x0a000000#32)
      || (a &&& 0xff000000#32 == 0x7f000000#32)
      || (a &&& 0xffff0000#32 == 0xa9fe0000#32)
      || (a &&& 0xfff00000#32 == 0xac100000#32)
      || (a &&& 0xffff0000#32 == 0xc0a80000#32)
      || (a &&& 0xf0000000#32 == 0xe0000000#32)
      || (a == 0xffffffff#32)
      || (a == 0xc6336401#32)
  | .v6 daddr =>
    let d := octets daddr
    let w0 := e.ntohl (e.load (structAt 4 d 0))
    let w1 := e.ntohl (e.load (structAt 4 d 1))
    let w2 := e.ntohl (e.load (structAt 4 d 2))
    let w3 := e.ntohl (e.load (structAt 4 d 3))
    (l.v6Port != 0 && d == l.v6Addr)
      || (w0 == 0 && w1 == 0 && w2 == 0 && (w3 == 0 || w3 == 1))
      || (w0 &&& 0xfe000000#32 == 0xfc000000#32)
      || (w0 &&& 0xffc00000#32 == 0xfe800000#32)
      || (w0 &&& 0xff000000#32 == 0xff000000#32)
      || (w0 == 0x20010db8#32 && w1 == 0x00000001#32 && w2 == 0 && w3 == 2)

/-- `fluxrs_policy_direct`. -/
def policyDirect (k : Kernel) (dest : Dest) : Bool := setDirect e k.bypassLive dest

def protoStealable (proto : U8) : Bool := proto == ipprotoTcp || proto == ipprotoUdp

inductive Verdict where
  | accept
  | stolen
  deriving DecidableEq, Repr

/-- The tests of `fluxrs_local_out`, in their order. -/
def steals (k : Kernel) (skb : Skb) : Bool :=
  if !k.live then false
  else match skb.sk with
    | none => false
    | some sk =>
      if !sk.fullsock then false
      else if sk.uid == 0 || sk.uid == overflowUid then false
      else if !uidSelected k sk.uid then false
      else if reservedDest e k.listeners skb.ip.dest then false
      else if policyDirect e k skb.ip.dest then false
      else if !protoStealable skb.ip.headerProto then false
      else if !k.listenersSet || !k.symReady then false
      else if stealQMax ≤ k.stealQ.length then false
      else true

/-- `fluxrs_local_out`: a stolen packet is orphaned and queued for the worker. -/
def localOut (k : Kernel) (skb : Skb) : Kernel × Verdict :=
  if steals e k skb then ({ k with stealQ := k.stealQ ++ [{ skb with sk := none }] }, .stolen)
  else (k, .accept)

end Classify

/-! ### The worker -/

/-- What the kernel answers while one stolen packet is handed over. -/
structure StealOut where
  hdrFound : Bool
  sock : Bool
  transparent : Bool
  prepared : Bool
  attached : Bool

inductive Fate where
  | delivered
  | dropped
  deriving DecidableEq, Repr

/-- `fluxrs_lookup_v4` and `fluxrs_lookup_v6`: no socket for a family without a listener port. -/
def lookupSock (k : Kernel) (ip : Ip) (out : StealOut) : Bool :=
  let port := match ip with
    | .v4 _ _ => k.listeners.v4Port
    | .v6 _ _ _ => k.listeners.v6Port
  if !out.hdrFound then false else if port == 0 then false else out.sock

/-- `fluxrs_steal_one`. -/
def stealOne (k : Kernel) (skb : Skb) (out : StealOut) : Fate :=
  if !k.live then .dropped
  else if !k.listenersSet || !k.symReady then .dropped
  else if !lookupSock k skb.ip out || !out.transparent then .dropped
  else if !out.prepared then .dropped
  else if !out.attached then .dropped
  else .delivered

/-- One iteration of `fluxrs_steal_workfn`. -/
def stealWork (k : Kernel) (out : StealOut) : Kernel × Option Fate :=
  match k.stealQ with
  | [] => (k, none)
  | skb :: rest => ({ k with stealQ := rest }, some (stealOne k skb out))

end FluxRs.Kmod
