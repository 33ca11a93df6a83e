import FluxRs.Net.Epoch

/-!
# FluxRs.Kmod.Uapi — the packed buffer of `FLUXRS_SET_BYPASS`

`crates/flux-core/src/kmod_uapi.rs` and the userspace half of `kmod.rs`: an epoch is packed as a
header and four arrays, addresses in network order, the counts in host order.  The host byte order
is a parameter; both sides of the ioctl run on the same host.
-/

namespace FluxRs.Kmod

open FluxRs.Lib FluxRs.Net
open Std (ExtTreeMap ExtTreeSet)

/-- `FLUXRS_UID_SLOT_MAX`. -/
def uidSlotMax : ℕ := 1024

/-- `FLUXRS_LPM_MAX`. -/
def lpmMax : ℕ := 65536

/-- `FLUXRS_SELF_MAX`. -/
def selfMax : ℕ := 256

/-- Packed like `struct fluxrs_pfx4`. -/
structure Pfx4 where
  addr : U32
  prefixlen : U8
  tag : U8
  pad : List U8

/-- Packed like `struct fluxrs_pfx6`. -/
structure Pfx6 where
  addr : List U8
  prefixlen : U8
  tag : U8
  pad : List U8

variable (e : Endian)

def encodePfx4 (p : Pfx4) : List U8 := e.store p.addr ++ [p.prefixlen, p.tag] ++ p.pad

def encodePfx6 (p : Pfx6) : List U8 := p.addr ++ [p.prefixlen, p.tag] ++ p.pad

/-- The header then the four arrays, as the kernel copies them. -/
def encodeBypass (cidrMode : U32) (v4 : List Pfx4) (v6 : List Pfx6) (self4 : List U32)
    (self6 : List (List U8)) : List U8 :=
  e.store cidrMode
    ++ e.store (BitVec.ofNat 32 v4.length) ++ e.store (BitVec.ofNat 32 v6.length)
    ++ e.store (BitVec.ofNat 32 self4.length) ++ e.store (BitVec.ofNat 32 self6.length)
    ++ v4.flatMap (encodePfx4 e) ++ v6.flatMap encodePfx6
    ++ self4.flatMap e.store ++ self6.flatMap id

/-- `LoadedModule::set_bypass` up to the ioctl: the capacity checks, then the packed body. -/
def setBypassBody (cidrMode : U32) (v4 : List Pfx4) (v6 : List Pfx6) (self4 : List U32)
    (self6 : List (List U8)) : Except String (List U8) :=
  if lpmMax < v4.length ∨ lpmMax < v6.length then
    .error "too many prefixes for FLUXRS_SET_BYPASS"
  else if selfMax < self4.length ∨ selfMax < self6.length then
    .error "too many self-addresses for FLUXRS_SET_BYPASS"
  else .ok (encodeBypass e cidrMode v4 v6 self4 self6)

def pfx4Of (ct : Ipv4Cidr × BypassTag) : Pfx4 where
  addr := e.load (octets ct.1.addr)
  prefixlen := BitVec.ofNat 8 ct.1.prefixLen
  tag := ct.2.asU8
  pad := [0, 0]

def pfx6Of (ct : Ipv6Cidr × BypassTag) : Pfx6 where
  addr := octets ct.1.addr
  prefixlen := BitVec.ofNat 8 ct.1.prefixLen
  tag := ct.2.asU8
  pad := [0, 0]

/-- `kmod_set_bypass`: the body one epoch is submitted as. -/
def kmodSetBypass (ep : PolicyEpoch) : Except String (List U8) :=
  setBypassBody e ep.cidrMode.asU32
    (ep.bypassV4.toList.map (pfx4Of e))
    (ep.bypassV6.toList.map pfx6Of)
    (ep.selfV4.toList.map fun a => e.load (octets a))
    (ep.selfV6.toList.map octets)

/-- An epoch within the ABI capacities, per family. -/
structure Admitted (ep : PolicyEpoch) : Prop where
  v4 : ep.bypassV4.size ≤ lpmMax
  v6 : ep.bypassV6.size ≤ lpmMax
  self4 : ep.selfV4.size ≤ selfMax
  self6 : ep.selfV6.size ≤ selfMax

instance (ep : PolicyEpoch) : Decidable (Admitted ep) :=
  decidable_of_iff (ep.bypassV4.size ≤ lpmMax ∧ ep.bypassV6.size ≤ lpmMax ∧
      ep.selfV4.size ≤ selfMax ∧ ep.selfV6.size ≤ selfMax)
    ⟨fun ⟨a, b, c, d⟩ => ⟨a, b, c, d⟩, fun ⟨a, b, c, d⟩ => ⟨a, b, c, d⟩⟩

/-- The body of an epoch, as `encode_bypass` lays it out. -/
def epochBody (ep : PolicyEpoch) : List U8 :=
  encodeBypass e ep.cidrMode.asU32 (ep.bypassV4.toList.map (pfx4Of e))
    (ep.bypassV6.toList.map pfx6Of) (ep.selfV4.toList.map fun a => e.load (octets a))
    (ep.selfV6.toList.map octets)

/-- Userspace submits exactly the epochs within capacity. -/
theorem kmodSetBypass_eq_ok_iff {ep : PolicyEpoch} {body : List U8} :
    kmodSetBypass e ep = .ok body ↔ Admitted ep ∧ body = epochBody e ep := by
  unfold kmodSetBypass setBypassBody epochBody
  simp only [List.length_map, ExtTreeMap.length_toList, ExtTreeSet.length_toList]
  constructor
  · intro h
    split_ifs at h with h1 h2
    exact ⟨⟨by omega, by omega, by omega, by omega⟩, (Except.ok.inj h).symm⟩
  · rintro ⟨⟨h1, h2, h3, h4⟩, rfl⟩
    rw [if_neg (by omega), if_neg (by omega)]

@[simp] theorem length_encodePfx4 (ct : Ipv4Cidr × BypassTag) :
    (encodePfx4 e (pfx4Of e ct)).length = 8 := by
  simp [encodePfx4, pfx4Of]

@[simp] theorem length_encodePfx6 (ct : Ipv6Cidr × BypassTag) :
    (encodePfx6 (pfx6Of ct)).length = 20 := by
  simp [encodePfx6, pfx6Of]

end FluxRs.Kmod
