import FluxRs.Net.Epoch

/-!
# FluxRs.Bpf.Packet — the bounded header parser of the classifier

`parse_pkt` of `bpf/flux.bpf.c` over the bytes of a packet.  Every read is bounded twice: by what the
network header declares, and by the part of the packet that `pull_headers` has made linear.
-/

namespace FluxRs.Bpf

open FluxRs.Lib FluxRs.Net

/-- `skb->protocol`, in host order. -/
def ethPIp : U16 := 0x0800
def ethPIpv6 : U16 := 0x86dd

def ipprotoTcp : U8 := 6
def ipprotoUdp : U8 := 17
def ipprotoHopopts : U8 := 0
def ipprotoRouting : U8 := 43
def ipprotoFragment : U8 := 44
def ipprotoDstopts : U8 := 60

/-- `FLUX_ETH_HLEN`. -/
def ethHlen : ℕ := 14

/-- `FLUX_IPV6_MAX_EXT_HDRS`. -/
def ipv6MaxExtHdrs : ℕ := 4

/-- `FLUX_IPV6_MAX_EXT_BYTES`. -/
def ipv6MaxExtBytes : ℕ := 256

/-- `FLUX_MAX_PULL_BYTES`. -/
def maxPullBytes : ℕ := ethHlen + 40 + ipv6MaxExtBytes + 20

/-- `struct flux_pkt`; the family is that of the destination. -/
structure FluxPkt where
  dest : Dest
  fragment : Bool
  haveL4 : Bool
  l4proto : U8
  l4Off : ℕ
  tcpSyn : Bool
  tcpAck : Bool
  deriving DecidableEq, Repr

/-! ### Reads -/

section Reads

variable (bytes : List U8)

def byteAt (i : ℕ) : U8 := bytes.getD i 0

/-- A big-endian half word. -/
def be16At (i : ℕ) : ℕ := (byteAt bytes i).toNat * 256 + (byteAt bytes (i + 1)).toNat

/-- An address in network order. -/
def addrAt (w i : ℕ) : BitVec w :=
  BitVec.ofNat w (((bytes.drop i).take (w / 8)).foldl (fun acc b => acc * 256 + b.toNat) 0)

end Reads

/-! ### The parser -/

section Parse

variable (bytes : List U8) (head l3End : ℕ)

/-- The fixed transport header behind the network layer. -/
def parseL4 (p : FluxPkt) : Option FluxPkt :=
  if p.l4proto = ipprotoTcp then
    if l3End < p.l4Off + 20 then none
    else if head < p.l4Off + 20 then none
    else
      let flags := byteAt bytes (p.l4Off + 13)
      some { p with tcpSyn := flags &&& 0x02 != 0, tcpAck := flags &&& 0x10 != 0, haveL4 := true }
  else if p.l4proto = ipprotoUdp then
    if l3End < p.l4Off + 8 then none
    else if head < p.l4Off + 8 then none
    else some { p with haveL4 := true }
  else none

/-- Where the walk over the IPv6 extension headers ends. -/
inductive ExtWalk where
  | fragment
  | upper (nexthdr : U8) (off : ℕ)
  | outOfScope
  deriving DecidableEq, Repr

/-- The unrolled loop; at most as many headers as there are rounds are looked at. -/
def walkExt : ℕ → U8 → ℕ → ℕ → ExtWalk
  | 0, nexthdr, off, _ => .upper nexthdr off
  | n + 1, nexthdr, off, extBytes =>
    if nexthdr = ipprotoTcp ∨ nexthdr = ipprotoUdp then .upper nexthdr off
    else if nexthdr = ipprotoFragment then
      if l3End < off + 8 then .outOfScope
      else if head < off + 8 then .outOfScope
      else .fragment
    else if nexthdr ≠ ipprotoHopopts ∧ nexthdr ≠ ipprotoRouting ∧ nexthdr ≠ ipprotoDstopts then
      .outOfScope
    else if l3End < off + 2 then .outOfScope
    else if head < off + 2 then .outOfScope
    else
      let len := ((byteAt bytes (off + 1)).toNat + 1) * 8
      if ipv6MaxExtBytes < extBytes + len then .outOfScope
      else if l3End < off + len then .outOfScope
      else walkExt n (byteAt bytes off) (off + len) (extBytes + len)

/-- The two families of `parse_pkt`; `head` bytes are linear. -/
def parseV4 (nhOff : ℕ) : Option FluxPkt :=
  if head < nhOff + 20 then none
  else if byteAt bytes nhOff >>> 4 ≠ 4 then none
  else
    let ihlBytes := (byteAt bytes nhOff &&& 0x0f).toNat * 4
    if ihlBytes < 20 ∨ 60 < ihlBytes then none
    else
      let totalLen := be16At bytes (nhOff + 2)
      if totalLen < ihlBytes ∨ bytes.length < nhOff + totalLen then none
      else
        let l3End := nhOff + totalLen
        if l3End < nhOff + ihlBytes then none
        else
          let dest : Dest := .v4 (addrAt bytes 32 (nhOff + 16))
          let frag := be16At bytes (nhOff + 6)
          -- an offset, or more fragments to come
          if frag % 0x2000 ≠ 0 ∨ frag / 0x2000 % 2 ≠ 0 then
            some ⟨dest, true, false, 0, 0, false, false⟩
          else
            parseL4 bytes head l3End
              ⟨dest, false, false, byteAt bytes (nhOff + 9), nhOff + ihlBytes, false, false⟩

def parseV6 (nhOff : ℕ) : Option FluxPkt :=
  if head < nhOff + 40 then none
  else if byteAt bytes nhOff >>> 4 ≠ 6 then none
  else
    let payloadLen := be16At bytes (nhOff + 4)
    if payloadLen = 0 ∨ bytes.length < nhOff + 40 + payloadLen then none
    else
      let l3End := nhOff + 40 + payloadLen
      let dest : Dest := .v6 (addrAt bytes 128 (nhOff + 24))
      match walkExt bytes head l3End ipv6MaxExtHdrs (byteAt bytes (nhOff + 6)) (nhOff + 40) 0 with
      | .fragment => some ⟨dest, true, false, 0, 0, false, false⟩
      | .outOfScope => none
      | .upper nexthdr off =>
        if nexthdr ≠ ipprotoTcp ∧ nexthdr ≠ ipprotoUdp then none
        else parseL4 bytes head l3End ⟨dest, false, false, nexthdr, off, false, false⟩

/-- `parse_pkt`: `none` where the packet is out of scope. -/
def parsePkt (protocol : U16) (nhOff : ℕ) : Option FluxPkt :=
  if protocol = ethPIp then parseV4 bytes head nhOff
  else if protocol = ethPIpv6 then parseV6 bytes head nhOff
  else none

/-- The results exclude each other: a fragment, or a transport header of a supported protocol. -/
theorem parseL4_whole {p q : FluxPkt} (h : parseL4 bytes head l3End p = some q) :
    q.fragment = p.fragment ∧ q.haveL4 = true ∧ (q.l4proto = ipprotoTcp ∨ q.l4proto = ipprotoUdp) := by
  unfold parseL4 at h
  split at h
  · rename_i htcp
    split at h
    · cases h
    · split at h
      · cases h
      · obtain rfl := Option.some.inj h
        exact ⟨rfl, rfl, .inl htcp⟩
  · split at h
    · rename_i hudp
      split at h
      · cases h
      · split at h
        · cases h
        · obtain rfl := Option.some.inj h
          exact ⟨rfl, rfl, .inr hudp⟩
    · cases h

theorem parsePkt_whole {protocol : U16} {nhOff : ℕ} {q : FluxPkt}
    (h : parsePkt bytes head protocol nhOff = some q) (hq : q.fragment = false) :
    q.haveL4 = true ∧ (q.l4proto = ipprotoTcp ∨ q.l4proto = ipprotoUdp) := by
  unfold parsePkt at h
  split at h
  · unfold parseV4 at h
    simp only at h
    split_ifs at h
    · obtain rfl := Option.some.inj h
      cases hq
    · exact (parseL4_whole _ _ _ h).2
  · split at h
    · unfold parseV6 at h
      simp only at h
      split_ifs at h
      split at h
      · obtain rfl := Option.some.inj h
        cases hq
      · cases h
      · split at h
        · cases h
        · exact (parseL4_whole _ _ _ h).2
    · cases h

end Parse

end FluxRs.Bpf
