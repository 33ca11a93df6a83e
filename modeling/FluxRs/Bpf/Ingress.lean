import FluxRs.Bpf.Bounds
import FluxRs.Bpf.CapCore

/-!
# FluxRs.Bpf.Ingress — the ingress classifier, its fast path and its slow path

`ingress_fast_path` and `flx_in` of `bpf/flux.bpf.c`.  The fast path decodes again, with fewer checks and on
less linear data; where it answers, the slow path would have answered the same.
-/

namespace FluxRs.Bpf

open FluxRs.Lib FluxRs.Net

/-- The counters of `enum flux_counter` that ingress counts. -/
inductive InCounter where
  | dropSnapshot
  | dropParse
  | passFragment
  | passEstablished
  | dropNoListener
  | dropAssign
  | assignTcp
  | assignUdp
  deriving DecidableEq, Repr

inductive InAct where
  | ok
  | shot
  deriving DecidableEq, Repr

/-- The action, the counter, and whether `bpf_sk_assign` was called. -/
structure InVerdict where
  act : InAct
  counted : InCounter
  assigned : Bool
  deriving DecidableEq, Repr

def InVerdict.pass (counter : InCounter) : InVerdict := ⟨.ok, counter, false⟩

def InVerdict.drop (counter : InCounter) : InVerdict := ⟨.shot, counter, false⟩

/-- The outcomes of the helpers of one ingress invocation. -/
structure InHelpers extends Helpers where
  changeType : Bool
  skAssign : Bool

section FastPath

variable (bytes : List U8) (linear : ℕ)

/-- `th->syn && !th->ack` of the TCP header at `off`. -/
def bareSyn (off : ℕ) : Bool := byteAt bytes (off + 13) &&& 0x02 != 0 && !(byteAt bytes (off + 13) &&& 0x10 != 0)

/-- An established segment, once its header is linear. -/
def fastTcp (off : ℕ) : Option InVerdict :=
  if linear < off + 20 then none
  else if bareSyn bytes off then none
  else some (.pass .passEstablished)

/-- `ingress_fast_path`; `none` is `-1`. -/
def ingressFastPath : Option InVerdict :=
  if linear < ethHlen then none
  else if be16At bytes 12 = ethPIp.toNat then
    if linear < 14 + 20 then none
    else if byteAt bytes 14 >>> 4 ≠ 4 then none
    else
      let frag := be16At bytes 20
      if frag % 0x2000 ≠ 0 ∨ frag / 0x2000 % 2 ≠ 0 then some (.pass .passFragment)
      else if byteAt bytes 23 ≠ ipprotoTcp ∨ (byteAt bytes 14 &&& 0x0f).toNat ≠ 5 then none
      else fastTcp bytes linear 34
  else if be16At bytes 12 = ethPIpv6.toNat then
    if linear < 14 + 40 then none
    else if byteAt bytes 14 >>> 4 ≠ 6 then none
    else if byteAt bytes 20 = ipprotoFragment then
      if be16At bytes 18 < 8 then none
      else if linear < 54 + 8 then none
      else some (.pass .passFragment)
    else if byteAt bytes 20 ≠ ipprotoTcp then none
    else fastTcp bytes linear 54
  else none

end FastPath

section SlowPath

variable (env : InHelpers) (c : FluxControl) (skb : SkBuff)

/-- `flx_in` behind the parser. -/
def onParsed (p : FluxPkt) : InVerdict :=
  if p.fragment then .pass .passFragment
  else if !p.haveL4 then .drop .dropParse
  else if p.l4proto = ipprotoTcp ∧ !(p.tcpSyn && !p.tcpAck) then .pass .passEstablished
  else match env.lookup (listenerTuple c p.dest) p.l4proto with
    | none => .drop .dropNoListener
    | some sk =>
      if !listenerGuard sk c p.dest p.l4proto then .drop .dropNoListener
      else if !env.skAssign then ⟨.shot, .dropAssign, true⟩
      else ⟨.ok, if p.l4proto = ipprotoTcp then .assignTcp else .assignUdp, true⟩

/-- `flx_in` from `pull_headers` on. -/
def ingressSlowPath : InVerdict :=
  match pullHeaders env.toHelpers skb with
  | none => .drop .dropParse
  | some head =>
    match parsePkt skb.bytes head skb.protocol ethHlen with
    | none => .drop .dropParse
    | some p => onParsed env c p

/-- `flx_in`, with `linear` bytes linear at first. -/
def flxIn (root : Option FluxControl) (linear : ℕ) : InVerdict :=
  match ctrl root with
  | none => .drop .dropSnapshot
  | some c =>
    if c.active = 0 then .drop .dropSnapshot
    else if !env.changeType then .drop .dropParse
    else if linear < ethHlen then .drop .dropParse
    else if be16At skb.bytes 12 ≠ ethPIp.toNat ∧ be16At skb.bytes 12 ≠ ethPIpv6.toNat then .drop .dropParse
    else match ingressFastPath skb.bytes linear with
      | some verdict => verdict
      | none => ingressSlowPath env c skb

end SlowPath

/-! ### What a parsed packet is -/

/-- The packet is no fragment, and its transport header of this protocol is at `off`. -/
def Unfragmented (bytes : List U8) (protocol : U16) (nhOff : ℕ) (proto : U8) (off : ℕ) : Prop :=
  protocol = ethPIp ∧ be16At bytes (nhOff + 6) % 0x2000 = 0 ∧ be16At bytes (nhOff + 6) / 0x2000 % 2 = 0 ∧
      proto = byteAt bytes (nhOff + 9) ∧ off = nhOff + (byteAt bytes nhOff &&& 0x0f).toNat * 4 ∨
    protocol = ethPIpv6 ∧ ∃ lens, ExtChain bytes (nhOff + 40 + be16At bytes (nhOff + 4)) (byteAt bytes (nhOff + 6))
      (nhOff + 40) lens proto off

section Parsed

variable {bytes : List U8} {head nhOff : ℕ} {p : FluxPkt}

/-- The parser's word on an IPv4 packet. -/
theorem parseV4_some (h : parseV4 bytes head nhOff = some p) :
    (be16At bytes (nhOff + 6) % 0x2000 ≠ 0 ∨ be16At bytes (nhOff + 6) / 0x2000 % 2 ≠ 0) ∧ p.fragment = true ∨
    ¬ (be16At bytes (nhOff + 6) % 0x2000 ≠ 0 ∨ be16At bytes (nhOff + 6) / 0x2000 % 2 ≠ 0) ∧ p.fragment = false ∧
      p.haveL4 = true ∧ p.l4proto = byteAt bytes (nhOff + 9) ∧
      p.l4Off = nhOff + (byteAt bytes nhOff &&& 0x0f).toNat * 4 ∧
      (p.l4proto = ipprotoTcp → (p.tcpSyn && !p.tcpAck) = bareSyn bytes p.l4Off) := by
  unfold parseV4 at h
  dsimp only at h
  split_ifs at h with h1 h2 h3 h4 h5 h6
  · obtain rfl := Option.some.inj h
    exact .inl ⟨h6, rfl⟩
  · obtain ⟨hfrag, hhave, hproto, hoff, hcase⟩ := parseL4_some h
    refine .inr ⟨h6, hfrag, hhave, hproto, hoff, fun htcp => ?_⟩
    rcases hcase with ⟨-, -, hsyn, hack⟩ | ⟨hudp, -⟩
    · rw [hsyn, hack, hoff]
      rfl
    · rw [hproto, hudp] at htcp
      exact absurd htcp (by decide)

/-- The parser's word on an IPv6 packet. -/
theorem parseV6_some (h : parseV6 bytes bytes.length nhOff = some p) :
    (∃ lens e, ExtChain bytes (nhOff + 40 + be16At bytes (nhOff + 4)) (byteAt bytes (nhOff + 6)) (nhOff + 40) lens
        ipprotoFragment e) ∧ p.fragment = true ∨
    (∃ lens, ExtChain bytes (nhOff + 40 + be16At bytes (nhOff + 4)) (byteAt bytes (nhOff + 6)) (nhOff + 40) lens
        p.l4proto p.l4Off) ∧ p.fragment = false ∧ p.haveL4 = true ∧
      (p.l4proto = ipprotoTcp ∨ p.l4proto = ipprotoUdp) ∧
      (p.l4proto = ipprotoTcp → (p.tcpSyn && !p.tcpAck) = bareSyn bytes p.l4Off) := by
  unfold parseV6 at h
  dsimp only at h
  split_ifs at h with h1 h2 h3
  cases hwalk : walkExt bytes bytes.length (nhOff + 40 + be16At bytes (nhOff + 4)) ipv6MaxExtHdrs
    (byteAt bytes (nhOff + 6)) (nhOff + 40) 0 with
  | fragment =>
    rw [hwalk] at h
    obtain rfl := Option.some.inj h
    obtain ⟨lens, e, hchain, -⟩ := (walkExt_fragment_iff (by omega) (Nat.zero_le _)).mp hwalk
    exact .inl ⟨⟨lens, e, hchain⟩, rfl⟩
  | outOfScope =>
    rw [hwalk] at h
    cases h
  | upper nexthdr off =>
    rw [hwalk] at h
    dsimp only at h
    split_ifs at h with h4
    have hupper : nexthdr = ipprotoTcp ∨ nexthdr = ipprotoUdp := by
      rw [not_and_or, not_not, not_not] at h4
      exact h4
    obtain ⟨lens, hchain, -⟩ := (walkExt_upper_iff (by omega) hupper (Nat.zero_le _)).mp hwalk
    obtain ⟨hfrag, hhave, hproto, hoff, hcase⟩ := parseL4_some h
    rw [hproto, hoff]
    refine .inr ⟨⟨lens, hchain⟩, hfrag, hhave, hupper, fun htcp => ?_⟩
    rcases hcase with ⟨-, -, hsyn, hack⟩ | ⟨hudp, -⟩
    · rw [hsyn, hack]
      rfl
    · exact absurd (htcp.symm.trans hudp) (by decide)

end Parsed

/-! ### The two paths agree -/

section Agreement

variable {env : InHelpers} {c : FluxControl} {skb : SkBuff} {head : ℕ} {p : FluxPkt} {verdict : InVerdict}

theorem onParsed_fragment (h : p.fragment = true) : onParsed env c p = .pass .passFragment := if_pos h

theorem onParsed_established (hfrag : p.fragment = false) (hhave : p.haveL4 = true)
    (htcp : p.l4proto = ipprotoTcp) (hbare : (p.tcpSyn && !p.tcpAck) = false) :
    onParsed env c p = .pass .passEstablished := by
  unfold onParsed
  rw [if_neg (by rw [hfrag]; decide), if_neg (by rw [hhave]; decide), if_pos ⟨htcp, by rw [hbare]; rfl⟩]

theorem fastTcp_some {bytes : List U8} {linear off : ℕ} (h : fastTcp bytes linear off = some verdict) :
    bareSyn bytes off = false ∧ verdict = .pass .passEstablished := by
  unfold fastTcp at h
  split_ifs at h with hlinear hbare
  exact ⟨Bool.eq_false_iff.mpr hbare, (Option.some.inj h).symm⟩

theorem pullHeaders_pulled {helpers : Helpers} (h : pullHeaders helpers skb = some head) :
    Pulled skb.bytes head := by
  unfold pullHeaders at h
  obtain ⟨extra, -, rfl⟩ := Option.map_eq_some_iff.mp h
  constructor
  · omega
  · omega

/-- An answer of the fast path on IPv4 is that of the slow path. -/
theorem fast_agrees_v4 {linear : ℕ} (heth : be16At skb.bytes 12 = ethPIp.toNat)
    (hparse : parseV4 skb.bytes head 14 = some p) (hfast : ingressFastPath skb.bytes linear = some verdict) :
    onParsed env c p = verdict := by
  unfold ingressFastPath at hfast
  rw [if_pos heth] at hfast
  dsimp only at hfast
  split_ifs at hfast with h1 h2 h3 hfrag hplain
  · obtain rfl := Option.some.inj hfast
    rcases parseV4_some hparse with ⟨-, hfragment⟩ | ⟨hnone, -⟩
    · exact onParsed_fragment hfragment
    · exact absurd hfrag hnone
  · obtain ⟨hbare, rfl⟩ := fastTcp_some hfast
    rw [not_or, not_not, not_not] at hplain
    rcases parseV4_some hparse with ⟨hsome, -⟩ | ⟨-, hwhole, hhave, hproto, hoff, hsyn⟩
    · exact absurd hsome hfrag
    · have htcp : p.l4proto = ipprotoTcp := hproto.trans hplain.1
      have h34 : p.l4Off = 34 := by
        rw [hoff, hplain.2]
      refine onParsed_established hwhole hhave htcp ?_
      rw [hsyn htcp, h34, hbare]

theorem fast_agrees_v6 {linear : ℕ} (heth : be16At skb.bytes 12 = ethPIpv6.toNat)
    (hparse : parseV6 skb.bytes skb.bytes.length 14 = some p)
    (hfast : ingressFastPath skb.bytes linear = some verdict) : onParsed env c p = verdict := by
  have hne : ¬ be16At skb.bytes 12 = ethPIp.toNat := by
    rw [heth]
    decide
  unfold ingressFastPath at hfast
  rw [if_neg hne, if_pos heth] at hfast
  split_ifs at hfast with h1 h2 h3 hfrag h4 h5 htcp
  · obtain rfl := Option.some.inj hfast
    rcases parseV6_some hparse with ⟨-, hfragment⟩ | ⟨⟨lens, hchain⟩, -, -, hupper, -⟩
    · exact onParsed_fragment hfragment
    · obtain ⟨-, hproto, -⟩ := hchain.of_end (.inr (.inr hfrag))
      rw [hproto, hfrag] at hupper
      exact absurd hupper (by decide)
  · obtain ⟨hbare, rfl⟩ := fastTcp_some hfast
    rw [not_not] at htcp
    rcases parseV6_some hparse with ⟨⟨lens, e, hchain⟩, -⟩ | ⟨⟨lens, hchain⟩, hwhole, hhave, -, hsyn⟩
    · obtain ⟨-, hproto, -⟩ := hchain.of_end (.inl htcp)
      rw [htcp] at hproto
      exact absurd hproto (by decide)
    · obtain ⟨-, hproto, hoff⟩ := hchain.of_end (.inl htcp)
      have hp : p.l4proto = ipprotoTcp := hproto.trans htcp
      refine onParsed_established hwhole hhave hp ?_
      rw [hsyn hp, hoff, hbare]

theorem etherType_protocol {bytes : List U8} {protocol kind : U16} (heth : be16At bytes 12 = protocol.toNat) :
    protocol = kind ↔ be16At bytes 12 = kind.toNat := by
  rw [heth]
  exact ⟨congrArg BitVec.toNat, BitVec.eq_of_toNat_eq⟩

theorem fast_agrees {linear : ℕ} (heth : be16At skb.bytes 12 = skb.protocol.toNat)
    (hpull : pullHeaders env.toHelpers skb = some head)
    (hparse : parsePkt skb.bytes head skb.protocol ethHlen = some p)
    (hfast : ingressFastPath skb.bytes linear = some verdict) : ingressSlowPath env c skb = verdict := by
  have hslow : ingressSlowPath env c skb = onParsed env c p := by
    unfold ingressSlowPath
    rw [hpull]
    dsimp only
    rw [hparse]
  rw [hslow]
  have hwhole := hparse
  rw [parsePkt_linear (pullHeaders_pulled hpull) _ (show ethHlen ≤ 14 from le_refl _)] at hwhole
  unfold parsePkt at hparse hwhole
  by_cases h4 : skb.protocol = ethPIp
  · rw [if_pos h4] at hparse
    exact fast_agrees_v4 ((etherType_protocol heth).mp h4) hparse hfast
  · rw [if_neg h4] at hwhole
    by_cases h6 : skb.protocol = ethPIpv6
    · rw [if_pos h6] at hwhole
      exact fast_agrees_v6 ((etherType_protocol heth).mp h6) hwhole hfast
    · rw [if_neg h6] at hwhole
      cases hwhole

/-! ### What is assigned -/

/-- Only a bare SYN or a UDP datagram comes to the assignment. -/
theorem onParsed_assigned (h : (onParsed env c p).assigned = true) :
    p.fragment = false ∧ p.haveL4 = true ∧ (p.l4proto = ipprotoTcp → (p.tcpSyn && !p.tcpAck) = true) := by
  unfold onParsed at h
  by_cases hfrag : p.fragment = true
  · rw [if_pos hfrag] at h
    cases h
  · rw [if_neg hfrag] at h
    by_cases hhave : (!p.haveL4) = true
    · rw [if_pos hhave] at h
      cases h
    · rw [if_neg hhave] at h
      by_cases hest : p.l4proto = ipprotoTcp ∧ (!(p.tcpSyn && !p.tcpAck)) = true
      · rw [if_pos hest] at h
        cases h
      · rw [Bool.not_eq_true, Bool.not_eq_false'] at hhave
        refine ⟨Bool.eq_false_iff.mpr hfrag, hhave, fun htcp => ?_⟩
        by_contra hbare
        rw [Bool.not_eq_true] at hbare
        exact hest ⟨htcp, by rw [hbare]; rfl⟩

theorem parsed_unfragmented {protocol : U16} {bytes : List U8}
    (h : parsePkt bytes bytes.length protocol ethHlen = some p) (hp : p.fragment = false) :
    Unfragmented bytes protocol ethHlen p.l4proto p.l4Off ∧
      (p.l4proto = ipprotoTcp ∨ p.l4proto = ipprotoUdp) ∧
      (p.l4proto = ipprotoTcp → (p.tcpSyn && !p.tcpAck) = bareSyn bytes p.l4Off) := by
  have hproto := (parsePkt_whole _ _ h hp).2
  unfold parsePkt at h
  by_cases h4 : protocol = ethPIp
  · rw [if_pos h4] at h
    rcases parseV4_some h with ⟨-, hfrag⟩ | ⟨hnone, -, -, hl4, hoff, hsyn⟩
    · rw [hp] at hfrag
      cases hfrag
    · rw [not_or, not_not, not_not] at hnone
      exact ⟨.inl ⟨h4, hnone.1, hnone.2, hl4, hoff⟩, hproto, hsyn⟩
  · rw [if_neg h4] at h
    by_cases h6 : protocol = ethPIpv6
    · rw [if_pos h6] at h
      rcases parseV6_some h with ⟨-, hfrag⟩ | ⟨hchain, -, -, -, hsyn⟩
      · rw [hp] at hfrag
        cases hfrag
      · exact ⟨.inr ⟨h6, hchain⟩, hproto, hsyn⟩
    · rw [if_neg h6] at h
      cases h

theorem fastPath_assigned {bytes : List U8} {linear : ℕ} (h : ingressFastPath bytes linear = some verdict) :
    verdict.assigned = false := by
  unfold ingressFastPath fastTcp at h
  dsimp only at h
  split_ifs at h
  all_goals
    obtain rfl := Option.some.inj h
    rfl

theorem slowPath_assigned (h : (ingressSlowPath env c skb).assigned = true) :
    ∃ proto off, Unfragmented skb.bytes skb.protocol ethHlen proto off ∧
      (proto = ipprotoUdp ∨ proto = ipprotoTcp ∧ bareSyn skb.bytes off = true) := by
  unfold ingressSlowPath at h
  cases hpull : pullHeaders env.toHelpers skb with
  | none =>
    rw [hpull] at h
    cases h
  | some head =>
    rw [hpull] at h
    dsimp only at h
    cases hparse : parsePkt skb.bytes head skb.protocol ethHlen with
    | none =>
      rw [hparse] at h
      cases h
    | some p =>
      rw [hparse] at h
      obtain ⟨hfrag, -, hbare⟩ := onParsed_assigned h
      rw [parsePkt_linear (pullHeaders_pulled hpull) _ (show ethHlen ≤ 14 from le_refl _)] at hparse
      obtain ⟨hunfrag, hproto, hsyn⟩ := parsed_unfragmented hparse hfrag
      refine ⟨p.l4proto, p.l4Off, hunfrag, ?_⟩
      rcases hproto with htcp | hudp
      · exact .inr ⟨htcp, (hsyn htcp).symm.trans (hbare htcp)⟩
      · exact .inl hudp

end Agreement

/-- **The ingress fast path agrees with the slow path**: on a packet that the slow path can parse, an answer of
the fast path, whatever part of the packet is linear, is the answer of the slow path; and over both paths only an
unfragmented UDP datagram or an unfragmented TCP segment with SYN and without ACK is assigned. -/
theorem ingress_paths_agree (env : InHelpers) (skb : SkBuff) (linear : ℕ) :
    (∀ c head p verdict, be16At skb.bytes 12 = skb.protocol.toNat → pullHeaders env.toHelpers skb = some head →
      parsePkt skb.bytes head skb.protocol ethHlen = some p → ingressFastPath skb.bytes linear = some verdict →
      ingressSlowPath env c skb = verdict) ∧
    ∀ root, (flxIn env skb root linear).assigned = true →
      ∃ proto off, Unfragmented skb.bytes skb.protocol ethHlen proto off ∧
        (proto = ipprotoUdp ∨ proto = ipprotoTcp ∧ bareSyn skb.bytes off = true) := by
  constructor
  · intro c head p verdict heth hpull hparse hfast
    exact fast_agrees heth hpull hparse hfast
  · intro root h
    unfold flxIn at h
    cases hctrl : ctrl root with
    | none =>
      rw [hctrl] at h
      cases h
    | some c =>
      rw [hctrl] at h
      dsimp only at h
      split_ifs at h
      · cases h
      · cases h
      · cases h
      · cases h
      · cases hfast : ingressFastPath skb.bytes linear with
        | some verdict =>
          rw [hfast] at h
          exact absurd h (Bool.eq_false_iff.mp (fastPath_assigned hfast))
        | none =>
          rw [hfast] at h
          exact slowPath_assigned h

/-- An IPv4 frame with more fragments to come. -/
def fragmentSkb : SkBuff where
  protocol := ethPIp
  vlanPresent := false
  sk := none
  uid := 0
  bytes := List.replicate 12 0 ++ [0x08, 0, 0x45, 0, 0, 20, 0, 0, 0x20, 0] ++ List.replicate 12 0

/-- An IPv6 frame with an empty UDP datagram. -/
def udpSkb : SkBuff where
  protocol := ethPIpv6
  vlanPresent := false
  sk := none
  uid := 0
  bytes := List.replicate 12 0 ++ [0x86, 0xdd, 0x60, 0, 0, 0, 0, 8, 17, 64] ++ List.replicate 40 0

def quietControl : FluxControl :=
  ⟨abiMagic, 1, 1, 7, 0, 0, 0, 0, 0, 0, 0, 0, 0⟩

/-- Helpers that find a listener at the control's own address. -/
def quietHelpers : InHelpers where
  pulled := some 0
  lookup := fun tuple _ => some ⟨0, tuple.listen, 0⟩
  createNull := false
  changeHead := true
  storeBytes := true
  redirected := true
  changeType := true
  skAssign := true

theorem ingress_paths_agree_frames :
    ingressSlowPath quietHelpers quietControl fragmentSkb = .pass .passFragment ∧
    ∃ proto off, Unfragmented udpSkb.bytes ethPIpv6 14 proto off ∧
      (proto = ipprotoUdp ∨ proto = ipprotoTcp ∧ bareSyn udpSkb.bytes off = true) := by
  constructor
  · exact (ingress_paths_agree quietHelpers fragmentSkb 34).1 quietControl 34
      ⟨.v4 0, true, false, 0, 0, false, false⟩ _ (by decide) rfl (by decide) (by decide)
  · exact (ingress_paths_agree quietHelpers udpSkb 54).2 (some quietControl) (by decide)

end FluxRs.Bpf
