import FluxRs.Bpf.Packet
import FluxRs.Lib.Traced

/-!
# FluxRs.Bpf.Bounds — what the parser reads, and when it succeeds

`parse_pkt` of `bpf/flux.bpf.c` once more, with its 16-bit sums as they wrap and with a trace of every byte
it reads and every sum it takes.  Its value is that of `parsePkt`.
-/

namespace FluxRs.Bpf

open FluxRs.Lib FluxRs.Net Traced

/-- A byte that is read, or the exact value of a sum that is stored in 16 bits. -/
inductive Access where
  | load (i : ℕ)
  | sum (n : ℕ)
  deriving DecidableEq

section Traces

variable (bytes : List U8) (head : ℕ)

/-! ### The traced parser -/

def load (i : ℕ) : Traced Access U8 := log [.load i] (byteAt bytes i)

def load16 (i : ℕ) : Traced Access ℕ := log [.load i, .load (i + 1)] (be16At bytes i)

/-- `memcpy` of `n` bytes. -/
def loads (i n : ℕ) : Traced Access Unit := log ((List.range' i n).map .load) ()

/-- `a += b` on `__u16`. -/
def add16 (a b : U16) : Traced Access U16 := log [.sum (a.toNat + b.toNat)] (a + b)

def traceL4 (l3End : ℕ) (p : FluxPkt) : Traced Access FluxPkt :=
  if p.l4proto = ipprotoTcp then do
    reject (l3End < p.l4Off + 20)
    reject (head < p.l4Off + 20)
    let flags ← load bytes (p.l4Off + 13)
    return { p with tcpSyn := flags &&& 0x02 != 0, tcpAck := flags &&& 0x10 != 0, haveL4 := true }
  else if p.l4proto = ipprotoUdp then do
    reject (l3End < p.l4Off + 8)
    reject (head < p.l4Off + 8)
    return { p with haveL4 := true }
  else stop

/-- The unrolled loop; out of scope is a stop. -/
def traceExt (l3End : ℕ) : ℕ → U8 → U16 → U16 → Traced Access ExtWalk
  | 0, nexthdr, off, _ => return .upper nexthdr off.toNat
  | n + 1, nexthdr, off, extBytes =>
    if nexthdr = ipprotoTcp ∨ nexthdr = ipprotoUdp then return .upper nexthdr off.toNat
    else if nexthdr = ipprotoFragment then do
      reject (l3End < off.toNat + 8)
      reject (head < off.toNat + 8)
      return .fragment
    else do
      reject (nexthdr ≠ ipprotoHopopts ∧ nexthdr ≠ ipprotoRouting ∧ nexthdr ≠ ipprotoDstopts)
      reject (l3End < off.toNat + 2)
      reject (head < off.toNat + 2)
      let hdrlen ← load bytes (off.toNat + 1)
      let len : U16 := BitVec.ofNat 16 ((hdrlen.toNat + 1) * 8)
      let extBytes ← add16 extBytes len
      reject (ipv6MaxExtBytes < extBytes.toNat)
      reject (l3End < off.toNat + len.toNat)
      let nexthdr ← load bytes off.toNat
      let off ← add16 off len
      traceExt l3End n nexthdr off extBytes

def traceV4 (nhOff : ℕ) : Traced Access FluxPkt := do
  reject (head < nhOff + 20)
  let first ← load bytes nhOff
  reject (first >>> 4 ≠ 4)
  let ihlBytes := (first &&& 0x0f).toNat * 4
  reject (ihlBytes < 20 ∨ 60 < ihlBytes)
  let totalLen ← load16 bytes (nhOff + 2)
  reject (totalLen < ihlBytes ∨ bytes.length < nhOff + totalLen)
  let l3End := nhOff + totalLen
  reject (l3End < nhOff + ihlBytes)
  loads (nhOff + 16) 4
  let dest : Dest := .v4 (addrAt bytes 32 (nhOff + 16))
  let frag ← load16 bytes (nhOff + 6)
  if frag % 0x2000 ≠ 0 ∨ frag / 0x2000 % 2 ≠ 0 then return ⟨dest, true, false, 0, 0, false, false⟩
  else do
    let l4proto ← load bytes (nhOff + 9)
    let l4Off ← add16 (BitVec.ofNat 16 nhOff) (BitVec.ofNat 16 ihlBytes)
    traceL4 bytes head l3End ⟨dest, false, false, l4proto, l4Off.toNat, false, false⟩

def traceV6 (nhOff : ℕ) : Traced Access FluxPkt := do
  reject (head < nhOff + 40)
  let first ← load bytes nhOff
  reject (first >>> 4 ≠ 6)
  let payloadLen ← load16 bytes (nhOff + 4)
  reject (payloadLen = 0 ∨ bytes.length < nhOff + 40 + payloadLen)
  let l3End := nhOff + 40 + payloadLen
  loads (nhOff + 24) 16
  let dest : Dest := .v6 (addrAt bytes 128 (nhOff + 24))
  let nexthdr ← load bytes (nhOff + 6)
  let off ← add16 (BitVec.ofNat 16 nhOff) 40
  match ← traceExt bytes head l3End ipv6MaxExtHdrs nexthdr off 0 with
  | .fragment => return ⟨dest, true, false, 0, 0, false, false⟩
  | .outOfScope => stop
  | .upper nexthdr off => do
    reject (nexthdr ≠ ipprotoTcp ∧ nexthdr ≠ ipprotoUdp)
    traceL4 bytes head l3End ⟨dest, false, false, nexthdr, off, false, false⟩

def tracePkt (protocol : U16) (nhOff : ℕ) : Traced Access FluxPkt :=
  if protocol = ethPIp then traceV4 bytes head nhOff
  else if protocol = ethPIpv6 then traceV6 bytes head nhOff
  else stop

/-! ### The value is that of the parser -/

def ExtWalk.inScope : ExtWalk → Option ExtWalk
  | .outOfScope => none
  | walk => some walk

theorem traceL4_value (l3End : ℕ) (p : FluxPkt) :
    (traceL4 bytes head l3End p).value = parseL4 bytes head l3End p := by
  unfold traceL4 parseL4
  by_cases htcp : p.l4proto = ipprotoTcp
  · rw [if_pos htcp, if_pos htcp, value_reject_bind, value_reject_bind]
    rfl
  · rw [if_neg htcp, if_neg htcp]
    by_cases hudp : p.l4proto = ipprotoUdp
    · rw [if_pos hudp, if_pos hudp, value_reject_bind, value_reject_bind]
      rfl
    · rw [if_neg hudp, if_neg hudp]
      rfl

/-- The length of an option header, as 16 bits hold it. -/
theorem optLen_toNat (hdrlen : U8) :
    (BitVec.ofNat 16 ((hdrlen.toNat + 1) * 8)).toNat = (hdrlen.toNat + 1) * 8 := by
  have hlt := hdrlen.isLt
  rw [BitVec.toNat_ofNat, Nat.mod_eq_of_lt (by omega)]

theorem add16_toNat {a b : U16} (h : a.toNat + b.toNat < 2 ^ 16) : (a + b).toNat = a.toNat + b.toNat := by
  rw [BitVec.toNat_add, Nat.mod_eq_of_lt h]

/-- What bounds the sums: the offset is ahead of the fixed header by the extension bytes, which are few. -/
structure InReach (off extBytes : U16) : Prop where
  off_le : off.toNat ≤ 54 + extBytes.toNat
  ext_le : extBytes.toNat ≤ 256

theorem InReach.sum_lt {off extBytes : U16} (h : InReach off extBytes) (hdrlen : U8) :
    extBytes.toNat + (hdrlen.toNat + 1) * 8 < 2 ^ 16 ∧ off.toNat + (hdrlen.toNat + 1) * 8 < 2 ^ 16 := by
  have hlt := hdrlen.isLt
  have hoff := h.off_le
  have hext := h.ext_le
  constructor <;> omega

theorem InReach.next {off extBytes len : U16} (h : InReach off extBytes)
    (hsum : extBytes.toNat + len.toNat < 2 ^ 16) (hoff : off.toNat + len.toNat < 2 ^ 16)
    (hle : (extBytes + len).toNat ≤ 256) : InReach (off + len) (extBytes + len) := by
  have hoff' := h.off_le
  refine ⟨?_, hle⟩
  rw [add16_toNat hoff, add16_toNat hsum]
  omega

theorem traceExt_value (l3End n : ℕ) (nexthdr : U8) {off extBytes : U16} (h : InReach off extBytes) :
    (traceExt bytes head l3End n nexthdr off extBytes).value =
      (walkExt bytes head l3End n nexthdr off.toNat extBytes.toNat).inScope := by
  induction n generalizing nexthdr off extBytes with
  | zero => rfl
  | succ n ih =>
    unfold traceExt walkExt
    by_cases hupper : nexthdr = ipprotoTcp ∨ nexthdr = ipprotoUdp
    · rw [if_pos hupper, if_pos hupper]
      rfl
    · rw [if_neg hupper, if_neg hupper]
      by_cases hfrag : nexthdr = ipprotoFragment
      · rw [if_pos hfrag, if_pos hfrag, value_reject_bind, value_reject_bind]
        split_ifs <;> rfl
      · rw [if_neg hfrag, if_neg hfrag, value_reject_bind, value_reject_bind, value_reject_bind, load, value_bind,
          value_log, Option.bind_some]
        split_ifs with h1 h2 h3
        · rfl
        · rfl
        · rfl
        · obtain ⟨hsum, hoff⟩ := h.sum_lt (byteAt bytes (off.toNat + 1))
          have hlen := optLen_toNat (byteAt bytes (off.toNat + 1))
          rw [← hlen] at hsum hoff
          dsimp only
          rw [add16, value_bind, value_log, Option.bind_some, value_reject_bind, value_reject_bind,
            add16_toNat hsum, hlen]
          split_ifs with h4 h5
          · rfl
          · rfl
          · have hnext := h.next hsum hoff (by rw [add16_toNat hsum, hlen]; exact Nat.not_lt.mp h4)
            have hrest := ih (byteAt bytes off.toNat) hnext
            rw [add16_toNat hoff, add16_toNat hsum, hlen] at hrest
            exact hrest

theorem traceV4_value {nhOff : ℕ} (hnh : nhOff ≤ 14) :
    (traceV4 bytes head nhOff).value = parseV4 bytes head nhOff := by
  unfold traceV4 parseV4
  rw [value_reject_bind, load, value_bind, value_log, Option.bind_some, value_reject_bind]
  dsimp only
  rw [value_reject_bind, load16, value_bind, value_log, Option.bind_some, value_reject_bind, value_reject_bind]
  split_ifs with h1 h2 h3 h4 h5
  · rfl
  · rfl
  · rfl
  · rfl
  · rfl
  all_goals
    rw [loads, value_bind, value_log, Option.bind_some, load16, value_bind, value_log, Option.bind_some]
  · rename_i hfrag
    rw [if_pos hfrag]
    rfl
  · rename_i hfrag
    have hsum : (BitVec.ofNat 16 nhOff + BitVec.ofNat 16 ((byteAt bytes nhOff &&& 0x0f).toNat * 4)).toNat =
        nhOff + (byteAt bytes nhOff &&& 0x0f).toNat * 4 := by
      rw [BitVec.toNat_add, BitVec.toNat_ofNat, BitVec.toNat_ofNat]
      omega
    rw [if_neg hfrag, load, value_bind, value_log, Option.bind_some, add16, value_bind, value_log,
      Option.bind_some, traceL4_value, hsum]

theorem traceV6_value {nhOff : ℕ} (hnh : nhOff ≤ 14) :
    (traceV6 bytes head nhOff).value = parseV6 bytes head nhOff := by
  have hoff : (BitVec.ofNat 16 nhOff + 40 : U16).toNat = nhOff + 40 := by
    have h40 : (40 : U16).toNat = 40 := rfl
    rw [BitVec.toNat_add, BitVec.toNat_ofNat, h40]
    omega
  have hreach : InReach (BitVec.ofNat 16 nhOff + 40) 0 := by
    refine ⟨?_, Nat.zero_le _⟩
    rw [hoff]
    omega
  unfold traceV6 parseV6
  rw [value_reject_bind, load, value_bind, value_log, Option.bind_some, value_reject_bind, load16, value_bind,
    value_log, Option.bind_some, value_reject_bind]
  dsimp only
  split_ifs with h1 h2 h3
  · rfl
  · rfl
  · rfl
  · rw [loads, value_bind, value_log, Option.bind_some, load, value_bind, value_log, Option.bind_some, add16,
      value_bind, value_log, Option.bind_some, value_bind, traceExt_value _ _ _ _ _ hreach, hoff]
    have hzero : (0 : U16).toNat = 0 := rfl
    rw [hzero]
    cases walkExt bytes head (nhOff + 40 + be16At bytes (nhOff + 4)) ipv6MaxExtHdrs (byteAt bytes (nhOff + 6))
      (nhOff + 40) 0 with
    | fragment => rfl
    | outOfScope => rfl
    | upper nexthdr off =>
      show (reject _ >>= _).value = _
      rw [value_reject_bind, traceL4_value]

theorem tracePkt_value (protocol : U16) {nhOff : ℕ} (hnh : nhOff ≤ 14) :
    (tracePkt bytes head protocol nhOff).value = parsePkt bytes head protocol nhOff := by
  unfold tracePkt parsePkt
  split_ifs
  · exact traceV4_value bytes head hnh
  · exact traceV6_value bytes head hnh
  · rfl

/-! ### Every access is in bounds -/

/-- A read below the linear end and below that of the network layer, where there is one; a sum of 16 bits. -/
def Access.Good (head : ℕ) (l3End : Option ℕ) : Access → Prop
  | .load i => i < head ∧ ∀ l3 ∈ l3End, i < l3
  | .sum n => n < 2 ^ 16

theorem good_load {head i : ℕ} {l3End : Option ℕ} (h : i < head) (hl3 : ∀ l3 ∈ l3End, i < l3) :
    ∀ a ∈ [Access.load i], a.Good head l3End := by
  intro a ha
  obtain rfl := List.mem_singleton.mp ha
  exact ⟨h, hl3⟩

theorem good_load16 {head i : ℕ} {l3End : Option ℕ} (h : i + 1 < head) (hl3 : ∀ l3 ∈ l3End, i + 1 < l3) :
    ∀ a ∈ [Access.load i, Access.load (i + 1)], a.Good head l3End := by
  refine List.forall_mem_cons.mpr ⟨⟨by omega, fun l3 h => ?_⟩, good_load h hl3⟩
  have hlt := hl3 l3 h
  omega

theorem good_loads {head i n : ℕ} {l3End : Option ℕ} (h : i + n ≤ head) (hl3 : ∀ l3 ∈ l3End, i + n ≤ l3) :
    ∀ a ∈ (List.range' i n).map Access.load, a.Good head l3End := by
  intro a ha
  obtain ⟨j, hj, rfl⟩ := List.mem_map.mp ha
  rw [List.mem_range'_1] at hj
  refine ⟨by omega, fun l3 h => ?_⟩
  have hle := hl3 l3 h
  omega

theorem good_sum {head n : ℕ} {l3End : Option ℕ} (h : n < 2 ^ 16) :
    ∀ a ∈ [Access.sum n], a.Good head l3End := by
  intro a ha
  obtain rfl := List.mem_singleton.mp ha
  exact h

theorem good_of_le {i l3End : ℕ} (h : i < l3End) : ∀ l3 ∈ some l3End, i < l3 := by
  intro l3 hl3
  obtain rfl := Option.some.inj hl3
  exact h

theorem traceL4_good (l3End : ℕ) (p : FluxPkt) :
    All (Access.Good head (some l3End)) (traceL4 bytes head l3End p) := by
  unfold traceL4
  split_ifs
  · refine all_reject fun h1 => all_reject fun h2 => ?_
    exact all_log_bind (good_load (by omega) (good_of_le (by omega))) (all_pure _)
  · exact all_reject fun h1 => all_reject fun h2 => all_pure _
  · exact all_stop

theorem traceExt_good (l3End n : ℕ) (nexthdr : U8) {off extBytes : U16} (h : InReach off extBytes) :
    All (Access.Good head (some l3End)) (traceExt bytes head l3End n nexthdr off extBytes) := by
  induction n generalizing nexthdr off extBytes with
  | zero => exact all_pure _
  | succ n ih =>
    unfold traceExt
    split_ifs
    · exact all_pure _
    · exact all_reject fun h1 => all_reject fun h2 => all_pure _
    · obtain ⟨hsum, hoff⟩ := h.sum_lt (byteAt bytes (off.toNat + 1))
      rw [← optLen_toNat] at hsum hoff
      refine all_reject fun h1 => all_reject fun h2 => all_reject fun h3 => ?_
      refine all_log_bind (good_load (by omega) (good_of_le (by omega))) ?_
      refine all_log_bind (good_sum hsum) (all_reject fun h4 => all_reject fun h5 => ?_)
      refine all_log_bind (good_load (by omega) (good_of_le (by omega))) ?_
      exact all_log_bind (good_sum hoff) (ih _ (h.next hsum hoff (Nat.not_lt.mp h4)))

/-- Where the network layer ends, if its header declares a length that the parser accepts. -/
def layer3End (protocol : U16) (nhOff : ℕ) : Option ℕ :=
  if protocol = ethPIp then
    let ihlBytes := (byteAt bytes nhOff &&& 0x0f).toNat * 4
    let totalLen := be16At bytes (nhOff + 2)
    if ihlBytes < 20 ∨ totalLen < ihlBytes ∨ bytes.length < nhOff + totalLen then none else some (nhOff + totalLen)
  else if protocol = ethPIpv6 then
    let payloadLen := be16At bytes (nhOff + 4)
    if payloadLen = 0 ∨ bytes.length < nhOff + 40 + payloadLen then none else some (nhOff + 40 + payloadLen)
  else none

theorem layer3End_v4 {nhOff l3 : ℕ} (h : l3 ∈ layer3End bytes ethPIp nhOff) :
    l3 = nhOff + be16At bytes (nhOff + 2) ∧ nhOff + 20 ≤ l3 := by
  rw [layer3End, if_pos rfl] at h
  dsimp only at h
  split_ifs at h
  · cases h
  · have hl3 := Option.some.inj h
    omega

theorem layer3End_v6 {nhOff l3 : ℕ} (h : l3 ∈ layer3End bytes ethPIpv6 nhOff) :
    l3 = nhOff + 40 + be16At bytes (nhOff + 4) := by
  rw [layer3End, if_neg (by decide), if_pos rfl] at h
  dsimp only at h
  split_ifs at h
  · cases h
  · exact (Option.some.inj h).symm

theorem traceV4_good {nhOff : ℕ} (hnh : nhOff ≤ 14) :
    All (Access.Good head (layer3End bytes ethPIp nhOff)) (traceV4 bytes head nhOff) := by
  have hl3 : ∀ {i}, i < nhOff + 20 → ∀ l3 ∈ layer3End bytes ethPIp nhOff, i < l3 := by
    intro i hi l3 h
    have hend := (layer3End_v4 bytes h).2
    omega
  unfold traceV4
  refine all_reject fun h1 => all_log_bind (good_load (by omega) (hl3 (by omega))) ?_
  refine all_reject fun h2 => all_reject fun h3 => all_log_bind (good_load16 (by omega) (hl3 (by omega))) ?_
  refine all_reject fun h4 => all_reject fun h5 => ?_
  refine all_log_bind (good_loads (by omega) fun l3 h => ?_) ?_
  · exact (layer3End_v4 bytes h).2
  refine all_log_bind (good_load16 (by omega) (hl3 (by omega))) ?_
  split_ifs
  · exact all_pure _
  · refine all_log_bind (good_load (by omega) (hl3 (by omega))) (all_log_bind (good_sum ?_) ?_)
    · rw [BitVec.toNat_ofNat, BitVec.toNat_ofNat]
      omega
    · refine (traceL4_good bytes head _ _).mono fun a ha => ?_
      cases a with
      | load i =>
        refine ⟨ha.1, fun l3 h => ?_⟩
        rw [(layer3End_v4 bytes h).1]
        exact ha.2 _ rfl
      | sum n => exact ha

theorem traceV6_good {nhOff : ℕ} (hnh : nhOff ≤ 14) :
    All (Access.Good head (layer3End bytes ethPIpv6 nhOff)) (traceV6 bytes head nhOff) := by
  have hl3 : ∀ {i}, i < nhOff + 40 → ∀ l3 ∈ layer3End bytes ethPIpv6 nhOff, i < l3 := by
    intro i hi l3 h
    have hend := layer3End_v6 bytes h
    omega
  have hmono : ∀ a : Access, a.Good head (some (nhOff + 40 + be16At bytes (nhOff + 4))) →
      a.Good head (layer3End bytes ethPIpv6 nhOff) := by
    intro a ha
    cases a with
    | load i =>
      refine ⟨ha.1, fun l3 h => ?_⟩
      rw [layer3End_v6 bytes h]
      exact ha.2 _ rfl
    | sum n => exact ha
  have hoff : (BitVec.ofNat 16 nhOff + 40 : U16).toNat = nhOff + 40 := by
    have h40 : (40 : U16).toNat = 40 := rfl
    rw [BitVec.toNat_add, BitVec.toNat_ofNat, h40]
    omega
  have hreach : InReach (BitVec.ofNat 16 nhOff + 40) 0 := by
    refine ⟨?_, Nat.zero_le _⟩
    rw [hoff]
    omega
  unfold traceV6
  refine all_reject fun h1 => all_log_bind (good_load (by omega) (hl3 (by omega))) ?_
  refine all_reject fun h2 => all_log_bind (good_load16 (by omega) (hl3 (by omega))) ?_
  refine all_reject fun h3 => all_log_bind (good_loads (by omega) fun l3 h => ?_) ?_
  · have hend := layer3End_v6 bytes h
    omega
  refine all_log_bind (good_load (by omega) (hl3 (by omega))) (all_log_bind (good_sum ?_) ?_)
  · have h40 : (40 : U16).toNat = 40 := rfl
    rw [BitVec.toNat_ofNat, h40]
    omega
  refine All.bind ((traceExt_good bytes head _ _ _ hreach).mono hmono) fun walk _ => ?_
  cases walk with
  | fragment => exact all_pure _
  | outOfScope => exact all_stop
  | upper nexthdr off => exact all_reject fun h4 => (traceL4_good bytes head _ _).mono hmono

theorem tracePkt_good (protocol : U16) {nhOff : ℕ} (hnh : nhOff ≤ 14) :
    All (Access.Good head (layer3End bytes protocol nhOff)) (tracePkt bytes head protocol nhOff) := by
  unfold tracePkt
  by_cases h4 : protocol = ethPIp
  · rw [if_pos h4, h4]
    exact traceV4_good bytes head hnh
  · rw [if_neg h4]
    by_cases h6 : protocol = ethPIpv6
    · rw [if_pos h6, h6]
      exact traceV6_good bytes head hnh
    · rw [if_neg h6]
      exact all_stop

end Traces

/-! ### A pulled head is as good as the whole packet -/

section Linear

variable {bytes : List U8} {head : ℕ}

/-- What `pull_headers` leaves linear at least. -/
structure Pulled (bytes : List U8) (head : ℕ) : Prop where
  ge : min maxPullBytes bytes.length ≤ head
  le : head ≤ bytes.length

theorem Pulled.lt_iff (h : Pulled bytes head) {x : ℕ} (hx : x ≤ 330) : head < x ↔ bytes.length < x := by
  have hge := h.ge
  have hle := h.le
  have hmax : maxPullBytes = 330 := rfl
  omega

theorem parseL4_linear (h : Pulled bytes head) (l3End : ℕ) {p : FluxPkt} (hp : p.l4Off ≤ 310) :
    parseL4 bytes head l3End p = parseL4 bytes bytes.length l3End p := by
  unfold parseL4
  simp only [h.lt_iff (show p.l4Off + 20 ≤ 330 by omega), h.lt_iff (show p.l4Off + 8 ≤ 330 by omega)]

theorem walkExt_linear (h : Pulled bytes head) (l3End n : ℕ) (nexthdr : U8) {off extBytes : ℕ}
    (hoff : off ≤ 54 + extBytes) (hext : extBytes ≤ 256) :
    walkExt bytes head l3End n nexthdr off extBytes =
      walkExt bytes bytes.length l3End n nexthdr off extBytes := by
  induction n generalizing nexthdr off extBytes with
  | zero => rfl
  | succ n ih =>
    unfold walkExt
    simp only [h.lt_iff (show off + 8 ≤ 330 by omega), h.lt_iff (show off + 2 ≤ 330 by omega)]
    split_ifs with h1 h2 h3 h4 h5 h6 h7 h8 h9
    all_goals first
      | rfl
      | exact ih _ (by omega) (Nat.not_lt.mp h8)

/-- The transport header starts early. -/
theorem walkExt_upper_le (l3End n : ℕ) {nexthdr upper : U8} {off extBytes e : ℕ}
    (hoff : off ≤ 54 + extBytes) (hext : extBytes ≤ 256)
    (h : walkExt bytes head l3End n nexthdr off extBytes = .upper upper e) : e ≤ 310 := by
  induction n generalizing nexthdr off extBytes with
  | zero =>
    obtain ⟨-, rfl⟩ := ExtWalk.upper.inj h
    omega
  | succ n ih =>
    unfold walkExt at h
    dsimp only at h
    split_ifs at h with h1 h2 h3 h4 h5 h6 h7 h8 h9
    · obtain ⟨-, rfl⟩ := ExtWalk.upper.inj h
      omega
    · exact ih (by omega) (Nat.not_lt.mp h8) h

theorem parsePkt_linear (h : Pulled bytes head) (protocol : U16) {nhOff : ℕ} (hnh : nhOff ≤ 14) :
    parsePkt bytes head protocol nhOff = parsePkt bytes bytes.length protocol nhOff := by
  unfold parsePkt
  by_cases h4 : protocol = ethPIp
  · rw [if_pos h4, if_pos h4]
    unfold parseV4
    simp only [h.lt_iff (show nhOff + 20 ≤ 330 by omega)]
    split_ifs with h1 h2 h3
    all_goals first
      | rfl
      | exact parseL4_linear h _ (by dsimp only; omega)
  · rw [if_neg h4, if_neg h4]
    by_cases h6 : protocol = ethPIpv6
    · rw [if_pos h6, if_pos h6]
      unfold parseV6
      simp only [h.lt_iff (show nhOff + 40 ≤ 330 by omega)]
      split_ifs with h1 h2 h3
      · rfl
      · rfl
      · rfl
      · rw [walkExt_linear h _ _ _ (by omega) (Nat.zero_le _)]
        cases hwalk : walkExt bytes bytes.length (nhOff + 40 + be16At bytes (nhOff + 4)) ipv6MaxExtHdrs
          (byteAt bytes (nhOff + 6)) (nhOff + 40) 0 with
        | fragment => rfl
        | outOfScope => rfl
        | upper nexthdr off =>
          have hoff := walkExt_upper_le _ _ (by omega) (Nat.zero_le _) hwalk
          dsimp only
          rw [parseL4_linear h _ hoff]
    · rw [if_neg h6, if_neg h6]

end Linear

/-! ### The results -/

section Results

variable {bytes : List U8} {head : ℕ}

/-- A fragment without a transport header, or a whole transport header inside the network layer. -/
def FluxPkt.Exclusive (p : FluxPkt) (l3End : ℕ) : Prop :=
  p.fragment = true ∧ p.haveL4 = false ∨
    p.fragment = false ∧ p.haveL4 = true ∧
      (p.l4proto = ipprotoTcp ∧ p.l4Off + 20 ≤ l3End ∨ p.l4proto = ipprotoUdp ∧ p.l4Off + 8 ≤ l3End)

theorem parseL4_some {l3End : ℕ} {p q : FluxPkt} (h : parseL4 bytes head l3End p = some q) :
    q.fragment = p.fragment ∧ q.haveL4 = true ∧ q.l4proto = p.l4proto ∧ q.l4Off = p.l4Off ∧
      (p.l4proto = ipprotoTcp ∧ p.l4Off + 20 ≤ l3End ∧
        q.tcpSyn = (byteAt bytes (p.l4Off + 13) &&& 0x02 != 0) ∧
        q.tcpAck = (byteAt bytes (p.l4Off + 13) &&& 0x10 != 0) ∨
      p.l4proto = ipprotoUdp ∧ p.l4Off + 8 ≤ l3End) := by
  unfold parseL4 at h
  dsimp only at h
  split_ifs at h with htcp h1 h2 hudp h3 h4
  · obtain rfl := Option.some.inj h
    exact ⟨rfl, rfl, rfl, rfl, .inl ⟨htcp, by omega, rfl, rfl⟩⟩
  · obtain rfl := Option.some.inj h
    exact ⟨rfl, rfl, rfl, rfl, .inr ⟨hudp, by omega⟩⟩

theorem parseL4_exclusive {l3End : ℕ} {p q : FluxPkt} (h : parseL4 bytes head l3End p = some q)
    (hp : p.fragment = false) : q.Exclusive l3End := by
  obtain ⟨hfrag, hhave, hproto, hoff, hcase⟩ := parseL4_some h
  refine .inr ⟨hfrag.trans hp, hhave, ?_⟩
  rw [hproto, hoff]
  rcases hcase with ⟨htcp, hle, -⟩ | ⟨hudp, hle⟩
  · exact .inl ⟨htcp, hle⟩
  · exact .inr ⟨hudp, hle⟩

theorem parsePkt_exclusive {protocol : U16} {nhOff : ℕ} {q : FluxPkt}
    (h : parsePkt bytes head protocol nhOff = some q) :
    ∃ l3End, layer3End bytes protocol nhOff = some l3End ∧ q.Exclusive l3End := by
  unfold parsePkt at h
  unfold layer3End
  by_cases h4 : protocol = ethPIp
  · rw [if_pos h4] at h ⊢
    unfold parseV4 at h
    dsimp only at h ⊢
    split_ifs at h with h1 h2 h3 h5 h6 h7
    · rw [if_neg (by omega)]
      obtain rfl := Option.some.inj h
      exact ⟨_, rfl, .inl ⟨rfl, rfl⟩⟩
    · rw [if_neg (by omega)]
      exact ⟨_, rfl, parseL4_exclusive h rfl⟩
  · rw [if_neg h4] at h ⊢
    by_cases h6 : protocol = ethPIpv6
    · rw [if_pos h6] at h ⊢
      unfold parseV6 at h
      dsimp only at h ⊢
      split_ifs at h with h1 h2 h3
      rw [if_neg h3]
      refine ⟨_, rfl, ?_⟩
      cases hwalk : walkExt bytes head (nhOff + 40 + be16At bytes (nhOff + 4)) ipv6MaxExtHdrs
        (byteAt bytes (nhOff + 6)) (nhOff + 40) 0 with
      | fragment =>
        rw [hwalk] at h
        obtain rfl := Option.some.inj h
        exact .inl ⟨rfl, rfl⟩
      | outOfScope =>
        rw [hwalk] at h
        cases h
      | upper nexthdr off =>
        rw [hwalk] at h
        dsimp only at h
        split_ifs at h
        exact parseL4_exclusive h rfl
    · rw [if_neg h6] at h
      cases h

/-! ### The extension chain on its own terms -/

/-- The length an option header declares. -/
def optLen (bytes : List U8) (off : ℕ) : ℕ := ((byteAt bytes (off + 1)).toNat + 1) * 8

/-- From `off` on, options of the lengths `lens` lead to the header `upper` at `e`. -/
inductive ExtChain (bytes : List U8) (l3End : ℕ) : U8 → ℕ → List ℕ → U8 → ℕ → Prop
  | nil (nexthdr : U8) (off : ℕ) : ExtChain bytes l3End nexthdr off [] nexthdr off
  | cons {nexthdr upper : U8} {off e : ℕ} {lens : List ℕ}
      (kind : nexthdr = ipprotoHopopts ∨ nexthdr = ipprotoRouting ∨ nexthdr = ipprotoDstopts)
      (whole : off + optLen bytes off ≤ l3End)
      (rest : ExtChain bytes l3End (byteAt bytes off) (off + optLen bytes off) lens upper e) :
      ExtChain bytes l3End nexthdr off (optLen bytes off :: lens) upper e

/-- At most four headers, of at most 256 bytes before the last, and the last one whole. -/
def ChainEnds (l3End : ℕ) (lens : List ℕ) (upper : U8) (e : ℕ) : Prop :=
  lens.sum ≤ ipv6MaxExtBytes ∧
    (upper = ipprotoFragment ∧ lens.length + 1 ≤ ipv6MaxExtHdrs ∧ e + 8 ≤ l3End ∨
      upper = ipprotoTcp ∧ lens.length ≤ ipv6MaxExtHdrs ∧ e + 20 ≤ l3End ∨
      upper = ipprotoUdp ∧ lens.length ≤ ipv6MaxExtHdrs ∧ e + 8 ≤ l3End)

theorem extKind_iff {nexthdr : U8} :
    (nexthdr = ipprotoHopopts ∨ nexthdr = ipprotoRouting ∨ nexthdr = ipprotoDstopts) ↔
      ¬ (nexthdr ≠ ipprotoHopopts ∧ nexthdr ≠ ipprotoRouting ∧ nexthdr ≠ ipprotoDstopts) := by
  constructor
  · rintro (h | h | h) ⟨h1, h2, h3⟩
    · exact h1 h
    · exact h2 h
    · exact h3 h
  · intro h
    by_contra hnone
    rw [not_or, not_or] at hnone
    exact h hnone

/-- A chain ends at once where the header is none of the options. -/
theorem ExtChain.of_end {l3End : ℕ} {nexthdr upper : U8} {off e : ℕ} {lens : List ℕ}
    (h : ExtChain bytes l3End nexthdr off lens upper e)
    (hend : nexthdr = ipprotoTcp ∨ nexthdr = ipprotoUdp ∨ nexthdr = ipprotoFragment) :
    lens = [] ∧ upper = nexthdr ∧ e = off := by
  cases h with
  | nil => exact ⟨rfl, rfl, rfl⟩
  | cons kind whole rest =>
    rcases hend with rfl | rfl | rfl
    all_goals
      exfalso
      revert kind
      decide

/-- One round of the walk over the whole packet, in an option header. -/
theorem walkExt_option {l3End n : ℕ} {nexthdr : U8} {off extBytes : ℕ} (hl3 : l3End ≤ bytes.length)
    (kind : nexthdr = ipprotoHopopts ∨ nexthdr = ipprotoRouting ∨ nexthdr = ipprotoDstopts)
    (whole : off + optLen bytes off ≤ l3End) (hsum : extBytes + optLen bytes off ≤ ipv6MaxExtBytes) :
    walkExt bytes bytes.length l3End (n + 1) nexthdr off extBytes =
      walkExt bytes bytes.length l3End n (byteAt bytes off) (off + optLen bytes off)
        (extBytes + optLen bytes off) := by
  have hupper : ¬ (nexthdr = ipprotoTcp ∨ nexthdr = ipprotoUdp) := by
    rcases kind with rfl | rfl | rfl <;> decide
  have hfrag : ¬ nexthdr = ipprotoFragment := by
    rcases kind with rfl | rfl | rfl <;> decide
  have hlen : 8 ≤ optLen bytes off := by
    unfold optLen
    omega
  conv_lhs => unfold walkExt
  rw [if_neg hupper, if_neg hfrag, if_neg (extKind_iff.mp kind), if_neg (by omega), if_neg (by omega)]
  show (if ipv6MaxExtBytes < extBytes + optLen bytes off then _ else
    if l3End < off + optLen bytes off then _ else _) = _
  rw [if_neg (by omega), if_neg (by omega)]
  rfl

/-- A walk that does not leave scope has either ended here or passed one option. -/
theorem walkExt_cases {l3End n : ℕ} {nexthdr : U8} {off extBytes : ℕ} {walk : ExtWalk}
    (h : walkExt bytes bytes.length l3End (n + 1) nexthdr off extBytes = walk) (hscope : walk ≠ .outOfScope) :
    ((nexthdr = ipprotoTcp ∨ nexthdr = ipprotoUdp) ∧ walk = .upper nexthdr off) ∨
      (nexthdr = ipprotoFragment ∧ off + 8 ≤ l3End ∧ walk = .fragment) ∨
      ((nexthdr = ipprotoHopopts ∨ nexthdr = ipprotoRouting ∨ nexthdr = ipprotoDstopts) ∧
        off + optLen bytes off ≤ l3End ∧ extBytes + optLen bytes off ≤ ipv6MaxExtBytes ∧
        walkExt bytes bytes.length l3End n (byteAt bytes off) (off + optLen bytes off)
          (extBytes + optLen bytes off) = walk) := by
  unfold walkExt at h
  by_cases hupper : nexthdr = ipprotoTcp ∨ nexthdr = ipprotoUdp
  · rw [if_pos hupper] at h
    exact .inl ⟨hupper, h.symm⟩
  · rw [if_neg hupper] at h
    by_cases hfrag : nexthdr = ipprotoFragment
    · rw [if_pos hfrag] at h
      split_ifs at h with h1 h2
      · exact absurd h.symm hscope
      · exact absurd h.symm hscope
      · exact .inr (.inl ⟨hfrag, Nat.not_lt.mp h1, h.symm⟩)
    · rw [if_neg hfrag] at h
      dsimp only at h
      split_ifs at h with h1 h2 h3 h4 h5
      · exact absurd h.symm hscope
      · exact absurd h.symm hscope
      · exact absurd h.symm hscope
      · exact absurd h.symm hscope
      · exact absurd h.symm hscope
      · exact .inr (.inr ⟨extKind_iff.mpr h1, Nat.not_lt.mp h5, Nat.not_lt.mp h4, h⟩)

/-- **The walk is the chain**: it reaches a transport header or a fragment exactly along a chain of options
that is short enough. -/
theorem walkExt_upper_iff {l3End n : ℕ} (hl3 : l3End ≤ bytes.length) {nexthdr upper : U8} {off extBytes e : ℕ}
    (hupper : upper = ipprotoTcp ∨ upper = ipprotoUdp) (hext : extBytes ≤ ipv6MaxExtBytes) :
    walkExt bytes bytes.length l3End n nexthdr off extBytes = .upper upper e ↔
      ∃ lens, ExtChain bytes l3End nexthdr off lens upper e ∧ lens.length ≤ n ∧
        extBytes + lens.sum ≤ ipv6MaxExtBytes := by
  induction n generalizing nexthdr off extBytes with
  | zero =>
    constructor
    · intro h
      obtain ⟨rfl, rfl⟩ := ExtWalk.upper.inj h
      exact ⟨[], .nil _ _, le_refl _, hext⟩
    · rintro ⟨lens, hchain, hlen, -⟩
      obtain rfl := List.eq_nil_of_length_eq_zero (Nat.le_zero.mp hlen)
      cases hchain
      rfl
  | succ n ih =>
    constructor
    · intro h
      rcases walkExt_cases h (by intro hout; cases hout) with ⟨-, hwalk⟩ | ⟨-, -, hwalk⟩ | ⟨kind, whole, hsum, hrest⟩
      · obtain ⟨rfl, rfl⟩ := ExtWalk.upper.inj hwalk
        exact ⟨[], .nil _ _, Nat.zero_le _, hext⟩
      · cases hwalk
      · obtain ⟨lens, hchain, hlen, hle⟩ := (ih hsum).mp hrest
        refine ⟨_, .cons kind whole hchain, Nat.succ_le_succ hlen, ?_⟩
        rwa [List.sum_cons, ← Nat.add_assoc]
    · rintro ⟨lens, hchain, hlen, hle⟩
      cases hchain with
      | nil =>
        unfold walkExt
        rw [if_pos hupper]
      | cons kind whole rest =>
        rw [List.sum_cons, ← Nat.add_assoc] at hle
        rw [walkExt_option hl3 kind whole (by omega)]
        exact (ih (by omega)).mpr ⟨_, rest, Nat.le_of_succ_le_succ hlen, hle⟩

theorem walkExt_fragment_iff {l3End n : ℕ} (hl3 : l3End ≤ bytes.length) {nexthdr : U8} {off extBytes : ℕ}
    (hext : extBytes ≤ ipv6MaxExtBytes) :
    walkExt bytes bytes.length l3End n nexthdr off extBytes = .fragment ↔
      ∃ lens e, ExtChain bytes l3End nexthdr off lens ipprotoFragment e ∧ lens.length + 1 ≤ n ∧
        extBytes + lens.sum ≤ ipv6MaxExtBytes ∧ e + 8 ≤ l3End := by
  induction n generalizing nexthdr off extBytes with
  | zero =>
    constructor
    · intro h
      cases h
    · rintro ⟨lens, e, -, hlen, -⟩
      exact absurd hlen (Nat.not_succ_le_zero _)
  | succ n ih =>
    constructor
    · intro h
      rcases walkExt_cases h (by intro hout; cases hout) with ⟨-, hwalk⟩ | ⟨rfl, hend, -⟩ | ⟨kind, whole, hsum, hrest⟩
      · cases hwalk
      · exact ⟨[], off, .nil _ _, Nat.succ_le_succ (Nat.zero_le _), hext, hend⟩
      · obtain ⟨lens, e, hchain, hlen, hle, hend⟩ := (ih hsum).mp hrest
        refine ⟨_, e, .cons kind whole hchain, Nat.succ_le_succ hlen, ?_, hend⟩
        rwa [List.sum_cons, ← Nat.add_assoc]
    · rintro ⟨lens, e, hchain, hlen, hle, hend⟩
      cases hchain with
      | nil =>
        unfold walkExt
        rw [if_neg (by decide), if_pos rfl, if_neg (by omega), if_neg (by omega)]
      | cons kind whole rest =>
        rw [List.sum_cons, ← Nat.add_assoc] at hle
        rw [walkExt_option hl3 kind whole (by omega)]
        exact (ih (by omega)).mpr ⟨_, e, rest, Nat.le_of_succ_le_succ hlen, hle, hend⟩

/-- The parser accepts a transport header exactly where it is whole. -/
theorem parseL4_isSome {l3End : ℕ} (hl3 : l3End ≤ bytes.length) (p : FluxPkt) :
    (parseL4 bytes bytes.length l3End p).isSome ↔
      p.l4proto = ipprotoTcp ∧ p.l4Off + 20 ≤ l3End ∨ p.l4proto = ipprotoUdp ∧ p.l4Off + 8 ≤ l3End := by
  constructor
  · intro h
    obtain ⟨q, hq⟩ := Option.isSome_iff_exists.mp h
    obtain ⟨-, -, -, -, hcase⟩ := parseL4_some hq
    rcases hcase with ⟨htcp, hle, -⟩ | hudp
    · exact .inl ⟨htcp, hle⟩
    · exact .inr hudp
  · rintro (⟨htcp, hle⟩ | ⟨hudp, hle⟩)
    · unfold parseL4
      rw [if_pos htcp, if_neg (by omega), if_neg (by omega)]
      rfl
    · have htcp : ¬ p.l4proto = ipprotoTcp := by
        rw [hudp]
        decide
      unfold parseL4
      rw [if_neg htcp, if_pos hudp, if_neg (by omega), if_neg (by omega)]
      rfl

/-- **When the parser accepts an IPv6 packet.** -/
theorem parseV6_isSome {nhOff : ℕ} : (parseV6 bytes bytes.length nhOff).isSome ↔
    byteAt bytes nhOff >>> 4 = 6 ∧ be16At bytes (nhOff + 4) ≠ 0 ∧
      nhOff + 40 + be16At bytes (nhOff + 4) ≤ bytes.length ∧
      ∃ lens upper e, ExtChain bytes (nhOff + 40 + be16At bytes (nhOff + 4)) (byteAt bytes (nhOff + 6)) (nhOff + 40)
        lens upper e ∧ ChainEnds (nhOff + 40 + be16At bytes (nhOff + 4)) lens upper e := by
  constructor
  · intro h
    unfold parseV6 at h
    dsimp only at h
    split_ifs at h with h1 h2 h3
    · cases h
    · cases h
    · cases h
    · refine ⟨not_not.mp h2, by omega, by omega, ?_⟩
      cases hwalk : walkExt bytes bytes.length (nhOff + 40 + be16At bytes (nhOff + 4)) ipv6MaxExtHdrs
        (byteAt bytes (nhOff + 6)) (nhOff + 40) 0 with
      | fragment =>
        obtain ⟨lens, e, hchain, hlen, hsum, hend⟩ :=
          (walkExt_fragment_iff (by omega) (Nat.zero_le _)).mp hwalk
        exact ⟨lens, ipprotoFragment, e, hchain, by omega, .inl ⟨rfl, hlen, hend⟩⟩
      | outOfScope =>
        rw [hwalk] at h
        cases h
      | upper nexthdr off =>
        rw [hwalk] at h
        dsimp only at h
        split_ifs at h with h4
        · cases h
        · have hproto : nexthdr = ipprotoTcp ∨ nexthdr = ipprotoUdp := by
            rw [not_and_or, not_not, not_not] at h4
            exact h4
          obtain ⟨lens, hchain, hlen, hsum⟩ := (walkExt_upper_iff (by omega) hproto (Nat.zero_le _)).mp hwalk
          rcases (parseL4_isSome (by omega) _).mp h with ⟨htcp, hle⟩ | ⟨hudp, hle⟩
          · exact ⟨lens, nexthdr, off, hchain, by omega, .inr (.inl ⟨htcp, hlen, hle⟩)⟩
          · exact ⟨lens, nexthdr, off, hchain, by omega, .inr (.inr ⟨hudp, hlen, hle⟩)⟩
  · rintro ⟨hversion, hpayload, hfits, lens, upper, e, hchain, hsum, hend⟩
    unfold parseV6
    dsimp only
    rw [if_neg (by omega), if_neg (not_not.mpr hversion), if_neg (by omega)]
    rcases hend with ⟨rfl, hlen, hle⟩ | ⟨rfl, hlen, hle⟩ | ⟨rfl, hlen, hle⟩
    · rw [(walkExt_fragment_iff hfits (Nat.zero_le _)).mpr ⟨lens, e, hchain, hlen, by omega, hle⟩]
      rfl
    · rw [(walkExt_upper_iff hfits (.inl rfl) (Nat.zero_le _)).mpr ⟨lens, hchain, hlen, by omega⟩]
      dsimp only
      rw [if_neg (by decide)]
      exact (parseL4_isSome hfits _).mpr (.inl ⟨rfl, hle⟩)
    · rw [(walkExt_upper_iff hfits (.inr rfl) (Nat.zero_le _)).mpr ⟨lens, hchain, hlen, by omega⟩]
      dsimp only
      rw [if_neg (by decide)]
      exact (parseL4_isSome hfits _).mpr (.inr ⟨rfl, hle⟩)

end Results

/-- **The bounds of the parser**: the first 330 bytes decide; every byte it reads is below the linear end and,
where the header declares a length that is accepted, below the end of the network layer, and no 16-bit sum wraps;
what it returns is a fragment or a whole transport header inside the network layer; and it accepts an IPv6 packet
exactly along a short chain of options that ends in a whole Fragment, TCP or UDP header. -/
theorem parser_bounds (bytes : List U8) (protocol : U16) {nhOff : ℕ} (hnh : nhOff = 0 ∨ nhOff = 14) :
    (tracePkt bytes (min maxPullBytes bytes.length) protocol nhOff).value =
      (tracePkt bytes bytes.length protocol nhOff).value ∧
    (∀ head, All (Access.Good head (layer3End bytes protocol nhOff)) (tracePkt bytes head protocol nhOff)) ∧
    (∀ head q, (tracePkt bytes head protocol nhOff).value = some q →
      ∃ l3End, layer3End bytes protocol nhOff = some l3End ∧ q.Exclusive l3End) ∧
    (protocol = ethPIpv6 → ((tracePkt bytes bytes.length protocol nhOff).value.isSome ↔
      byteAt bytes nhOff >>> 4 = 6 ∧ be16At bytes (nhOff + 4) ≠ 0 ∧
        nhOff + 40 + be16At bytes (nhOff + 4) ≤ bytes.length ∧
        ∃ lens upper e, ExtChain bytes (nhOff + 40 + be16At bytes (nhOff + 4)) (byteAt bytes (nhOff + 6))
          (nhOff + 40) lens upper e ∧ ChainEnds (nhOff + 40 + be16At bytes (nhOff + 4)) lens upper e)) := by
  have hle : nhOff ≤ 14 := by omega
  refine ⟨?_, fun head => tracePkt_good bytes head protocol hle, fun head q h => ?_, fun h6 => ?_⟩
  · have hpulled : Pulled bytes (min maxPullBytes bytes.length) := ⟨le_refl _, Nat.min_le_right _ _⟩
    rw [tracePkt_value _ _ _ hle, tracePkt_value _ _ _ hle, parsePkt_linear hpulled protocol hle]
  · rw [tracePkt_value _ _ _ hle] at h
    exact parsePkt_exclusive h
  · rw [tracePkt_value _ _ _ hle, h6, parsePkt, if_neg (by decide), if_pos rfl]
    exact parseV6_isSome

/-- An Ethernet frame with an IPv6 header of this first byte and an empty UDP datagram. -/
def udpFrame (first : U8) : List U8 :=
  List.replicate 14 0 ++ [first, 0, 0, 0, 0, 8, 17, 64] ++ List.replicate 40 0

theorem udpFrame_chain (first : U8) : ∃ lens upper e,
    ExtChain (udpFrame first) (14 + 40 + be16At (udpFrame first) 18) (byteAt (udpFrame first) 20) 54 lens upper e ∧
      ChainEnds (14 + 40 + be16At (udpFrame first) 18) lens upper e := by
  have hbytes : byteAt (udpFrame first) 18 = 0 ∧ byteAt (udpFrame first) 19 = 8 ∧
      byteAt (udpFrame first) 20 = ipprotoUdp := ⟨rfl, rfl, rfl⟩
  obtain ⟨h18, h19, hnexthdr⟩ := hbytes
  have hpayload : be16At (udpFrame first) 18 = 8 := by
    rw [be16At, h18, h19]
    rfl
  rw [hpayload, hnexthdr]
  exact ⟨[], ipprotoUdp, 54, .nil _ _, Nat.zero_le _, .inr (.inr ⟨rfl, Nat.zero_le _, by omega⟩)⟩

theorem parser_bounds_udp : (tracePkt (udpFrame 0x60) (udpFrame 0x60).length ethPIpv6 14).value.isSome ∧
    All (Access.Good 60 (layer3End (udpFrame 0x60) ethPIpv6 14)) (tracePkt (udpFrame 0x60) 60 ethPIpv6 14) := by
  have hbounds := parser_bounds (udpFrame 0x60) ethPIpv6 (.inr rfl)
  exact ⟨(hbounds.2.2.2 rfl).mpr ⟨by decide, by decide, by decide, udpFrame_chain 0x60⟩, hbounds.2.1 60⟩

/-- A frame whose chain is right and whose version is 4 is refused, and the first byte of an IPv4 header is read
even where the header declares a length of nothing. -/
theorem version_and_length_matter :
    (¬ ∀ bytes, (tracePkt bytes bytes.length ethPIpv6 14).value.isSome ↔
      be16At bytes 18 ≠ 0 ∧ 14 + 40 + be16At bytes 18 ≤ bytes.length ∧
        ∃ lens upper e, ExtChain bytes (14 + 40 + be16At bytes 18) (byteAt bytes 20) 54 lens upper e ∧
          ChainEnds (14 + 40 + be16At bytes 18) lens upper e) ∧
    ¬ ∀ bytes i, Access.load i ∈ (tracePkt bytes bytes.length ethPIp 14).trace → i < 14 + be16At bytes 16 := by
  constructor
  · intro h
    have hsome := (h (udpFrame 0x40)).mpr ⟨by decide, by decide, udpFrame_chain 0x40⟩
    exact absurd hsome (by decide)
  · intro h
    have hlt := h (List.replicate 14 0 ++ [0x45] ++ List.replicate 19 0) 14 (by decide)
    exact absurd hlt (by decide)

end FluxRs.Bpf
