import FluxRs.Bpf.CapCore

/-!
# FluxRs.Bpf.Admission — the classifier admits what the epoch captures

A bank written from an epoch, with the snapshot that names it, makes `cap_core` decide a new flow as
`observe_new_flow` does: first SYNs and datagrams are handed off, fragments are dropped, and all else
stays on the device's own path.
-/

namespace FluxRs.Bpf

open FluxRs.Lib FluxRs.Net FluxRs.Dataplane
open Std (ExtTreeMap ExtTreeSet)

/-- `CidrMode as u16`. -/
def cidrModeU16 : CidrMode → U16
  | .blacklist => 0
  | .whitelist => cidrWhitelist

/-- The stored prefixes with their tags as bytes. -/
def trieOf {w : ℕ} (map : BypassMap w) : List (Entry (BitVec w) U8) :=
  (entries map).map fun e => ⟨e.len, e.net, e.tag.asU8⟩

/-- The bank that holds an epoch. -/
def bankOf (epoch : PolicyEpoch) : Bank where
  uidPolicy := uidModesFromEpoch epoch
  bypassV4 := trieOf epoch.bypassV4
  bypassV6 := trieOf epoch.bypassV6
  selfAddrV4 := epoch.selfV4
  selfAddrV6 := epoch.selfV6

/-- A kernel trie returns the value of the longest stored prefix. -/
def LongestMatch (lpmLookup : ∀ w, List (Entry (BitVec w) U8) → BitVec w → Option U8) : Prop :=
  ∀ w (trie : List (Entry (BitVec w) U8)) (addr : BitVec w),
    DistinctKeys trie → IsLongest maskAddr trie addr (lpmLookup w trie addr)

/-- An epoch as its type documents it: no UID is both selected and draining. -/
structure StoredEpoch where
  epoch : PolicyEpoch
  disjoint : ∀ uid ∈ epoch.selected, uid ∉ epoch.draining

/-- What a commit stores is such an epoch. -/
def StoredEpoch.committed (from' desired : PolicyEpoch) : StoredEpoch where
  epoch := Net.committed from' desired
  disjoint _ hsel hdrain := (mem_committed_draining.mp hdrain).2 hsel

/-! ### The policy maps -/

theorem getElem?_foldl_insert {v : U8} {uid : U32} (l : List U32) (m : ExtTreeMap U32 U8) :
    (l.foldl (fun m x => m.insert x v) m)[uid]? = if uid ∈ l then some v else m[uid]? := by
  induction l generalizing m with
  | nil => simp
  | cons x l ih =>
    rw [List.foldl_cons, ih, ExtTreeMap.getElem?_insert]
    by_cases hl : uid ∈ l
    · rw [if_pos hl, if_pos (List.mem_cons_of_mem _ hl)]
    · rw [if_neg hl]
      by_cases hx : x = uid
      · rw [if_pos (by rw [Std.compare_eq_iff_eq]; exact hx), if_pos (by rw [hx]; exact List.mem_cons_self)]
      · rw [if_neg (by rwa [Std.compare_eq_iff_eq]), if_neg]
        intro hin
        rcases List.mem_cons.mp hin with heq | hin
        · exact hx heq.symm
        · exact hl hin

/-- The mode of a UID in the bank of an epoch. -/
theorem uidMode_bankOf (ep : StoredEpoch) (uid : U32) :
    (bankOf ep.epoch).uidPolicy[uid]? =
      if uid ∈ ep.epoch.selected then some UidMode.selected.asU8
      else if uid ∈ ep.epoch.draining then some UidMode.draining.asU8 else none := by
  show (uidModesFromEpoch ep.epoch)[uid]? = _
  unfold uidModesFromEpoch
  simp only
  rw [getElem?_foldl_insert, getElem?_foldl_insert]
  simp only [ExtTreeSet.mem_toList]
  by_cases hsel : uid ∈ ep.epoch.selected
  · rw [if_neg (ep.disjoint uid hsel), if_pos hsel, if_pos hsel]
  · rw [if_neg hsel, if_neg hsel]
    rfl

section Bypass

variable {lpmLookup : ∀ w, List (Entry (BitVec w) U8) → BitVec w → Option U8}

theorem distinctKeys_trieOf {w : ℕ} (map : BypassMap w) : DistinctKeys (trieOf map) := by
  intro e he e' he' hlen hnet
  obtain ⟨x, hx, rfl⟩ := List.mem_map.mp he
  obtain ⟨x', hx', rfl⟩ := List.mem_map.mp he'
  rw [entries_distinctKeys map x hx x' hx' hlen hnet]

/-- The trie of a bypass map answers as the linear scan of the model. -/
theorem lpmLookup_trieOf (h : LongestMatch lpmLookup) {w : ℕ} (map : BypassMap w) (addr : BitVec w) :
    lpmLookup w (trieOf map) addr = (lpmScan map addr).map BypassTag.asU8 := by
  have hscan : IsLongest maskAddr (trieOf map) addr ((lpmScan map addr).map BypassTag.asU8) :=
    (lpmScan_isLongest map addr).map BypassTag.asU8 Function.injective_id fun _ _ => rfl
  exact (h w (trieOf map) addr (distinctKeys_trieOf map)).unique (distinctKeys_trieOf map) hscan

theorem bypassTag_eq (h : LongestMatch lpmLookup) {w : ℕ} {mode : CidrMode} {c : FluxControl}
    (hmode : c.cidrMode = cidrModeU16 mode) (self : AddrSet w) (map : BypassMap w) (addr : BitVec w) :
    (match bypassTag lpmLookup self (trieOf map) addr with
      | none => true
      | some tag =>
        if tag = BypassTag.reserved.asU8 then true
        else if c.cidrMode = cidrWhitelist then decide (tag = 0)
        else decide (tag ≠ 0)) = PolicyEpoch.directIn mode self map addr := by
  unfold bypassTag PolicyEpoch.directIn
  cases self.contains addr with
  | true => rfl
  | false =>
    rw [lpmLookup_trieOf h, hmode]
    rcases lpmScan map addr with _ | tag
    · cases mode <;> rfl
    · cases tag <;> cases mode <;> rfl

theorem bypassHit_bankOf (h : LongestMatch lpmLookup) {epoch : PolicyEpoch} {c : FluxControl}
    (hmode : c.cidrMode = cidrModeU16 epoch.cidrMode) (p : FluxPkt) :
    bypassHit lpmLookup (bankOf epoch) c p = epoch.bypassDirect p.dest := by
  unfold bypassHit
  cases p.dest with
  | v4 addr => exact bypassTag_eq h hmode epoch.selfV4 epoch.bypassV4 addr
  | v6 addr => exact bypassTag_eq h hmode epoch.selfV6 epoch.bypassV6 addr

end Bypass

/-! ### New flows -/

/-- The live snapshot is active and names a bank that holds the epoch. -/
structure Serving (maps : Maps) (root : Option FluxControl) (ep : StoredEpoch) (c : FluxControl) :
    Prop where
  root : root = some c
  magic : c.abiMagic = abiMagic
  active : c.active ≠ 0
  cidrMode : c.cidrMode = cidrModeU16 ep.epoch.cidrMode
  bank : maps.live c = bankOf ep.epoch

/-- A packet of a socket that the classifier can identify, as far as it can be read. -/
structure Readable (skb : SkBuff) (l3 : Bool) (env : Helpers) (p : FluxPkt) : Prop where
  identified : identified skb l3 = true
  parsed : ∃ head, pullHeaders env skb = some head ∧
    parsePkt skb.bytes head skb.protocol (if l3 then 0 else ethHlen) = some p

/-- A first SYN, or a datagram. -/
def FluxPkt.opens (p : FluxPkt) : Prop :=
  p.l4proto = ipprotoTcp ∧ p.tcpSyn = true ∧ p.tcpAck = false ∨ p.l4proto = ipprotoUdp

/-- Storage is allocated and the packet reaches the peer. -/
structure Delivers (env : Helpers) : Prop where
  created : env.createNull = false
  head : env.changeHead = true
  stored : env.storeBytes = true
  redirected : env.redirected = true

theorem handoff_of_delivers {env : Helpers} (h : Delivers env) (c : FluxControl) (l3 : Bool) :
    handoff env c l3 = .redirect c.flxrs0Ifindex := by
  unfold handoff
  rw [h.head, h.stored, h.redirected]
  cases l3 <;> rfl

section Admission

variable {lpmLookup : ∀ w, List (Entry (BitVec w) U8) → BitVec w → Option U8}
  {maps : Maps} {root : Option FluxControl} {ep : StoredEpoch} {c : FluxControl} {skb : SkBuff}
  {l3 : Bool} {env : Helpers} {p : FluxPkt}

/-- A UID in neither mode leaves at E1. -/
theorem capCore_unlisted (hs : Serving maps root ep c) (hsel : skb.uid ∉ ep.epoch.selected)
    (hdrain : skb.uid ∉ ep.epoch.draining) :
    (capCore lpmLookup maps root none skb l3 env).1 = .unspec := by
  have hc : ctrl root = some c := by rw [hs.root, ctrl, Option.filter_some, hs.magic]; rfl
  have hmode : (maps.live c).uidPolicy[skb.uid]? = none := by
    rw [hs.bank, uidMode_bankOf, if_neg hsel, if_neg hdrain]
  unfold capCore
  rw [hc]
  simp only [hmode]
  split <;> rfl

/-- A socket without a decision, once its UID has a mode. -/
theorem capCore_undecided (hs : Serving maps root ep c) (hid : identified skb l3 = true) {mode : U8}
    (hmode : (maps.live c).uidPolicy[skb.uid]? = some mode) :
    (capCore lpmLookup maps root none skb l3 env).1 =
      match undecided lpmLookup (maps.live c) env c mode skb l3 with
      | .done act => act
      | .create cand =>
        if env.createNull then .unspec else obeyWinner env c l3 cand := by
  have hc : ctrl root = some c := by rw [hs.root, ctrl, Option.filter_some, hs.magic]; rfl
  unfold capCore
  rw [hid, hc]
  simp only [hmode, Bool.not_true, Bool.false_eq_true, if_false]
  cases undecided lpmLookup (maps.live c) env c mode skb l3 with
  | done act => rfl
  | create cand =>
    unfold createDecision
    cases env.createNull <;> rfl

theorem not_selected_of_draining {uid : U32} (hsel : uid ∉ ep.epoch.selected) (dest : Dest) :
    ep.epoch.observeNewFlow uid dest ≠ .captured := by
  rw [Ne, PolicyEpoch.observeNewFlow_eq_captured_iff]
  exact fun h => hsel h.1

/-- **Admission**: with the listener alive a first SYN or a datagram is handed off exactly if the epoch
captures it, and a fragment is dropped exactly then; otherwise the classifier steps aside. -/
theorem capCore_admission (hlpm : LongestMatch lpmLookup) (hs : Serving maps root ep c)
    (hr : Readable skb l3 env p) :
    (p.fragment = false → p.opens → listenerAlive env c p.dest p.l4proto = true → Delivers env →
      (capCore lpmLookup maps root none skb l3 env).1 =
        if ep.epoch.observeNewFlow skb.uid p.dest = .captured then .redirect c.flxrs0Ifindex
        else .unspec) ∧
    (p.fragment = true → (capCore lpmLookup maps root none skb l3 env).1 =
      if ep.epoch.observeNewFlow skb.uid p.dest = .captured then .shot else .unspec) := by
  obtain ⟨head, hpull, hparse⟩ := hr.parsed
  have hmode := uidMode_bankOf ep skb.uid
  rw [← hs.bank] at hmode
  have hbypass : bypassHit lpmLookup (maps.live c) c p = ep.epoch.bypassDirect p.dest := by
    rw [hs.bank]
    exact bypassHit_bankOf hlpm hs.cidrMode p
  have hwhole := parsePkt_whole _ _ hparse
  by_cases hsel : skb.uid ∈ ep.epoch.selected
  · rw [if_pos hsel] at hmode
    have hobs : ep.epoch.observeNewFlow skb.uid p.dest = .captured ↔
        ep.epoch.bypassDirect p.dest = false := by
      rw [PolicyEpoch.observeNewFlow_eq_captured_iff]
      exact and_iff_right hsel
    rw [capCore_undecided hs hr.identified hmode]
    simp only [hobs]
    refine ⟨fun hfrag hopens hlisten hdel => ?_, fun hfrag => ?_⟩
    · obtain ⟨hl4, -⟩ := hwhole hfrag
      have hhand := handoff_of_delivers hdel c l3
      unfold undecided
      simp only [hpull, hparse, hfrag, hl4, hbypass, Bool.false_eq_true, if_false, Bool.not_true]
      rcases hopens with ⟨htcp, hsyn, hack⟩ | hudp
      · -- the decision is created, and obeyed
        simp only [htcp, hsyn, hack, if_true, Bool.not_false, Bool.and_true, Bool.not_true,
          Bool.false_eq_true, if_false, hdel.created]
        rw [htcp] at hlisten
        cases hb : ep.epoch.bypassDirect p.dest with
        | true =>
          have hcand : candidate lpmLookup (maps.live c) env c UidMode.selected.asU8 p =
              ⟨decisionMagic, decDirect, 0, 0⟩ := if_neg fun h => by
            rw [hbypass, hb] at h
            exact absurd h.2.2.1 (by decide)
          rw [hcand]
          rfl
        | false =>
          have hcand : candidate lpmLookup (maps.live c) env c UidMode.selected.asU8 p =
              ⟨decisionMagic, decCaptured, 0, c.generation⟩ :=
            if_pos ⟨rfl, hs.active, hbypass.trans hb, hlisten⟩
          rw [hcand, ← hhand]
          unfold obeyWinner
          dsimp only
          rw [if_neg (by decide : ¬ decCaptured = decDirect), if_neg (fun h => h rfl), if_neg hs.active,
            if_neg (fun h => h rfl)]
          rfl
      · have hnot : p.l4proto ≠ ipprotoTcp := by
          rw [hudp]
          decide
        rw [hudp] at hlisten
        simp only [hnot, if_false, ne_eq, not_true_eq_false, hs.active, hlisten, Bool.not_true,
          Bool.false_eq_true]
        cases hb : ep.epoch.bypassDirect p.dest with
        | true => rfl
        | false => exact hhand
    · unfold undecided
      simp only [hpull, hparse, hfrag, hbypass, if_true, hs.active, ne_eq, not_false_eq_true, and_self]
      cases ep.epoch.bypassDirect p.dest <;> rfl
  · rw [if_neg hsel] at hmode
    have hobs := not_selected_of_draining hsel p.dest
    rw [if_neg hobs, if_neg hobs]
    by_cases hdrain : skb.uid ∈ ep.epoch.draining
    · rw [if_pos hdrain] at hmode
      have hne : ¬ UidMode.draining.asU8 = UidMode.selected.asU8 := by decide
      rw [capCore_undecided hs hr.identified hmode]
      refine ⟨fun hfrag hopens _ _ => ?_, fun hfrag => ?_⟩
      · obtain ⟨hl4, -⟩ := hwhole hfrag
        unfold undecided
        simp only [hpull, hparse, hfrag, hl4, Bool.false_eq_true, if_false, Bool.not_true]
        rcases hopens with ⟨htcp, hsyn, hack⟩ | hudp
        · have hcand : candidate lpmLookup (maps.live c) env c UidMode.draining.asU8 p =
              ⟨decisionMagic, decDirect, 0, 0⟩ := if_neg fun h => hne h.1
          simp only [htcp, hsyn, hack, if_true, Bool.not_false, Bool.and_true, Bool.not_true,
            Bool.false_eq_true, if_false, hcand]
          cases env.createNull <;> rfl
        · have hnot : p.l4proto ≠ ipprotoTcp := by
            rw [hudp]
            decide
          simp only [hnot, if_false, ne_eq, hne, not_false_eq_true, if_true]
      · unfold undecided
        simp only [hpull, hparse, hfrag, if_true, hne, false_and, if_false]
        cases bypassHit lpmLookup (maps.live c) c p <;> rfl
    · rw [capCore_unlisted hs hsel hdrain]
      exact ⟨fun _ _ _ _ => rfl, fun _ => rfl⟩

end Admission

/-! ### A first SYN of a selected app -/

/-- A kernel trie as one pass over its prefixes. -/
def scanLookup (w : ℕ) (trie : List (Entry (BitVec w) U8)) (addr : BitVec w) : Option U8 :=
  scan maskAddr trie addr

theorem scanLookup_longestMatch : LongestMatch scanLookup :=
  fun _ trie addr _ => scan_isLongest trie addr

/-- One selected app, one bypassed prefix and no self address. -/
def selectedEpoch : StoredEpoch :=
  .committed (.new .blacklist) { PolicyEpoch.new .blacklist with
    selected := .collect [10123]
    bypassV4 := .collect [(outerPrefix, .reserved)] }

def activeControl : FluxControl where
  abiMagic := abiMagic
  active := 1
  generation := 5
  flxrs0Ifindex := 7
  listenPortV4 := 61001
  listenPortV6 := 61002
  listenV4 := listenV4
  probeRemoteV4 := 0xc0000201
  probeRemotePort := 9
  cidrMode := 0
  listenV6 := listenV6
  probeRemoteV6 := 0x20010db8ffff00000000000000000001
  policyBank := 0

/-- The bank that is not live holds nothing. -/
def selectedMaps : Maps := ⟨bankOf selectedEpoch.epoch, bankOf (.new .blacklist)⟩

/-- A SYN to 8.8.8.8, with no link layer in front. -/
def synSkb : SkBuff where
  protocol := ethPIp
  vlanPresent := false
  sk := some ⟨true⟩
  uid := 10123
  bytes := [0x45, 0, 0, 40, 0, 0, 0, 0, 64, 6, 0, 0, 10, 0, 0, 1, 8, 8, 8, 8,
    0xc0, 0, 0, 80, 0, 0, 0, 1, 0, 0, 0, 0, 0x50, 0x02, 0, 0, 0, 0, 0, 0]

/-- Every helper succeeds, and the listeners are where the snapshot says. -/
def allSucceed : Helpers where
  pulled := some 0
  lookup t _ := some ⟨bpfTcpListen, t.listen, t.listenPort.setWidth 32⟩
  createNull := false
  changeHead := true
  storeBytes := true
  redirected := true

def synPkt : FluxPkt := ⟨.v4 0x08080808, false, true, ipprotoTcp, 20, true, false⟩

theorem capCore_admission_syn :
    (capCore scanLookup selectedMaps (some activeControl) none synSkb true allSucceed).1 =
      .redirect 7 := by
  have hserving : Serving selectedMaps (some activeControl) selectedEpoch activeControl :=
    ⟨rfl, rfl, by decide, rfl, rfl⟩
  have hreadable : Readable synSkb true allSucceed synPkt := ⟨by decide, 40, by decide, by decide⟩
  have h := (capCore_admission scanLookup_longestMatch hserving hreadable).1 rfl
    (.inl ⟨rfl, rfl, rfl⟩) (by decide) ⟨rfl, rfl, rfl, rfl⟩
  rw [h]
  exact if_pos (by decide)

end FluxRs.Bpf
