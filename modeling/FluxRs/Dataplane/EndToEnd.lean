import FluxRs.Dataplane.Commits
import FluxRs.Kmod.Reserved

/-!
# FluxRs.Dataplane.EndToEnd — from an accepted configuration to the verdict of the hook

`parse_cidrs` of `config.rs`, the bypass assembly of `read_policy_config`, the two ioctls and the
hook, against `observe_new_flow` of the assembled epoch.  The reserved prefixes are enforced twice:
by masks that run first in the hook, and as entries of one longest-prefix match with the user's.
-/

namespace FluxRs.Dataplane

open FluxRs.Lib FluxRs.Net FluxRs.Kmod
open Std (ExtTreeMap ExtTreeSet)

/-! ### The configuration -/

/-- An entry of the CIDR list whose text is a canonical prefix of one family. -/
inductive CidrEntry where
  | v4 (cidr : Ipv4Cidr)
  | v6 (cidr : Ipv6Cidr)
  deriving DecidableEq

/-- The errors of `parse_cidrs` after every text has been read. -/
inductive ConfigError where
  | duplicateBypass (entry : CidrEntry)
  | tooManyBypassV4 (count : ℕ)
  | tooManyBypassV6 (count : ℕ)
  deriving DecidableEq

/-- The loop of `parse_cidrs`; canonical texts are equal exactly when the prefixes are. -/
def collectCidrs (seen : List CidrEntry) (v4 : List Ipv4Cidr) (v6 : List Ipv6Cidr) :
    List CidrEntry → Except ConfigError (List Ipv4Cidr × List Ipv6Cidr)
  | [] => .ok (v4, v6)
  | entry :: rest =>
    if entry ∈ seen then .error (.duplicateBypass entry)
    else match entry with
      | .v4 cidr => collectCidrs (entry :: seen) (v4 ++ [cidr]) v6 rest
      | .v6 cidr => collectCidrs (entry :: seen) v4 (v6 ++ [cidr]) rest

def parseCidrs (raw : List CidrEntry) : Except ConfigError (List Ipv4Cidr × List Ipv6Cidr) :=
  match collectCidrs [] [] [] raw with
  | .error err => .error err
  | .ok (v4, v6) =>
    if lpmMaxEntries < v4.length + fixedBypassV4.length then .error (.tooManyBypassV4 v4.length)
    else if lpmMaxEntries < v6.length + fixedBypassV6.length then .error (.tooManyBypassV6 v6.length)
    else .ok (v4, v6)

/-- What the policy reads of `flux.toml`. -/
structure FluxConfig where
  appsMode : ListMode
  cidrMode : ListMode
  bypassV4 : List Ipv4Cidr
  bypassV6 : List Ipv6Cidr
  interfacesMode : ListMode
  interfaces : List String

/-- The prefixes are ones the parser accepts together. -/
def FluxConfig.Accepted (flux : FluxConfig) : Prop :=
  ∃ raw, parseCidrs raw = .ok (flux.bypassV4, flux.bypassV6)

theorem FluxConfig.Accepted.capacity {flux : FluxConfig} (h : flux.Accepted) :
    flux.bypassV4.length + fixedBypassV4.length ≤ lpmMaxEntries ∧
      flux.bypassV6.length + fixedBypassV6.length ≤ lpmMaxEntries := by
  obtain ⟨raw, h⟩ := h
  unfold parseCidrs at h
  split at h
  · cases h
  · split_ifs at h with h4 h6
    cases h
    omega

section Assembly

variable {w : ℕ}

/-- User policy first, so that an exact duplicate is forced back to `RESERVED`. -/
def bypassKeys (user fixed : List (Cidr w)) : KeyMap w :=
  fixed.foldl (fun m c => m.insert c.toLpmKey .reserved)
    (user.foldl (fun m c => m.insert c.toLpmKey .policy) ∅)

end Assembly

/-- `read_policy_config` after the UIDs were resolved. -/
def readPolicyConfig (flux : FluxConfig) (selectedUids : UidSet) : DesiredPolicy where
  appsMode := flux.appsMode
  cidrMode := flux.cidrMode
  interfacesMode := flux.interfacesMode
  interfaces := ExtTreeSet.ofList flux.interfaces
  selectedUids := selectedUids
  bypassV4 := bypassKeys flux.bypassV4 fixedBypassV4
  bypassV6 := bypassKeys flux.bypassV6 fixedBypassV6

/-! ### The assembled map -/

section Lookup

variable {w : ℕ}

theorem toLpmKey_injective (hw : w < 256) : Function.Injective (Cidr.toLpmKey (w := w)) := by
  intro c c' h
  rw [← LpmKey.toCidr_toLpmKey hw c, ← LpmKey.toCidr_toLpmKey hw c', h]

theorem getElem?_bypassKeys (hw : w < 256) (user fixed : List (Cidr w)) (c : Cidr w) :
    (bypassKeys user fixed)[c.toLpmKey]? =
      if c ∈ fixed then some .reserved else if c ∈ user then some .policy else none := by
  unfold bypassKeys
  rw [getElem?_foldl_insert (toLpmKey_injective hw), getElem?_foldl_insert (toLpmKey_injective hw),
    ExtTreeMap.getElem?_empty]

theorem mem_foldl_insert {v : BypassTag} {key : LpmKey w} : ∀ {l : List (Cidr w)} {m : KeyMap w},
    key ∈ l.foldl (fun m c => m.insert c.toLpmKey v) m → key ∈ m ∨ ∃ c : Cidr w, c.toLpmKey = key
  | [], _, h => .inl h
  | c :: cs, m, h => by
    rcases mem_foldl_insert (l := cs) h with hm | hc
    · rcases ExtTreeMap.mem_insert.mp hm with heq | hm
      · exact .inr ⟨c, Std.compare_eq_iff_eq.mp heq⟩
      · exact .inl hm
    · exact .inr hc

theorem key_of_mem_bypassKeys {user fixed : List (Cidr w)} {key : LpmKey w}
    (h : key ∈ bypassKeys user fixed) : ∃ c : Cidr w, c.toLpmKey = key := by
  rcases mem_foldl_insert h with h | h
  · rcases mem_foldl_insert h with h | h
    · simp at h
    · exact h
  · exact h

theorem size_foldl_insertKey_le {v : BypassTag} : ∀ (l : List (Cidr w)) (m : KeyMap w),
    (l.foldl (fun m c => m.insert c.toLpmKey v) m).size ≤ m.size + l.length
  | [], m => by simp
  | c :: cs, m => by
    have h := size_foldl_insertKey_le (v := v) cs (m.insert c.toLpmKey v)
    have h' := ExtTreeMap.size_insert_le (t := m) (k := c.toLpmKey) (v := v)
    simp only [List.foldl_cons, List.length_cons]
    omega

theorem size_bypassKeys_le (user fixed : List (Cidr w)) :
    (bypassKeys user fixed).size ≤ user.length + fixed.length := by
  have h := size_foldl_insertKey_le (v := .reserved) fixed
    (user.foldl (fun m c => m.insert c.toLpmKey .policy) ∅)
  have h' := size_foldl_insertKey_le (v := .policy) user (∅ : KeyMap w)
  unfold bypassKeys
  simp only [ExtTreeMap.size_empty] at h'
  omega

/-- A map whose keys come from prefixes is read back prefix by prefix. -/
theorem getElem?_toBypass (hw : w < 256) {m : KeyMap w}
    (hkeys : ∀ key ∈ m, ∃ c : Cidr w, c.toLpmKey = key) (c : Cidr w) :
    (KeyMap.toBypass m)[c]? = m[c.toLpmKey]? := by
  have hback : ∀ kt ∈ m.toList, kt.1.toCidr.toLpmKey = kt.1 := by
    intro kt hkt
    have hmem := ExtTreeMap.mem_toList_iff_getElem?_eq_some.mp hkt
    obtain ⟨c', hc'⟩ := hkeys kt.1 (ExtTreeMap.mem_iff_isSome_getElem?.mpr (by simp [hmem]))
    rw [← hc', LpmKey.toCidr_toLpmKey hw]
  unfold KeyMap.toBypass BypassMap.collect
  cases h : m[c.toLpmKey]? with
  | none =>
    refine ExtTreeMap.getElem?_ofList_of_contains_eq_false ?_
    rw [List.contains_eq_mem, decide_eq_false_iff_not]
    simp only [List.map_map, List.mem_map, Function.comp]
    rintro ⟨kt, hkt, rfl⟩
    rw [hback kt hkt, ExtTreeMap.mem_toList_iff_getElem?_eq_some.mp hkt] at h
    cases h
  | some t =>
    refine ExtTreeMap.getElem?_ofList_of_mem (k := c) (Std.compare_eq_iff_eq.mpr rfl) ?_ ?_
    · rw [List.pairwise_map]
      refine ExtTreeMap.distinct_keys_toList.imp_of_mem fun {a b} ha hb hne heq => hne ?_
      have hcidr : a.1.toCidr = b.1.toCidr := Std.compare_eq_iff_eq.mp heq
      rw [← hback a ha, ← hback b hb, hcidr]
      exact Std.compare_eq_iff_eq.mpr rfl
    · rw [List.mem_map]
      exact ⟨(c.toLpmKey, t), ExtTreeMap.mem_toList_iff_getElem?_eq_some.mpr h,
        by rw [LpmKey.toCidr_toLpmKey hw]⟩

theorem getElem?_assembled (hw : w < 256) (user fixed : List (Cidr w)) (c : Cidr w) :
    (KeyMap.toBypass (bypassKeys user fixed))[c]? =
      if c ∈ fixed then some .reserved else if c ∈ user then some .policy else none := by
  rw [getElem?_toBypass hw fun key hk => key_of_mem_bypassKeys hk, getElem?_bypassKeys hw]

/-- Every listed prefix is an entry, and every entry is a listed prefix under its tag. -/
theorem mem_entries_assembled (hw : w < 256) {user fixed : List (Cidr w)}
    {en : Entry (BitVec w) BypassTag} :
    en ∈ entries (KeyMap.toBypass (bypassKeys user fixed)) ↔
      (∃ f ∈ fixed, entryOf (f, .reserved) = en) ∨
        ∃ c ∈ user, c ∉ fixed ∧ entryOf (c, .policy) = en := by
  simp only [mem_entries, getElem?_assembled hw]
  constructor
  · rintro ⟨c, t, hc, rfl⟩
    split_ifs at hc with hf hu
    · cases hc
      exact .inl ⟨c, hf, rfl⟩
    · cases hc
      exact .inr ⟨c, hu, hf, rfl⟩
  · rintro (⟨f, hf, rfl⟩ | ⟨c, hu, hf, rfl⟩)
    · exact ⟨f, .reserved, by simp [hf], rfl⟩
    · exact ⟨c, .policy, by simp [hf, hu], rfl⟩

theorem contains_unique {c c' : Cidr w} {addr : BitVec w} (h : c.contains addr = true)
    (h' : c'.contains addr = true) (hlen : c.prefixLen = c'.prefixLen) : c = c' := by
  simp only [Cidr.contains, beq_iff_eq] at h h'
  exact Cidr.eq_of_fields (by rw [← h, ← h', hlen]) hlen

/-- The user's prefix decides exactly when it is strictly longer than every reserved one there. -/
theorem lpmScan_policy_iff (hw : w < 256) (user fixed : List (Cidr w)) (addr : BitVec w) :
    lpmScan (KeyMap.toBypass (bypassKeys user fixed)) addr = some .policy ↔
      ∃ c ∈ user, c.contains addr = true ∧
        ∀ f ∈ fixed, f.contains addr = true → f.prefixLen < c.prefixLen := by
  have hlong := lpmScan_isLongest (KeyMap.toBypass (bypassKeys user fixed)) addr
  have hmem : ∀ en, en ∈ entries (KeyMap.toBypass (bypassKeys user fixed)) ↔
      (∃ f ∈ fixed, entryOf (f, .reserved) = en) ∨
        ∃ c ∈ user, c ∉ fixed ∧ entryOf (c, .policy) = en := fun _ => mem_entries_assembled hw
  constructor
  · intro heq
    rw [heq] at hlong
    obtain ⟨en, hen, hcov, htag, hmax⟩ := hlong
    rcases (hmem en).mp hen with ⟨f, -, rfl⟩ | ⟨c, hu, hnf, rfl⟩
    · cases htag
    · rw [covers_entryOf] at hcov
      refine ⟨c, hu, hcov, fun f hf hfa => lt_of_le_of_ne ?_ fun hlen => hnf ?_⟩
      · exact hmax _ ((hmem _).mpr (.inl ⟨f, hf, rfl⟩)) ((covers_entryOf _ _ _).mpr hfa)
      · rwa [← contains_unique hfa hcov hlen]
  · rintro ⟨c, hu, hca, hlonger⟩
    have hnf : c ∉ fixed := fun hf => absurd (hlonger c hf hca) (lt_irrefl _)
    have hc : entryOf (c, .policy) ∈ entries (KeyMap.toBypass (bypassKeys user fixed)) :=
      (hmem _).mpr (.inr ⟨c, hu, hnf, rfl⟩)
    cases hscan : lpmScan (KeyMap.toBypass (bypassKeys user fixed)) addr with
    | none =>
      rw [hscan] at hlong
      exact absurd ((covers_entryOf _ _ _).mpr hca) (hlong _ hc)
    | some t =>
      rw [hscan] at hlong
      obtain ⟨en, hen, hcov, rfl, hmax⟩ := hlong
      rcases (hmem en).mp hen with ⟨f, hf, rfl⟩ | ⟨c', -, -, rfl⟩
      · -- a reserved winner would be as long as `c`
        have hle : c.prefixLen ≤ f.prefixLen := hmax _ hc ((covers_entryOf _ _ _).mpr hca)
        exact absurd (hlonger f hf ((covers_entryOf _ _ _).mp hcov)) (not_lt.mpr hle)
      · rfl

theorem lpmScan_ne_none (hw : w < 256) (user : List (Cidr w)) {fixed : List (Cidr w)}
    {addr : BitVec w} {f : Cidr w} (hf : f ∈ fixed) (hfa : f.contains addr = true) :
    lpmScan (KeyMap.toBypass (bypassKeys user fixed)) addr ≠ none := by
  intro hnone
  have hlong := lpmScan_isLongest (KeyMap.toBypass (bypassKeys user fixed)) addr
  rw [hnone] at hlong
  exact hlong _ ((mem_entries_assembled hw).mpr (.inl ⟨f, hf, rfl⟩)) ((covers_entryOf _ _ _).mpr hfa)

/-- A reserved destination that the model captures all the same: in whitelist direction, not a self
address, and under a user prefix longer than the reserved ones around it. -/
structure Shadowed (cidrMode : ListMode) (user fixed : List (Cidr w)) (own : AddrSet w)
    (addr : BitVec w) : Prop where
  mode : cidrMode = .whitelist
  notSelf : addr ∉ own
  reserved : ∃ f ∈ fixed, f.contains addr = true
  nested : ∃ c ∈ user, c.contains addr = true ∧
    ∀ f ∈ fixed, f.contains addr = true → f.prefixLen < c.prefixLen

theorem directIn_reserved_iff (hw : w < 256) {cidrMode : ListMode} {user fixed : List (Cidr w)}
    {own : AddrSet w} {addr : BitVec w} (hres : ∃ f ∈ fixed, f.contains addr = true) :
    PolicyEpoch.directIn cidrMode.toCidrMode own (KeyMap.toBypass (bypassKeys user fixed)) addr =
      false ↔ Shadowed cidrMode user fixed own addr := by
  obtain ⟨f, hf, hfa⟩ := hres
  have hsome := lpmScan_ne_none hw user hf hfa
  have hpolicy := lpmScan_policy_iff hw user fixed addr
  unfold PolicyEpoch.directIn
  by_cases hself : addr ∈ own
  · rw [if_pos (ExtTreeSet.contains_iff_mem.mpr hself)]
    exact ⟨fun h => absurd h (by simp), fun h => absurd hself h.notSelf⟩
  · rw [if_neg fun h => hself (ExtTreeSet.contains_iff_mem.mp h)]
    generalize lpmScan (KeyMap.toBypass (bypassKeys user fixed)) addr = r at hsome hpolicy
    match r with
    | none => exact absurd rfl hsome
    | some .reserved => exact ⟨fun h => absurd h (by simp), fun h => by cases hpolicy.mpr h.nested⟩
    | some .policy =>
      have hnested := hpolicy.mp rfl
      cases cidrMode with
      | blacklist => exact ⟨fun h => absurd h (by simp [ListMode.toCidrMode]), fun h => by cases h.mode⟩
      | whitelist => exact ⟨fun _ => ⟨rfl, hself, ⟨f, hf, hfa⟩, hnested⟩, fun _ => rfl⟩

end Lookup

/-! ### The commit of an accepted configuration -/

variable (e : Endian) (srt : Sorter)

theorem moduleUidTable_ok {uids : List U32} (h : uids.length ≤ uidSlotMax) :
    moduleUidTable srt {} uids = .ok (uidTable srt (uidsBody uids)) := by
  have hcount : (uidsBody uids).count.toNat ≤ uidSlotMax := by
    simp only [uidsBody, BitVec.toNat_ofNat]
    exact (Nat.mod_le _ _).trans h
  unfold moduleUidTable setUidsTable
  simp [Nat.not_lt.mpr h, Nat.not_lt.mpr hcount]

/-- With memory at hand the kernel takes every admitted epoch. -/
theorem commitKernel_ok (k : Kernel) (from' : PolicyEpoch) {next : PolicyEpoch} (hadm : Admitted next)
    (hsel : next.selected.size ≤ uidSlotMax) :
    ∃ s table, commitKernel e srt {} k from' next = (.ok (), (k.setBypass s).setUids table) ∧
      Represents next s ∧ table.Pairwise (· < ·) ∧
      ∀ uid, uid ∈ table ↔ uid ∈ next.selected ∧ AppUid uid := by
  obtain ⟨s, hset, hrep⟩ := moduleSetBypass_admitted e srt k hadm
  have htable : moduleUidTable srt {} next.selected.toList =
      .ok (uidTable srt (uidsBody next.selected.toList)) :=
    moduleUidTable_ok srt (by rwa [ExtTreeSet.length_toList])
  obtain ⟨hsorted, hmem⟩ := moduleUidTable_spec srt htable
  refine ⟨s, _, ?_, hrep, hsorted, fun uid => by rw [hmem, ExtTreeSet.mem_toList]⟩
  unfold commitKernel
  rw [hset, htable]

theorem admitted_readPolicyConfig {flux : FluxConfig} (hflux : flux.Accepted) (uids : UidSet)
    {own4 : AddrSet 32} {own6 : AddrSet 128} (h4 : own4.size ≤ selfAddrMaxEntries)
    (h6 : own6.size ≤ selfAddrMaxEntries) (from' : PolicyEpoch) :
    Admitted (committed from' (desiredEpoch (readPolicyConfig flux uids) own4 own6)) := by
  obtain ⟨hv4, hv6⟩ := hflux.capacity
  have hs4 := size_bypassKeys_le flux.bypassV4 fixedBypassV4
  have hs6 := size_bypassKeys_le flux.bypassV6 fixedBypassV6
  exact
    { v4 := (size_toBypass_le _).trans (hs4.trans hv4)
      v6 := (size_toBypass_le _).trans (hs6.trans hv6)
      self4 := h4
      self6 := h6 }

/-- The destinations on which hook and model differ, for a selected UID. -/
def FluxConfig.Shadows (flux : FluxConfig) (own4 : AddrSet 32) (own6 : AddrSet 128) : Dest → Prop
  | .v4 addr => Shadowed flux.cidrMode flux.bypassV4 fixedBypassV4 own4 addr
  | .v6 addr => Shadowed flux.cidrMode flux.bypassV6 fixedBypassV6 own6 addr

/-- The masks of the hook and the epoch differ only where a user prefix shadows a reserved one. -/
theorem reserved_bypassDirect_iff {l : Listeners} (h : AbiListeners e l) (flux : FluxConfig)
    (uids : UidSet) (own4 : AddrSet 32) (own6 : AddrSet 128) (dest : Dest) :
    reservedDest e l dest = true ∧
        (desiredEpoch (readPolicyConfig flux uids) own4 own6).bypassDirect dest = false ↔
      flux.Shadows own4 own6 dest := by
  cases dest with
  | v4 addr =>
    rw [reservedDest_v4_iff h]
    constructor
    · rintro ⟨hres, hdir⟩
      exact (directIn_reserved_iff (by decide) hres).mp hdir
    · intro hs
      exact ⟨hs.reserved, (directIn_reserved_iff (by decide) hs.reserved).mpr hs⟩
  | v6 addr =>
    rw [reservedDest_v6_iff h]
    constructor
    · rintro ⟨hres, hdir⟩
      exact (directIn_reserved_iff (by decide) hres).mp hdir
    · intro hs
      exact ⟨hs.reserved, (directIn_reserved_iff (by decide) hs.reserved).mpr hs⟩

/-- After a commit a ready hook steals what the epoch captures, less the reserved destinations and the
packets whose transport header it does not see. -/
theorem stolen_after_commit_iff {k₀ : Kernel} (hready : HookReady k₀) {next : PolicyEpoch}
    {s : FluxrsSet} (hrep : Represents next s) {table : List U32} (hsorted : table.Pairwise (· < ·))
    (hmem : ∀ uid, uid ∈ table ↔ uid ∈ next.selected ∧ AppUid uid) {skb : Skb} {sk : Sock}
    (hsk : skb.sk = some sk) (hfull : sk.fullsock = true) (happ : AppUid sk.uid)
    (hproto : protoStealable skb.ip.transport = true) :
    (localOut e ((k₀.setBypass s).setUids table) skb).2 = .stolen ↔
      (sk.uid ∈ next.selected ∧ ¬ reservedDest e k₀.listeners skb.ip.dest = true ∧
        next.bypassDirect skb.ip.dest = false) ∧ skb.ip.exts = [] := by
  have hready' : HookReady ((k₀.setBypass s).setUids table) :=
    ⟨hready.live, hready.listeners, hready.symbols, hready.room⟩
  have hdir : policyDirect e ((k₀.setBypass s).setUids table) skb.ip.dest =
      next.bypassDirect skb.ip.dest := hrep.setDirect_eq e skb.ip.dest
  rw [stolen_iff_of_ready e (setUids_tableOk _ hsorted) hready' hsk hfull,
    protoStealable_headerProto hproto, setUids_published, hmem, hdir, Bool.not_eq_true]
  exact ⟨fun h => ⟨⟨h.1.2.1.1, h.1.2.2⟩, h.2⟩, fun h => ⟨⟨happ, ⟨h.1.1, happ⟩, h.1.2⟩, h.2⟩⟩

theorem narrowed_iff {U R D X : Prop} :
    ((U ∧ ¬ R ∧ D) ∧ X ↔ U ∧ D) ↔ ¬ (U ∧ R ∧ D) ∧ ¬ (U ∧ D ∧ ¬ X) := by
  by_cases hU : U <;> by_cases hR : R <;> by_cases hD : D <;> by_cases hX : X <;>
    simp [hU, hR, hD, hX]

/-- **Hook and model, end to end.**  The kernel takes the policy of every accepted configuration, and
then steals a TCP or UDP packet of an app exactly when the epoch captures its flow, unless the UID is
selected and a user prefix shadows the reserved destination, or an extension header hides the
transport header of a flow that is not direct. -/
theorem hook_agrees_iff {flux : FluxConfig} (hflux : flux.Accepted) {uids : UidSet}
    (huids : uids.size ≤ uidSelectedMax) {own4 : AddrSet 32} {own6 : AddrSet 128}
    (h4 : own4.size ≤ selfAddrMaxEntries) (h6 : own6.size ≤ selfAddrMaxEntries) {k₀ : Kernel}
    (hready : HookReady k₀) (habi : AbiListeners e k₀.listeners) (from' : PolicyEpoch) :
    ∃ k, commitKernel e srt {} k₀ from'
        (committed from' (desiredEpoch (readPolicyConfig flux uids) own4 own6)) = (.ok (), k) ∧
      ∀ (skb : Skb) (sk : Sock), skb.sk = some sk → sk.fullsock = true → AppUid sk.uid →
        protoStealable skb.ip.transport = true →
        (((localOut e k skb).2 = .stolen ↔
            (desiredEpoch (readPolicyConfig flux uids) own4 own6).observeNewFlow sk.uid skb.ip.dest =
              .captured) ↔
          ¬ (sk.uid ∈ uids ∧ flux.Shadows own4 own6 skb.ip.dest) ∧
            ¬ (sk.uid ∈ uids ∧
              (desiredEpoch (readPolicyConfig flux uids) own4 own6).bypassDirect skb.ip.dest = false ∧
              skb.ip.exts ≠ [])) := by
  obtain ⟨s, table, hcommit, hrep, hsorted, hmem⟩ := commitKernel_ok e srt k₀ from'
    (admitted_readPolicyConfig hflux uids h4 h6 from') huids
  refine ⟨_, hcommit, fun skb sk hsk hfull happ hproto => ?_⟩
  have hsel : (desiredEpoch (readPolicyConfig flux uids) own4 own6).selected = uids := rfl
  rw [stolen_after_commit_iff e hready hrep hsorted hmem hsk hfull happ hproto,
    PolicyEpoch.observeNewFlow_eq_captured_iff, committed_selected, committed_bypassDirect, hsel,
    narrowed_iff, reserved_bypassDirect_iff e habi]

/-- Whitelist direction with one prefix inside 10.0.0.0/8. -/
def nestedConfig : FluxConfig where
  appsMode := .whitelist
  cidrMode := .whitelist
  bypassV4 := [innerPrefix]
  bypassV6 := []
  interfacesMode := .blacklist
  interfaces := []

theorem nestedConfig_accepted : nestedConfig.Accepted :=
  ⟨[.v4 innerPrefix], by decide⟩

/-- A module with its listeners published, before any policy. -/
def readyKernel : Kernel :=
  { Kernel.init true with
    live := true, listeners := abiListeners .little 61000 61000, listenersSet := true }

theorem readyKernel_ready : HookReady readyKernel := ⟨rfl, rfl, rfl, by decide⟩

theorem readyKernel_abi : AbiListeners .little readyKernel.listeners := ⟨fun _ => rfl, fun _ => rfl⟩

/-- The epoch of the configuration for one UID. -/
def nestedEpoch : PolicyEpoch := desiredEpoch (readPolicyConfig nestedConfig (UidSet.collect [10123])) ∅ ∅

theorem hook_agrees_iff_resolver :
    ∃ k, commitKernel .little insertionSorter {} readyKernel (.new .blacklist)
        (committed (.new .blacklist) nestedEpoch) = (.ok (), k) ∧
      ((localOut .little k segmentToResolver).2 = .stolen ↔
        nestedEpoch.observeNewFlow 10123 (.v4 0x08080808) = .captured) := by
  have huids : (UidSet.collect [10123]).size ≤ uidSelectedMax := by decide +kernel
  have h4 : (∅ : AddrSet 32).size ≤ selfAddrMaxEntries := by decide
  have h6 : (∅ : AddrSet 128).size ≤ selfAddrMaxEntries := by decide
  obtain ⟨k, hk, hagree⟩ := hook_agrees_iff .little insertionSorter nestedConfig_accepted huids h4 h6
    readyKernel_ready readyKernel_abi (.new .blacklist)
  refine ⟨k, hk, (hagree segmentToResolver ⟨1, true, 10123⟩ rfl rfl (by decide) (by decide)).mpr ⟨?_, ?_⟩⟩
  · rintro ⟨-, hshadow⟩
    have hres : ∃ f ∈ fixedBypassV4, f.contains 0x08080808 = true := hshadow.reserved
    revert hres
    decide
  · rintro ⟨-, -, hexts⟩
    exact hexts rfl

/-- A TCP segment of UID 10123 to 10.1.2.3. -/
def segmentToNested : Skb := ⟨some ⟨1, true, 10123⟩, .v4 0x0a010203 ipprotoTcp⟩

/-- The model captures 10.1.2.3 under the longer user prefix; the hook lets it out as reserved. -/
theorem hook_disagrees_nested :
    ¬ ∀ (flux : FluxConfig) (uids : UidSet) (own4 : AddrSet 32) (own6 : AddrSet 128) (k₀ k : Kernel)
      (from' : PolicyEpoch), flux.Accepted → uids.size ≤ uidSelectedMax →
      own4.size ≤ selfAddrMaxEntries → own6.size ≤ selfAddrMaxEntries → HookReady k₀ →
      AbiListeners .little k₀.listeners →
      commitKernel .little insertionSorter {} k₀ from'
        (committed from' (desiredEpoch (readPolicyConfig flux uids) own4 own6)) = (.ok (), k) →
      ∀ (skb : Skb) (sk : Sock), skb.sk = some sk → sk.fullsock = true → AppUid sk.uid →
        protoStealable skb.ip.transport = true →
        ((localOut .little k skb).2 = .stolen ↔
          (desiredEpoch (readPolicyConfig flux uids) own4 own6).observeNewFlow sk.uid skb.ip.dest =
            .captured) := by
  intro h
  have hagree := h nestedConfig (UidSet.collect [10123]) ∅ ∅ readyKernel
    (commitKernel .little insertionSorter {} readyKernel (.new .blacklist)
      (committed (.new .blacklist) nestedEpoch)).2 (.new .blacklist) nestedConfig_accepted
    (by decide +kernel) (by decide) (by decide) readyKernel_ready readyKernel_abi (by decide +kernel)
    segmentToNested ⟨1, true, 10123⟩ rfl rfl (by decide) (by decide)
  revert hagree
  decide +kernel

end FluxRs.Dataplane
