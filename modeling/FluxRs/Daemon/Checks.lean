import FluxRs.Lib.Json
import FluxRs.Net.Text
import FluxRs.Dataplane.EndToEnd

/-!
# FluxRs.Daemon.Checks — fakeip ranges against the bypass

`validate_fakeip_bypass` of `crates/fluxd/src/checks.rs`.  It compares prefixes for overlap, while the
data plane decides by the longest match of one address.
-/

namespace FluxRs.Daemon

open FluxRs.Lib FluxRs.Net FluxRs.Dataplane

/-! ### The walk over the engine configuration -/

/-- The ranges of both families, in the order in which they are met. -/
abbrev FakeipRanges := List Ipv4Cidr × List Ipv6Cidr

/-- The object is of type `fakeip`. -/
def isFakeip (object : Json.Members) : Bool := Json.getStr "type" object == some "fakeip"

/-- A range under a key, if its text is a canonical prefix. -/
def declaredRange {w : ℕ} (parse : String → Except ParseError (Cidr w)) (key : String)
    (object : Json.Members) : List (Cidr w) :=
  match Json.getStr key object with
  | none => []
  | some text =>
    match parse text with
    | .ok range => [range]
    | .error _ => []

/-- What one object adds. -/
def collectObject (object : Json.Members) (acc : FakeipRanges) : FakeipRanges :=
  if isFakeip object then
    (acc.1 ++ declaredRange Ipv4Cidr.parse "inet4_range" object,
      acc.2 ++ declaredRange Ipv6Cidr.parse "inet6_range" object)
  else acc

mutual

/-- `collect_fakeip_ranges`. -/
def collectFakeipRanges : Json → FakeipRanges → FakeipRanges
  | .obj object, acc => collectMembers object (collectObject object acc)
  | .arr items, acc => collectItems items acc
  | _, acc => acc

def collectItems : List Json → FakeipRanges → FakeipRanges
  | [], acc => acc
  | child :: rest, acc => collectItems rest (collectFakeipRanges child acc)

def collectMembers : Json.Members → FakeipRanges → FakeipRanges
  | [], acc => acc
  | (_, child) :: rest, acc => collectMembers rest (collectFakeipRanges child acc)

end

/-! ### The comparison -/

section Family

variable {w : ℕ}

/-- `overlaps_v4` and `overlaps_v6`. -/
def overlaps (left right : Cidr w) : Bool :=
  left.addr &&& mask w (min left.prefixLen right.prefixLen) ==
    right.addr &&& mask w (min left.prefixLen right.prefixLen)

/-- The two loops of one family: the first range that meets a bypass, as the error names it. -/
def firstOverlap (show' : Cidr w → String) (fakes bypass : List (Cidr w)) : Option String :=
  fakes.findSome? fun fake => bypass.findSome? fun entry =>
    if overlaps fake entry then
      some ("fakeip_bypass_overlap:" ++ show' fake ++ " intersects " ++ show' entry)
    else none

end Family

/-- `validate_fakeip_bypass`: user prefixes count in blacklist direction only. -/
def validateFakeipBypass (flux : FluxConfig) (user : Json) : Except String Unit :=
  let ranges := collectFakeipRanges user ([], [])
  let policyV4 := if flux.cidrMode = .blacklist then flux.bypassV4 else []
  let policyV6 := if flux.cidrMode = .blacklist then flux.bypassV6 else []
  match firstOverlap Ipv4Cidr.show ranges.1 (fixedBypassV4 ++ policyV4) with
  | some error => .error error
  | none =>
    match firstOverlap Ipv6Cidr.show ranges.2 (fixedBypassV6 ++ policyV6) with
    | some error => .error error
    | none => .ok ()

/-! ### The walk reaches every object -/

mutual

/-- The recursion over the document is a fold over its objects. -/
theorem collectFakeipRanges_eq : ∀ (v : Json) (acc : FakeipRanges),
    collectFakeipRanges v acc = v.objects.foldl (fun acc object => collectObject object acc) acc
  | .obj object, acc => collectMembers_eq object (collectObject object acc)
  | .arr items, acc => collectItems_eq items acc
  | .null, _ => rfl
  | .bool _, _ => rfl
  | .number _, _ => rfl
  | .str _, _ => rfl

theorem collectItems_eq : ∀ (items : List Json) (acc : FakeipRanges), collectItems items acc =
    (Json.objectsOfItems items).foldl (fun acc object => collectObject object acc) acc
  | [], _ => rfl
  | child :: rest, acc => by
    rw [collectItems, Json.objectsOfItems, List.foldl_append, ← collectFakeipRanges_eq child acc]
    exact collectItems_eq rest _

theorem collectMembers_eq : ∀ (members : Json.Members) (acc : FakeipRanges), collectMembers members acc =
    (Json.objectsOfMembers members).foldl (fun acc object => collectObject object acc) acc
  | [], _ => rfl
  | (_, child) :: rest, acc => by
    rw [collectMembers, Json.objectsOfMembers, List.foldl_append, ← collectFakeipRanges_eq child acc]
    exact collectMembers_eq rest _

end

/-- No object takes a range back. -/
theorem collectObject_subset (object : Json.Members) (acc : FakeipRanges) :
    acc.1 ⊆ (collectObject object acc).1 ∧ acc.2 ⊆ (collectObject object acc).2 := by
  unfold collectObject
  split
  · exact ⟨List.subset_append_left _ _, List.subset_append_left _ _⟩
  · exact ⟨List.Subset.refl _, List.Subset.refl _⟩

theorem foldl_collectObject_subset (objects : List Json.Members) (acc : FakeipRanges) :
    acc.1 ⊆ (objects.foldl (fun acc object => collectObject object acc) acc).1 ∧
      acc.2 ⊆ (objects.foldl (fun acc object => collectObject object acc) acc).2 := by
  induction objects generalizing acc with
  | nil => exact ⟨List.Subset.refl _, List.Subset.refl _⟩
  | cons object rest ih =>
    obtain ⟨h4, h6⟩ := collectObject_subset object acc
    obtain ⟨h4', h6'⟩ := ih (collectObject object acc)
    exact ⟨List.Subset.trans h4 h4', List.Subset.trans h6 h6'⟩

/-- Every range that a fakeip object declares is collected. -/
theorem declared_collected {user : Json} {object : Json.Members} (hocc : Json.Occurs (.obj object) user)
    (hfake : isFakeip object = true) :
    declaredRange Ipv4Cidr.parse "inet4_range" object ⊆ (collectFakeipRanges user ([], [])).1 ∧
      declaredRange Ipv6Cidr.parse "inet6_range" object ⊆ (collectFakeipRanges user ([], [])).2 := by
  rw [collectFakeipRanges_eq]
  obtain ⟨before, after, hsplit⟩ := List.append_of_mem (Json.mem_objects_of_occurs hocc)
  rw [hsplit, List.foldl_append, List.foldl_cons]
  generalize before.foldl (fun acc object => collectObject object acc) ([], []) = acc
  obtain ⟨h4, h6⟩ := foldl_collectObject_subset after (collectObject object acc)
  have hobj : collectObject object acc =
      (acc.1 ++ declaredRange Ipv4Cidr.parse "inet4_range" object,
        acc.2 ++ declaredRange Ipv6Cidr.parse "inet6_range" object) := if_pos hfake
  rw [hobj] at h4 h6 ⊢
  exact ⟨List.Subset.trans (List.subset_append_right _ _) h4,
    List.Subset.trans (List.subset_append_right _ _) h6⟩

/-! ### Overlap and longest match -/

section Family

variable {w : ℕ}

/-- Of two masks the shorter is left. -/
theorem mask_and_mask {n m : ℕ} (h : n ≤ m) : mask w m &&& mask w n = mask w n := by
  ext i hi
  rw [BitVec.getElem_and, ← BitVec.getLsbD_eq_getElem, ← BitVec.getLsbD_eq_getElem, getLsbD_mask hi,
    getLsbD_mask hi]
  by_cases hn : w - n ≤ i
  · have hm : w - m ≤ i := by omega
    simp [hn, hm]
  · simp [hn]

/-- Prefixes that do not overlap have no address in common. -/
theorem overlaps_of_contains {left right : Cidr w} {addr : BitVec w} (hl : left.contains addr = true)
    (hr : right.contains addr = true) : overlaps left right = true := by
  simp only [Cidr.contains, beq_iff_eq] at hl hr
  have hcut : ∀ {c : Cidr w}, addr &&& mask w c.prefixLen = c.addr →
      ∀ n ≤ c.prefixLen, c.addr &&& mask w n = addr &&& mask w n := by
    intro c hc n hn
    rw [← hc, BitVec.and_assoc, mask_and_mask hn]
  unfold overlaps
  rw [beq_iff_eq, hcut hl _ (min_le_left _ _), hcut hr _ (min_le_right _ _)]

/-- Where no overlap is reported no address lies in a fake range and in a bypassed one. -/
theorem firstOverlap_none {show' : Cidr w → String} {fakes bypass : List (Cidr w)}
    (h : firstOverlap show' fakes bypass = none) {fake entry : Cidr w} (hf : fake ∈ fakes)
    (he : entry ∈ bypass) {addr : BitVec w} (hin : fake.contains addr = true) :
    entry.contains addr ≠ true := by
  intro hen
  have hno := List.findSome?_eq_none_iff.mp (List.findSome?_eq_none_iff.mp h fake hf) entry he
  rw [if_pos (overlaps_of_contains hin hen)] at hno
  cases hno

/-- Off the reserved prefixes, the direction and the user's list decide. -/
theorem directIn_unreserved (hw : w < 256) {cidrMode : ListMode} {user fixed : List (Cidr w)}
    {addr : BitVec w} (hfixed : ∀ f ∈ fixed, f.contains addr ≠ true) :
    PolicyEpoch.directIn cidrMode.toCidrMode ∅ (KeyMap.toBypass (bypassKeys user fixed)) addr = false ↔
      (cidrMode = .whitelist ↔ ∃ c ∈ user, c.contains addr = true) := by
  have hpolicy := lpmScan_policy_iff hw user fixed addr
  have hlisted : lpmScan (KeyMap.toBypass (bypassKeys user fixed)) addr = some .policy ↔
      ∃ c ∈ user, c.contains addr = true := by
    rw [hpolicy]
    constructor
    · rintro ⟨c, hc, hca, -⟩
      exact ⟨c, hc, hca⟩
    · rintro ⟨c, hc, hca⟩
      exact ⟨c, hc, hca, fun f hf hfa => absurd hfa (hfixed f hf)⟩
  have hnot : lpmScan (KeyMap.toBypass (bypassKeys user fixed)) addr ≠ some .reserved := by
    intro hres
    have hlong := lpmScan_isLongest (KeyMap.toBypass (bypassKeys user fixed)) addr
    rw [hres] at hlong
    obtain ⟨en, hen, hcov, htag, -⟩ := hlong
    rcases (mem_entries_assembled hw).mp hen with ⟨f, hf, rfl⟩ | ⟨c, -, -, rfl⟩
    · exact hfixed f hf ((covers_entryOf _ _ _).mp hcov)
    · cases htag
  rw [← hlisted]
  unfold PolicyEpoch.directIn
  rw [if_neg (by simp)]
  generalize lpmScan (KeyMap.toBypass (bypassKeys user fixed)) addr = r at hnot
  match r with
  | some .reserved => exact absurd rfl hnot
  | some .policy => cases cidrMode <;> decide
  | none => cases cidrMode <;> decide

/-- An address of a checked range: captured in blacklist direction, and in whitelist direction where
the user lists it. -/
theorem checked_captured_iff (hw : w < 256) {cidrMode : ListMode} {user fixed : List (Cidr w)}
    {show' : Cidr w → String} {fakes : List (Cidr w)}
    (hnone : firstOverlap show' fakes (fixed ++ if cidrMode = .blacklist then user else []) = none)
    {fake : Cidr w} (hf : fake ∈ fakes) {addr : BitVec w} (hin : fake.contains addr = true) :
    PolicyEpoch.directIn cidrMode.toCidrMode ∅ (KeyMap.toBypass (bypassKeys user fixed)) addr = false ↔
      cidrMode = .blacklist ∨ ∃ c ∈ user, c.contains addr = true := by
  have hfixed : ∀ f ∈ fixed, f.contains addr ≠ true :=
    fun f hmem => firstOverlap_none hnone hf (List.mem_append_left _ hmem) hin
  rw [directIn_unreserved hw hfixed]
  cases cidrMode with
  | blacklist =>
    have huser : ∀ c ∈ user, c.contains addr ≠ true := fun c hmem =>
      firstOverlap_none hnone hf (List.mem_append_right _ (by rwa [if_pos rfl])) hin
    constructor
    · exact fun _ => .inl rfl
    · refine fun _ => ⟨fun h => (by cases h), ?_⟩
      rintro ⟨c, hc, hca⟩
      exact absurd hca (huser c hc)
  | whitelist =>
    constructor
    · exact fun h => .inr (h.mp rfl)
    · rintro (h | h)
      · cases h
      · exact ⟨fun _ => h, fun _ => rfl⟩

end Family

/-- The object declares a range of this address, as a canonical text. -/
def Declares (object : Json.Members) : Dest → Prop
  | .v4 addr => ∃ range ∈ declaredRange Ipv4Cidr.parse "inet4_range" object, range.contains addr = true
  | .v6 addr => ∃ range ∈ declaredRange Ipv6Cidr.parse "inet6_range" object, range.contains addr = true

/-- A user prefix contains the address. -/
def ListsDest (flux : FluxConfig) : Dest → Prop
  | .v4 addr => ∃ c ∈ flux.bypassV4, c.contains addr = true
  | .v6 addr => ∃ c ∈ flux.bypassV6, c.contains addr = true

/-- **Fakeip addresses after the check.**  Once `validate_fakeip_bypass` accepts, every address of a
range that a fakeip object declares is captured for every selected UID, in blacklist direction always and
in whitelist direction exactly where the user lists it. -/
theorem fakeip_captured_iff {flux : FluxConfig} {user : Json}
    (hok : validateFakeipBypass flux user = .ok ()) {object : Json.Members}
    (hocc : Json.Occurs (.obj object) user) (hfake : isFakeip object = true) {dest : Dest}
    (hdecl : Declares object dest) {uids : UidSet} {uid : U32} (huid : uid ∈ uids) :
    (desiredEpoch (readPolicyConfig flux uids) ∅ ∅).observeNewFlow uid dest = .captured ↔
      flux.cidrMode = .blacklist ∨ ListsDest flux dest := by
  obtain ⟨h4, h6⟩ := declared_collected hocc hfake
  rw [PolicyEpoch.observeNewFlow_eq_captured_iff]
  refine (and_iff_right huid).trans ?_
  unfold validateFakeipBypass at hok
  simp only at hok
  split at hok
  · cases hok
  · rename_i hv4
    split at hok
    · cases hok
    · rename_i hv6
      cases dest with
      | v4 addr =>
        obtain ⟨range, hrange, hin⟩ := hdecl
        exact checked_captured_iff (by decide) hv4 (h4 hrange) hin
      | v6 addr =>
        obtain ⟨range, hrange, hin⟩ := hdecl
        exact checked_captured_iff (by decide) hv6 (h6 hrange) hin

/-! ### Accepted, and direct all the same -/

/-- An engine configuration with one fakeip server. -/
def fakeipServer (range : String) : Json :=
  .obj [("dns", .obj [("servers", .arr [.obj [("type", .str "fakeip"), ("inet4_range", .str range)]])])]

/-- No user prefix at all. -/
def bareConfig (cidrMode : ListMode) : FluxConfig where
  appsMode := .whitelist
  cidrMode := cidrMode
  bypassV4 := []
  bypassV6 := []
  interfacesMode := .blacklist
  interfaces := []

/-- The one user of an app that is selected. -/
def selectedUid : UidSet := UidSet.collect [10123]

theorem fakeip_captured_iff_blacklist :
    (desiredEpoch (readPolicyConfig (bareConfig .blacklist) selectedUid) ∅ ∅).observeNewFlow 10123
      (.v4 0xc6120005) = .captured := by
  have hok : validateFakeipBypass (bareConfig .blacklist) (fakeipServer "198.18.0.0/15") = .ok () := by
    decide
  have hocc : Json.Occurs (.obj [("type", .str "fakeip"), ("inet4_range", .str "198.18.0.0/15")])
      (fakeipServer "198.18.0.0/15") := by
    refine .member List.mem_cons_self (.member List.mem_cons_self (.item List.mem_cons_self .here))
  have hdecl : Declares [("type", .str "fakeip"), ("inet4_range", .str "198.18.0.0/15")]
      (.v4 0xc6120005) := ⟨⟨0xc6120000, 15, by decide, by decide⟩, by decide, by decide⟩
  exact (fakeip_captured_iff hok hocc (by decide) hdecl (by decide : 10123 ∈ selectedUid)).mpr (.inl rfl)

/-- In whitelist direction a range that nobody lists passes the check and goes direct. -/
theorem fakeip_goes_direct :
    validateFakeipBypass (bareConfig .whitelist) (fakeipServer "198.18.0.0/15") = .ok () ∧
      (desiredEpoch (readPolicyConfig (bareConfig .whitelist) selectedUid) ∅ ∅).observeNewFlow 10123
        (.v4 0xc6120005) = .direct := by
  decide

end FluxRs.Daemon
