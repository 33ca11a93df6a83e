import FluxRs.Net.Cidr

/-!
# FluxRs.Net.Epoch — observable policy as one epoch

`crates/flux-core/src/policy_epoch.rs`: what a first packet of a flow sees under one set of UID modes,
bypass prefixes, self addresses and prefix direction, and how a commit moves from one epoch to the
next.
-/

namespace FluxRs.Net

open FluxRs.Lib
open Std (ExtTreeMap ExtTreeSet)

abbrev UidSet := ExtTreeSet U32
abbrev AddrSet (w : ℕ) := ExtTreeSet (BitVec w)
abbrev BypassMap (w : ℕ) := ExtTreeMap (Cidr w) BypassTag

/-- `collect()` into a map; of equal prefixes the last one stays. -/
def BypassMap.collect {w : ℕ} (l : List (Cidr w × BypassTag)) : BypassMap w := ExtTreeMap.ofList l

def UidSet.collect (l : List U32) : UidSet := ExtTreeSet.ofList l

def AddrSet.collect {w : ℕ} (l : List (BitVec w)) : AddrSet w := ExtTreeSet.ofList l

/-- Per-socket first decision mode. -/
inductive DecisionMode where
  | direct
  | captured
  deriving DecidableEq, Repr

/-- A destination used as a probe of a new flow. -/
inductive Dest where
  | v4 (addr : Ipv4Addr)
  | v6 (addr : Ipv6Addr)
  deriving DecidableEq, Repr

/-- One observable combination of UID modes, prefix direction, bypass sets and self addresses. -/
structure PolicyEpoch where
  cidrMode : CidrMode
  selected : UidSet
  draining : UidSet
  bypassV4 : BypassMap 32
  bypassV6 : BypassMap 128
  selfV4 : AddrSet 32
  selfV6 : AddrSet 128
  deriving DecidableEq

/-! ### The linear longest-prefix scan -/

section Scan

variable {w : ℕ}

/-- The loop of `lpm_v4` and `lpm_v6`: a covering prefix replaces a strictly shorter best. -/
def lpmScan (map : BypassMap w) (addr : BitVec w) : Option BypassTag :=
  let best := map.toList.foldl (fun (best : Option (ℕ × BypassTag)) ct =>
    if ct.1.contains addr && best.all (fun b => decide (b.1 < ct.1.prefixLen))
    then some (ct.1.prefixLen, ct.2) else best) none
  best.map Prod.snd

/-- The prefixes of a map as entries of a longest-prefix match. -/
def entryOf (ct : Cidr w × BypassTag) : Entry (BitVec w) BypassTag :=
  ⟨ct.1.prefixLen, ct.1.addr, ct.2⟩

def entries (map : BypassMap w) : List (Entry (BitVec w) BypassTag) := map.toList.map entryOf

/-- Masking an address to a length. -/
def maskAddr (n : ℕ) (addr : BitVec w) : BitVec w := addr &&& mask w n

theorem covers_entryOf (c : Cidr w) (t : BypassTag) (addr : BitVec w) :
    (entryOf (c, t)).Covers maskAddr addr ↔ c.contains addr = true := by
  simp [Entry.Covers, entryOf, maskAddr, Cidr.contains]

theorem mem_entries {map : BypassMap w} {e : Entry (BitVec w) BypassTag} :
    e ∈ entries map ↔ ∃ c t, map[c]? = some t ∧ entryOf (c, t) = e := by
  unfold entries
  rw [List.mem_map]
  constructor
  · rintro ⟨⟨c, t⟩, hm, rfl⟩
    exact ⟨c, t, ExtTreeMap.mem_toList_iff_getElem?_eq_some.mp hm, rfl⟩
  · rintro ⟨c, t, hm, rfl⟩
    exact ⟨(c, t), ExtTreeMap.mem_toList_iff_getElem?_eq_some.mpr hm, rfl⟩

theorem entries_len_le {map : BypassMap w} {e : Entry (BitVec w) BypassTag} (he : e ∈ entries map) :
    e.len ≤ w := by
  obtain ⟨c, t, -, rfl⟩ := mem_entries.mp he
  exact c.len_le

theorem entries_distinctKeys (map : BypassMap w) : DistinctKeys (entries map) := by
  intro e he e' he' hlen hnet
  obtain ⟨c, t, hc, rfl⟩ := mem_entries.mp he
  obtain ⟨c', t', hc', rfl⟩ := mem_entries.mp he'
  have hcc : c = c' := Cidr.eq_of_fields hnet hlen
  subst hcc
  rw [hc] at hc'
  cases hc'
  rfl

theorem lpmScan_eq_scan (map : BypassMap w) (addr : BitVec w) :
    lpmScan map addr = scan maskAddr (entries map) addr := by
  unfold lpmScan scan entries
  rw [List.foldl_map]
  simp only [scanStep, entryOf, maskAddr, Cidr.contains, Bool.and_eq_true, beq_iff_eq]
  congr!

theorem lpmScan_isLongest (map : BypassMap w) (addr : BitVec w) :
    IsLongest maskAddr (entries map) addr (lpmScan map addr) := by
  rw [lpmScan_eq_scan]
  exact scan_isLongest _ _

end Scan

namespace PolicyEpoch

/-- `PolicyEpoch::new`. -/
def new (cidrMode : CidrMode) : PolicyEpoch := ⟨cidrMode, ∅, ∅, ∅, ∅, ∅, ∅⟩

/-- One family's half of `bypass_direct`. -/
def directIn {w : ℕ} (cidrMode : CidrMode) (self : AddrSet w) (map : BypassMap w)
    (addr : BitVec w) : Bool :=
  if self.contains addr then true
  else match lpmScan map addr with
    | some .reserved => true
    | some .policy => cidrMode == .blacklist
    | none => cidrMode == .whitelist

def bypassDirect (ep : PolicyEpoch) : Dest → Bool
  | .v4 addr => directIn ep.cidrMode ep.selfV4 ep.bypassV4 addr
  | .v6 addr => directIn ep.cidrMode ep.selfV6 ep.bypassV6 addr

/-- First-packet outcome under this epoch, with a live listener. -/
def observeNewFlow (ep : PolicyEpoch) (uid : U32) (dest : Dest) : DecisionMode :=
  if !ep.selected.contains uid then .direct
  else if ep.bypassDirect dest then .direct
  else .captured

theorem observeNewFlow_eq_captured_iff {ep : PolicyEpoch} {uid : U32} {dest : Dest} :
    ep.observeNewFlow uid dest = .captured ↔ uid ∈ ep.selected ∧ ep.bypassDirect dest = false := by
  unfold observeNewFlow
  rw [← ExtTreeSet.contains_iff_mem]
  cases ep.selected.contains uid <;> cases ep.bypassDirect dest <;> simp

end PolicyEpoch

/-- Desired epoch after a successful commit: UIDs that left `selected` are recorded as draining. -/
def committed (from' desired : PolicyEpoch) : PolicyEpoch :=
  let draining := from'.draining ∪ (from'.selected \ desired.selected)
  { cidrMode := desired.cidrMode
    selected := desired.selected
    draining := desired.selected.toList.foldl ExtTreeSet.erase draining
    bypassV4 := desired.bypassV4
    bypassV6 := desired.bypassV6
    selfV4 := desired.selfV4
    selfV6 := desired.selfV6 }

/-- Visible epochs under a true commit: old, then new. -/
def epochCommitWindows (from' desired : PolicyEpoch) : List PolicyEpoch :=
  [from', committed from' desired]

theorem mem_foldl_erase {x : U32} : ∀ {l : List U32} {s : UidSet},
    x ∈ l.foldl ExtTreeSet.erase s ↔ x ∈ s ∧ x ∉ l
  | [], s => by simp
  | y :: ys, s => by
    rw [List.foldl_cons, mem_foldl_erase, ExtTreeSet.mem_erase, List.mem_cons]
    have : compare y x = .eq ↔ x = y := by rw [Std.compare_eq_iff_eq]; exact eq_comm
    rw [Ne, this]
    tauto

theorem mem_committed_draining {from' desired : PolicyEpoch} {uid : U32} :
    uid ∈ (committed from' desired).draining ↔
      (uid ∈ from'.draining ∨ uid ∈ from'.selected) ∧ uid ∉ desired.selected := by
  unfold committed
  rw [mem_foldl_erase, ExtTreeSet.mem_union_iff, ExtTreeSet.mem_diff_iff, ExtTreeSet.mem_toList]
  tauto

@[simp] theorem committed_selected (from' desired : PolicyEpoch) :
    (committed from' desired).selected = desired.selected := rfl

@[simp] theorem committed_bypassDirect (from' desired : PolicyEpoch) :
    (committed from' desired).bypassDirect = desired.bypassDirect := by
  funext dest
  cases dest <;> rfl

end FluxRs.Net
