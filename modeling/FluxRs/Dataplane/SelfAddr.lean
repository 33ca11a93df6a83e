import FluxRs.Net.Epoch

/-!
# FluxRs.Dataplane.SelfAddr — which of the device's own addresses bypass

`Manager::desired_self_addresses` and `select_self_addresses` of
`crates/fluxd/src/dataplane/platform.rs`: the live addresses of one rtnetlink dump, with privacy
addresses ranked by how recently they were first seen when the map is too small for all of them.
-/

namespace FluxRs.Dataplane

open FluxRs.Lib FluxRs.Net
open Std (ExtTreeMap ExtTreeSet)

/-- `SELF_ADDR_MAX_ENTRIES`. -/
def selfAddrMaxEntries : ℕ := 256

/-- `netlink::Address`, the parts the selection reads. -/
structure Address where
  family : U8
  flags : U32
  bytes : List U8
  deriving DecidableEq, Repr

def afInet : U8 := 2
def afInet6 : U8 := 10

def ifaFSecondaryTemporary : U32 := 0x01
def ifaFDadfailed : U32 := 0x08
def ifaFTentative : U32 := 0x40
def ifaFStablePrivacy : U32 := 0x800

def isPrivacyAddress (family : U8) (flags : U32) : Bool :=
  family == afInet6 && flags &&& (ifaFSecondaryTemporary ||| ifaFStablePrivacy) != 0

/-- The word spelled by network-order octets. -/
def wordOf (w : ℕ) (bytes : List U8) : BitVec w :=
  BitVec.ofNat w (bytes.foldl (fun acc b => acc * 256 + b.toNat) 0)

/-- `Ipv4Addr::is_multicast`. -/
def isMulticastV4 (a : Ipv4Addr) : Bool := octet a 0 >>> 4 == 0xe

/-- `Ipv6Addr::is_multicast`. -/
def isMulticastV6 (a : Ipv6Addr) : Bool := octet a 0 == 0xff

/-- Candidate addresses of one family, with "every dump entry calls it a privacy address". -/
abbrev Candidates (w : ℕ) := ExtTreeMap (BitVec w) Bool

/-- When each live address was first seen. -/
abbrev SeenTicks (w : ℕ) := ExtTreeMap (BitVec w) ℕ

/-- The loop over the dump: tentative and failed addresses are skipped, then by family. -/
def collectCandidates (addresses : List Address) : Candidates 32 × Candidates 128 :=
  addresses.foldl (fun (v : Candidates 32 × Candidates 128) address =>
    if address.flags &&& (ifaFTentative ||| ifaFDadfailed) != 0 then v
    else if address.family = afInet ∧ address.bytes.length = 4 then
      let ip := wordOf 32 address.bytes
      if ip == 0 || isMulticastV4 ip then v else (v.1.insert ip false, v.2)
    else if address.family = afInet6 ∧ address.bytes.length = 16 then
      let ip := wordOf 128 address.bytes
      if ip == 0 || isMulticastV6 ip then v
      else
        let privacy := isPrivacyAddress address.family address.flags
        (v.1, v.2.insert ip (v.2.getD ip true && privacy))
    else v) (∅, ∅)

section Selection

variable {w : ℕ}

/-- `u64::saturating_add(1)`. -/
def tickSucc (t : ℕ) : ℕ := min (t + 1) (2 ^ 64 - 1)

/-- Forget addresses that left, and stamp the new ones in address order. -/
def updateSeen (live : Candidates w) (seen : SeenTicks w) (tick : ℕ) : SeenTicks w × ℕ :=
  let kept := seen.filter fun address _ => live.contains address
  live.keys.foldl (fun (st : SeenTicks w × ℕ) address =>
    if st.1.contains address then st
    else (st.1.insert address (tickSucc st.2), tickSucc st.2)) (kept, tick)

/-- Most recently seen first, equal ticks in address order. -/
def recentFirst (a b : ℕ × BitVec w) : Prop := b.1 < a.1 ∨ (a.1 = b.1 ∧ a.2 ≤ b.2)

instance : DecidableRel (recentFirst (w := w)) := fun a b =>
  inferInstanceAs (Decidable (b.1 < a.1 ∨ (a.1 = b.1 ∧ a.2 ≤ b.2)))

/-- `select_self_addresses`: every stable address, then the newest privacy addresses that fit.
`none` when the stable ones alone exceed the capacity. -/
def selectSelfAddresses (candidates : Candidates w) (seen : SeenTicks w) (capacity : ℕ) :
    Option (AddrSet w × Bool) :=
  let stable := AddrSet.collect ((candidates.toList.filter fun ap => !ap.2).map Prod.fst)
  if capacity < stable.size then none
  else
    let privacy := ((candidates.toList.filter fun ap => ap.2).map
      fun ap => (seen.getD ap.1 0, ap.1)).insertionSort recentFirst
    let available := capacity - stable.size
    some (((privacy.take available).map Prod.snd).foldl ExtTreeSet.insert stable,
      decide (available < privacy.length))

end Selection

/-- The bookkeeping `desired_self_addresses` keeps between calls. -/
structure AddressBook where
  seenV4 : SeenTicks 32
  seenV6 : SeenTicks 128
  tick : ℕ
  deriving DecidableEq

def AddressBook.empty : AddressBook := ⟨∅, ∅, 0⟩

structure SelfAddressSelection where
  v4 : AddrSet 32
  v6 : AddrSet 128
  truncated : Bool

/-- `desired_self_addresses`: the book is updated even when the selection then fails. -/
def desiredSelfAddresses (book : AddressBook) (addresses : List Address) :
    AddressBook × Option SelfAddressSelection :=
  let (v4, v6) := collectCandidates addresses
  let (seenV4, tick) := updateSeen v4 book.seenV4 book.tick
  let (seenV6, tick) := updateSeen v6 book.seenV6 tick
  let book' : AddressBook := ⟨seenV4, seenV6, tick⟩
  match selectSelfAddresses v4 seenV4 selfAddrMaxEntries with
  | none => (book', none)
  | some (s4, truncated4) =>
    match selectSelfAddresses v6 seenV6 selfAddrMaxEntries with
    | none => (book', none)
    | some (s6, truncated6) => (book', some ⟨s4, s6, truncated4 || truncated6⟩)

/-! ### The selection fits the map -/

theorem size_foldl_insert_le {w : ℕ} : ∀ (l : List (BitVec w)) (s : AddrSet w),
    (l.foldl ExtTreeSet.insert s).size ≤ s.size + l.length
  | [], s => by simp
  | a :: l, s => by
    have ih := size_foldl_insert_le l (s.insert a)
    have h := ExtTreeSet.size_insert_le (t := s) (k := a)
    rw [List.foldl_cons, List.length_cons]
    omega

/-- A successful selection never exceeds its capacity. -/
theorem selectSelfAddresses_size {w : ℕ} {candidates : Candidates w} {seen : SeenTicks w}
    {capacity : ℕ} {s : AddrSet w} {truncated : Bool}
    (h : selectSelfAddresses candidates seen capacity = some (s, truncated)) : s.size ≤ capacity := by
  unfold selectSelfAddresses at h
  simp only at h
  split_ifs at h with hcap
  obtain ⟨rfl, -⟩ := Prod.mk.inj (Option.some.inj h)
  refine (size_foldl_insert_le _ _).trans ?_
  rw [List.length_map]
  have := List.length_take_le (capacity - (AddrSet.collect
    ((candidates.toList.filter fun ap => !ap.2).map Prod.fst)).size)
    (((candidates.toList.filter fun ap => ap.2).map
      fun ap => (seen.getD ap.1 0, ap.1)).insertionSort recentFirst)
  omega

theorem desiredSelfAddresses_size {book book' : AddressBook} {addresses : List Address}
    {sel : SelfAddressSelection} (h : desiredSelfAddresses book addresses = (book', some sel)) :
    sel.v4.size ≤ selfAddrMaxEntries ∧ sel.v6.size ≤ selfAddrMaxEntries := by
  unfold desiredSelfAddresses at h
  simp only at h
  split at h
  · simp at h
  · rename_i h4
    split at h
    · simp at h
    · rename_i h6
      obtain ⟨-, hsel⟩ := Prod.mk.inj h
      obtain rfl := Option.some.inj hsel
      exact ⟨selectSelfAddresses_size h4, selectSelfAddresses_size h6⟩

end FluxRs.Dataplane
