import FluxRs.Dataplane.Ledger
import FluxRs.Kmod.HookSpec

/-!
# FluxRs.Dataplane.Apply — what one `apply_policy` can do

The ioctl wrappers have one spec lemma each, and `applyPolicy_result` lists the ways a call ends:
refused before the kernel changed, undone after `SET_UIDS` failed, left half done when the undo
failed too, or done.
-/

namespace FluxRs.Dataplane

open FluxRs.Lib FluxRs.Net FluxRs.Kmod
open Std (ExtTreeMap ExtTreeSet)

variable (e : Endian) (srt : Sorter)

/-! ### The ioctls -/

theorem parsePrefixes_alloc {N : Type} [LinearOrder N] {W : ℕ} {alloc : Bool}
    {one : List U8 → Except Errno (Entry N U8)} {recs : List (List U8)}
    {r : List (Entry N U8) × List ℕ} (h : parsePrefixes srt W alloc one recs = .ok r) :
    parsePrefixes srt W true one recs = .ok r := by
  cases alloc with
  | true => exact h
  | false =>
    unfold parsePrefixes at h ⊢
    by_cases hnil : recs = []
    · rw [if_pos hnil] at h ⊢
      exact h
    · rw [if_neg hnil] at h
      simp at h

theorem parseSelf_alloc {N : Type} [LinearOrder N] {alloc : Bool} {one : List U8 → N}
    {recs : List (List U8)} {r : List N} (h : parseSelf srt alloc one recs = .ok r) :
    parseSelf srt true one recs = .ok r := by
  cases alloc with
  | true => exact h
  | false =>
    unfold parseSelf at h ⊢
    by_cases hnil : recs = []
    · rw [if_pos hnil] at h ⊢
      exact h
    · rw [if_neg hnil] at h
      simp at h

theorem bind_ok {ε α β : Type} {x : Except ε α} {f : α → Except ε β} {r : β}
    (h : x >>= f = .ok r) : ∃ a, x = .ok a ∧ f a = .ok r := by
  cases x with
  | error err => cases h
  | ok a => exact ⟨a, rfl, h⟩

theorem ok_bind {ε α β : Type} {x : Except ε α} {f : α → Except ε β} {a : α} {r : β}
    (h : x = .ok a) (h' : f a = .ok r) : x >>= f = .ok r := by
  subst h
  exact h'

/-- Allocation outcomes decide whether the parser answers, never what it answers. -/
theorem fluxrsSetBypass_alloc {alloc : BypassAlloc} {arg : List U8} {s : FluxrsSet}
    (h : fluxrsSetBypass e srt alloc arg = .ok s) : fluxrsSetBypass e srt {} arg = .ok s := by
  unfold fluxrsSetBypass at h ⊢
  split at h
  · cases h
  · simp only at h ⊢
    split at h
    · cases h
    split at h
    · cases h
    split at h
    · cases h
    rename_i h1 h2 h3
    rw [if_neg h1, if_neg h2, if_neg h3]
    split at h
    · cases h
    split at h
    · cases h
    split at h
    · cases h
    obtain ⟨⟨v4, v4Off⟩, hv4, h⟩ := bind_ok h
    obtain ⟨⟨v6, v6Off⟩, hv6, h⟩ := bind_ok h
    obtain ⟨self4, hs4, h⟩ := bind_ok h
    obtain ⟨self6, hs6, h⟩ := bind_ok h
    exact ok_bind (parsePrefixes_alloc srt hv4) (ok_bind (parsePrefixes_alloc srt hv6)
      (ok_bind (parseSelf_alloc srt hs4) (ok_bind (parseSelf_alloc srt hs6) h)))

/-- A `SET_BYPASS` that succeeds swaps in a set representing the epoch. -/
theorem moduleSetBypass_spec {alloc : BypassAlloc} {k k' : Kernel} {ep : PolicyEpoch}
    (h : moduleSetBypass e srt alloc k ep = .ok k') :
    ∃ s, k' = k.setBypass s ∧ Represents ep s := by
  unfold moduleSetBypass at h
  split at h
  · cases h
  · rename_i body hbody
    split at h
    · cases h
    · rename_i s hs
      obtain ⟨hadm, rfl⟩ := (kmodSetBypass_eq_ok_iff e).mp hbody
      obtain ⟨s', hs', hrep⟩ := fluxrsSetBypass_epochBody e srt hadm
      rw [fluxrsSetBypass_alloc e srt hs] at hs'
      cases hs'
      exact ⟨s, (Except.ok.inj h).symm, hrep⟩

/-- An admitted epoch is taken whenever memory is there. -/
theorem moduleSetBypass_admitted (k : Kernel) {ep : PolicyEpoch} (h : Admitted ep) :
    ∃ s, moduleSetBypass e srt {} k ep = .ok (k.setBypass s) ∧ Represents ep s := by
  obtain ⟨s, hs, hrep⟩ := fluxrsSetBypass_epochBody e srt h
  refine ⟨s, ?_, hrep⟩
  unfold moduleSetBypass
  rw [(kmodSetBypass_eq_ok_iff e).mpr ⟨h, rfl⟩]
  simp only [hs]

theorem moduleUidTable_spec {alloc : UidsAlloc} {uids table : List U32}
    (h : moduleUidTable srt alloc uids = .ok table) :
    table.Pairwise (· < ·) ∧ ∀ uid, uid ∈ table ↔ uid ∈ uids ∧ AppUid uid := by
  unfold moduleUidTable at h
  split_ifs at h with hlen halloc
  split at h
  · cases h
  · rename_i t ht
    obtain rfl := Except.ok.inj h
    unfold setUidsTable at ht
    split_ifs at ht
    obtain rfl := Except.ok.inj ht
    exact ⟨uidTable_pairwise srt _, fun uid => mem_uidTable srt (by omega)⟩

/-! ### The ways a call ends -/

/-- How the kernel half of a commit ends. -/
inductive CommitResult (env : ApplyEnv) (k : Kernel) (from' next : PolicyEpoch) :
    Except DataplaneError Unit × Kernel → Prop
  | refused (err : IoError) : CommitResult env k from' next (.error (.io "lkm_set_bypass" err), k)
  | undone (err : IoError) (s : FluxrsSet) (hs : Represents from' s) :
    CommitResult env k from' next (.error (.io "lkm_set_uids" err), k.setBypass s)
  | halfway (err err' : IoError) (s : FluxrsSet)
      (hroll : moduleSetBypass e srt env.rollback (k.setBypass s) from' = .error err') :
    CommitResult env k from' next (.error (.io "lkm_set_uids" err), k.setBypass s)
  | done (s : FluxrsSet) (hs : Represents next s) (table : List U32)
      (set_ok : moduleSetBypass e srt env.bypass k next = .ok (k.setBypass s))
      (table_ok : moduleUidTable srt env.uids next.selected.toList = .ok table)
      (sorted : table.Pairwise (· < ·))
      (mem_table : ∀ uid, uid ∈ table ↔ uid ∈ next.selected ∧ AppUid uid) :
    CommitResult env k from' next (.ok (), (k.setBypass s).setUids table)

theorem commitKernel_result (env : ApplyEnv) (k : Kernel) (from' next : PolicyEpoch) :
    CommitResult e srt env k from' next (commitKernel e srt env k from' next) := by
  unfold commitKernel
  cases hset : moduleSetBypass e srt env.bypass k next with
  | error err => exact .refused err
  | ok k₁ =>
    obtain ⟨s, rfl, hrep⟩ := moduleSetBypass_spec e srt hset
    simp only
    cases huids : moduleUidTable srt env.uids next.selected.toList with
    | ok table =>
      obtain ⟨hsorted, hmem⟩ := moduleUidTable_spec srt huids
      exact .done s hrep table hset huids hsorted fun uid => by rw [hmem, ExtTreeSet.mem_toList]
    | error err =>
      simp only
      cases hroll : moduleSetBypass e srt env.rollback (k.setBypass s) from' with
      | error err' => exact .halfway err err' s hroll
      | ok k₂ =>
        obtain ⟨s', rfl, hrep'⟩ := moduleSetBypass_spec e srt hroll
        exact .undone err s' hrep'

/-- The epoch a call asks for, when the dump and the self addresses are there. -/
def wantedEpoch (env : ApplyEnv) (desired : DesiredPolicy) (p : Plane) : Option PolicyEpoch :=
  match env.snapshot with
  | .error _ => none
  | .ok addresses =>
    (desiredSelfAddresses p.mgr.addressBook addresses).2.map fun sel =>
      desiredEpoch desired sel.v4 sel.v6

/-- A commit the kernel took: the epoch, the set and the table it published. -/
structure Commit (env : ApplyEnv) (desired : DesiredPolicy) (p : Plane) where
  sel : SelfAddressSelection
  wanted_eq : wantedEpoch env desired p = some (desiredEpoch desired sel.v4 sel.v6)
  next : PolicyEpoch
  next_eq : next = committed p.mgr.liveEpoch (desiredEpoch desired sel.v4 sel.v6)
  kmod : p.mgr.kmod = true
  admitted : Admitted next
  fits : next.selected.size + next.draining.size ≤ uidPolicyMaxEntries
  set : FluxrsSet
  set_ok : moduleSetBypass e srt env.bypass p.kernel next = .ok (p.kernel.setBypass set)
  represents : Represents next set
  table : List U32
  table_ok : moduleUidTable srt env.uids next.selected.toList = .ok table
  sorted : table.Pairwise (· < ·)
  mem_table : ∀ uid, uid ∈ table ↔ uid ∈ next.selected ∧ AppUid uid

/-- The four ways `apply_policy` ends. -/
inductive ApplyResult (env : ApplyEnv) (desired : DesiredPolicy) (p : Plane) :
    Except DataplaneError Unit × Plane → Prop
  | refused (err : DataplaneError) (book : AddressBook) :
    ApplyResult env desired p (.error err, p.withBook book)
  | undone (err : IoError) (book : AddressBook) (s : FluxrsSet) (hs : Represents p.mgr.liveEpoch s) :
    ApplyResult env desired p
      (.error (.io "lkm_set_uids" err), { p.withBook book with kernel := p.kernel.setBypass s })
  | halfway (err err' : IoError) (book : AddressBook) (s : FluxrsSet)
      (hroll : moduleSetBypass e srt env.rollback (p.kernel.setBypass s) p.mgr.liveEpoch =
        .error err') :
    ApplyResult env desired p
      (.error (.io "lkm_set_uids" err), { p.withBook book with kernel := p.kernel.setBypass s })
  | done (book : AddressBook) (c : Commit e srt env desired p) :
    ApplyResult env desired p (.ok (), { p.withBook book with
      kernel := (p.kernel.setBypass c.set).setUids c.table
      mgr := (p.withBook book).mgr.store desired c.next })

theorem size_collect_le {w : ℕ} (l : List (Cidr w × BypassTag)) :
    (BypassMap.collect l).size ≤ l.length := ExtTreeMap.size_ofList_le

theorem size_toBypass_le {w : ℕ} (m : KeyMap w) : (KeyMap.toBypass m).size ≤ m.size := by
  refine (size_collect_le _).trans ?_
  rw [List.length_map, ExtTreeMap.length_toList]

theorem admitted_desiredEpoch {desired : DesiredPolicy} {sel : SelfAddressSelection}
    (h4 : desired.bypassV4.size ≤ lpmMaxEntries) (h6 : desired.bypassV6.size ≤ lpmMaxEntries)
    (hs : sel.v4.size ≤ selfAddrMaxEntries ∧ sel.v6.size ≤ selfAddrMaxEntries) (from' : PolicyEpoch) :
    Admitted (committed from' (desiredEpoch desired sel.v4 sel.v6)) where
  v4 := (size_toBypass_le _).trans h4
  v6 := (size_toBypass_le _).trans h6
  self4 := hs.1
  self6 := hs.2

/-- **Everything one `apply_policy` can do.** -/
theorem applyPolicy_result (env : ApplyEnv) (desired : DesiredPolicy) (p : Plane) :
    ApplyResult e srt env desired p (applyPolicy e srt env desired p) := by
  unfold applyPolicy
  split
  · exact .refused _ p.mgr.addressBook
  split
  · exact .refused _ p.mgr.addressBook
  rename_i hlpm
  split
  · exact .refused _ p.mgr.addressBook
  rename_i hsnap
  split
  · exact .refused _ _
  rename_i book sel hbook
  simp only
  split
  · exact .refused _ _
  rename_i hfits
  split
  · exact .refused _ _
  rename_i hkmod
  have hkmod' : p.mgr.kmod = true := by simpa using hkmod
  have hadm : Admitted (committed p.mgr.liveEpoch (desiredEpoch desired sel.v4 sel.v6)) :=
    admitted_desiredEpoch (by omega) (by omega) (desiredSelfAddresses_size hbook) _
  have hwanted : wantedEpoch env desired p = some (desiredEpoch desired sel.v4 sel.v6) := by
    simp [wantedEpoch, hsnap, hbook]
  have hcases := commitKernel_result e srt env p.kernel p.mgr.liveEpoch
    (committed p.mgr.liveEpoch (desiredEpoch desired sel.v4 sel.v6))
  cases hres : commitKernel e srt env p.kernel p.mgr.liveEpoch
      (committed p.mgr.liveEpoch (desiredEpoch desired sel.v4 sel.v6)) with
  | mk result k =>
    rw [hres] at hcases
    cases hcases with
    | refused err => exact .refused _ book
    | undone err s hs => exact .undone err book s hs
    | halfway err err' s hroll => exact .halfway err err' book s hroll
    | done s hs table hset huids hsorted hmem =>
      exact .done book ⟨sel, hwanted, _, rfl, hkmod', hadm, Nat.not_lt.mp hfits, s, hset, hs, table, huids, hsorted, hmem⟩

end FluxRs.Dataplane
