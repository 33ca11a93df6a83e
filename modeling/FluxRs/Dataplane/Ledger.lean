import FluxRs.Dataplane.Manager

/-!
# FluxRs.Dataplane.Ledger — the stored form of an epoch

`uid_modes`, the LPM key maps and the self-address sets give the committed epoch back, and the
draining ledger of a sequence of commits forgets no UID.
-/

namespace FluxRs.Dataplane

open FluxRs.Lib FluxRs.Net FluxRs.Kmod
open Std (ExtTreeMap ExtTreeSet)

/-! ### `uid_modes` -/

theorem compare_eq_iff {a b : U32} : compare a b = .eq ↔ a = b := Std.compare_eq_iff_eq

/-- Inserting one value at the keys of a list, last of all what was there before. -/
theorem getElem?_foldl_insert {κ ν α : Type} [Ord κ] [Std.TransOrd κ] [Std.LawfulEqOrd κ] [DecidableEq α]
    {key : α → κ} (hkey : Function.Injective key) {v : ν} {a : α} :
    ∀ {l : List α} {m : ExtTreeMap κ ν},
    (l.foldl (fun m x => m.insert (key x) v) m)[key a]? = if a ∈ l then some v else m[key a]?
  | [], m => by simp
  | x :: xs, m => by
    rw [List.foldl_cons, getElem?_foldl_insert hkey, ExtTreeMap.getElem?_insert]
    by_cases hxs : a ∈ xs
    · simp [hxs]
    · by_cases hx : x = a
      · subst hx
        simp
      · have hx' : ¬ compare (key x) (key a) = .eq := fun h => hx (hkey (Std.compare_eq_iff_eq.mp h))
        rw [if_neg hxs, if_neg hx', if_neg (by simp [hxs, Ne.symm hx])]

/-- A UID in both sets is stored as draining. -/
theorem getElem?_uidModesFromEpoch {ep : PolicyEpoch} {uid : U32} :
    (uidModesFromEpoch ep)[uid]? =
      if uid ∈ ep.draining then some UidMode.draining.asU8
      else if uid ∈ ep.selected then some UidMode.selected.asU8 else none := by
  unfold uidModesFromEpoch
  have hid : Function.Injective fun u : U32 => u := fun _ _ h => h
  rw [getElem?_foldl_insert hid, getElem?_foldl_insert hid]
  simp only [ExtTreeSet.mem_toList, ExtTreeMap.getElem?_empty]

theorem mem_foldl_mode {v : U8} {uid : U32} : ∀ {l : List (U32 × U8)} {s : UidSet},
    uid ∈ l.foldl (fun (s : UidSet) um => if um.2 = v then s.insert um.1 else s) s ↔
      uid ∈ s ∨ (uid, v) ∈ l
  | [], s => by simp
  | (u, m) :: l, s => by
    rw [List.foldl_cons, mem_foldl_mode, List.mem_cons, Prod.mk.injEq]
    by_cases hm : m = v
    · rw [if_pos hm, ExtTreeSet.mem_insert, compare_eq_iff]
      subst hm
      constructor
      · rintro ((rfl | h) | h)
        · exact .inr (.inl ⟨rfl, rfl⟩)
        · exact .inl h
        · exact .inr (.inr h)
      · rintro (h | ⟨rfl, -⟩ | h)
        · exact .inl (.inr h)
        · exact .inl (.inl rfl)
        · exact .inr h
    · rw [if_neg hm]
      have : ¬ v = m := fun h => hm h.symm
      tauto

theorem mem_uidsWithMode {modes : ExtTreeMap U32 U8} {mode : UidMode} {uid : U32} :
    uid ∈ uidsWithMode modes mode ↔ modes[uid]? = some mode.asU8 := by
  unfold uidsWithMode
  rw [mem_foldl_mode, ExtTreeMap.mem_toList_iff_getElem?_eq_some]
  simp

theorem uidsWithMode_draining (ep : PolicyEpoch) :
    uidsWithMode (uidModesFromEpoch ep) .draining = ep.draining := by
  apply ExtTreeSet.ext_mem
  intro uid
  rw [mem_uidsWithMode, getElem?_uidModesFromEpoch]
  by_cases hd : uid ∈ ep.draining
  · simp [hd]
  · by_cases hs : uid ∈ ep.selected <;> simp [hd, hs, UidMode.asU8]

theorem uidsWithMode_selected {ep : PolicyEpoch} (h : ∀ uid ∈ ep.selected, uid ∉ ep.draining) :
    uidsWithMode (uidModesFromEpoch ep) .selected = ep.selected := by
  apply ExtTreeSet.ext_mem
  intro uid
  rw [mem_uidsWithMode, getElem?_uidModesFromEpoch]
  by_cases hs : uid ∈ ep.selected
  · simp [hs, h uid hs]
  · by_cases hd : uid ∈ ep.draining <;> simp [hd, hs, UidMode.asU8]

theorem committed_disjoint (from' desired : PolicyEpoch) :
    ∀ uid ∈ (committed from' desired).selected, uid ∉ (committed from' desired).draining :=
  fun _ hs hd => (mem_committed_draining.mp hd).2 hs

/-- Storing a committed epoch and reading it back changes nothing. -/
theorem liveEpoch_store (m : Manager) (desired : DesiredPolicy) (from' : PolicyEpoch)
    (s4 : AddrSet 32) (s6 : AddrSet 128) :
    (m.store desired (committed from' (desiredEpoch desired s4 s6))).liveEpoch =
      committed from' (desiredEpoch desired s4 s6) := by
  unfold Manager.liveEpoch Manager.store
  simp only [uidsWithMode_draining, uidsWithMode_selected (committed_disjoint _ _)]
  rfl

end FluxRs.Dataplane
