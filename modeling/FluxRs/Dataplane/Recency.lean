import FluxRs.Dataplane.SelfAddr

/-!
# FluxRs.Dataplane.Recency — the self addresses over a history of dumps

How recently an address was first seen, read off the dumps alone, and that the selection of
`desired_self_addresses` follows it after any history, as long as the tick counter has not run out.
-/

namespace FluxRs.Dataplane

open FluxRs.Lib FluxRs.Net
open Std (ExtTreeMap ExtTreeSet)

/-! ### What a dump says -/

/-- The address that a dump entry contributes to the first family. -/
def usableV4 (address : Address) : Option Ipv4Addr :=
  if address.flags &&& (ifaFTentative ||| ifaFDadfailed) != 0 then none
  else if address.family = afInet ∧ address.bytes.length = 4 then
    let ip := wordOf 32 address.bytes
    if ip == 0 || isMulticastV4 ip then none else some ip
  else none

def usableV6 (address : Address) : Option Ipv6Addr :=
  if address.flags &&& (ifaFTentative ||| ifaFDadfailed) != 0 then none
  else if address.family = afInet6 ∧ address.bytes.length = 16 then
    let ip := wordOf 128 address.bytes
    if ip == 0 || isMulticastV6 ip then none else some ip
  else none

section Spec

variable {w : ℕ} (usable : Address → Option (BitVec w))

def Live (dump : List Address) (a : BitVec w) : Prop := ∃ entry ∈ dump, usable entry = some a

/-- Every usable entry of the address is a privacy entry. -/
def Private (dump : List Address) (a : BitVec w) : Prop :=
  ∀ entry ∈ dump, usable entry = some a → isPrivacyAddress entry.family entry.flags = true

open Classical in
/-- For how many dumps, the newest first, the address has been live without a break. -/
noncomputable def age (a : BitVec w) : List (List Address) → ℕ
  | [] => 0
  | dump :: past => if Live usable dump a then age a past + 1 else 0

/-- `a` was first seen after `b`; of two addresses from one dump the larger is stamped later. -/
def Newer (dumps : List (List Address)) (a b : BitVec w) : Prop :=
  age usable a dumps < age usable b dumps ∨ (age usable a dumps = age usable b dumps ∧ b < a)

/-- The stable addresses alone do not fit. -/
def Overfull (dump : List Address) : Prop :=
  ∃ l : List (BitVec w), l.Nodup ∧ selfAddrMaxEntries < l.length ∧
    ∀ a ∈ l, Live usable dump a ∧ ¬ Private usable dump a

/-- What a successful selection chooses from the newest of `dumps`, under `C` in order of recency. -/
structure Chosen (C : Prop) (dumps : List (List Address)) (dump : List Address)
    (chosen : AddrSet w) : Prop where
  size : chosen.size ≤ selfAddrMaxEntries
  live : ∀ a ∈ chosen, Live usable dump a
  stable : ∀ a, Live usable dump a → ¬ Private usable dump a → a ∈ chosen
  full : ∀ a, Live usable dump a → a ∉ chosen → chosen.size = selfAddrMaxEntries
  newest : C → ∀ a ∈ chosen, Private usable dump a → ∀ b, Live usable dump b → b ∉ chosen →
    Newer usable dumps a b

end Spec

/-! ### The candidates are the usable entries -/

/-- The candidates hold the live addresses, with whether they are private. -/
structure Collected {w : ℕ} (usable : Address → Option (BitVec w)) (dump : List Address)
    (candidates : Candidates w) : Prop where
  live : ∀ a, a ∈ candidates ↔ Live usable dump a
  private_ : ∀ a p, candidates[a]? = some p → (p = true ↔ Private usable dump a)

section Collect

variable {w : ℕ} {usable : Address → Option (BitVec w)} {dump : List Address}
  {candidates : Candidates w} {entry : Address}

theorem live_append {a : BitVec w} :
    Live usable (dump ++ [entry]) a ↔ Live usable dump a ∨ usable entry = some a := by
  unfold Live
  simp [or_and_right, exists_or]

theorem private_append {a : BitVec w} : Private usable (dump ++ [entry]) a ↔
    Private usable dump a ∧
      (usable entry = some a → isPrivacyAddress entry.family entry.flags = true) := by
  unfold Private
  simp [or_imp, forall_and]

theorem Collected.skip (h : Collected usable dump candidates) (hu : usable entry = none) :
    Collected usable (dump ++ [entry]) candidates where
  live a := by rw [live_append, h.live a, hu]; simp
  private_ a p hp := by rw [private_append, h.private_ a p hp, hu]; simp

/-- An entry makes its address private only if every entry before it does. -/
theorem Collected.insert (h : Collected usable dump candidates) {a : BitVec w}
    (hu : usable entry = some a) {p : Bool}
    (hp : p = (candidates.getD a true && isPrivacyAddress entry.family entry.flags)) :
    Collected usable (dump ++ [entry]) (candidates.insert a p) where
  live b := by
    rw [live_append, hu, ExtTreeMap.mem_insert, Std.compare_eq_iff_eq, h.live b, Option.some.injEq]
    exact or_comm
  private_ b q hq := by
    rw [ExtTreeMap.getElem?_insert] at hq
    rw [private_append, hu, Option.some.injEq]
    by_cases hab : a = b
    · subst hab
      rw [if_pos (by rw [Std.compare_eq_iff_eq]), Option.some.injEq] at hq
      rw [← hq, hp, Bool.and_eq_true]
      have hold : candidates.getD a true = true ↔ Private usable dump a := by
        rw [ExtTreeMap.getD_eq_getD_getElem?]
        cases ha : candidates[a]? with
        | some x => simpa using h.private_ a x ha
        | none =>
          have hnot : ¬ Live usable dump a := by
            rw [← h.live a, ExtTreeMap.mem_iff_isSome_getElem?, ha]
            simp
          have hall : Private usable dump a := fun entry hmem heq => absurd ⟨entry, hmem, heq⟩ hnot
          simp [hall]
      rw [hold]
      simp
    · rw [if_neg (by rwa [Std.compare_eq_iff_eq])] at hq
      rw [h.private_ b q hq]
      simp [hab]

end Collect

theorem collectCandidates_append (dump : List Address) (entry : Address) :
    collectCandidates (dump ++ [entry]) =
      match usableV4 entry, usableV6 entry with
      | some ip, _ => ((collectCandidates dump).1.insert ip false, (collectCandidates dump).2)
      | none, some ip => ((collectCandidates dump).1, (collectCandidates dump).2.insert ip
          ((collectCandidates dump).2.getD ip true && isPrivacyAddress entry.family entry.flags))
      | none, none => collectCandidates dump := by
  unfold collectCandidates
  rw [List.foldl_append]
  simp only [List.foldl_cons, List.foldl_nil, usableV4, usableV6]
  generalize List.foldl _ _ dump = v
  by_cases hf : (entry.flags &&& (ifaFTentative ||| ifaFDadfailed) != 0) = true
  · simp only [if_pos hf]
  simp only [if_neg hf]
  by_cases h4 : entry.family = afInet ∧ entry.bytes.length = 4
  · have h6 : ¬ (entry.family = afInet6 ∧ entry.bytes.length = 16) := fun h6 => by omega
    simp only [if_pos h4, if_neg h6]
    by_cases hip : (wordOf 32 entry.bytes == 0 || isMulticastV4 (wordOf 32 entry.bytes)) = true
    · simp only [if_pos hip]
    · simp only [if_neg hip]
  simp only [if_neg h4]
  by_cases h6 : entry.family = afInet6 ∧ entry.bytes.length = 16
  · simp only [if_pos h6]
    by_cases hip : (wordOf 128 entry.bytes == 0 || isMulticastV6 (wordOf 128 entry.bytes)) = true
    · simp only [if_pos hip]
    · simp only [if_neg hip]
  · simp only [if_neg h6]

theorem family_of_usableV4 {entry : Address} {a : Ipv4Addr} (h : usableV4 entry = some a) :
    entry.family = afInet := by
  unfold usableV4 at h
  split at h
  · cases h
  · split at h
    · rename_i h4
      exact h4.1
    · cases h

theorem collected (dump : List Address) :
    Collected usableV4 dump (collectCandidates dump).1 ∧
      Collected usableV6 dump (collectCandidates dump).2 := by
  induction dump using List.reverseRecOn with
  | nil =>
    have hnil : ∀ {w : ℕ} (usable : Address → Option (BitVec w)), Collected usable [] ∅ := fun _ =>
      ⟨fun a => by simp [Live], fun a p hp => by simp at hp⟩
    exact ⟨hnil _, hnil _⟩
  | append_singleton dump entry ih =>
    rw [collectCandidates_append]
    cases h4 : usableV4 entry with
    | some ip =>
      have hfamily := family_of_usableV4 h4
      have h6 : usableV6 entry = none := by
        simp [usableV6, hfamily, afInet, afInet6]
      refine ⟨ih.1.insert h4 ?_, ih.2.skip h6⟩
      simp [isPrivacyAddress, hfamily, afInet, afInet6]
    | none =>
      cases h6 : usableV6 entry with
      | some ip => exact ⟨ih.1.skip h4, ih.2.insert h6 rfl⟩
      | none => exact ⟨ih.1.skip h4, ih.2.skip h6⟩

/-! ### The stamps of one dump -/

/-- Where `saturating_add` stops. -/
def maxTick : ℕ := 2 ^ 64 - 1

section Stamps

variable {w : ℕ}

/-- One round of the loop over the new addresses. -/
def stamp (st : SeenTicks w × ℕ) (address : BitVec w) : SeenTicks w × ℕ :=
  if st.1.contains address then st
  else (st.1.insert address (tickSucc st.2), tickSucc st.2)

/-- The addresses of `l` that have no tick yet. -/
def unseen (l : List (BitVec w)) (m : SeenTicks w) : List (BitVec w) := l.filter fun a => !m.contains a

/-- What stamping `l` adds to `m` when the counter stands at `t`. -/
structure Stamped (l : List (BitVec w)) (m : SeenTicks w) (t : ℕ) (r : SeenTicks w × ℕ) : Prop where
  mem : ∀ a, a ∈ r.1 ↔ a ∈ m ∨ a ∈ l
  kept : ∀ a ∈ m, r.1[a]? = m[a]?
  tick : r.2 = min (t + (unseen l m).length) maxTick
  new : ∀ a k, a ∉ m → r.1[a]? = some k → min (t + 1) maxTick ≤ k ∧ k ≤ r.2
  ordered : t + (unseen l m).length ≤ maxTick → ∀ a b ka kb, a ∉ m → b ∉ m → a < b →
    r.1[a]? = some ka → r.1[b]? = some kb → ka < kb

theorem contains_eq_false {x : BitVec w} {m : SeenTicks w} (h : x ∉ m) : m.contains x = false :=
  Bool.eq_false_iff.mpr fun hc => h (ExtTreeMap.contains_iff_mem.mp hc)

theorem unseen_cons_mem {x : BitVec w} {l : List (BitVec w)} {m : SeenTicks w} (h : x ∈ m) :
    unseen (x :: l) m = unseen l m := by
  simp [unseen, ExtTreeMap.contains_iff_mem.mpr h]

theorem unseen_cons_new {x : BitVec w} {l : List (BitVec w)} {m : SeenTicks w} (hx : x ∉ m)
    (hl : x ∉ l) (k : ℕ) : unseen (x :: l) m = x :: unseen l (m.insert x k) := by
  have hc := contains_eq_false hx
  have hrest : l.filter (fun a => !m.contains a) = l.filter fun a => !(m.insert x k).contains a := by
    refine List.filter_congr fun a ha => ?_
    have hne : ¬ x = a := fun heq => hl (heq ▸ ha)
    rw [ExtTreeMap.contains_insert]
    simp [hne]
  simp only [unseen, List.filter_cons, hc, Bool.not_false, if_true, hrest]

theorem stamped (l : List (BitVec w)) (hl : l.Pairwise (· < ·)) (m : SeenTicks w) {t : ℕ}
    (ht : t ≤ maxTick) : Stamped l m t (l.foldl stamp (m, t)) := by
  induction l generalizing m t with
  | nil =>
    refine ⟨fun a => by simp, fun a _ => rfl, ?_, fun a k ha hk => ?_, fun _ a b ka kb ha _ _ hk => ?_⟩
    · simp only [List.foldl_nil, unseen, List.filter_nil, List.length_nil]
      omega
    · exact absurd (ExtTreeMap.mem_iff_isSome_getElem?.mpr (by simp [show m[a]? = some k from hk])) ha
    · exact absurd (ExtTreeMap.mem_iff_isSome_getElem?.mpr (by simp [show m[a]? = some ka from hk])) ha
  | cons x l ih =>
    obtain ⟨hx, hl⟩ := List.pairwise_cons.mp hl
    rw [List.foldl_cons]
    by_cases hmem : x ∈ m
    · have hstep : stamp (m, t) x = (m, t) := if_pos (ExtTreeMap.contains_iff_mem.mpr hmem)
      rw [hstep]
      have h := ih hl m ht
      refine ⟨fun a => ?_, h.kept, ?_, h.new, ?_⟩
      · rw [h.mem a, List.mem_cons]
        constructor
        · tauto
        · rintro (ha | rfl | ha)
          · exact .inl ha
          · exact .inl hmem
          · exact .inr ha
      · rw [unseen_cons_mem hmem]
        exact h.tick
      · rw [unseen_cons_mem hmem]
        exact h.ordered
    · have hnot : x ∉ l := fun hin => absurd (hx x hin) (by simp)
      have hstep : stamp (m, t) x = (m.insert x (tickSucc t), tickSucc t) :=
        if_neg (by simpa using hmem)
      have hsucc : tickSucc t = min (t + 1) maxTick := rfl
      have ht' : tickSucc t ≤ maxTick := by omega
      rw [hstep]
      have h := ih hl (m.insert x (tickSucc t)) ht'
      have hlen := congrArg List.length (unseen_cons_new hmem hnot (tickSucc t))
      rw [List.length_cons] at hlen
      have hself : (m.insert x (tickSucc t))[x]? = some (tickSucc t) := ExtTreeMap.getElem?_insert_self
      have hin : x ∈ m.insert x (tickSucc t) := ExtTreeMap.mem_insert_self
      have hother : ∀ a, a ≠ x → (a ∈ m.insert x (tickSucc t) ↔ a ∈ m) := fun a hne => by
        rw [ExtTreeMap.mem_insert, Std.compare_eq_iff_eq]
        exact or_iff_right fun heq => hne heq.symm
      refine ⟨fun a => ?_, fun a ha => ?_, ?_, fun a k ha hk => ?_, fun hroom a b ka kb ha hb hab hka hkb => ?_⟩
      · rw [h.mem a, ExtTreeMap.mem_insert, Std.compare_eq_iff_eq, List.mem_cons]
        tauto
      · rw [h.kept a (ExtTreeMap.mem_insert.mpr (.inr ha)), ExtTreeMap.getElem?_insert, if_neg]
        rw [Std.compare_eq_iff_eq]
        rintro rfl
        exact hmem ha
      · rw [h.tick]
        omega
      · by_cases hax : a = x
        · subst hax
          rw [h.kept a hin, hself, Option.some.injEq] at hk
          have htick := h.tick
          omega
        · have hbound := h.new a k (by rwa [hother a hax]) hk
          omega
      · -- the new address is the smallest of those still to come
        by_cases hax : a = x
        · subst hax
          rw [h.kept a hin, hself, Option.some.injEq] at hka
          have hbound := h.new b kb (by rwa [hother b hab.ne']) hkb
          have hroom' : 0 < (unseen l (m.insert a (tickSucc t))).length := by
            have hbl : b ∈ l := ((h.mem b).mp (ExtTreeMap.mem_iff_isSome_getElem?.mpr (by simp [hkb]))).resolve_left
              (by rwa [hother b hab.ne'])
            refine List.length_pos_of_mem (a := b) (List.mem_filter.mpr ⟨hbl, ?_⟩)
            rw [contains_eq_false (by rwa [hother b hab.ne'])]
            rfl
          omega
        · by_cases hbx : b = x
          · subst hbx
            have hal : a ∈ l := ((h.mem a).mp (ExtTreeMap.mem_iff_isSome_getElem?.mpr (by simp [hka]))).resolve_left
              (by rwa [hother a hax])
            exact absurd (hx a hal) (by simpa using BitVec.le_of_lt hab)
          · exact h.ordered (by omega) a b ka kb (by rwa [hother a hax]) (by rwa [hother b hbx]) hab hka hkb

theorem keys_pairwise {β : Type} (m : ExtTreeMap (BitVec w) β) : m.keys.Pairwise (· < ·) :=
  m.ordered_keys.imp fun h => by rwa [compare_lt_iff_lt] at h

theorem mem_keys {β : Type} (m : ExtTreeMap (BitVec w) β) (a : BitVec w) : a ∈ m.keys ↔ a ∈ m :=
  ExtTreeMap.mem_keys

end Stamps

/-! ### The book over a history -/

/-- The book after the dumps, the newest first. -/
def bookAfter : List (List Address) → AddressBook
  | [] => .empty
  | dump :: past => (desiredSelfAddresses (bookAfter past) dump).1

section History

variable {w : ℕ} {usable : Address → Option (BitVec w)}

open Classical in
/-- The live addresses of a dump that the one before it did not have. -/
noncomputable def arrivals (usable : Address → Option (BitVec w)) (candidates : Candidates w)
    (past : List (List Address)) : List (BitVec w) :=
  candidates.keys.filter fun a => age usable a past = 0

/-- How many addresses have been newly seen over the dumps. -/
noncomputable def sightings : List (List Address) → ℕ
  | [] => 0
  | dump :: past => sightings past + (arrivals usableV4 (collectCandidates dump).1 past).length +
      (arrivals usableV6 (collectCandidates dump).2 past).length

/-- The ticks of one family follow the order in which its addresses were first seen, under `C`. -/
structure Ticks (usable : Address → Option (BitVec w)) (C : Prop) (dumps : List (List Address))
    (seen : SeenTicks w) (tick : ℕ) : Prop where
  live : ∀ a, a ∈ seen ↔ 0 < age usable a dumps
  le : ∀ (a : BitVec w) (k : ℕ), seen[a]? = some k → k ≤ tick
  order : C → ∀ (a b : BitVec w) (ka kb : ℕ), seen[a]? = some ka → seen[b]? = some kb → Newer usable dumps a b → kb < ka

theorem mem_of_getElem? {m : SeenTicks w} {a : BitVec w} {k : ℕ} (h : m[a]? = some k) : a ∈ m :=
  ExtTreeMap.mem_iff_isSome_getElem?.mpr (by simp [h])

open Classical in
theorem age_cons {dump : List Address} {past : List (List Address)} (a : BitVec w) :
    age usable a (dump :: past) = if Live usable dump a then age usable a past + 1 else 0 := rfl

theorem age_live {dump : List Address} {past : List (List Address)} {a : BitVec w}
    (h : Live usable dump a) : age usable a (dump :: past) = age usable a past + 1 := by
  rw [age_cons, if_pos h]

theorem age_pos {dump : List Address} {past : List (List Address)} {a : BitVec w} :
    0 < age usable a (dump :: past) ↔ Live usable dump a := by
  rw [age_cons]
  by_cases h : Live usable dump a
  · simp [h]
  · simp [h]

section Update

variable {C : Prop} {dump : List Address} {past : List (List Address)} {seen : SeenTicks w}
  {candidates : Candidates w} {tick t : ℕ}

/-- The ticks of the addresses that stay. -/
def stayed (candidates : Candidates w) (seen : SeenTicks w) : SeenTicks w :=
  seen.filter fun a _ => candidates.contains a

theorem getElem?_stayed (hc : Collected usable dump candidates) (a : BitVec w) :
    Live usable dump a → (stayed candidates seen)[a]? = seen[a]? := by
  intro ha
  have hin : candidates.contains a = true := ExtTreeMap.contains_iff_mem.mpr ((hc.live a).mpr ha)
  rw [stayed, ExtTreeMap.getElem?_filter']
  cases seen[a]? <;> simp [hin]

theorem mem_stayed (h : Ticks usable C past seen tick) (hc : Collected usable dump candidates)
    {a : BitVec w} : a ∈ stayed candidates seen ↔ Live usable dump a ∧ 0 < age usable a past := by
  rw [← h.live a]
  by_cases ha : Live usable dump a
  · rw [ExtTreeMap.mem_iff_isSome_getElem?, getElem?_stayed hc a ha, ← ExtTreeMap.mem_iff_isSome_getElem?]
    simp [ha]
  · have hnot : candidates.contains a = false :=
      Bool.eq_false_iff.mpr fun hin => ha ((hc.live a).mp (ExtTreeMap.contains_iff_mem.mp hin))
    have hnone : (stayed candidates seen)[a]? = none := by
      rw [stayed, ExtTreeMap.getElem?_filter']
      cases seen[a]? <;> simp [hnot]
    rw [ExtTreeMap.mem_iff_isSome_getElem?, hnone]
    simp [ha]

theorem unseen_eq_arrivals (h : Ticks usable C past seen tick) (hc : Collected usable dump candidates) :
    unseen candidates.keys (stayed candidates seen) = arrivals usable candidates past := by
  refine List.filter_congr fun a ha => ?_
  have hlive : Live usable dump a := (hc.live a).mp ((mem_keys _ a).mp ha)
  by_cases hage : age usable a past = 0
  · have hnot : a ∉ stayed candidates seen := by
      rw [mem_stayed h hc]
      omega
    simp [contains_eq_false hnot, hage]
  · have hin : a ∈ stayed candidates seen := (mem_stayed h hc).mpr ⟨hlive, by omega⟩
    simp [ExtTreeMap.contains_iff_mem.mpr hin, hage]

/-- **One dump**: the ticks of the addresses that stay keep their order, and those of the new ones come
after them, in address order. -/
theorem Ticks.update (h : Ticks usable C past seen tick) (hc : Collected usable dump candidates)
    (hle : tick ≤ t) (ht : t ≤ maxTick) :
    Ticks usable (C ∧ t + (arrivals usable candidates past).length ≤ maxTick) (dump :: past)
        (updateSeen candidates seen t).1 (updateSeen candidates seen t).2 ∧
      (updateSeen candidates seen t).2 = min (t + (arrivals usable candidates past).length) maxTick := by
  have hs : Stamped candidates.keys (stayed candidates seen) t (updateSeen candidates seen t) :=
    stamped _ (keys_pairwise _) _ ht
  have hun := unseen_eq_arrivals h hc
  have htick := hs.tick
  rw [hun] at htick
  have hlive : ∀ a, a ∈ (updateSeen candidates seen t).1 ↔ Live usable dump a := by
    intro a
    rw [hs.mem a, mem_keys, mem_stayed h hc, hc.live a]
    tauto
  have hold : ∀ a k, (updateSeen candidates seen t).1[a]? = some k → 0 < age usable a past →
      seen[a]? = some k := by
    intro a k hk hage
    have ha := (hlive a).mp (mem_of_getElem? hk)
    rw [← getElem?_stayed hc a ha, ← hs.kept a ((mem_stayed h hc).mpr ⟨ha, hage⟩)]
    exact hk
  have hnew : ∀ a, age usable a past = 0 → a ∉ stayed candidates seen := by
    intro a hage
    rw [mem_stayed h hc]
    omega
  refine ⟨⟨fun a => (hlive a).trans age_pos.symm, fun a k hk => ?_, ?_⟩, htick⟩
  · by_cases hage : age usable a past = 0
    · exact (hs.new a k (hnew a hage) hk).2
    · have hbound := h.le a k (hold a k hk (by omega))
      omega
  · rintro ⟨hC, hroom⟩ a b ka kb hka hkb hab
    have ha := (hlive a).mp (mem_of_getElem? hka)
    have hb := (hlive b).mp (mem_of_getElem? hkb)
    rw [Newer, age_live ha, age_live hb] at hab
    by_cases hage : age usable a past = 0
    · have hbound := hs.new a ka (hnew a hage) hka
      by_cases hageb : age usable b past = 0
      · have hlt : b < a := (hab.resolve_left (by omega)).2
        rw [← hun] at hroom
        exact hs.ordered hroom b a kb ka (hnew b hageb) (hnew a hage) hlt hkb hka
      · have hboundb := h.le b kb (hold b kb hkb (by omega))
        have hpos : 0 < (arrivals usable candidates past).length := by
          refine List.length_pos_of_mem (a := a) (List.mem_filter.mpr ⟨?_, by simpa using hage⟩)
          exact (mem_keys _ a).mpr ((hc.live a).mpr ha)
        omega
    · have hageb : 0 < age usable b past := by omega
      refine h.order hC a b ka kb (hold a ka hka (by omega)) (hold b kb hkb hageb) ?_
      rcases hab with hlt | ⟨heq, hlt⟩
      · exact .inl (by omega)
      · exact .inr ⟨by omega, hlt⟩

end Update

end History

/-- The book agrees with the history. -/
structure Kept (dumps : List (List Address)) (book : AddressBook) : Prop where
  v4 : Ticks usableV4 (sightings dumps ≤ maxTick) dumps book.seenV4 book.tick
  v6 : Ticks usableV6 (sightings dumps ≤ maxTick) dumps book.seenV6 book.tick
  tick : book.tick = min (sightings dumps) maxTick

/-- The book that a call leaves, whether or not it fails. -/
theorem desiredSelfAddresses_fst (book : AddressBook) (dump : List Address) :
    (desiredSelfAddresses book dump).1 =
      let v4 := updateSeen (collectCandidates dump).1 book.seenV4 book.tick
      let v6 := updateSeen (collectCandidates dump).2 book.seenV6 v4.2
      ⟨v4.1, v6.1, v6.2⟩ := by
  unfold desiredSelfAddresses
  simp only
  split
  · rfl
  · split <;> rfl

theorem kept_bookAfter (dumps : List (List Address)) : Kept dumps (bookAfter dumps) := by
  induction dumps with
  | nil =>
    have hempty : ∀ {w : ℕ} (usable : Address → Option (BitVec w)) C, Ticks usable C [] ∅ 0 :=
      fun _ _ => ⟨fun a => by simp [age], fun a k hk => by simp at hk, fun _ a b ka kb hk => by simp at hk⟩
    exact ⟨hempty _ _, hempty _ _, rfl⟩
  | cons dump past ih =>
    obtain ⟨hc4, hc6⟩ := collected dump
    have hmax : (bookAfter past).tick ≤ maxTick := by
      rw [ih.tick]
      omega
    obtain ⟨h4, ht4⟩ := ih.v4.update hc4 le_rfl hmax
    obtain ⟨h6, ht6⟩ := ih.v6.update hc6 (t := (updateSeen (collectCandidates dump).1
      (bookAfter past).seenV4 (bookAfter past).tick).2) (by rw [ht4]; omega) (by rw [ht4]; omega)
    have htick := ih.tick
    have hsight : sightings (dump :: past) = sightings past +
        (arrivals usableV4 (collectCandidates dump).1 past).length +
        (arrivals usableV6 (collectCandidates dump).2 past).length := rfl
    rw [bookAfter, desiredSelfAddresses_fst]
    refine ⟨⟨h4.live, fun a k hk => ?_, fun hroom => ?_⟩, ⟨h6.live, h6.le, fun hroom => ?_⟩, ?_⟩
    · have hk' := h4.le a k hk
      simp only
      omega
    · exact h4.order ⟨by omega, by omega⟩
    · exact h6.order ⟨by omega, by omega⟩
    · simp only
      omega

/-! ### The selection -/

section Selection

variable {w : ℕ} {candidates : Candidates w} {seen : SeenTicks w}

def stableOf (candidates : Candidates w) : AddrSet w :=
  .collect ((candidates.toList.filter fun ap => !ap.2).map Prod.fst)

def privacyOf (candidates : Candidates w) (seen : SeenTicks w) : List (ℕ × BitVec w) :=
  ((candidates.toList.filter fun ap => ap.2).map fun ap => (seen.getD ap.1 0, ap.1)).insertionSort
    recentFirst

theorem selectSelfAddresses_eq (capacity : ℕ) : selectSelfAddresses candidates seen capacity =
    if capacity < (stableOf candidates).size then none
    else some ((((privacyOf candidates seen).take (capacity - (stableOf candidates).size)).map
        Prod.snd).foldl ExtTreeSet.insert (stableOf candidates),
      decide (capacity - (stableOf candidates).size < (privacyOf candidates seen).length)) := rfl

theorem mem_stableOf {a : BitVec w} : a ∈ stableOf candidates ↔ candidates[a]? = some false := by
  rw [stableOf, AddrSet.collect, ExtTreeSet.mem_ofList, List.contains_iff_mem, List.mem_map]
  constructor
  · rintro ⟨⟨a', p⟩, hmem, rfl⟩
    obtain ⟨hin, hp⟩ := List.mem_filter.mp hmem
    obtain rfl : p = false := by simpa using hp
    exact ExtTreeMap.mem_toList_iff_getElem?_eq_some.mp hin
  · intro ha
    exact ⟨(a, false), List.mem_filter.mpr ⟨ExtTreeMap.mem_toList_iff_getElem?_eq_some.mpr ha, rfl⟩, rfl⟩

theorem mem_privacyOf {a : BitVec w} {k : ℕ} :
    (k, a) ∈ privacyOf candidates seen ↔ candidates[a]? = some true ∧ k = seen.getD a 0 := by
  rw [privacyOf, (List.perm_insertionSort _ _).mem_iff, List.mem_map]
  constructor
  · rintro ⟨⟨a', p⟩, hmem, heq⟩
    obtain ⟨hin, hp⟩ := List.mem_filter.mp hmem
    obtain ⟨rfl, rfl⟩ := Prod.mk.inj heq
    obtain rfl : p = true := hp
    exact ⟨ExtTreeMap.mem_toList_iff_getElem?_eq_some.mp hin, rfl⟩
  · rintro ⟨ha, rfl⟩
    exact ⟨(a, true), List.mem_filter.mpr ⟨ExtTreeMap.mem_toList_iff_getElem?_eq_some.mpr ha, rfl⟩, rfl⟩

theorem toList_nodup_fst (candidates : Candidates w) (q : BitVec w × Bool → Bool) :
    ((candidates.toList.filter q).map Prod.fst).Nodup := by
  rw [List.nodup_iff_pairwise_ne, List.pairwise_map]
  refine (candidates.distinct_keys_toList.filter q).imp ?_
  intro x y hne heq
  exact hne (by rw [Std.compare_eq_iff_eq]; exact heq)

theorem privacyOf_nodup : ((privacyOf candidates seen).map Prod.snd).Nodup := by
  have hperm : ((privacyOf candidates seen).map Prod.snd).Perm
      ((candidates.toList.filter fun ap => ap.2).map Prod.fst) := by
    refine ((List.perm_insertionSort _ _).map Prod.snd).trans ?_
    rw [List.map_map]
    rfl
  exact hperm.nodup_iff.mpr (toList_nodup_fst _ _)

theorem privacyOf_sorted : (privacyOf candidates seen).Pairwise recentFirst := by
  have htrans : IsTrans (ℕ × BitVec w) recentFirst := ⟨fun a b c hab hbc => by
    rcases hab with h | ⟨h, h'⟩
    · rcases hbc with h₁ | ⟨h₁, -⟩
      · exact .inl (h₁.trans h)
      · exact .inl (h₁ ▸ h)
    · rcases hbc with h₁ | ⟨h₁, h₁'⟩
      · exact .inl (h ▸ h₁)
      · exact .inr ⟨h.trans h₁, h'.trans h₁'⟩⟩
  have htotal : @Std.Total (ℕ × BitVec w) recentFirst := ⟨fun a b => by
    rcases lt_trichotomy a.1 b.1 with h | h | h
    · exact .inr (.inl h)
    · rcases le_total a.2 b.2 with h' | h'
      · exact .inl (.inr ⟨h, h'⟩)
      · exact .inr (.inr ⟨h.symm, h'⟩)
    · exact .inl (.inl h)⟩
  exact List.pairwise_insertionSort recentFirst _

theorem mem_foldl_insert_addr {a : BitVec w} (l : List (BitVec w)) (s : AddrSet w) :
    a ∈ l.foldl ExtTreeSet.insert s ↔ a ∈ s ∨ a ∈ l := by
  induction l generalizing s with
  | nil => simp
  | cons x l ih =>
    rw [List.foldl_cons, ih, ExtTreeSet.mem_insert, Std.compare_eq_iff_eq, List.mem_cons]
    constructor
    · rintro ((rfl | h) | h) <;> tauto
    · rintro (h | rfl | h) <;> tauto

theorem size_foldl_insert (l : List (BitVec w)) (s : AddrSet w) (hl : l.Nodup) (hs : ∀ a ∈ l, a ∉ s) :
    (l.foldl ExtTreeSet.insert s).size = s.size + l.length := by
  induction l generalizing s with
  | nil => simp
  | cons x l ih =>
    obtain ⟨hx, hl⟩ := List.nodup_cons.mp hl
    obtain ⟨hxs, hrest⟩ := List.forall_mem_cons.mp hs
    rw [List.foldl_cons, ih _ hl, ExtTreeSet.size_insert,
      if_neg (fun h => hxs (ExtTreeSet.contains_iff_mem.mp h)), List.length_cons]
    · omega
    · intro a ha
      rw [ExtTreeSet.mem_insert, Std.compare_eq_iff_eq]
      rintro (rfl | h)
      · exact hx ha
      · exact hrest a ha h

/-- A set holds at least as many addresses as a list of its members without repetition. -/
theorem length_le_size {l : List (BitVec w)} {s : AddrSet w} (hl : l.Nodup) (hs : ∀ a ∈ l, a ∈ s) :
    l.length ≤ s.size := by
  rw [← ExtTreeSet.length_toList]
  refine (List.Nodup.subperm hl fun a ha => ?_).length_le
  exact ExtTreeSet.mem_toList.mpr (hs a ha)

section Chosen

variable {usable : Address → Option (BitVec w)} {C : Prop} {dump : List Address}
  {past : List (List Address)} {tick : ℕ}

theorem Collected.get (hc : Collected usable dump candidates) {a : BitVec w} :
    (candidates[a]? = some true ↔ Live usable dump a ∧ Private usable dump a) ∧
      (candidates[a]? = some false ↔ Live usable dump a ∧ ¬ Private usable dump a) := by
  cases ha : candidates[a]? with
  | none =>
    have hnot : ¬ Live usable dump a := by
      rw [← hc.live a, ExtTreeMap.mem_iff_isSome_getElem?, ha]
      simp
    simp [hnot]
  | some p =>
    have hlive : Live usable dump a := (hc.live a).mp (ExtTreeMap.mem_iff_isSome_getElem?.mpr (by simp [ha]))
    have hp := hc.private_ a p ha
    cases p
    · have hnot : ¬ Private usable dump a := fun h => by simpa using hp.mpr h
      simp [hlive, hnot]
    · have hpriv : Private usable dump a := hp.mp rfl
      simp [hlive, hpriv]

theorem overfull_iff (hc : Collected usable dump candidates) :
    selfAddrMaxEntries < (stableOf candidates).size ↔ Overfull usable dump := by
  have hmem : ∀ a, a ∈ stableOf candidates ↔ Live usable dump a ∧ ¬ Private usable dump a :=
    fun a => mem_stableOf.trans hc.get.2
  constructor
  · intro h
    refine ⟨(stableOf candidates).toList, ?_, by rwa [ExtTreeSet.length_toList], fun a ha => ?_⟩
    · rw [List.nodup_iff_pairwise_ne]
      refine (stableOf candidates).distinct_toList.imp fun hne heq => hne ?_
      rw [Std.compare_eq_iff_eq]
      exact heq
    · exact (hmem a).mp (ExtTreeSet.mem_toList.mp ha)
  · rintro ⟨l, hl, hlen, hall⟩
    exact hlen.trans_le (length_le_size hl fun a ha => (hmem a).mpr (hall a ha))

theorem newer_trichotomy (dumps : List (List Address)) (a b : BitVec w) :
    Newer usable dumps a b ∨ a = b ∨ Newer usable dumps b a := by
  unfold Newer
  rcases lt_trichotomy (age usable a dumps) (age usable b dumps) with h | h | h
  · exact .inl (.inl h)
  · rcases lt_trichotomy b a with h' | h' | h'
    · exact .inl (.inr ⟨h, h'⟩)
    · exact .inr (.inl h'.symm)
    · exact .inr (.inr (.inr ⟨h.symm, h'⟩))
  · exact .inr (.inr (.inl h))

/-- What one selection takes: the stable addresses, and those that head the ranking. -/
structure Ranked (usable : Address → Option (BitVec w)) (dump : List Address) (seen : SeenTicks w)
    (s : AddrSet w) (truncated : Bool) : Prop where
  live : ∀ a ∈ s, Live usable dump a
  stable : ∀ a, Live usable dump a → ¬ Private usable dump a → a ∈ s
  full : ∀ a, Live usable dump a → a ∉ s → s.size = selfAddrMaxEntries
  first : ∀ a ∈ s, Private usable dump a → ∀ b, Live usable dump b → b ∉ s →
    recentFirst (seen.getD a 0, a) (seen.getD b 0, b)
  truncated : truncated = true ↔ ∃ a, Live usable dump a ∧ a ∉ s

theorem selectSelfAddresses_ranked (hc : Collected usable dump candidates) {s : AddrSet w}
    {truncated : Bool}
    (h : selectSelfAddresses candidates seen selfAddrMaxEntries = some (s, truncated)) :
    Ranked usable dump seen s truncated := by
  rw [selectSelfAddresses_eq] at h
  split at h
  · cases h
  rename_i hroom
  obtain ⟨hs, htr⟩ := Prod.mk.inj (Option.some.inj h)
  obtain ⟨available, havail⟩ : ∃ n, n = selfAddrMaxEntries - (stableOf candidates).size := ⟨_, rfl⟩
  rw [← havail] at hs htr
  have hstable : ∀ a, a ∈ stableOf candidates ↔ Live usable dump a ∧ ¬ Private usable dump a :=
    fun a => mem_stableOf.trans hc.get.2
  have hprivacy : ∀ k a, (k, a) ∈ privacyOf candidates seen ↔
      (Live usable dump a ∧ Private usable dump a) ∧ k = seen.getD a 0 :=
    fun k a => mem_privacyOf.trans (and_congr_left' hc.get.1)
  have hmem : ∀ a, a ∈ s ↔ a ∈ stableOf candidates ∨
      ∃ k, (k, a) ∈ (privacyOf candidates seen).take available := by
    intro a
    rw [← hs, mem_foldl_insert_addr, List.mem_map]
    simp
  -- an address that is not chosen comes after those that are
  have hdrop : ∀ a, Live usable dump a → a ∉ s →
      (seen.getD a 0, a) ∈ (privacyOf candidates seen).drop available := by
    intro a ha hnot
    have hpriv : Private usable dump a := by
      by_contra hno
      exact hnot ((hmem a).mpr (.inl ((hstable a).mpr ⟨ha, hno⟩)))
    have hin : (seen.getD a 0, a) ∈ privacyOf candidates seen := (hprivacy _ a).mpr ⟨⟨ha, hpriv⟩, rfl⟩
    rw [← List.take_append_drop available (privacyOf candidates seen), List.mem_append] at hin
    exact hin.resolve_left fun htake => hnot ((hmem a).mpr (.inr ⟨_, htake⟩))
  have hlen : ∀ a, Live usable dump a → a ∉ s → available < (privacyOf candidates seen).length := by
    intro a ha hnot
    have hpos := List.length_pos_of_mem (hdrop a ha hnot)
    rw [List.length_drop] at hpos
    omega
  refine ⟨fun a ha => ?_, fun a ha hno => ?_, fun a ha hnot => ?_, fun a ha hpriv b hb hnot => ?_, ?_⟩
  · rcases (hmem a).mp ha with hst | ⟨k, hk⟩
    · exact ((hstable a).mp hst).1
    · exact ((hprivacy k a).mp (List.mem_of_mem_take hk)).1.1
  · exact (hmem a).mpr (.inl ((hstable a).mpr ⟨ha, hno⟩))
  · have hlt := hlen a ha hnot
    rw [← hs, size_foldl_insert, List.length_map, List.length_take]
    · omega
    · exact privacyOf_nodup.sublist ((List.take_sublist _ _).map _)
    · rintro b hb hst
      obtain ⟨⟨k, b'⟩, hk, rfl⟩ := List.mem_map.mp hb
      exact ((hstable b').mp hst).2 ((hprivacy k b').mp (List.mem_of_mem_take hk)).1.2
  · have hka : (seen.getD a 0, a) ∈ (privacyOf candidates seen).take available := by
      rcases (hmem a).mp ha with hst | ⟨k, hk⟩
      · exact absurd hpriv ((hstable a).mp hst).2
      · rwa [← ((hprivacy k a).mp (List.mem_of_mem_take hk)).2]
    have hsorted : (privacyOf candidates seen).Pairwise recentFirst := privacyOf_sorted
    rw [← List.take_append_drop available (privacyOf candidates seen), List.pairwise_append] at hsorted
    exact hsorted.2.2 _ hka _ (hdrop b hb hnot)
  · rw [← htr, decide_eq_true_eq]
    constructor
    · intro hlt
      have hpos : 0 < ((privacyOf candidates seen).drop available).length := by
        rw [List.length_drop]
        omega
      obtain ⟨⟨k, a⟩, ha⟩ := List.exists_mem_of_length_pos hpos
      have hin := (hprivacy k a).mp (List.mem_of_mem_drop ha)
      refine ⟨a, hin.1.1, fun hs' => ?_⟩
      rcases (hmem a).mp hs' with hst | ⟨k', hk'⟩
      · exact ((hstable a).mp hst).2 hin.1.2
      · have hnodup : ((privacyOf candidates seen).map Prod.snd).Nodup := privacyOf_nodup
        rw [← List.take_append_drop available (privacyOf candidates seen), List.map_append,
          List.nodup_append] at hnodup
        exact hnodup.2.2 a (List.mem_map_of_mem hk') a (List.mem_map_of_mem ha) rfl
    · rintro ⟨a, ha, hnot⟩
      exact hlen a ha hnot

/-- **One selection** under ticks that follow the history. -/
theorem selectSelfAddresses_chosen (hc : Collected usable dump candidates)
    (ht : Ticks usable C (dump :: past) seen tick) {s : AddrSet w} {truncated : Bool}
    (h : selectSelfAddresses candidates seen selfAddrMaxEntries = some (s, truncated)) :
    Chosen usable C (dump :: past) dump s ∧
      (truncated = true ↔ ∃ a, Live usable dump a ∧ a ∉ s) := by
  have hr := selectSelfAddresses_ranked hc h
  have hseen : ∀ c, Live usable dump c → seen[c]? = some (seen.getD c 0) := by
    intro c hc'
    have hin : c ∈ seen := (ht.live c).mpr (age_pos.mpr hc')
    rw [ExtTreeMap.getD_eq_getD_getElem?]
    rw [ExtTreeMap.mem_iff_isSome_getElem?] at hin
    obtain ⟨k, hk⟩ := Option.isSome_iff_exists.mp hin
    rw [hk]
    rfl
  refine ⟨⟨selectSelfAddresses_size h, hr.live, hr.stable, hr.full, ?_⟩, hr.truncated⟩
  intro hC a ha hpriv b hb hnot
  have hfirst := hr.first a ha hpriv b hb hnot
  have htri : Newer usable (dump :: past) a b ∨ a = b ∨ Newer usable (dump :: past) b a :=
    newer_trichotomy (dump :: past) a b
  rcases htri with hnew | rfl | hold
  · exact hnew
  · exact absurd ha hnot
  · have hlt := ht.order hC b a _ _ (hseen b hb) (hseen a (hr.live a ha)) hold
    rcases hfirst with h₁ | ⟨h₁, -⟩
    · exact absurd h₁ (by simp only; omega)
    · exact absurd h₁ (by simp only; omega)

end Chosen

end Selection

/-- **The self addresses over a history.**  After any dumps the call fails exactly if the stable addresses
of a family alone do not fit; otherwise it chooses, in each family, every stable address and the newest of
the private ones that still fit, and reports whether any was left out.  The order of recency holds for as
long as the counter of the ticks has not run out. -/
theorem desiredSelfAddresses_history (past : List (List Address)) (dump : List Address) :
    let result := (desiredSelfAddresses (bookAfter past) dump).2
    (result = none ↔ Overfull usableV4 dump ∨ Overfull usableV6 dump) ∧
    ∀ sel, result = some sel →
      Chosen usableV4 (sightings (dump :: past) < 2 ^ 64) (dump :: past) dump sel.v4 ∧
      Chosen usableV6 (sightings (dump :: past) < 2 ^ 64) (dump :: past) dump sel.v6 ∧
      (sel.truncated = true ↔ (∃ a, Live usableV4 dump a ∧ a ∉ sel.v4) ∨
        ∃ a, Live usableV6 dump a ∧ a ∉ sel.v6) := by
  obtain ⟨hc4, hc6⟩ := collected dump
  have hkept := kept_bookAfter (dump :: past)
  have hbook := desiredSelfAddresses_fst (bookAfter past) dump
  rw [bookAfter, hbook] at hkept
  have hrun : sightings (dump :: past) < 2 ^ 64 ↔ sightings (dump :: past) ≤ maxTick := by
    unfold maxTick
    omega
  rw [hrun]
  intro result
  have hresult : result = (desiredSelfAddresses (bookAfter past) dump).2 := rfl
  unfold desiredSelfAddresses at hresult
  simp only at hresult
  split at hresult
  · rename_i h4
    rw [selectSelfAddresses_eq] at h4
    have hover : selfAddrMaxEntries < (stableOf (collectCandidates dump).1).size := by
      by_contra hno
      simp [if_neg hno] at h4
    rw [hresult]
    exact ⟨iff_of_true rfl (.inl ((overfull_iff hc4).mp hover)), fun sel h => by cases h⟩
  · rename_i s4 tr4 h4
    obtain ⟨hch4, htr4⟩ := selectSelfAddresses_chosen hc4 hkept.v4 h4
    have hno4 : ¬ Overfull usableV4 dump := by
      rw [← overfull_iff hc4]
      intro hover
      rw [selectSelfAddresses_eq, if_pos hover] at h4
      cases h4
    split at hresult
    · rename_i h6
      rw [selectSelfAddresses_eq] at h6
      have hover : selfAddrMaxEntries < (stableOf (collectCandidates dump).2).size := by
        by_contra hno
        simp [if_neg hno] at h6
      rw [hresult]
      exact ⟨iff_of_true rfl (.inr ((overfull_iff hc6).mp hover)), fun sel h => by cases h⟩
    · rename_i s6 tr6 h6
      obtain ⟨hch6, htr6⟩ := selectSelfAddresses_chosen hc6 hkept.v6 h6
      have hno6 : ¬ Overfull usableV6 dump := by
        rw [← overfull_iff hc6]
        intro hover
        rw [selectSelfAddresses_eq, if_pos hover] at h6
        cases h6
      rw [hresult]
      refine ⟨iff_of_false (by simp) (by tauto), fun sel hsel => ?_⟩
      obtain rfl := Option.some.inj hsel
      refine ⟨hch4, hch6, ?_⟩
      rw [Bool.or_eq_true, htr4, htr6]

/-! ### A counter that has run out -/

section Exhausted

variable {w : ℕ}

/-- Once the counter has run out, every tick is the last one. -/
theorem updateSeen_maxTick {candidates : Candidates w} {seen : SeenTicks w}
    (h : ∀ (a : BitVec w) (k : ℕ), seen[a]? = some k → k = maxTick) :
    (∀ (a : BitVec w) (k : ℕ), (updateSeen candidates seen maxTick).1[a]? = some k → k = maxTick) ∧
      (updateSeen candidates seen maxTick).2 = maxTick := by
  have hs : Stamped candidates.keys (stayed candidates seen) maxTick
      (updateSeen candidates seen maxTick) := stamped _ (keys_pairwise _) _ le_rfl
  have htick := hs.tick
  refine ⟨fun a k hk => ?_, by omega⟩
  by_cases hin : a ∈ stayed candidates seen
  · rw [hs.kept a hin, stayed, ExtTreeMap.getElem?_filter', Option.filter_eq_some_iff] at hk
    exact h a k hk.1
  · have hbound := hs.new a k hin hk
    omega

theorem getD_maxTick {seen : SeenTicks w}
    (h : ∀ (a : BitVec w) (k : ℕ), seen[a]? = some k → k = maxTick) {a : BitVec w} (ha : a ∈ seen) :
    seen.getD a 0 = maxTick := by
  rw [ExtTreeMap.mem_iff_isSome_getElem?] at ha
  obtain ⟨k, hk⟩ := Option.isSome_iff_exists.mp ha
  rw [ExtTreeMap.getD_eq_getD_getElem?, hk]
  exact h a k hk

/-- A temporary address, numbered. -/
def temporary (i : ℕ) : Address where
  family := afInet6
  flags := ifaFSecondaryTemporary
  bytes := [0x20, 0x01, 0, 0, 0, 0, 0, 0, 0, 0, 0, 0, 0, 0, BitVec.ofNat 8 (i / 256), BitVec.ofNat 8 i]

def temporaryIp (i : ℕ) : Ipv6Addr := BitVec.ofNat 128 (0x20010000000000000000000000000000 + i)

/-- One temporary address comes and goes. -/
def flicker : ℕ → List (List Address)
  | 0 => []
  | n + 1 => [] :: [temporary 0] :: flicker n

/-- As many temporary addresses as fit. -/
def crowd : List Address := (List.range 256).map fun i => temporary (i + 1)

/-- And one more. -/
def crowdAndOne : List Address := crowd ++ [temporary 257]

theorem not_live_nil {usable : Address → Option (BitVec w)} (a : BitVec w) : ¬ Live usable [] a := by
  rintro ⟨entry, hmem, -⟩
  cases hmem

theorem age_flicker {usable : Address → Option (BitVec w)} (n : ℕ) (a : BitVec w) :
    age usable a (flicker n) = 0 := by
  cases n with
  | zero => rfl
  | succ n => rw [flicker, age_cons, if_neg (not_live_nil a)]

theorem sightings_flicker (n : ℕ) : sightings (flicker n) = n := by
  induction n with
  | zero => rfl
  | succ n ih =>
    have hall : ∀ {w : ℕ} (usable : Address → Option (BitVec w)) (candidates : Candidates w),
        arrivals usable candidates (flicker n) = candidates.keys := by
      intro w usable candidates
      refine List.filter_eq_self.mpr fun a _ => ?_
      simpa using age_flicker n a
    have hnone : ∀ {w : ℕ} (usable : Address → Option (BitVec w)) (past : List (List Address)),
        arrivals usable (∅ : Candidates w) past = [] := fun _ _ => rfl
    have hkeys : (collectCandidates [temporary 0]).1.keys.length = 0 ∧
        (collectCandidates [temporary 0]).2.keys.length = 1 := by decide
    have hnil : collectCandidates [] = (∅, ∅) := rfl
    rw [flicker, sightings, sightings, hnil, hnone, hnone, hall, hall, hkeys.1, hkeys.2, ih]
    rfl

theorem wordOf_temporary {i : ℕ} (hi : i < 258) : wordOf 128 (temporary i).bytes = temporaryIp i := by
  have hfront : (0x20 : U8).toNat = 32 := rfl
  have hone : (0x01 : U8).toNat = 1 := rfl
  have hzero : (0 : U8).toNat = 0 := rfl
  unfold wordOf temporaryIp temporary
  refine congrArg (BitVec.ofNat 128) ?_
  simp only [List.foldl_cons, List.foldl_nil, BitVec.toNat_ofNat, hfront, hone, hzero]
  omega

theorem usableV6_temporary {i : ℕ} (hi : i < 258) :
    usableV6 (temporary i) = some (temporaryIp i) ∧ usableV4 (temporary i) = none := by
  have hnat : (temporaryIp i).toNat = 0x20010000000000000000000000000000 + i := by
    rw [temporaryIp, BitVec.toNat_ofNat, Nat.mod_eq_of_lt (by omega)]
  have hne : (temporaryIp i == 0) = false := by
    rw [beq_eq_false_iff_ne]
    intro h
    have hzero : (0 : Ipv6Addr).toNat = 0 := rfl
    rw [h, hzero] at hnat
    omega
  have hmulticast : isMulticastV6 (temporaryIp i) = false := by
    unfold isMulticastV6 octet
    rw [beq_eq_false_iff_ne]
    intro h
    have hbyte := congrArg BitVec.toNat h
    have hlast : (0xff : U8).toNat = 255 := rfl
    rw [BitVec.extractLsb'_toNat, hnat, Nat.shiftRight_eq_div_pow, hlast] at hbyte
    omega
  have hflags : ((temporary i).flags &&& (ifaFTentative ||| ifaFDadfailed) != 0) = false := by
    show (ifaFSecondaryTemporary &&& (ifaFTentative ||| ifaFDadfailed) != 0) = false
    decide
  constructor
  · unfold usableV6
    rw [hflags, if_neg Bool.false_ne_true, if_pos ⟨rfl, rfl⟩, wordOf_temporary hi]
    simp only [hne, hmulticast, Bool.or_false, Bool.false_eq_true, if_false]
  · have hlength : (temporary i).bytes.length = 16 := rfl
    unfold usableV4
    rw [hflags, if_neg Bool.false_ne_true, if_neg fun h => absurd (hlength.symm.trans h.2) (by decide)]

theorem mem_crowdAndOne {entry : Address} :
    entry ∈ crowdAndOne ↔ ∃ i, 1 ≤ i ∧ i ≤ 257 ∧ entry = temporary i := by
  simp only [crowdAndOne, crowd, List.mem_append, List.mem_map, List.mem_range, List.mem_singleton]
  constructor
  · rintro (⟨i, hi, rfl⟩ | rfl)
    · exact ⟨i + 1, by omega, by omega, rfl⟩
    · exact ⟨257, by omega, by omega, rfl⟩
  · rintro ⟨i, h1, h2, rfl⟩
    by_cases hi : i = 257
    · exact .inr (by rw [hi])
    · exact .inl ⟨i - 1, by omega, by rw [show i - 1 + 1 = i by omega]⟩

theorem live_crowdAndOne {a : Ipv6Addr} :
    Live usableV6 crowdAndOne a ↔ ∃ i, 1 ≤ i ∧ i ≤ 257 ∧ a = temporaryIp i := by
  constructor
  · rintro ⟨entry, hmem, hu⟩
    obtain ⟨i, h1, h2, rfl⟩ := mem_crowdAndOne.mp hmem
    rw [(usableV6_temporary (by omega)).1] at hu
    exact ⟨i, h1, h2, (Option.some.inj hu).symm⟩
  · rintro ⟨i, h1, h2, rfl⟩
    exact ⟨_, mem_crowdAndOne.mpr ⟨i, h1, h2, rfl⟩, (usableV6_temporary (by omega)).1⟩

theorem private_crowdAndOne (a : Ipv6Addr) : Private usableV6 crowdAndOne a := by
  intro entry hmem _
  obtain ⟨i, -, -, rfl⟩ := mem_crowdAndOne.mp hmem
  show isPrivacyAddress afInet6 ifaFSecondaryTemporary = true
  decide

theorem temporaryIp_le {i j : ℕ} (hi : i ≤ 257) (hj : j ≤ 257) :
    temporaryIp i ≤ temporaryIp j ↔ i ≤ j := by
  unfold temporaryIp
  rw [BitVec.le_def, BitVec.toNat_ofNat, BitVec.toNat_ofNat, Nat.mod_eq_of_lt (by omega),
    Nat.mod_eq_of_lt (by omega)]
  omega

theorem exhausted_ticks {n : ℕ} (hn : maxTick ≤ n) (a : Ipv6Addr) (k : ℕ)
    (hk : (bookAfter (crowdAndOne :: crowd :: flicker n)).seenV6[a]? = some k) : k = maxTick := by
  have hflicker := kept_bookAfter (flicker n)
  have htick : (bookAfter (flicker n)).tick = maxTick := by
    rw [hflicker.tick, sightings_flicker]
    omega
  have hempty : ∀ {w : ℕ} {usable : Address → Option (BitVec w)} {C : Prop} {seen : SeenTicks w},
      Ticks usable C (flicker n) seen (bookAfter (flicker n)).tick →
      ∀ (a : BitVec w) (k : ℕ), seen[a]? = some k → k = maxTick := by
    intro w usable C seen ht a k hk
    have hpos := (ht.live a).mp (mem_of_getElem? hk)
    rw [age_flicker] at hpos
    cases hpos
  -- two more calls start from a full counter, and leave it full
  have hcall : ∀ (book : AddressBook) (dump : List Address), book.tick = maxTick →
      (∀ (a : Ipv4Addr) (k : ℕ), book.seenV4[a]? = some k → k = maxTick) →
      (∀ (a : Ipv6Addr) (k : ℕ), book.seenV6[a]? = some k → k = maxTick) →
      (desiredSelfAddresses book dump).1.tick = maxTick ∧
        (∀ (a : Ipv4Addr) (k : ℕ), (desiredSelfAddresses book dump).1.seenV4[a]? = some k → k = maxTick) ∧
        ∀ (a : Ipv6Addr) (k : ℕ), (desiredSelfAddresses book dump).1.seenV6[a]? = some k → k = maxTick := by
    intro book dump ht h4 h6
    obtain ⟨h4', ht4⟩ := @updateSeen_maxTick _ (collectCandidates dump).1 _ h4
    obtain ⟨h6', ht6⟩ := @updateSeen_maxTick _ (collectCandidates dump).2 _ h6
    rw [desiredSelfAddresses_fst, ht]
    simp only
    rw [ht4]
    exact ⟨ht6, h4', h6'⟩
  obtain ⟨ht₁, h₁, h₁'⟩ := hcall _ crowd htick (hempty hflicker.v4) (hempty hflicker.v6)
  obtain ⟨-, -, h₂⟩ := hcall _ crowdAndOne ht₁ h₁ h₁'
  rw [bookAfter, bookAfter] at hk
  exact h₂ a k hk

/-- Where every tick is the last one, the smaller of two private addresses is chosen first. -/
theorem ranked_of_exhausted {past : List (List Address)} {dump : List Address} {sel : SelfAddressSelection}
    (hsel : (desiredSelfAddresses (bookAfter past) dump).2 = some sel)
    (hticks : ∀ (a : Ipv6Addr) (k : ℕ), (bookAfter (dump :: past)).seenV6[a]? = some k → k = maxTick)
    (hlive : ∀ a ∈ sel.v6, Live usableV6 dump a) (hprivate : ∀ a, Private usableV6 dump a) :
    ∀ a ∈ sel.v6, ∀ b, Live usableV6 dump b → b ∉ sel.v6 → a ≤ b := by
  intro a ha b hb hnot
  have hbook := desiredSelfAddresses_fst (bookAfter past) dump
  have hkept := (kept_bookAfter (dump :: past)).v6.live
  rw [bookAfter, hbook] at hticks hkept
  simp only at hticks hkept
  unfold desiredSelfAddresses at hsel
  simp only at hsel
  split at hsel
  · cases hsel
  · split at hsel
    · cases hsel
    · rename_i s6 tr6 h6
      obtain rfl := Option.some.inj hsel
      have hfirst := (selectSelfAddresses_ranked (collected dump).2 h6).first a ha (hprivate a) b hb hnot
      rw [getD_maxTick hticks ((hkept a).mpr (age_pos.mpr (hlive a ha))),
        getD_maxTick hticks ((hkept b).mpr (age_pos.mpr hb))] at hfirst
      rcases hfirst with h | ⟨-, h⟩
      · exact absurd h (lt_irrefl _)
      · exact h

theorem recency_is_lost_of_le {n : ℕ} (hn : maxTick ≤ n) :
    ∃ sel, (desiredSelfAddresses (bookAfter (crowd :: flicker n)) crowdAndOne).2 = some sel ∧
      ∃ a ∈ sel.v6, Private usableV6 crowdAndOne a ∧ ∃ b, Live usableV6 crowdAndOne b ∧ b ∉ sel.v6 ∧
        Newer usableV6 (crowdAndOne :: crowd :: flicker n) b a := by
  obtain ⟨hnone, hsome⟩ := desiredSelfAddresses_history (crowd :: flicker n) crowdAndOne
  have hv4 : ∀ a, ¬ Live usableV4 crowdAndOne a := by
    rintro a ⟨entry, hmem, hu⟩
    obtain ⟨i, -, h2, rfl⟩ := mem_crowdAndOne.mp hmem
    rw [(usableV6_temporary (by omega)).2] at hu
    cases hu
  have hfits : ¬ (Overfull usableV4 crowdAndOne ∨ Overfull usableV6 crowdAndOne) := by
    rintro (⟨l, -, hlen, hall⟩ | ⟨l, -, hlen, hall⟩)
    · obtain ⟨a, ha⟩ := List.exists_mem_of_length_pos (l := l) (by omega)
      exact hv4 a (hall a ha).1
    · obtain ⟨a, ha⟩ := List.exists_mem_of_length_pos (l := l) (by omega)
      exact (hall a ha).2 (private_crowdAndOne a)
  obtain ⟨sel, hsel⟩ := Option.ne_none_iff_exists'.mp fun h => hfits (hnone.mp h)
  obtain ⟨-, hch, -⟩ := hsome sel hsel
  have hranked := ranked_of_exhausted hsel (exhausted_ticks hn) hch.live private_crowdAndOne
  have hleft : ∃ b, Live usableV6 crowdAndOne b ∧ b ∉ sel.v6 := by
    by_contra hno
    have hnodup : ((List.range 257).map fun i => temporaryIp (i + 1)).Nodup := by
      refine List.Nodup.map_on (fun i hi j hj heq => ?_) List.nodup_range
      rw [List.mem_range] at hi hj
      have h1 := (temporaryIp_le (i := i + 1) (j := j + 1) (by omega) (by omega)).mp heq.le
      have h2 := (temporaryIp_le (i := j + 1) (j := i + 1) (by omega) (by omega)).mp heq.ge
      omega
    have hlen := length_le_size (s := sel.v6) hnodup fun a ha => by
      obtain ⟨i, hi, rfl⟩ := List.mem_map.mp ha
      rw [List.mem_range] at hi
      by_contra hnot
      exact hno ⟨_, live_crowdAndOne.mpr ⟨i + 1, by omega, by omega, rfl⟩, hnot⟩
    have hsize := hch.size
    rw [List.length_map, List.length_range] at hlen
    unfold selfAddrMaxEntries at hsize
    omega
  obtain ⟨b, hb, hnot⟩ := hleft
  have hnewest : Live usableV6 crowdAndOne (temporaryIp 257) :=
    live_crowdAndOne.mpr ⟨257, by omega, by omega, rfl⟩
  have hlast : temporaryIp 257 ∉ sel.v6 := by
    intro hin
    obtain ⟨j, h1, h2, rfl⟩ := live_crowdAndOne.mp hb
    have hj := (temporaryIp_le le_rfl h2).mp (hranked _ hin _ hb hnot)
    obtain rfl : j = 257 := by omega
    exact hnot hin
  have hpos : 0 < sel.v6.toList.length := by
    rw [ExtTreeSet.length_toList, hch.full _ hnewest hlast]
    decide
  obtain ⟨a, ha⟩ := List.exists_mem_of_length_pos hpos
  have hin := ExtTreeSet.mem_toList.mp ha
  refine ⟨sel, hsel, a, hin, private_crowdAndOne a, _, hnewest, hlast, .inl ?_⟩
  obtain ⟨i, h1, h2, rfl⟩ := live_crowdAndOne.mp (hch.live a hin)
  have hi : i ≠ 257 := fun heq => hlast (heq ▸ hin)
  have hcrowd : Live usableV6 crowd (temporaryIp i) := by
    refine ⟨temporary i, List.mem_map.mpr ⟨i - 1, List.mem_range.mpr (by omega), ?_⟩,
      (usableV6_temporary (by omega)).1⟩
    rw [show i - 1 + 1 = i by omega]
  have hnew : ¬ Live usableV6 crowd (temporaryIp 257) := by
    rintro ⟨entry, hmem, hu⟩
    obtain ⟨j, hj, rfl⟩ := List.mem_map.mp hmem
    rw [List.mem_range] at hj
    rw [(usableV6_temporary (by omega)).1, Option.some.injEq] at hu
    have h3 := (temporaryIp_le (i := 257) (j := j + 1) (by omega) (by omega)).mp hu.ge
    omega
  rw [age_live hnewest, age_live (hch.live _ hin), age_live hcrowd, age_cons, if_neg hnew]
  omega

/-- After the counter has run out, a newer address is left out for an older one. -/
theorem recency_is_lost :
    ∃ sel, (desiredSelfAddresses (bookAfter (crowd :: flicker maxTick)) crowdAndOne).2 = some sel ∧
      ∃ a ∈ sel.v6, Private usableV6 crowdAndOne a ∧ ∃ b, Live usableV6 crowdAndOne b ∧ b ∉ sel.v6 ∧
        Newer usableV6 (crowdAndOne :: crowd :: flicker maxTick) b a :=
  recency_is_lost_of_le le_rfl

end Exhausted

end FluxRs.Dataplane
