import FluxRs.Kmod.Bypass

/-!
# FluxRs.Kmod.Refine — the kernel's bypass verdict is the epoch's

Packing an epoch, parsing the buffer in the kernel and looking a destination up in the sorted,
bucketed table gives the boolean of the linear scan over the epoch's map.
-/

namespace FluxRs.Kmod

open FluxRs.Lib FluxRs.Net
open Std (ExtTreeMap ExtTreeSet)

/-! ### What `sort()` and the de-duplication leave -/

section Sorting

variable {N : Type} [LinearOrder N] (srt : Sorter)

theorem cmpPfx_le_iff {a b : Entry N U8} :
    cmpPfx a b ≤ 0 ↔ a.len < b.len ∨ a.len = b.len ∧ a.net ≤ b.net := by
  unfold cmpPfx
  by_cases hlen : a.len = b.len
  · rw [if_neg (by simpa using hlen)]
    rcases lt_trichotomy a.net b.net with h | h | h
    · simp [h, hlen, h.le]
    · simp [h, hlen]
    · simp [h, h.not_gt, hlen, h.not_ge]
  · rw [if_pos hlen]
    omega

theorem cmpKey_le_iff {a b : N} : cmpKey a b ≤ 0 ↔ a ≤ b := by
  unfold cmpKey
  rcases lt_trichotomy a b with h | h | h
  · simp [h, h.le]
  · simp [h]
  · simp [h, h.not_gt, h.not_ge]

theorem sort_cmpPfx_pairwise (l : List (Entry N U8)) :
    (srt.sort cmpPfx l).Pairwise fun a b => cmpPfx a b ≤ 0 := by
  apply srt.sorted
  · intro a b
    rw [cmpPfx_le_iff, cmpPfx_le_iff]
    rcases le_total a.net b.net with h | h
    · rcases Nat.lt_trichotomy a.len b.len with h' | h' | h' <;> tauto
    · rcases Nat.lt_trichotomy a.len b.len with h' | h' | h' <;> tauto
  · intro a b c
    rw [cmpPfx_le_iff, cmpPfx_le_iff, cmpPfx_le_iff]
    rintro (h | ⟨h, h1⟩) (h' | ⟨h', h2⟩)
    · exact .inl (by omega)
    · exact .inl (by omega)
    · exact .inl (by omega)
    · exact .inr ⟨by omega, h1.trans h2⟩

theorem sort_cmpKey_pairwise (l : List N) : (srt.sort cmpKey l).Pairwise (· ≤ ·) := by
  refine (srt.sorted cmpKey ?_ ?_ l).imp fun h => cmpKey_le_iff.mp h
  · intro a b
    rw [cmpKey_le_iff, cmpKey_le_iff]
    exact le_total a b
  · intro a b c
    rw [cmpKey_le_iff, cmpKey_le_iff, cmpKey_le_iff]
    exact le_trans

/-- Prefixes with distinct keys come out of `sort()` in the order of the table. -/
theorem sort_tableLt {l : List (Entry N U8)}
    (hd : l.Pairwise fun a b => (a.len, a.net) ≠ (b.len, b.net)) :
    (srt.sort cmpPfx l).Pairwise TableLt := by
  have hd' : (srt.sort cmpPfx l).Pairwise fun a b => (a.len, a.net) ≠ (b.len, b.net) :=
    (srt.perm cmpPfx l).symm.pairwise hd fun h => h.symm
  refine (sort_cmpPfx_pairwise srt l).imp₂ (fun a b hle hne => ?_) hd'
  rcases cmpPfx_le_iff.mp hle with h | ⟨h, hnet⟩
  · exact .inl h
  · exact .inr ⟨h, lt_of_le_of_ne hnet fun hn => hne (by rw [h, hn])⟩

theorem uniquePfx_eq_self {l : List (Entry N U8)} (h : l.Pairwise TableLt) : uniquePfx l = l := by
  apply compact_eq_self
  refine h.imp fun {a b} hlt heq => ?_
  obtain ⟨h1, h2⟩ := Prod.mk.inj heq
  rcases hlt with h' | ⟨-, h'⟩
  · omega
  · exact absurd h2 h'.ne

theorem mem_uniqueKey_sort {l : List N} {a : N} : a ∈ uniqueKey (srt.sort cmpKey l) ↔ a ∈ l := by
  unfold uniqueKey
  rw [mem_compact_id, (srt.perm cmpKey l).mem_iff]

end Sorting

/-! ### The parsed tables -/

section Parsed

variable {w : ℕ} {N : Type}

/-- A live entry of the kernel for one prefix, its network written by `g`. -/
def liveOf (g : BitVec w → N) (ct : Cidr w × BypassTag) : Entry N U8 :=
  ⟨ct.1.prefixLen, g ct.1.addr, ct.2.asU8⟩

theorem pairwise_liveOf {g : BitVec w → N} (hg : Function.Injective g) (map : BypassMap w) :
    (map.toList.map (liveOf g)).Pairwise fun a b => (a.len, a.net) ≠ (b.len, b.net) := by
  rw [List.pairwise_map]
  refine ExtTreeMap.distinct_keys_toList.imp fun {a b} hne heq => hne ?_
  obtain ⟨h1, h2⟩ := Prod.mk.inj heq
  rw [Cidr.eq_of_fields (hg h2) h1]
  exact Std.ReflCmp.compare_self

theorem mapM_ok {α β γ : Type} {one : α → Except Errno β} {enc : γ → α} {f : γ → β}
    (h : ∀ c, one (enc c) = .ok (f c)) : ∀ l : List γ, (l.map enc).mapM one = .ok (l.map f)
  | [] => rfl
  | c :: cs => by
    rw [List.map_cons, List.mapM_cons, h c, mapM_ok h cs]
    rfl

variable [LinearOrder N] (srt : Sorter)

/-- Parsing the records of a map leaves its live entries, in table order, with their offsets. -/
theorem parsePrefixes_map {g : BitVec w → N} (hg : Function.Injective g)
    {one : List U8 → Except Errno (Entry N U8)} {enc : Cidr w × BypassTag → List U8}
    (hone : ∀ ct, one (enc ct) = .ok (liveOf g ct)) (map : BypassMap w) :
    ∃ table, parsePrefixes srt w true one (map.toList.map enc) = .ok (table, fillOff w table) ∧
      table.Pairwise TableLt ∧ table.Perm (map.toList.map (liveOf g)) := by
  unfold parsePrefixes
  by_cases hnil : map.toList = []
  · refine ⟨[], by simp [hnil], List.Pairwise.nil, by simp [hnil]⟩
  · rw [if_neg (by simpa using hnil), mapM_ok hone]
    have hs := sort_tableLt srt (pairwise_liveOf hg map)
    exact ⟨_, by simp [uniquePfx_eq_self hs], hs, srt.perm cmpPfx _⟩

/-- Looking an address up in the parsed table is scanning the map. -/
theorem lpm_table [Inhabited (Entry N U8)] {g : BitVec w → N} (hg : Function.Injective g)
    {mask' : ℕ → N → N} (hm : ∀ n ≤ w, ∀ a, mask' n (g a) = g (maskAddr n a)) {map : BypassMap w}
    {table : List (Entry N U8)} (hs : table.Pairwise TableLt)
    (hp : table.Perm (map.toList.map (liveOf g))) (a : BitVec w) :
    lpm mask' w table (fillOff w table) (g a) = (lpmScan map a).map BypassTag.asU8 := by
  have hlive : map.toList.map (liveOf g) =
      (entries map).map fun x => ⟨x.len, g x.net, x.tag.asU8⟩ := by
    simp [entries, entryOf, liveOf, Function.comp_def]
  have hlen : ∀ x ∈ table, x.len ≤ w := by
    intro x hx
    obtain ⟨ct, -, rfl⟩ := List.mem_map.mp (hp.mem_iff.mp hx)
    exact ct.1.len_le
  have hdist : DistinctKeys (map.toList.map (liveOf g)) := by
    rw [hlive]
    intro x hx y hy hl hn
    obtain ⟨x₀, hx₀, rfl⟩ := List.mem_map.mp hx
    obtain ⟨y₀, hy₀, rfl⟩ := List.mem_map.mp hy
    rw [entries_distinctKeys map x₀ hx₀ y₀ hy₀ hl (hg hn)]
  have hscan : IsLongest mask' (map.toList.map (liveOf g)) (g a)
      ((lpmScan map a).map BypassTag.asU8) := by
    rw [hlive]
    exact (lpmScan_isLongest map a).map _ hg fun x hx => hm _ (entries_len_le hx) a
  exact ((lpm_isLongest hs hlen (g a)).of_perm hp).unique hdist hscan

theorem parseSelf_mem {α : Type} (g : α → N) (one : List U8 → N) (enc : α → List U8)
    (hone : ∀ a, one (enc a) = g a) (l : List α) :
    ∃ table, parseSelf srt true one (l.map enc) = .ok table ∧ ∀ x, x ∈ table ↔ x ∈ l.map g := by
  have hmap : (l.map enc).map one = l.map g := by
    rw [List.map_map]
    exact List.map_congr_left fun a _ => hone a
  unfold parseSelf
  by_cases hnil : l = []
  · exact ⟨[], by simp [hnil], fun x => by simp [hnil]⟩
  · rw [if_neg (by simpa using hnil), hmap]
    exact ⟨_, rfl, fun x => mem_uniqueKey_sort srt⟩

end Parsed

/-! ### One record of each array -/

section Records

variable (e : Endian)

theorem asU8_valid (t : BypassTag) : ¬ (t.asU8 ≠ bypassReserved ∧ t.asU8 ≠ bypassPolicy) := by
  cases t <;> decide

theorem toNat_ofNat8 {n : ℕ} (h : n ≤ 128) : (BitVec.ofNat 8 n).toNat = n := by
  simp only [BitVec.toNat_ofNat]
  exact Nat.mod_eq_of_lt (by omega)

/-- The fields of a packed prefix behind its address bytes. -/
theorem record_fields (addr : List U8) (plen tag : U8) :
    (addr ++ [plen, tag, 0, 0]).take addr.length = addr ∧
      (addr ++ [plen, tag, 0, 0]).getD addr.length 0 = plen ∧
      (addr ++ [plen, tag, 0, 0]).getD (addr.length + 1) 0 = tag := by
  refine ⟨List.take_left, ?_, ?_⟩
  · rw [List.getD_append_right _ _ _ _ le_rfl]
    simp
  · rw [List.getD_append_right _ _ _ _ (by omega)]
    simp

theorem parsePfx4_encode (ct : Ipv4Cidr × BypassTag) :
    parsePfx4 e (encodePfx4 e (pfx4Of e ct)) = .ok (liveOf id ct) := by
  obtain ⟨c, t⟩ := ct
  have hlen := c.len_le
  have hbytes : encodePfx4 e (pfx4Of e (c, t)) =
      octets c.addr ++ [BitVec.ofNat 8 c.prefixLen, t.asU8, 0, 0] := by
    simp [encodePfx4, pfx4Of, e.store_load_octets]
  have hfields := record_fields (octets c.addr) (BitVec.ofNat 8 c.prefixLen) t.asU8
  rw [length_octets] at hfields
  obtain ⟨htake, hplen, htag⟩ := hfields
  unfold parsePfx4 parsePfx
  rw [hbytes, htake, hplen, htag, toNat_ofNat8 (by omega), e.ntohl_load_octets,
    if_neg (by omega), if_neg (asU8_valid t)]
  congr 2
  exact c.and_mask

theorem parsePfx6_encode (ct : Ipv6Cidr × BypassTag) :
    parsePfx6 (encodePfx6 (pfx6Of ct)) = .ok (liveOf octets ct) := by
  obtain ⟨c, t⟩ := ct
  have hlen := c.len_le
  have hbytes : encodePfx6 (pfx6Of (c, t)) =
      octets c.addr ++ [BitVec.ofNat 8 c.prefixLen, t.asU8, 0, 0] := by
    simp [encodePfx6, pfx6Of]
  have hfields := record_fields (octets c.addr) (BitVec.ofNat 8 c.prefixLen) t.asU8
  rw [length_octets] at hfields
  obtain ⟨htake, hplen, htag⟩ := hfields
  unfold parsePfx6 parsePfx
  rw [hbytes, htake, hplen, htag, toNat_ofNat8 hlen, if_neg (by omega), if_neg (asU8_valid t)]
  congr 2
  unfold maskV6
  rw [maskOctets_octets (m := 16) c.addr hlen]
  exact congrArg octets c.and_mask

end Records

/-! ### The whole buffer -/

/-- The parsed set holds the epoch's prefixes, direction and self addresses. -/
structure Represents (ep : PolicyEpoch) (s : FluxrsSet) : Prop where
  cidrMode : s.cidrMode = ep.cidrMode.asU32
  v4_sorted : s.v4.Pairwise TableLt
  v4_perm : s.v4.Perm (ep.bypassV4.toList.map (liveOf id))
  v4_off : s.v4Off = fillOff 32 s.v4
  v6_sorted : s.v6.Pairwise TableLt
  v6_perm : s.v6.Perm (ep.bypassV6.toList.map (liveOf octets))
  v6_off : s.v6Off = fillOff 128 s.v6
  mem_self4 : ∀ x, x ∈ s.self4 ↔ x ∈ ep.selfV4.toList
  mem_self6 : ∀ x, x ∈ s.self6 ↔ x ∈ ep.selfV6.toList.map octets

theorem octets_injective6 : Function.Injective (octets : BitVec 128 → List U8) :=
  octets_injective (by decide)

section Verdict

variable (e : Endian)

theorem tagDirect_asU8 (mode : CidrMode) (hit : Option BypassTag) :
    tagDirect mode.asU32 (hit.map BypassTag.asU8) =
      match hit with
      | some .reserved => true
      | some .policy => mode == .blacklist
      | none => mode == .whitelist := by
  rcases hit with _ | ⟨_ | _⟩ <;> cases mode <;> rfl

theorem Represents.lpm4_eq {ep : PolicyEpoch} {s : FluxrsSet} (h : Represents ep s) (a : U32) :
    lpm4 s a = (lpmScan ep.bypassV4 a).map BypassTag.asU8 := by
  unfold lpm4
  rw [h.v4_off]
  exact lpm_table (g := id) Function.injective_id (fun _ _ _ => rfl) h.v4_sorted h.v4_perm a

theorem Represents.lpm6_eq {ep : PolicyEpoch} {s : FluxrsSet} (h : Represents ep s)
    (a : BitVec 128) :
    lpm6 s (octets a) = (lpmScan ep.bypassV6 a).map BypassTag.asU8 := by
  unfold lpm6
  rw [h.v6_off]
  exact lpm_table octets_injective6 (fun n hn x => maskOctets_octets (m := 16) x hn) h.v6_sorted
    h.v6_perm a

/-- A set that represents an epoch gives the epoch's verdict on every destination. -/
theorem Represents.setDirect_eq {ep : PolicyEpoch} {s : FluxrsSet} (h : Represents ep s)
    (dest : Dest) : setDirect e (some s) dest = ep.bypassDirect dest := by
  cases dest with
  | v4 a =>
    have hself : self4Hit s a = ep.selfV4.contains a := by
      rw [Bool.eq_iff_iff, ExtTreeSet.contains_iff_mem, ← ExtTreeSet.mem_toList, ← h.mem_self4]
      simp [self4Hit]
    simp only [setDirect, PolicyEpoch.bypassDirect, PolicyEpoch.directIn, e.ntohl_load_octets]
    rw [hself, h.lpm4_eq, h.cidrMode]
    exact congrArg (fun b => if ep.selfV4.contains a then true else b) (tagDirect_asU8 ep.cidrMode _)
  | v6 a =>
    have hself : self6Hit s (octets a) = ep.selfV6.contains a := by
      rw [Bool.eq_iff_iff, ExtTreeSet.contains_iff_mem, ← ExtTreeSet.mem_toList,
        ← List.mem_map_of_injective octets_injective6, ← h.mem_self6]
      simp [self6Hit]
    simp only [setDirect, PolicyEpoch.bypassDirect, PolicyEpoch.directIn]
    rw [hself, h.lpm6_eq, h.cidrMode]
    exact congrArg (fun b => if ep.selfV6.contains a then true else b) (tagDirect_asU8 ep.cidrMode _)

end Verdict

section Buffer

variable (e : Endian) (srt : Sorter)

/-- The five words of the header. -/
def headerWords (ep : PolicyEpoch) : List U32 :=
  [ep.cidrMode.asU32, BitVec.ofNat 32 ep.bypassV4.size, BitVec.ofNat 32 ep.bypassV6.size,
    BitVec.ofNat 32 ep.selfV4.size, BitVec.ofNat 32 ep.selfV6.size]

theorem epochBody_eq (ep : PolicyEpoch) :
    epochBody e ep = (headerWords ep).flatMap e.store ++
      (ep.bypassV4.toList.flatMap (fun ct => encodePfx4 e (pfx4Of e ct)) ++
      (ep.bypassV6.toList.flatMap (fun ct => encodePfx6 (pfx6Of ct)) ++
      (ep.selfV4.toList.flatMap octets ++ ep.selfV6.toList.flatMap octets))) := by
  simp [epochBody, encodeBypass, headerWords, List.flatMap_map, e.store_load_octets]

theorem length_epochBody (ep : PolicyEpoch) :
    (epochBody e ep).length = 20 + ep.bypassV4.size * 8 + ep.bypassV6.size * 20 +
      ep.selfV4.size * 4 + ep.selfV6.size * 16 := by
  rw [epochBody_eq]
  simp only [List.length_append, length_flatMap_const e.length_store,
    length_flatMap_const (length_encodePfx4 e), length_flatMap_const length_encodePfx6,
    length_flatMap_const (fun a : BitVec 32 => length_octets a),
    length_flatMap_const (fun a : BitVec 128 => length_octets a),
    ExtTreeMap.length_toList, ExtTreeSet.length_toList, headerWords, List.length_cons,
    List.length_nil]
  omega

/-- The header copied first reads back as its five words. -/
theorem header_fields (ep : PolicyEpoch) :
    copyFromUser (epochBody e ep) 20 = some ((headerWords ep).flatMap e.store) ∧
      ∀ i < 5, e.load (structAt 4 ((headerWords ep).flatMap e.store) i) = (headerWords ep).getD i 0 := by
  have hlen : ((headerWords ep).flatMap e.store).length = 20 :=
    length_flatMap_const e.length_store _
  constructor
  · unfold copyFromUser
    rw [if_pos (by rw [length_epochBody]; omega), epochBody_eq, List.take_left' hlen]
  · intro i hi
    have harr := arrayOf_flatMap e.length_store [] (headerWords ep)
    rw [List.append_nil] at harr
    have hget := congrArg (fun l => (l.map e.load).getD i 0) harr
    have hi' : i < (headerWords ep).length := hi
    simpa [arrayOf, List.getD_eq_getElem?_getD, hi, hi', Function.comp_def] using hget

theorem toNat_ofNat32 {n : ℕ} (h : n ≤ lpmMax) : (BitVec.ofNat 32 n).toNat = n := by
  simp only [BitVec.toNat_ofNat]
  exact Nat.mod_eq_of_lt (by unfold lpmMax at h; omega)

theorem drop_add_left {l r : List U8} {k : ℕ} (h : l.length = k) (n : ℕ) :
    (l ++ r).drop (k + n) = r.drop n := by
  rw [← List.drop_drop, List.drop_left' h]

/-- The records of the four arrays, at the offsets the parser computes. -/
theorem body_arrays (ep : PolicyEpoch) :
    arrayOf 8 ep.bypassV4.size ((epochBody e ep).drop 20) =
        ep.bypassV4.toList.map (fun ct => encodePfx4 e (pfx4Of e ct)) ∧
      arrayOf 20 ep.bypassV6.size ((epochBody e ep).drop (20 + ep.bypassV4.size * 8)) =
        ep.bypassV6.toList.map (fun ct => encodePfx6 (pfx6Of ct)) ∧
      arrayOf 4 ep.selfV4.size
          ((epochBody e ep).drop (20 + ep.bypassV4.size * 8 + ep.bypassV6.size * 20)) =
        ep.selfV4.toList.map octets ∧
      arrayOf 16 ep.selfV6.size ((epochBody e ep).drop
          (20 + ep.bypassV4.size * 8 + ep.bypassV6.size * 20 + ep.selfV4.size * 4)) =
        ep.selfV6.toList.map octets := by
  have hH : ((headerWords ep).flatMap e.store).length = 20 := length_flatMap_const e.length_store _
  have h4 : (ep.bypassV4.toList.flatMap fun ct => encodePfx4 e (pfx4Of e ct)).length =
      ep.bypassV4.size * 8 := by
    rw [length_flatMap_const (length_encodePfx4 e), ExtTreeMap.length_toList, Nat.mul_comm]
  have h6 : (ep.bypassV6.toList.flatMap fun ct => encodePfx6 (pfx6Of ct)).length =
      ep.bypassV6.size * 20 := by
    rw [length_flatMap_const length_encodePfx6, ExtTreeMap.length_toList, Nat.mul_comm]
  have hs4 : (ep.selfV4.toList.flatMap octets).length = ep.selfV4.size * 4 := by
    rw [length_flatMap_const fun a : BitVec 32 => length_octets a, ExtTreeSet.length_toList,
      Nat.mul_comm]
  rw [epochBody_eq]
  refine ⟨?_, ?_, ?_, ?_⟩
  · rw [List.drop_left' hH, ← ExtTreeMap.length_toList]
    exact arrayOf_flatMap (length_encodePfx4 e) _ _
  · rw [drop_add_left hH, List.drop_left' h4, ← ExtTreeMap.length_toList]
    exact arrayOf_flatMap length_encodePfx6 _ _
  · rw [Nat.add_assoc, drop_add_left hH, drop_add_left h4, List.drop_left' h6,
      ← ExtTreeSet.length_toList]
    exact arrayOf_flatMap (fun a : BitVec 32 => length_octets a) _ _
  · rw [Nat.add_assoc, Nat.add_assoc, drop_add_left hH, drop_add_left h4, drop_add_left h6,
      List.drop_left' hs4, ← ExtTreeSet.length_toList,
      ← List.append_nil (ep.selfV6.toList.flatMap octets)]
    exact arrayOf_flatMap (fun a : BitVec 128 => length_octets a) _ _

/-- The parser accepts every admitted epoch, and the set it builds represents it. -/
theorem fluxrsSetBypass_epochBody {ep : PolicyEpoch} (h : Admitted ep) :
    ∃ s, fluxrsSetBypass e srt {} (epochBody e ep) = .ok s ∧ Represents ep s := by
  obtain ⟨hhdr, hfield⟩ := header_fields e ep
  obtain ⟨a4, a6, as4, as6⟩ := body_arrays e ep
  have hself : selfMax ≤ lpmMax := by decide
  have hn4 : (e.load (structAt 4 ((headerWords ep).flatMap e.store) 1)).toNat = ep.bypassV4.size := by
    rw [hfield 1 (by decide)]
    exact toNat_ofNat32 h.v4
  have hn6 : (e.load (structAt 4 ((headerWords ep).flatMap e.store) 2)).toNat = ep.bypassV6.size := by
    rw [hfield 2 (by decide)]
    exact toNat_ofNat32 h.v6
  have hs4 : (e.load (structAt 4 ((headerWords ep).flatMap e.store) 3)).toNat = ep.selfV4.size := by
    rw [hfield 3 (by decide)]
    exact toNat_ofNat32 (h.self4.trans hself)
  have hs6 : (e.load (structAt 4 ((headerWords ep).flatMap e.store) 4)).toNat = ep.selfV6.size := by
    rw [hfield 4 (by decide)]
    exact toNat_ofNat32 (h.self6.trans hself)
  have hmode : e.load (structAt 4 ((headerWords ep).flatMap e.store) 0) = ep.cidrMode.asU32 :=
    hfield 0 (by decide)
  have hmode_le : ¬ cidrWhitelist < ep.cidrMode.asU32 := by cases ep.cidrMode <;> decide
  have hcopy : copyFromUser (epochBody e ep) (20 + ep.bypassV4.size * 8 + ep.bypassV6.size * 20 +
      ep.selfV4.size * 4 + ep.selfV6.size * 16) = some (epochBody e ep) := by
    unfold copyFromUser
    rw [← length_epochBody e ep, if_pos le_rfl, List.take_length]
  obtain ⟨t4, hp4, hsort4, hperm4⟩ :=
    parsePrefixes_map srt (g := id) Function.injective_id (parsePfx4_encode e) ep.bypassV4
  obtain ⟨t6, hp6, hsort6, hperm6⟩ :=
    parsePrefixes_map srt octets_injective6 parsePfx6_encode ep.bypassV6
  obtain ⟨s4, hps4, hmem4⟩ := parseSelf_mem srt id (fun r => e.ntohl (e.load r)) octets
    (fun a => e.ntohl_load_octets a) ep.selfV4.toList
  obtain ⟨s6, hps6, hmem6⟩ := parseSelf_mem srt octets id octets
    (fun _ => rfl) ep.selfV6.toList
  refine ⟨⟨ep.cidrMode.asU32, t4, t6, fillOff 32 t4, fillOff 128 t6, s4, s6⟩, ?_, ?_⟩
  · unfold fluxrsSetBypass
    simp only [hhdr, hn4, hn6, hs4, hs6, hmode]
    rw [if_neg hmode_le, if_neg (by have := h.v4; have := h.v6; omega),
      if_neg (by have := h.self4; have := h.self6; omega)]
    simp only [hcopy, a4, a6, as4, as6, hp4, hp6, hps4, hps6]
    rfl
  · exact ⟨rfl, hsort4, hperm4, rfl, hsort6, hperm6, rfl, fun x => by simpa using hmem4 x, hmem6⟩

/-- **Bypass decision refinement.**  Every admitted epoch is packed, accepted by the kernel parser,
and decided in the kernel as in the model; a family without prefixes is an empty table. -/
theorem kernel_bypass_refines_epoch {ep : PolicyEpoch} (h : Admitted ep) :
    ∃ body s, kmodSetBypass e ep = .ok body ∧ fluxrsSetBypass e srt {} body = .ok s ∧
      (∀ dest, setDirect e (some s) dest = ep.bypassDirect dest) ∧
      (ep.bypassV4 = ∅ → ∀ a, lpm4 s a = none) ∧
      (ep.bypassV6 = ∅ → ∀ a : Ipv6Addr, lpm6 s (octets a) = none) := by
  obtain ⟨s, hs, hrep⟩ := fluxrsSetBypass_epochBody e srt h
  refine ⟨epochBody e ep, s, (kmodSetBypass_eq_ok_iff e).mpr ⟨h, rfl⟩, hs, hrep.setDirect_eq e,
    fun he a => ?_, fun he a => ?_⟩
  · rw [hrep.lpm4_eq, he]
    rfl
  · rw [hrep.lpm6_eq, he]
    rfl

end Buffer

/-- Insertion sort meets the contract of `sort()`. -/
def insertionSorter : Sorter where
  sort cmp l := l.insertionSort fun a b => cmp a b ≤ 0
  perm cmp l := List.perm_insertionSort _ l
  sorted cmp htotal htrans l := by
    have : Std.Total fun a b => cmp a b ≤ 0 := ⟨htotal⟩
    have : IsTrans _ fun a b => cmp a b ≤ 0 := ⟨htrans⟩
    exact List.pairwise_insertionSort _ l

/-- A reserved /8 with a nested policy /16, one IPv6 policy prefix and one self address, whitelist. -/
def nestedEpoch : PolicyEpoch where
  cidrMode := .whitelist
  selected := UidSet.collect [10123]
  draining := ∅
  bypassV4 := BypassMap.collect [(outerPrefix, .reserved), (innerPrefix, .policy)]
  bypassV6 := BypassMap.collect [(documentationPrefix, .policy)]
  selfV4 := AddrSet.collect [0xc0000201]
  selfV6 := ∅

theorem kernel_bypass_refines_nestedEpoch :
    Admitted nestedEpoch ∧
      ∃ body s, kmodSetBypass .little nestedEpoch = .ok body ∧
        fluxrsSetBypass .little insertionSorter {} body = .ok s ∧
        (∀ dest, setDirect .little (some s) dest = nestedEpoch.bypassDirect dest) ∧
        (nestedEpoch.bypassV4 = ∅ → ∀ a, lpm4 s a = none) ∧
        (nestedEpoch.bypassV6 = ∅ → ∀ a : Ipv6Addr, lpm6 s (octets a) = none) :=
  ⟨by decide, kernel_bypass_refines_epoch .little insertionSorter (by decide)⟩

end FluxRs.Kmod
