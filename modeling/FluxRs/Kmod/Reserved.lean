import FluxRs.Kmod.Hook

/-!
# FluxRs.Kmod.Reserved — the hard-coded masks of the hook are the fixed bypass set

`fluxrs_reserved_dest` tests host-order words against constants; `cidr.rs` lists prefixes.  With the
listener addresses of the ABI the two accept the same destinations, on either host.
-/

namespace FluxRs.Kmod

open FluxRs.Lib FluxRs.Net

/-! ### The four words of an IPv6 address -/

/-- Word `i` of an IPv6 address, most significant first. -/
def word (addr : Ipv6Addr) (i : ℕ) : U32 := addr.extractLsb' (128 - 32 * (i + 1)) 32

theorem octet_word (addr : Ipv6Addr) {i j : ℕ} (hi : i < 4) (hj : j < 4) :
    octet (word addr i) j = octet addr (4 * i + j) := by
  apply BitVec.eq_of_getLsbD_eq
  intro k hk
  have hlt : 32 - 8 * (j + 1) + k < 32 := by omega
  have hpos : 128 - 32 * (i + 1) + (32 - 8 * (j + 1) + k) = 128 - 8 * (4 * i + j + 1) + k := by omega
  rw [getLsbD_octet _ _ hk, getLsbD_octet _ _ hk, word, BitVec.getLsbD_extractLsb', hpos]
  simp [hlt]

theorem structAt_octets (addr : Ipv6Addr) {i : ℕ} (hi : i < 4) :
    structAt 4 (octets addr) i = octets (word addr i) := by
  apply List.ext_getElem
  · simp [structAt]; omega
  · intro j h1 h2
    have hj : j < 4 := by simpa using h2
    simp only [structAt, List.getElem_take, List.getElem_drop, getElem_octets]
    exact (octet_word addr hi hj).symm

/-- The words the hook loads. -/
theorem load_word (e : Endian) (addr : Ipv6Addr) {i : ℕ} (hi : i < 4) :
    e.ntohl (e.load (structAt 4 (octets addr) i)) = word addr i := by
  rw [structAt_octets addr hi, e.ntohl_load_octets]

def fromWords (w0 w1 w2 w3 : U32) : Ipv6Addr := w0 ++ w1 ++ w2 ++ w3

theorem fromWords_word (addr : Ipv6Addr) :
    fromWords (word addr 0) (word addr 1) (word addr 2) (word addr 3) = addr := by
  apply BitVec.eq_of_getLsbD_eq
  intro j hj
  simp only [fromWords, word, BitVec.getLsbD_append, BitVec.getLsbD_extractLsb']
  by_cases h1 : j < 32
  · simp [h1]
  · by_cases h2 : j - 32 < 32
    · simp [h1, h2, show 32 + (j - 32) = j by omega]
    · by_cases h3 : j - 32 - 32 < 32
      · simp [h1, h2, h3, show 64 + (j - 32 - 32) = j by omega]
      · simp [h1, h2, h3, show j - 32 - 32 - 32 < 32 by omega,
          show 96 + (j - 32 - 32 - 32) = j by omega]

theorem fromWords_inj {x0 x1 x2 x3 y0 y1 y2 y3 : U32} :
    fromWords x0 x1 x2 x3 = fromWords y0 y1 y2 y3 ↔ x0 = y0 ∧ x1 = y1 ∧ x2 = y2 ∧ x3 = y3 := by
  constructor
  · intro h
    have hw := fun s => congrArg (fun a : Ipv6Addr => a.extractLsb' s 32) h
    have h3 := hw 0
    have h2 := hw 32
    have h1 := hw 64
    have h0 := hw 96
    simp only [fromWords, BitVec.extractLsb'_append_eq_ite] at h0 h1 h2 h3
    simp at h0 h1 h2 h3
    exact ⟨h0, h1, h2, h3⟩
  · rintro ⟨rfl, rfl, rfl, rfl⟩
    rfl

theorem fromWords_and (x0 x1 x2 x3 y0 y1 y2 y3 : U32) :
    fromWords x0 x1 x2 x3 &&& fromWords y0 y1 y2 y3 =
      fromWords (x0 &&& y0) (x1 &&& y1) (x2 &&& y2) (x3 &&& y3) := by
  -- stated at the sum of the widths, where the library lemma applies
  have h : (x0 ++ x1 ++ x2 ++ x3 : BitVec (32 + 32 + 32 + 32)) &&& (y0 ++ y1 ++ y2 ++ y3) =
      (x0 &&& y0) ++ (x1 &&& y1) ++ (x2 &&& y2) ++ (x3 &&& y3) := by
    rw [BitVec.and_append, BitVec.and_append, BitVec.and_append]
  exact h

/-! ### The two sets agree -/

/-- The ABI address of a family, or no listener in that family. -/
structure AbiListeners (e : Endian) (l : Listeners) : Prop where
  v4 : l.v4Port ≠ 0 → l.v4Addr = e.load (octets listenV4)
  v6 : l.v6Port ≠ 0 → l.v6Addr = octets listenV6

variable {e : Endian} {l : Listeners}

theorem load_octets_inj {x y : Ipv4Addr} (h : e.load (octets x) = e.load (octets y)) : x = y := by
  rw [← e.ntohl_load_octets x, ← e.ntohl_load_octets y, h]

theorem reservedDest_v4_iff (h : AbiListeners e l) (addr : Ipv4Addr) :
    reservedDest e l (.v4 addr) = true ↔ ∃ f ∈ fixedBypassV4, f.contains addr = true := by
  have hlisten : (l.v4Port != 0 && e.load (octets addr) == l.v4Addr) = true → addr = listenV4 := by
    intro hl
    simp only [Bool.and_eq_true, bne_iff_ne, beq_iff_eq] at hl
    exact load_octets_inj (hl.2.trans (h.v4 hl.1))
  have h8 : mask 32 8 = 0xff000000#32 := by decide
  have h16 : mask 32 16 = 0xffff0000#32 := by decide
  have h12 : mask 32 12 = 0xfff00000#32 := by decide
  have h4 : mask 32 4 = 0xf0000000#32 := by decide
  have h32 : ∀ x : BitVec 32, x &&& mask 32 32 = x := fun x => by
    rw [show mask 32 32 = BitVec.allOnes 32 by decide, BitVec.and_allOnes]
  simp only [reservedDest, e.ntohl_load_octets, Bool.or_eq_true, or_assoc]
  rw [or_iff_right_of_imp fun hl => by
    rw [hlisten hl]
    decide]
  simp only [fixedBypassV4, List.mem_cons, List.not_mem_nil, or_false, exists_eq_or_imp,
    exists_eq_left, Cidr.contains, h8, h16, h12, h4, h32, listenV4]
  exact Iff.rfl

theorem reservedDest_v6_iff (h : AbiListeners e l) (addr : Ipv6Addr) :
    reservedDest e l (.v6 addr) = true ↔ ∃ f ∈ fixedBypassV6, f.contains addr = true := by
  have hlisten : (l.v6Port != 0 && octets addr == l.v6Addr) = true → addr = listenV6 := by
    intro hl
    simp only [Bool.and_eq_true, bne_iff_ne, beq_iff_eq] at hl
    exact octets_injective (by decide) (hl.2.trans (h.v6 hl.1))
  have h7 : mask 128 7 = fromWords 0xfe000000#32 0 0 0 := by decide
  have h10 : mask 128 10 = fromWords 0xffc00000#32 0 0 0 := by decide
  have h8 : mask 128 8 = fromWords 0xff000000#32 0 0 0 := by decide
  have h128 : ∀ x : BitVec 128, x &&& mask 128 128 = x := fun x => by
    rw [show mask 128 128 = BitVec.allOnes 128 by decide, BitVec.and_allOnes]
  have ha := fromWords_word addr
  simp only [reservedDest, load_word e addr (show 0 < 4 by decide),
    load_word e addr (show 1 < 4 by decide), load_word e addr (show 2 < 4 by decide),
    load_word e addr (show 3 < 4 by decide), Bool.or_eq_true, or_assoc]
  rw [or_iff_right_of_imp fun hl => by
    rw [hlisten hl]
    decide]
  generalize word addr 0 = w0, word addr 1 = w1, word addr 2 = w2, word addr 3 = w3 at ha
  subst ha
  have hz : (0 : Ipv6Addr) = fromWords 0 0 0 0 := by decide
  have h1 : (1 : Ipv6Addr) = fromWords 0 0 0 1 := by decide
  have hfc : (0xfc000000000000000000000000000000 : Ipv6Addr) = fromWords 0xfc000000#32 0 0 0 := by
    decide
  have hfe : (0xfe800000000000000000000000000000 : Ipv6Addr) = fromWords 0xfe800000#32 0 0 0 := by
    decide
  have hff : (0xff000000000000000000000000000000 : Ipv6Addr) = fromWords 0xff000000#32 0 0 0 := by
    decide
  have hl : listenV6 = fromWords 0x20010db8#32 0x00000001#32 0 2 := by decide
  simp only [fixedBypassV6, List.mem_cons, List.not_mem_nil, or_false, exists_eq_or_imp,
    exists_eq_left, Cidr.contains, h7, h10, h8, h128, hz, h1, hfc, hfe, hff, hl, fromWords_and,
    beq_iff_eq, fromWords_inj, Bool.and_eq_true, Bool.or_eq_true]
  simp only [BitVec.ofNat_eq_ofNat, BitVec.and_zero, and_true, and_or_left, and_assoc, or_assoc]

/-- **Lockstep.**  The masks of the hook and the prefixes of `cidr.rs` accept the same destinations. -/
theorem reservedDest_iff_fixedBypass (h : AbiListeners e l) :
    (∀ addr, reservedDest e l (.v4 addr) = true ↔ ∃ f ∈ fixedBypassV4, f.contains addr = true) ∧
      ∀ addr, reservedDest e l (.v6 addr) = true ↔ ∃ f ∈ fixedBypassV6, f.contains addr = true :=
  ⟨fun _ => reservedDest_v4_iff h _, fun _ => reservedDest_v6_iff h _⟩

/-- The listeners of a generation: the ABI addresses, on ports of the dynamic range. -/
def abiListeners (e : Endian) : Listeners where
  v4Addr := e.load (octets listenV4)
  v4Port := 0x48ee
  v6Addr := octets listenV6
  v6Port := 0x49ee

theorem reservedDest_iff_fixedBypass_abi :
    reservedDest .little (abiListeners .little) (.v4 0x0a010203) = true ∧
      reservedDest .little (abiListeners .little) (.v6 0x20010db8000000010000000000000003) = false := by
  have h := reservedDest_iff_fixedBypass (e := .little) (l := abiListeners .little)
    ⟨fun _ => rfl, fun _ => rfl⟩
  refine ⟨(h.1 _).mpr (by decide), Bool.eq_false_iff.mpr fun hres => ?_⟩
  revert hres
  rw [h.2]
  decide

end FluxRs.Kmod
