import Mathlib.Data.List.GetD
import Mathlib.Data.Nat.Basic
import Mathlib.Order.Defs.LinearOrder
import Mathlib.Tactic.IntervalCases

/-!
# FluxRs.Lib.Bytes — words as bytes, host byte order, packed arrays and prefix masks

The byte-level vocabulary of a packed user/kernel buffer: the octets of a word in network order,
32-bit loads and stores in the byte order of one host, arrays of fixed-size records, and the mask of
a prefix length both on a word and on its octets.
-/

namespace FluxRs.Lib

abbrev U8 := BitVec 8
abbrev U16 := BitVec 16
abbrev U32 := BitVec 32

instance bitVecLinearOrder {n : ℕ} : LinearOrder (BitVec n) where
  le_refl a := BitVec.le_refl a
  le_trans a b c := BitVec.le_trans
  le_antisymm a b h h' := by
    rw [BitVec.le_def] at h h'
    exact BitVec.eq_of_toNat_eq (by omega)
  le_total a b := by
    rw [BitVec.le_def, BitVec.le_def]
    omega
  lt_iff_le_not_ge a b := by
    rw [BitVec.lt_def, BitVec.le_def, BitVec.le_def]
    omega
  toDecidableLE := inferInstance
  toDecidableEq := inferInstance
  toDecidableLT := inferInstance

/-! The order laws at the two address widths, named so that maps over them share one proof. -/

instance transOrd32 : Std.TransOrd (BitVec 32) := BitVec.instTransOrd

instance lawfulEqOrd32 : Std.LawfulEqOrd (BitVec 32) := BitVec.instLawfulEqOrd

instance transOrd128 : Std.TransOrd (BitVec 128) := BitVec.instTransOrd

instance lawfulEqOrd128 : Std.LawfulEqOrd (BitVec 128) := BitVec.instLawfulEqOrd

/-! ### Octets in network order -/

section Octets

variable {w : ℕ}

/-- Octet `i` of a word, most significant first. -/
def octet (x : BitVec w) (i : ℕ) : U8 := x.extractLsb' (w - 8 * (i + 1)) 8

def octets (x : BitVec w) : List U8 := (List.range (w / 8)).map (octet x)

@[simp] theorem length_octets (x : BitVec w) : (octets x).length = w / 8 := by simp [octets]

theorem getElem_octets (x : BitVec w) {i : ℕ} (h : i < (octets x).length) :
    (octets x)[i] = octet x i := by simp [octets]

theorem getLsbD_octet (x : BitVec w) (i : ℕ) {j : ℕ} (hj : j < 8) :
    (octet x i).getLsbD j = x.getLsbD (w - 8 * (i + 1) + j) := by
  simp [octet, hj]

/-- A whole number of octets determines the word. -/
theorem octets_injective (h : 8 ∣ w) : Function.Injective (octets (w := w)) := by
  intro x y hxy
  obtain ⟨n, rfl⟩ := h
  apply BitVec.eq_of_getLsbD_eq
  intro j hj
  have hi : n - 1 - j / 8 < n := by omega
  have hoct : octet x (n - 1 - j / 8) = octet y (n - 1 - j / 8) := by
    have := congrArg (fun l => l.getD (n - 1 - j / 8) 0) hxy
    simpa [octets, List.getD_eq_getElem?_getD, hi] using this
  have hbit := congrArg (fun b => BitVec.getLsbD b (j % 8)) hoct
  simp only [getLsbD_octet _ _ (Nat.mod_lt j (by omega))] at hbit
  have hj' : 8 * n - 8 * (n - 1 - j / 8 + 1) + j % 8 = j := by omega
  rwa [hj'] at hbit

end Octets

/-! ### One host's byte order -/

inductive Endian where
  | little
  | big
  deriving DecidableEq, Repr

def ofBe (b0 b1 b2 b3 : U8) : U32 := b0 ++ b1 ++ b2 ++ b3

/-- `u32::from_ne_bytes`, and a 32-bit load by the kernel. -/
def Endian.load (e : Endian) (bs : List U8) : U32 :=
  match e with
  | .big => ofBe (bs.getD 0 0) (bs.getD 1 0) (bs.getD 2 0) (bs.getD 3 0)
  | .little => ofBe (bs.getD 3 0) (bs.getD 2 0) (bs.getD 1 0) (bs.getD 0 0)

/-- `u32::to_ne_bytes`. -/
def Endian.store (e : Endian) (x : U32) : List U8 :=
  match e with
  | .big => octets x
  | .little => (octets x).reverse

/-- `ntohl`: a byte swap on a little-endian host. -/
def Endian.ntohl (e : Endian) (x : U32) : U32 :=
  match e with
  | .big => x
  | .little => ofBe (octet x 3) (octet x 2) (octet x 1) (octet x 0)

theorem octets32 (x : U32) : octets x = [octet x 0, octet x 1, octet x 2, octet x 3] := rfl

theorem ofBe_octet (x : U32) : ofBe (octet x 0) (octet x 1) (octet x 2) (octet x 3) = x := by
  apply BitVec.eq_of_getLsbD_eq
  intro j hj
  simp only [ofBe, octet, BitVec.getLsbD_append, BitVec.getLsbD_extractLsb']
  rcases Nat.lt_or_ge j 8 with h | h
  · simp [h]
  · rcases Nat.lt_or_ge j 16 with h' | h'
    · have : j - 8 < 8 := by omega
      simp [Nat.not_lt.mpr h, this, show 8 + (j - 8) = j by omega]
    · rcases Nat.lt_or_ge j 24 with h2 | h2
      · have h3 : ¬ j - 8 < 8 := by omega
        have h4 : j - 8 - 8 < 8 := by omega
        simp [Nat.not_lt.mpr h, h3, h4, show 16 + (j - 8 - 8) = j by omega]
      · have h3 : ¬ j - 8 < 8 := by omega
        have h4 : ¬ j - 8 - 8 < 8 := by omega
        have h5 : j - 8 - 8 - 8 < 8 := by omega
        simp [Nat.not_lt.mpr h, h3, h4, h5, show 24 + (j - 8 - 8 - 8) = j by omega]

theorem octet_ofBe (b0 b1 b2 b3 : U8) :
    octet (ofBe b0 b1 b2 b3) 0 = b0 ∧ octet (ofBe b0 b1 b2 b3) 1 = b1 ∧
      octet (ofBe b0 b1 b2 b3) 2 = b2 ∧ octet (ofBe b0 b1 b2 b3) 3 = b3 := by
  refine ⟨?_, ?_, ?_, ?_⟩ <;>
  · apply BitVec.eq_of_getLsbD_eq
    intro j hj
    rw [getLsbD_octet _ _ hj]
    simp only [ofBe, BitVec.getLsbD_append]
    interval_cases j <;> rfl

@[simp] theorem Endian.length_store (e : Endian) (x : U32) : (e.store x).length = 4 := by
  cases e <;> simp [Endian.store]

@[simp] theorem Endian.load_store (e : Endian) (x : U32) : e.load (e.store x) = x := by
  cases e <;> simp [Endian.load, Endian.store, octets32, ofBe_octet]

/-- Storing a loaded word gives the four bytes back. -/
theorem Endian.store_load_octets (e : Endian) (x : U32) : e.store (e.load (octets x)) = octets x := by
  cases e with
  | big => simp [Endian.load, Endian.store, octets32, ofBe_octet]
  | little =>
    obtain ⟨h0, h1, h2, h3⟩ := octet_ofBe (octet x 3) (octet x 2) (octet x 1) (octet x 0)
    simp [Endian.load, Endian.store, octets32, h0, h1, h2, h3]

/-- `ntohl` of network-order bytes is the number they spell, on either host. -/
theorem Endian.ntohl_load_octets (e : Endian) (x : U32) : e.ntohl (e.load (octets x)) = x := by
  cases e with
  | big => simp [Endian.load, Endian.ntohl, octets32, ofBe_octet]
  | little =>
    obtain ⟨h0, h1, h2, h3⟩ := octet_ofBe (octet x 3) (octet x 2) (octet x 1) (octet x 0)
    simp [Endian.load, Endian.ntohl, octets32, h0, h1, h2, h3, ofBe_octet]

/-! ### Packed arrays of fixed-size records -/

section Packed

variable {α : Type*}

/-- The bytes of record `i` of an array starting at `buf`. -/
def structAt (size : ℕ) (buf : List U8) (i : ℕ) : List U8 := (buf.drop (size * i)).take size

def arrayOf (size n : ℕ) (buf : List U8) : List (List U8) := (List.range n).map (structAt size buf)

theorem structAt_succ {size : ℕ} {r buf : List U8} (h : r.length = size) (i : ℕ) :
    structAt size (r ++ buf) (i + 1) = structAt size buf i := by
  unfold structAt
  rw [Nat.mul_succ, Nat.add_comm, ← List.drop_drop, ← h, List.drop_left]

/-- Reading back an array of encoded records, whatever follows it. -/
theorem arrayOf_flatMap {size : ℕ} {enc : α → List U8} (h : ∀ x, (enc x).length = size)
    (rest : List U8) : ∀ (l : List α), arrayOf size l.length (l.flatMap enc ++ rest) = l.map enc
  | [] => rfl
  | x :: xs => by
    have ih := arrayOf_flatMap h rest xs
    unfold arrayOf at ih ⊢
    rw [List.length_cons, List.range_succ_eq_map, List.map_cons, List.map_map, List.flatMap_cons,
      List.append_assoc, List.map_cons]
    congr 1
    · simp [structAt, ← h x]
    · rw [← ih]
      exact List.map_congr_left fun i _ => structAt_succ (h x) i

theorem length_flatMap_const {size : ℕ} {enc : α → List U8} (h : ∀ x, (enc x).length = size)
    (l : List α) : (l.flatMap enc).length = size * l.length := by
  induction l with
  | nil => simp
  | cons x xs ih => rw [List.flatMap_cons, List.length_append, h, ih, List.length_cons, Nat.mul_succ, Nat.add_comm]

end Packed

/-! ### Prefix masks -/

/-- The `n` leading ones of a `w`-bit word. -/
def mask (w n : ℕ) : BitVec w :=
  if n = 0 then 0 else if w ≤ n then BitVec.allOnes w else BitVec.allOnes w <<< (w - n)

theorem getLsbD_mask {w n i : ℕ} (hi : i < w) : (mask w n).getLsbD i = decide (w - n ≤ i) := by
  unfold mask
  by_cases h0 : n = 0
  · rw [if_pos h0]
    simp; omega
  · rw [if_neg h0]
    by_cases hw : w ≤ n
    · rw [if_pos hw]
      simp [hi]; omega
    · rw [if_neg hw, BitVec.getLsbD_shiftLeft]
      simp only [BitVec.getLsbD_allOnes]
      by_cases hc : w - n ≤ i
      · have h1 : i - (w - n) < w := by omega
        simp [hi, hc, h1]
      · simp [hc]

/-- The same mask on the octets: whole bytes copied, one partial byte, zeros after it. -/
def maskOctets (addr : List U8) (n : ℕ) : List U8 :=
  let full := n / 8
  let bits := n % 8
  let out := addr.take full ++ List.replicate (addr.length - full) 0
  if bits = 0 then out else out.set full (addr.getD full 0 &&& (0xff#8 <<< (8 - bits)))

theorem getLsbD_byteMask {bits j : ℕ} (hb : bits ≠ 0) (hb' : bits < 8) (hj : j < 8) :
    ((0xff#8 : U8) <<< (8 - bits)).getLsbD j = decide (8 - bits ≤ j) := by
  have h : (0xff#8 : U8) <<< (8 - bits) = mask 8 bits := by
    unfold mask
    rw [if_neg hb, if_neg (by omega)]
    rfl
  rw [h, getLsbD_mask hj]

/-- Masking the octets is masking the word. -/
theorem maskOctets_octets {m n : ℕ} (x : BitVec (8 * m)) (hn : n ≤ 8 * m) :
    maskOctets (octets x) n = octets (x &&& mask (8 * m) n) := by
  have hlen : (octets x).length = m := by simp
  apply List.ext_getElem
  · unfold maskOctets
    simp only
    split_ifs <;> simp <;> omega
  · intro i h1 h2
    have him : i < m := by simpa using h2
    have hfull : n / 8 ≤ m := by omega
    rw [getElem_octets]
    apply BitVec.eq_of_getLsbD_eq
    intro j hj
    have hpos : 8 * m - 8 * (i + 1) + j < 8 * m := by omega
    rw [getLsbD_octet _ _ hj, BitVec.getLsbD_and, getLsbD_mask hpos]
    -- a byte left of the partial one is copied, one right of it is zero
    have hout : ∀ h : i < ((octets x).take (n / 8) ++
        List.replicate ((octets x).length - n / 8) (0 : U8)).length,
        ((octets x).take (n / 8) ++ List.replicate ((octets x).length - n / 8) (0 : U8))[i] =
        if i < n / 8 then octet x i else 0 := by
      intro h
      by_cases hi : i < n / 8
      · rw [if_pos hi, List.getElem_append_left (by simp; omega), List.getElem_take, getElem_octets]
      · rw [if_neg hi, List.getElem_append_right (by simp; omega), List.getElem_replicate]
    unfold maskOctets
    simp only
    split_ifs with hbits
    · rw [hout]
      by_cases hi : i < n / 8
      · rw [if_pos hi, getLsbD_octet _ _ hj]
        have : 8 * m - n ≤ 8 * m - 8 * (i + 1) + j := by omega
        simp [this]
      · rw [if_neg hi]
        have : ¬ 8 * m - n ≤ 8 * m - 8 * (i + 1) + j := by omega
        simp [this]
    · rw [List.getElem_set]
      by_cases hi : n / 8 = i
      · rw [if_pos hi, hi, List.getD_eq_getElem _ _ (by simpa using him), getElem_octets,
          BitVec.getLsbD_and, getLsbD_octet _ _ hj, getLsbD_byteMask hbits (by omega) hj]
        have : 8 - n % 8 ≤ j ↔ 8 * m - n ≤ 8 * m - 8 * (i + 1) + j := by omega
        simp [this]
      · rw [if_neg hi, hout]
        by_cases hi' : i < n / 8
        · rw [if_pos hi', getLsbD_octet _ _ hj]
          have : 8 * m - n ≤ 8 * m - 8 * (i + 1) + j := by omega
          simp [this]
        · rw [if_neg hi']
          have : ¬ 8 * m - n ≤ 8 * m - 8 * (i + 1) + j := by omega
          simp [this]

end FluxRs.Lib
