import FluxRs.Daemon.Checks
import FluxRs.Net.TextRoundTrip

/-!
# FluxRs.Daemon.Prefixes — the masked comparisons are inclusion and intersection

Containment and overlap of prefixes are decided by masks, in two crates; both agree with the sets of addresses.
-/

namespace FluxRs.Daemon

open FluxRs.Lib FluxRs.Net

/-! ### Masks -/

/-- A shift of the code: one by the width or more has no result. -/
def checkedShl {w : ℕ} (x : BitVec w) (n : ℕ) : Option (BitVec w) := if n < w then some (x <<< n) else none

/-- `mask32` and `mask128`. -/
def maskOf (w n : ℕ) : Option (BitVec w) :=
  if n = 0 then some 0 else if w ≤ n then some (BitVec.allOnes w) else checkedShl (BitVec.allOnes w) (w - n)

/-- The mask in `overlaps_v4` and `overlaps_v6`; the subtraction has no result below zero. -/
def overlapMask (w n : ℕ) : Option (BitVec w) :=
  if n = 0 then some 0
  else if n = w then some (BitVec.allOnes w)
  else if n ≤ w then checkedShl (BitVec.allOnes w) (w - n) else none

theorem maskOf_eq (w n : ℕ) : maskOf w n = some (mask w n) := by
  unfold maskOf mask checkedShl
  by_cases h0 : n = 0
  · rw [if_pos h0, if_pos h0]
  · rw [if_neg h0, if_neg h0]
    by_cases hw : w ≤ n
    · rw [if_pos hw, if_pos hw]
    · rw [if_neg hw, if_neg hw, if_pos (by omega)]

theorem overlapMask_eq {w n : ℕ} (h : n ≤ w) : overlapMask w n = some (mask w n) := by
  rw [← maskOf_eq]
  unfold overlapMask maskOf
  by_cases h0 : n = 0
  · rw [if_pos h0, if_pos h0]
  · rw [if_neg h0, if_neg h0, if_pos h]
    by_cases hw : n = w
    · rw [if_pos hw, if_pos hw.ge]
    · rw [if_neg hw, if_neg (by omega)]

/-! ### Members -/

section Members

variable {w : ℕ}

/-- An address of a prefix: the leading bits are those of the prefix. -/
def Member (c : Cidr w) (addr : BitVec w) : Prop :=
  ∀ i < w, w - c.prefixLen ≤ i → addr.getLsbD i = c.addr.getLsbD i

theorem host_bit (c : Cidr w) {i : ℕ} (hi : i < w - c.prefixLen) : c.addr.getLsbD i = false := by
  have hbit := congrArg (fun x => BitVec.getLsbD x i) c.and_mask
  rw [BitVec.getLsbD_and, getLsbD_mask (by omega), decide_eq_false (by omega), Bool.and_false] at hbit
  exact hbit.symm

theorem contains_iff (c : Cidr w) (addr : BitVec w) : c.contains addr = true ↔ Member c addr := by
  rw [Cidr.contains, beq_iff_eq]
  constructor
  · intro h i hi hlead
    have hbit := congrArg (fun x => BitVec.getLsbD x i) h
    rw [BitVec.getLsbD_and, getLsbD_mask hi, decide_eq_true hlead, Bool.and_true] at hbit
    exact hbit
  · intro h
    apply BitVec.eq_of_getLsbD_eq
    intro i hi
    rw [BitVec.getLsbD_and, getLsbD_mask hi]
    by_cases hlead : w - c.prefixLen ≤ i
    · rw [decide_eq_true hlead, Bool.and_true]
      exact h i hi hlead
    · rw [decide_eq_false hlead, Bool.and_false, host_bit c (by omega)]

theorem member_self (c : Cidr w) : Member c c.addr := fun _ _ _ => rfl

/-- Whether the leading bits of another prefix are those of `c`. -/
theorem masked_iff (c : Cidr w) (addr : BitVec w) : (addr &&& mask w c.prefixLen == c.addr) = true ↔ Member c addr :=
  contains_iff c addr

/-! ### Inclusion and intersection -/

theorem containsPrefix_iff (a b : Cidr w) :
    a.containsPrefix b = true ↔ ∀ addr, Member b addr → Member a addr := by
  rw [Cidr.containsPrefix, Bool.and_eq_true, decide_eq_true_iff, masked_iff]
  constructor
  · rintro ⟨hlen, hmember⟩ addr haddr i hi hlead
    rw [haddr i hi (by omega), hmember i hi hlead]
  · intro h
    have hself := h b.addr (member_self b)
    refine ⟨?_, hself⟩
    by_contra hlen
    -- the first host bit of `b` is a leading bit of `a`
    have hb := b.len_le
    have ha := a.len_le
    let i := w - b.prefixLen - 1
    have hi : i < w := by show w - b.prefixLen - 1 < w; omega
    have hset := h (b.addr ||| BitVec.twoPow w i) ?_ i hi (by show w - a.prefixLen ≤ w - b.prefixLen - 1; omega)
    · rw [BitVec.getLsbD_or, BitVec.getLsbD_twoPow, decide_eq_true hi] at hset
      have hzero := hself i hi (by show w - a.prefixLen ≤ w - b.prefixLen - 1; omega)
      rw [host_bit b (by show w - b.prefixLen - 1 < _; omega)] at hzero
      rw [← hzero] at hset
      simp at hset
    · intro j hj hlead
      rw [BitVec.getLsbD_or, BitVec.getLsbD_twoPow]
      have hne : i ≠ j := by show w - b.prefixLen - 1 ≠ j; omega
      simp [hne]

theorem overlaps_comm (a b : Cidr w) : overlaps a b = overlaps b a := by
  unfold overlaps
  rw [Nat.min_comm, BEq.comm]

/-- The longer prefix's own address lies in both. -/
theorem member_of_overlaps {a b : Cidr w} (hle : a.prefixLen ≤ b.prefixLen) (h : overlaps a b = true) :
    Member a b.addr := by
  unfold overlaps at h
  rw [Nat.min_eq_left hle, Cidr.and_mask, beq_iff_eq] at h
  rw [← masked_iff, beq_iff_eq]
  exact h.symm

theorem overlaps_iff (a b : Cidr w) : overlaps a b = true ↔ ∃ addr, Member a addr ∧ Member b addr := by
  constructor
  · intro h
    rcases Nat.le_total a.prefixLen b.prefixLen with hle | hle
    · exact ⟨b.addr, member_of_overlaps hle h, member_self b⟩
    · exact ⟨a.addr, member_self a, member_of_overlaps hle (overlaps_comm a b ▸ h)⟩
  · rintro ⟨addr, ha, hb⟩
    exact overlaps_of_contains ((contains_iff a addr).mpr ha) ((contains_iff b addr).mpr hb)

end Members

/-! ### Both families -/

inductive Family where
  | v4
  | v6

namespace Family

def width : Family → ℕ
  | .v4 => 32
  | .v6 => 128

/-- `Ipv4Cidr::parse` and `Ipv6Cidr::parse`. -/
def parse : (family : Family) → String → Except ParseError (Cidr family.width)
  | .v4 => Ipv4Cidr.parse
  | .v6 => Ipv6Cidr.parse

/-- An address and a length as `Display` writes them. -/
def display : (family : Family) → BitVec family.width → ℕ → String
  | .v4 => fun addr prefixLen => String.ofList (showPrefix showIpv4Addr addr prefixLen)
  | .v6 => fun addr prefixLen => String.ofList (showPrefix showIpv6Addr addr prefixLen)

theorem parse_ok_iff (family : Family) {text : String} {c : Cidr family.width} :
    family.parse text = .ok c ↔ text = family.display c.addr c.prefixLen := by
  cases family with
  | v4 => exact Ipv4Cidr.parse_ok_iff
  | v6 => exact Ipv6Cidr.parse_ok_iff

theorem width_lt (family : Family) : family.width < 256 := by
  cases family <;> decide

end Family

/-- **The algebra of prefixes**, for both families.  Exactly the printed canonical prefixes are accepted, and a
prefix comes back from its octets and from its key; containment is inclusion, overlap is a common address, and
the masks of both crates are computed without a shift by the whole width. -/
theorem cidr_algebra (family : Family) :
    (∀ text addr prefixLen,
      (∃ c, family.parse text = .ok c ∧ c.addr = addr ∧ c.prefixLen = prefixLen) ↔
        text = family.display addr prefixLen ∧ prefixLen ≤ family.width ∧
          addr &&& ~~~ mask family.width prefixLen = 0) ∧
      (∀ text c, family.parse text = .ok c →
        Cidr.fromOctets c.addr c.prefixLen = .ok c ∧ c.toLpmKey.toCidr = c) ∧
      (∀ a b : Cidr family.width, a.containsPrefix b = true ↔ ∀ addr, Member b addr → Member a addr) ∧
      (∀ a b : Cidr family.width, overlaps a b = true ↔ ∃ addr, Member a addr ∧ Member b addr) ∧
      (∀ c : Cidr family.width, maskOf family.width c.prefixLen = some (mask family.width c.prefixLen)) ∧
      ∀ a b : Cidr family.width,
        overlapMask family.width (min a.prefixLen b.prefixLen) =
          some (mask family.width (min a.prefixLen b.prefixLen)) := by
  refine ⟨?_, ?_, containsPrefix_iff, overlaps_iff, fun c => maskOf_eq _ _, ?_⟩
  · intro text addr prefixLen
    constructor
    · rintro ⟨c, hparse, rfl, rfl⟩
      exact ⟨family.parse_ok_iff.mp hparse, c.len_le, c.canonical⟩
    · rintro ⟨htext, hlen, hcanonical⟩
      exact ⟨⟨addr, prefixLen, hlen, hcanonical⟩, family.parse_ok_iff.mpr htext, rfl, rfl⟩
  · intro text c _
    refine ⟨?_, LpmKey.toCidr_toLpmKey family.width_lt c⟩
    unfold Cidr.fromOctets
    rw [dif_pos c.len_le, dif_pos c.canonical]
  · intro a b
    exact overlapMask_eq (le_trans (Nat.min_le_left _ _) a.len_le)

end FluxRs.Daemon
