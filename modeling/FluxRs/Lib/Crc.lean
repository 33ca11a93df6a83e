import FluxRs.Lib.Bytes
import Mathlib.Logic.Function.Iterate

/-!
# FluxRs.Lib.Crc — checksums by polynomial division, lowest bit first

One step divides by a polynomial of any width.  The step is linear, so `n` steps of a word are `n` steps of its lowest
`n` bits and a shift of the others: this is what a table of the low bits rests on.
-/

namespace FluxRs.Lib.Crc

variable {w : ℕ} (poly : BitVec w)

/-- One division step. -/
def step (c : BitVec w) : BitVec w := if c &&& 1#w ≠ 0#w then poly ^^^ (c >>> 1) else c >>> 1

/-- The step without a branch. -/
def maskStep (c : BitVec w) : BitVec w := (c >>> 1) ^^^ (poly &&& -(c &&& 1#w))

/-- What a step adds to the shifted word. -/
def term (c : BitVec w) : BitVec w := if c.getLsbD 0 then poly else 0#w

theorem and_one_eq_zero_iff (c : BitVec w) : c &&& 1#w = 0#w ↔ c.getLsbD 0 = false := by
  obtain rfl | hw := Nat.eq_zero_or_pos w
  · rw [BitVec.of_length_zero (x := c)]
    exact ⟨fun _ => rfl, fun _ => rfl⟩
  · rw [BitVec.and_one_eq_setWidth_ofBool_getLsbD]
    constructor
    · intro h
      have hbit := congrArg (BitVec.getLsbD · 0) h
      simpa [hw] using hbit
    · intro h
      rw [h]
      simp

theorem step_eq (c : BitVec w) : step poly c = (c >>> 1) ^^^ term poly c := by
  unfold step term
  by_cases h : c.getLsbD 0
  · have hone : c &&& 1#w ≠ 0#w := fun heq => by
      rw [(and_one_eq_zero_iff c).mp heq] at h
      exact absurd h Bool.false_ne_true
    rw [if_pos hone, if_pos h, BitVec.xor_comm]
  · have hzero : c &&& 1#w = 0#w := (and_one_eq_zero_iff c).mpr (Bool.eq_false_iff.mpr h)
    rw [if_neg (not_not_intro hzero), if_neg h, BitVec.xor_zero]

/-- The mask is all ones exactly when the lowest bit is one. -/
theorem maskStep_eq (c : BitVec w) : maskStep poly c = step poly c := by
  rw [step_eq]
  unfold maskStep term
  rw [BitVec.and_one_eq_setWidth_ofBool_getLsbD]
  by_cases h : c.getLsbD 0
  · rw [if_pos h, h]
    have hones : -(BitVec.ofBool true).setWidth w = BitVec.allOnes w := by
      rw [← BitVec.neg_one_eq_allOnes]
      refine congrArg _ ?_
      ext i hi
      simp
    rw [hones, BitVec.and_allOnes]
  · rw [if_neg h, Bool.eq_false_iff.mpr h]
    simp

/-- **A step is linear.** -/
theorem step_xor (x y : BitVec w) : step poly (x ^^^ y) = step poly x ^^^ step poly y := by
  have hterm : term poly (x ^^^ y) = term poly x ^^^ term poly y := by
    unfold term
    rw [BitVec.getLsbD_xor]
    by_cases hx : x.getLsbD 0 <;> by_cases hy : y.getLsbD 0 <;> simp [hx, hy]
  rw [step_eq, step_eq, step_eq, hterm, BitVec.ushiftRight_xor_distrib, BitVec.xor_assoc, BitVec.xor_assoc,
    ← BitVec.xor_assoc (y >>> 1), BitVec.xor_comm (y >>> 1), BitVec.xor_assoc (term poly x)]

theorem iterate_step_xor (n : ℕ) (x y : BitVec w) :
    (step poly)^[n] (x ^^^ y) = (step poly)^[n] x ^^^ (step poly)^[n] y := by
  induction n generalizing x y with
  | zero => rfl
  | succ n ih => rw [Function.iterate_succ_apply, Function.iterate_succ_apply, Function.iterate_succ_apply, step_xor, ih]

/-- Low bits that are zero are shifted out. -/
theorem iterate_step_shift {n : ℕ} {x : BitVec w} (h : ∀ i < n, x.getLsbD i = false) : (step poly)^[n] x = x >>> n := by
  induction n generalizing x with
  | zero => exact (BitVec.ushiftRight_zero x).symm
  | succ n ih =>
    have hstep : step poly x = x >>> 1 := by
      rw [step_eq, term, if_neg (by rw [h 0 (by omega)]; exact Bool.false_ne_true), BitVec.xor_zero]
    rw [Function.iterate_succ_apply, hstep, ih, Nat.add_comm, BitVec.shiftRight_add]
    intro i hi
    rw [BitVec.getLsbD_ushiftRight]
    exact h (1 + i) (by omega)

/-- The lowest `n` bits of a word. -/
def low (n : ℕ) (x : BitVec w) : BitVec w := BitVec.ofNat w (x.toNat % 2 ^ n)

theorem getLsbD_low (n : ℕ) (x : BitVec w) (i : ℕ) : (low n x).getLsbD i = (decide (i < n) && x.getLsbD i) := by
  unfold low
  rw [BitVec.getLsbD_ofNat, Nat.testBit_mod_two_pow, BitVec.testBit_toNat]
  by_cases hi : i < w
  · rw [decide_eq_true hi, Bool.true_and]
  · rw [BitVec.getLsbD_of_ge x i (by omega), Bool.and_false, Bool.and_false]

/-- **`n` steps of a word: those of its low bits, and a shift of the rest.** -/
theorem iterate_step_split (n : ℕ) (x : BitVec w) : (step poly)^[n] x = (step poly)^[n] (low n x) ^^^ (x >>> n) := by
  have hsplit : x = low n x ^^^ (x ^^^ low n x) := by
    rw [BitVec.xor_comm x, ← BitVec.xor_assoc, BitVec.xor_self, BitVec.zero_xor]
  have hhigh : ∀ i < n, (x ^^^ low n x).getLsbD i = false := by
    intro i hi
    rw [BitVec.getLsbD_xor, getLsbD_low, decide_eq_true hi, Bool.true_and, Bool.xor_self]
  have hshift : (x ^^^ low n x) >>> n = x >>> n := by
    apply BitVec.eq_of_getLsbD_eq
    intro i _
    rw [BitVec.getLsbD_ushiftRight, BitVec.getLsbD_ushiftRight, BitVec.getLsbD_xor, getLsbD_low,
      decide_eq_false (by omega : ¬n + i < n), Bool.false_and, Bool.xor_false]
  conv_lhs => rw [hsplit]
  rw [iterate_step_xor, iterate_step_shift poly hhigh, hshift]

end FluxRs.Lib.Crc
