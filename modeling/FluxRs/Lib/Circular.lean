import Mathlib.Data.List.GetD
import Mathlib.Data.Nat.ModEq

/-!
# FluxRs.Lib.Circular — a memory of `cap` cells under unbounded positions

Position `p` is cell `p % cap`.  Ranges that lie in one window of `cap` positions and do not meet do not share
a cell.
-/

namespace FluxRs.Lib.Circular

variable {α : Type} (cap : ℕ)

/-- `n` cells from position `p` on. -/
def load (mem : ℕ → α) (p n : ℕ) : List α := (List.range n).map fun j => mem ((p + j) % cap)

/-- The cells from position `p` on are written. -/
def store (mem : ℕ → α) : ℕ → List α → ℕ → α
  | _, [] => mem
  | p, a :: as => store (fun i => if i = p % cap then a else mem i) (p + 1) as

variable {cap}

theorem mod_ne {a b : ℕ} (h : a < b) (hb : b < a + cap) : a % cap ≠ b % cap := by
  intro hmod
  have hdvd : cap ∣ b - a := (Nat.modEq_iff_dvd' h.le).mp hmod
  have hle := Nat.le_of_dvd (by omega) hdvd
  omega

@[simp] theorem length_load (mem : ℕ → α) (p n : ℕ) : (load cap mem p n).length = n := by
  rw [load, List.length_map, List.length_range]

theorem load_congr {mem mem' : ℕ → α} {p n : ℕ} (h : ∀ j < n, mem ((p + j) % cap) = mem' ((p + j) % cap)) :
    load cap mem p n = load cap mem' p n := by
  refine List.map_congr_left ?_
  intro j hj
  exact h j (List.mem_range.mp hj)

/-- A reader may reduce its position first. -/
theorem load_mod (mem : ℕ → α) (p n : ℕ) : load cap mem (p % cap) n = load cap mem p n := by
  refine List.map_congr_left ?_
  intro j _
  rw [Nat.mod_add_mod]

theorem take_load (mem : ℕ → α) (p : ℕ) {k n : ℕ} (h : k ≤ n) : (load cap mem p n).take k = load cap mem p k := by
  rw [load, ← List.map_take, List.take_range, Nat.min_eq_left h, load]

/-- A cell that is not written. -/
theorem store_of_ne {mem : ℕ → α} {p i : ℕ} {as : List α} (h : ∀ j < as.length, i ≠ (p + j) % cap) :
    store cap mem p as i = mem i := by
  induction as generalizing mem p with
  | nil => rfl
  | cons a as ih =>
    have h0 : i ≠ p % cap := h 0 (Nat.succ_pos _)
    rw [store, ih]
    · exact if_neg h0
    · intro j hj
      rw [Nat.add_right_comm]
      exact h (j + 1) (Nat.succ_lt_succ hj)

/-- What is stored in at most one turn is loaded back. -/
theorem load_store {mem : ℕ → α} {p : ℕ} {as : List α} (h : as.length ≤ cap) :
    load cap (store cap mem p as) p as.length = as := by
  induction as generalizing mem p with
  | nil => rfl
  | cons a as ih =>
    rw [List.length_cons] at h
    have hhead : store cap mem p (a :: as) ((p + 0) % cap) = a := by
      rw [store, store_of_ne]
      · exact if_pos rfl
      · intro j hj
        exact mod_ne (by omega) (by omega)
    have htail : load cap (store cap mem p (a :: as)) (p + 1) as.length = as := ih (by omega)
    rw [List.length_cons, load, List.range_succ_eq_map, List.map_cons, hhead, List.map_map]
    refine congrArg _ (Eq.trans ?_ htail)
    refine List.map_congr_left ?_
    intro j _
    show store cap mem p (a :: as) ((p + (j + 1)) % cap) = _
    rw [Nat.add_right_comm p 1 j, Nat.add_assoc]

/-- A range of the same turn that is not written. -/
theorem load_store_of_apart {mem : ℕ → α} {p q n : ℕ} {as : List α}
    (h : q + n ≤ p ∧ p + as.length ≤ q + cap ∨ p + as.length ≤ q ∧ q + n ≤ p + cap) :
    load cap (store cap mem p as) q n = load cap mem q n := by
  refine load_congr ?_
  intro j hj
  refine store_of_ne ?_
  intro i hi
  rcases h with h | h
  · exact mod_ne (by omega) (by omega)
  · exact (mod_ne (by omega) (by omega)).symm

end FluxRs.Lib.Circular
