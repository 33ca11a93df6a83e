import Mathlib.Order.Defs.LinearOrder
import Mathlib.Data.List.Sort

/-!
# FluxRs.Lib.BinSearch — half-open binary search and adjacent de-duplication

The two array routines a sorted table needs, over any linearly ordered key: the halving loop
`bsearch` on a half-open index range, and `compact`, the in-place pass that merges neighbours with
equal keys.  Nothing here knows what the table holds.
-/

namespace FluxRs.Lib

section Search

variable {κ : Type*} [LinearOrder κ]

/-- The loop `while (lo < hi)` on slots whose keys are `key i`; the fuel bounds the iterations. -/
def bsearch (key : ℕ → κ) (k : κ) : ℕ → ℕ → ℕ → Option ℕ
  | 0, _, _ => none
  | f + 1, lo, hi =>
    if lo < hi then
      let mid := lo + (hi - lo) / 2
      if key mid = k then some mid
      else if key mid < k then bsearch key k f (mid + 1) hi
      else bsearch key k f lo mid
    else none

/-- Keys strictly increase on the half-open range `[lo, hi)`. -/
def StrictOn (key : ℕ → κ) (lo hi : ℕ) : Prop :=
  ∀ i j, lo ≤ i → i < j → j < hi → key i < key j

theorem StrictOn.sub {key : ℕ → κ} {lo hi lo' hi' : ℕ} (h : StrictOn key lo hi) (hl : lo ≤ lo')
    (hh : hi' ≤ hi) : StrictOn key lo' hi' :=
  fun i j hi hij hj => h i j (by omega) hij (by omega)

/-- **The loop finds exactly the slot holding the key**, once the fuel covers the range. -/
theorem bsearch_eq_some_iff {key : ℕ → κ} {k : κ} :
    ∀ {f lo hi i : ℕ}, StrictOn key lo hi → hi - lo ≤ f →
      (bsearch key k f lo hi = some i ↔ lo ≤ i ∧ i < hi ∧ key i = k)
  | 0, lo, hi, i, _, hf => by
    simp only [bsearch, reduceCtorEq, false_iff]
    omega
  | f + 1, lo, hi, i, hs, hf => by
    unfold bsearch
    by_cases hlt : lo < hi
    · rw [if_pos hlt]
      have hmid : lo ≤ lo + (hi - lo) / 2 ∧ lo + (hi - lo) / 2 < hi := by omega
      generalize lo + (hi - lo) / 2 = mid at hmid
      simp only
      by_cases heq : key mid = k
      · rw [if_pos heq, Option.some.injEq]
        constructor
        · rintro rfl
          exact ⟨hmid.1, hmid.2, heq⟩
        · rintro ⟨h1, h2, h3⟩
          rcases Nat.lt_trichotomy mid i with h | h | h
          · exact absurd (h3.trans heq.symm) (hs mid i hmid.1 h h2).ne'
          · exact h
          · exact absurd (h3.trans heq.symm) (hs i mid h1 h hmid.2).ne
      · rw [if_neg heq]
        by_cases hk : key mid < k
        · rw [if_pos hk, bsearch_eq_some_iff (hs.sub (by omega) le_rfl) (by omega)]
          refine ⟨fun ⟨h1, h2, h3⟩ => ⟨by omega, h2, h3⟩, fun ⟨h1, h2, h3⟩ => ⟨?_, h2, h3⟩⟩
          -- a hit left of `mid` would have a key below `key mid < k`
          by_contra hc
          rcases Nat.lt_or_ge i mid with h | h
          · exact absurd ((hs i mid h1 h hmid.2).trans hk) (by rw [h3]; exact lt_irrefl k)
          · have : i = mid := by omega
            subst this
            exact heq h3
        · have hk' : k < key mid := lt_of_le_of_ne (not_lt.mp hk) (Ne.symm heq)
          rw [if_neg hk, bsearch_eq_some_iff (hs.sub le_rfl (by omega)) (by omega)]
          refine ⟨fun ⟨h1, h2, h3⟩ => ⟨h1, by omega, h3⟩, fun ⟨h1, h2, h3⟩ => ⟨h1, ?_, h3⟩⟩
          by_contra hc
          rcases Nat.lt_or_ge mid i with h | h
          · exact absurd (hk'.trans (hs mid i hmid.1 h h2)) (by rw [h3]; exact lt_irrefl k)
          · have : i = mid := by omega
            subst this
            exact heq h3
    · rw [if_neg hlt]
      simp only [reduceCtorEq, false_iff]
      omega

theorem bsearch_isSome_iff {key : ℕ → κ} {k : κ} {f lo hi : ℕ} (hs : StrictOn key lo hi)
    (hf : hi - lo ≤ f) :
    (bsearch key k f lo hi).isSome = true ↔ ∃ i, lo ≤ i ∧ i < hi ∧ key i = k := by
  rw [Option.isSome_iff_exists]
  exact exists_congr fun i => bsearch_eq_some_iff hs hf

end Search

section Compact

variable {α : Type*} {κ : Type*} [DecidableEq κ]

/-- One pass over a sorted array: a slot whose key equals the last kept one is merged into it,
any other is kept.  `merge kept next` says which of the two survives. -/
def compactFrom (key : α → κ) (merge : α → α → α) (cur : α) : List α → List α
  | [] => [cur]
  | x :: xs =>
    if key x = key cur then compactFrom key merge (merge cur x) xs
    else cur :: compactFrom key merge x xs

def compact (key : α → κ) (merge : α → α → α) : List α → List α
  | [] => []
  | x :: xs => compactFrom key merge x xs

variable {key : α → κ} {merge : α → α → α}

/-- Nothing is merged when all keys differ. -/
theorem compactFrom_eq_self : ∀ {cur : α} {l : List α},
    (cur :: l).Pairwise (fun a b => key a ≠ key b) → compactFrom key merge cur l = cur :: l
  | _, [], _ => rfl
  | cur, x :: xs, h => by
    obtain ⟨h1, h2⟩ := List.pairwise_cons.mp h
    unfold compactFrom
    rw [if_neg (fun he => h1 x (by simp) he.symm), compactFrom_eq_self h2]

theorem compact_eq_self {l : List α} (h : l.Pairwise (fun a b => key a ≠ key b)) :
    compact key merge l = l := by
  cases l with
  | nil => rfl
  | cons x xs => exact compactFrom_eq_self h

theorem mem_compactFrom_id [DecidableEq α] : ∀ {cur a : α} {l : List α},
    a ∈ compactFrom id (fun c _ => c) cur l ↔ a = cur ∨ a ∈ l
  | cur, a, [] => by simp [compactFrom]
  | cur, a, x :: xs => by
    unfold compactFrom
    by_cases h : id x = id cur
    · rw [if_pos h, mem_compactFrom_id, List.mem_cons]
      have hx : x = cur := h
      subst hx
      tauto
    · rw [if_neg h, List.mem_cons, mem_compactFrom_id, List.mem_cons]

/-- With whole elements as keys the pass keeps the set of elements. -/
theorem mem_compact_id [DecidableEq α] {a : α} {l : List α} :
    a ∈ compact id (fun c _ => c) l ↔ a ∈ l := by
  cases l with
  | nil => simp [compact]
  | cons x xs => rw [compact, mem_compactFrom_id, List.mem_cons]

theorem compactFrom_pairwise_lt {β : Type*} [LinearOrder β] : ∀ {cur : β} {l : List β},
    (cur :: l).Pairwise (· ≤ ·) → (compactFrom id (fun c _ => c) cur l).Pairwise (· < ·)
  | _, [], _ => by simp [compactFrom]
  | cur, x :: xs, h => by
    obtain ⟨h1, h2⟩ := List.pairwise_cons.mp h
    unfold compactFrom
    by_cases hx : id x = id cur
    · rw [if_pos hx]
      exact compactFrom_pairwise_lt (List.pairwise_cons.mpr
        ⟨fun y hy => h1 y (by simp [hy]), (List.pairwise_cons.mp h2).2⟩)
    · rw [if_neg hx, List.pairwise_cons]
      refine ⟨fun y hy => ?_, compactFrom_pairwise_lt h2⟩
      have hlt : cur < x := lt_of_le_of_ne (h1 x (by simp)) (fun he => hx he.symm)
      rcases mem_compactFrom_id.mp hy with rfl | hy
      · exact hlt
      · exact hlt.trans_le ((List.pairwise_cons.mp h2).1 y hy)

/-- A sorted array comes out strictly increasing. -/
theorem compact_pairwise_lt {β : Type*} [LinearOrder β] {l : List β}
    (h : l.Pairwise (· ≤ ·)) : (compact id (fun c _ => c) l).Pairwise (· < ·) := by
  cases l with
  | nil => simp [compact]
  | cons x xs => exact compactFrom_pairwise_lt h

end Compact

end FluxRs.Lib
