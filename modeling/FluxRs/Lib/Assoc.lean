import Mathlib.Data.String.Basic

/-!
# FluxRs.Lib.Assoc — members of an object under their keys

Ordered members with a text as key, as the libraries for JSON and TOML keep them.  A key is looked up at
its first occurrence; `set` keeps the place of a key that is there.
-/

namespace FluxRs.Lib

namespace Assoc

variable {β γ : Type}

def get (key : String) : List (String × β) → Option β
  | [] => none
  | (k, v) :: rest => if k = key then some v else get key rest

/-- The value of a key that is there is replaced in its place, any other is appended. -/
def set (key : String) (v : β) : List (String × β) → List (String × β)
  | [] => [(key, v)]
  | (k, old) :: rest => if k = key then (k, v) :: rest else (k, old) :: set key v rest

def remove (key : String) : List (String × β) → List (String × β)
  | [] => []
  | (k, v) :: rest => if k = key then remove key rest else (k, v) :: remove key rest

/-- Members in the order of their keys; of equal keys the new one stands first. -/
def insertSorted (key : String) (v : β) : List (String × β) → List (String × β)
  | [] => [(key, v)]
  | (k, w) :: rest => if key ≤ k then (key, v) :: (k, w) :: rest else (k, w) :: insertSorted key v rest

@[simp] theorem get_nil (key : String) : get key ([] : List (String × β)) = none := rfl

@[simp] theorem get_cons_self (key : String) (v : β) (rest : List (String × β)) :
    get key ((key, v) :: rest) = some v := if_pos rfl

theorem get_cons_ne {key k : String} (h : k ≠ key) (v : β) (rest : List (String × β)) :
    get key ((k, v) :: rest) = get key rest := if_neg h

theorem get_set_self (key : String) (v : β) (l : List (String × β)) : get key (set key v l) = some v := by
  induction l with
  | nil => exact get_cons_self key v []
  | cons first rest ih =>
    obtain ⟨k, old⟩ := first
    by_cases hk : k = key
    · rw [set, if_pos hk, hk, get_cons_self]
    · rw [set, if_neg hk, get_cons_ne hk, ih]

theorem get_set_ne {key other : String} (h : other ≠ key) (v : β) (l : List (String × β)) :
    get other (set key v l) = get other l := by
  induction l with
  | nil => exact get_cons_ne h.symm v []
  | cons first rest ih =>
    obtain ⟨k, old⟩ := first
    by_cases hk : k = key
    · subst hk
      rw [set, if_pos rfl, get_cons_ne h.symm, get_cons_ne h.symm]
    · rw [set, if_neg hk]
      by_cases ho : k = other
      · rw [ho, get_cons_self, get_cons_self]
      · rw [get_cons_ne ho, get_cons_ne ho, ih]

theorem set_set (key : String) (v w : β) (l : List (String × β)) : set key w (set key v l) = set key w l := by
  induction l with
  | nil => exact if_pos rfl
  | cons first rest ih =>
    obtain ⟨k, old⟩ := first
    by_cases hk : k = key
    · rw [set, if_pos hk, set, if_pos hk, set, if_pos hk]
    · rw [set, if_neg hk, set, if_neg hk, set, if_neg hk, ih]

/-- Writing back what is there changes nothing. -/
theorem set_of_get {key : String} {v : β} {l : List (String × β)} (h : get key l = some v) :
    set key v l = l := by
  induction l with
  | nil => cases h
  | cons first rest ih =>
    obtain ⟨k, old⟩ := first
    by_cases hk : k = key
    · subst hk
      rw [get_cons_self] at h
      rw [set, if_pos rfl, Option.some.inj h]
    · rw [get_cons_ne hk] at h
      rw [set, if_neg hk, ih h]

theorem get_remove_self (key : String) (l : List (String × β)) : get key (remove key l) = none := by
  induction l with
  | nil => rfl
  | cons first rest ih =>
    obtain ⟨k, v⟩ := first
    by_cases hk : k = key
    · rw [remove, if_pos hk, ih]
    · rw [remove, if_neg hk, get_cons_ne hk, ih]

theorem get_remove_ne {key other : String} (h : other ≠ key) (l : List (String × β)) :
    get other (remove key l) = get other l := by
  induction l with
  | nil => rfl
  | cons first rest ih =>
    obtain ⟨k, v⟩ := first
    by_cases hk : k = key
    · subst hk
      rw [remove, if_pos rfl, get_cons_ne h.symm, ih]
    · rw [remove, if_neg hk]
      by_cases ho : k = other
      · rw [ho, get_cons_self, get_cons_self]
      · rw [get_cons_ne ho, get_cons_ne ho, ih]

theorem get_append_self {key : String} {l : List (String × β)} (h : get key l = none) (v : β) :
    get key (l ++ [(key, v)]) = some v := by
  induction l with
  | nil => exact get_cons_self key v []
  | cons first rest ih =>
    obtain ⟨k, w⟩ := first
    by_cases hk : k = key
    · rw [hk, get_cons_self] at h
      cases h
    · rw [get_cons_ne hk] at h
      rw [List.cons_append, get_cons_ne hk, ih h]

theorem get_append_ne {key other : String} (h : other ≠ key) (l : List (String × β)) (v : β) :
    get other (l ++ [(key, v)]) = get other l := by
  induction l with
  | nil => exact get_cons_ne h.symm v []
  | cons first rest ih =>
    obtain ⟨k, w⟩ := first
    rw [List.cons_append]
    by_cases ho : k = other
    · rw [ho, get_cons_self, get_cons_self]
    · rw [get_cons_ne ho, get_cons_ne ho, ih]

theorem get_insertSorted_self (key : String) (v : β) (l : List (String × β)) :
    get key (insertSorted key v l) = some v := by
  induction l with
  | nil => exact get_cons_self key v []
  | cons first rest ih =>
    obtain ⟨k, w⟩ := first
    unfold insertSorted
    by_cases hle : key ≤ k
    · rw [if_pos hle, get_cons_self]
    · have hk : k ≠ key := by
        rintro rfl
        exact hle le_rfl
      rw [if_neg hle, get_cons_ne hk, ih]

theorem get_insertSorted_ne {key other : String} (h : other ≠ key) (v : β) (l : List (String × β)) :
    get other (insertSorted key v l) = get other l := by
  induction l with
  | nil => exact get_cons_ne h.symm v []
  | cons first rest ih =>
    obtain ⟨k, w⟩ := first
    unfold insertSorted
    by_cases hle : key ≤ k
    · rw [if_pos hle, get_cons_ne h.symm]
    · rw [if_neg hle]
      by_cases ho : k = other
      · rw [ho, get_cons_self, get_cons_self]
      · rw [get_cons_ne ho, get_cons_ne ho, ih]

theorem mem_of_get {key : String} {v : β} {l : List (String × β)} (h : get key l = some v) :
    (key, v) ∈ l := by
  induction l with
  | nil => cases h
  | cons first rest ih =>
    obtain ⟨k, w⟩ := first
    by_cases hk : k = key
    · subst hk
      rw [get_cons_self] at h
      rw [Option.some.inj h]
      exact List.mem_cons_self
    · rw [get_cons_ne hk] at h
      exact List.mem_cons_of_mem _ (ih h)

end Assoc

end FluxRs.Lib
