import Mathlib.Data.Rat.Defs
import FluxRs.Lib.Assoc

/-!
# FluxRs.Lib.Toml — TOML documents and the values they mean

An editable document keeps, at every node, the formatting the library attaches to it, and tells inline
tables from tables.  Its value forgets both.  Values compare as numbers do: NaN equals nothing.
-/

namespace FluxRs.Lib

inductive TomlFloat where
  | nan
  | inf (negative : Bool)
  | finite (q : ℚ)
  deriving DecidableEq

inductive TomlScalar where
  | str (s : String)
  | int (n : ℤ)
  | float (x : TomlFloat)
  | bool (b : Bool)
  | datetime (text : String)
  deriving DecidableEq

/-! ### Values -/

/-- A parsed value; the members of a table in the order of their keys. -/
inductive TomlValue where
  | scalar (s : TomlScalar)
  | array (items : List TomlValue)
  | table (members : List (String × TomlValue))

namespace TomlValue

def str (s : String) : TomlValue := .scalar (.str s)

/-- The value at a path of keys. -/
def lookup : List String → TomlValue → Option TomlValue
  | [], v => some v
  | key :: rest, .table members => (Assoc.get key members).bind (lookup rest)
  | _ :: _, _ => none

theorem lookup_cons_some {key : String} {rest : List String} {v w : TomlValue}
    (h : lookup (key :: rest) v = some w) :
    ∃ members u, v = .table members ∧ Assoc.get key members = some u ∧ lookup rest u = some w := by
  cases v with
  | table members =>
    obtain ⟨u, hu, hw⟩ := Option.bind_eq_some_iff.mp h
    exact ⟨members, u, rfl, hu, hw⟩
  | _ => cases h

mutual

/-- `PartialEq`. -/
def eqv : TomlValue → TomlValue → Bool
  | .scalar s, .scalar s' => decide (s = s' ∧ s ≠ .float .nan)
  | .array items, .array items' => eqvItems items items'
  | .table members, .table members' => eqvMembers members members'
  | _, _ => false

def eqvItems : List TomlValue → List TomlValue → Bool
  | [], [] => true
  | v :: rest, v' :: rest' => eqv v v' && eqvItems rest rest'
  | _, _ => false

def eqvMembers : List (String × TomlValue) → List (String × TomlValue) → Bool
  | [], [] => true
  | (k, v) :: rest, (k', v') :: rest' => k == k' && eqv v v' && eqvMembers rest rest'
  | _, _ => false

end

mutual

/-- Equal values are the same value. -/
theorem eq_of_eqv : ∀ {v v' : TomlValue}, eqv v v' = true → v = v'
  | .scalar s, v', h => by
    cases v' with
    | scalar s' => rw [(of_decide_eq_true h).1]
    | _ => cases h
  | .array items, v', h => by
    cases v' with
    | array items' => rw [eq_of_eqvItems h]
    | _ => cases h
  | .table members, v', h => by
    cases v' with
    | table members' => rw [eq_of_eqvMembers h]
    | _ => cases h

theorem eq_of_eqvItems : ∀ {l l' : List TomlValue}, eqvItems l l' = true → l = l'
  | [], l', h => by
    cases l' with
    | nil => rfl
    | cons => cases h
  | v :: rest, l', h => by
    cases l' with
    | nil => cases h
    | cons v' rest' =>
      obtain ⟨h₁, h₂⟩ := Bool.and_eq_true_iff.mp h
      rw [eq_of_eqv h₁, eq_of_eqvItems h₂]

theorem eq_of_eqvMembers : ∀ {l l' : List (String × TomlValue)}, eqvMembers l l' = true → l = l'
  | [], l', h => by
    cases l' with
    | nil => rfl
    | cons => cases h
  | (k, v) :: rest, l', h => by
    cases l' with
    | nil => cases h
    | cons first rest' =>
      obtain ⟨h₁, h₂⟩ := Bool.and_eq_true_iff.mp h
      obtain ⟨hk, hv⟩ := Bool.and_eq_true_iff.mp h₁
      rw [eq_of_beq hk, eq_of_eqv hv, eq_of_eqvMembers h₂]

end

theorem eqvMembers_insertSorted (key : String) (v : TomlValue) (l : List (String × TomlValue)) :
    eqvMembers (Assoc.insertSorted key v l) (Assoc.insertSorted key v l) = (eqv v v && eqvMembers l l) := by
  induction l with
  | nil => simp only [Assoc.insertSorted, eqvMembers, beq_self_eq_true, Bool.true_and]
  | cons first rest ih =>
    obtain ⟨k, w⟩ := first
    rw [Assoc.insertSorted]
    by_cases hle : key ≤ k
    · simp only [if_pos hle, eqvMembers, beq_self_eq_true, Bool.true_and]
    · simp only [if_neg hle, eqvMembers, beq_self_eq_true, Bool.true_and, ih]
      exact Bool.and_left_comm _ _ _

end TomlValue

/-! ### Documents -/

inductive Toml (α : Type) where
  | scalar (decor : α) (s : TomlScalar)
  | array (decor : α) (items : List (Toml α))
  | inline (decor : α) (members : List (String × Toml α))
  | table (decor : α) (members : List (String × Toml α))
  /-- An array of tables. -/
  | tables (decor : α) (items : List (Toml α))

/-- The members of a table. -/
abbrev TomlMembers (α : Type) := List (String × Toml α)

namespace Toml

variable {α : Type}

mutual

def value : Toml α → TomlValue
  | .scalar _ s => .scalar s
  | .array _ items => .array (valueItems items)
  | .inline _ members => .table (valueMembers members)
  | .table _ members => .table (valueMembers members)
  | .tables _ items => .array (valueItems items)

def valueItems : List (Toml α) → List TomlValue
  | [] => []
  | v :: rest => value v :: valueItems rest

def valueMembers : List (String × Toml α) → List (String × TomlValue)
  | [] => []
  | (k, v) :: rest => Assoc.insertSorted k (value v) (valueMembers rest)

end

/-- The value of a key is what the key means in the document. -/
theorem get_valueMembers (key : String) (members : TomlMembers α) :
    Assoc.get key (valueMembers members) = (Assoc.get key members).map value := by
  induction members with
  | nil => rfl
  | cons first rest ih =>
    obtain ⟨k, v⟩ := first
    rw [valueMembers]
    by_cases hk : k = key
    · rw [hk, Assoc.get_insertSorted_self, Assoc.get_cons_self]
      rfl
    · rw [Assoc.get_insertSorted_ne (Ne.symm hk), Assoc.get_cons_ne hk, ih]

/-- The value at a path, in the members of a table. -/
def lookupIn (members : TomlMembers α) (path : List String) : Option TomlValue :=
  TomlValue.lookup path (.table (valueMembers members))

theorem lookupIn_cons (members : TomlMembers α) (key : String) (rest : List String) :
    lookupIn members (key :: rest) =
      (Assoc.get key members).bind fun v => TomlValue.lookup rest v.value := by
  rw [lookupIn, TomlValue.lookup, get_valueMembers, Option.bind_map]
  rfl

@[simp] theorem lookupIn_nil_cons (key : String) (rest : List String) :
    lookupIn ([] : TomlMembers α) (key :: rest) = none := rfl

theorem lookupIn_single (members : TomlMembers α) (key : String) :
    lookupIn members [key] = (Assoc.get key members).map value := by
  rw [lookupIn_cons]
  cases Assoc.get key members <;> rfl

theorem lookupIn_congr {members members' : TomlMembers α} {key : String}
    (h : Assoc.get key members' = Assoc.get key members) (rest : List String) :
    lookupIn members' (key :: rest) = lookupIn members (key :: rest) := by
  rw [lookupIn_cons, lookupIn_cons, h]

theorem lookupIn_of_table {members inner : TomlMembers α} {key : String} {d : α}
    (h : Assoc.get key members = some (.table d inner)) (rest : List String) :
    lookupIn members (key :: rest) = lookupIn inner rest := by
  rw [lookupIn_cons, h]
  rfl

/-- `as_str`. -/
def asStr : Toml α → Option String
  | .scalar _ (.str s) => some s
  | _ => none

/-- `as_table_like`. -/
def asTableLike : Toml α → Option (TomlMembers α)
  | .inline _ members => some members
  | .table _ members => some members
  | _ => none

theorem lookup_of_asTableLike {v : Toml α} {members : TomlMembers α} (h : v.asTableLike = some members)
    (path : List String) : TomlValue.lookup path v.value = lookupIn members path := by
  cases v with
  | inline d ms =>
    obtain rfl := Option.some.inj h
    rfl
  | table d ms =>
    obtain rfl := Option.some.inj h
    rfl
  | _ => cases h

/-- Another formatting at the root of a node. -/
def redecorate (f : α → α) : Toml α → Toml α
  | .scalar d s => .scalar (f d) s
  | .array d items => .array (f d) items
  | .inline d members => .inline (f d) members
  | .table d members => .table (f d) members
  | .tables d items => .tables (f d) items

@[simp] theorem value_redecorate (f : α → α) (v : Toml α) : (redecorate f v).value = v.value := by
  cases v <;> rfl

/-- `InlineTable::into_table` formats the members anew. -/
def redecorateMembers (f : α → α) (members : TomlMembers α) : TomlMembers α :=
  members.map fun m => (m.1, redecorate f m.2)

theorem get_redecorateMembers (f : α → α) (key : String) (members : TomlMembers α) :
    Assoc.get key (redecorateMembers f members) = (Assoc.get key members).map (redecorate f) := by
  induction members with
  | nil => rfl
  | cons first rest ih =>
    obtain ⟨k, v⟩ := first
    show Assoc.get key ((k, redecorate f v) :: redecorateMembers f rest) = _
    by_cases hk : k = key
    · rw [hk, Assoc.get_cons_self, Assoc.get_cons_self]
      rfl
    · rw [Assoc.get_cons_ne hk, Assoc.get_cons_ne hk, ih]

theorem lookupIn_redecorateMembers (f : α → α) (members : TomlMembers α) (key : String)
    (rest : List String) :
    lookupIn (redecorateMembers f members) (key :: rest) = lookupIn members (key :: rest) := by
  rw [lookupIn_cons, lookupIn_cons, get_redecorateMembers, Option.bind_map]
  congr 1
  funext v
  exact congrArg (TomlValue.lookup rest) (value_redecorate f v)

/-! ### What is left without the formatting -/

mutual

def bare : Toml α → Toml Unit
  | .scalar _ s => .scalar () s
  | .array _ items => .array () (bareItems items)
  | .inline _ members => .inline () (bareMembers members)
  | .table _ members => .table () (bareMembers members)
  | .tables _ items => .tables () (bareItems items)

def bareItems : List (Toml α) → List (Toml Unit)
  | [] => []
  | v :: rest => bare v :: bareItems rest

def bareMembers : TomlMembers α → TomlMembers Unit
  | [] => []
  | (k, v) :: rest => (k, bare v) :: bareMembers rest

end

mutual

theorem value_bare : ∀ v : Toml α, (bare v).value = v.value
  | .scalar _ _ => rfl
  | .array _ items => by rw [bare, value, value, valueItems_bare items]
  | .inline _ members => by rw [bare, value, value, valueMembers_bare members]
  | .table _ members => by rw [bare, value, value, valueMembers_bare members]
  | .tables _ items => by rw [bare, value, value, valueItems_bare items]

theorem valueItems_bare : ∀ items : List (Toml α), valueItems (bareItems items) = valueItems items
  | [] => rfl
  | v :: rest => by rw [bareItems, valueItems, valueItems, value_bare v, valueItems_bare rest]

theorem valueMembers_bare : ∀ members : TomlMembers α,
    valueMembers (bareMembers members) = valueMembers members
  | [] => rfl
  | (k, v) :: rest => by
    rw [bareMembers, valueMembers, valueMembers, value_bare v, valueMembers_bare rest]

end

theorem get_bareMembers (key : String) (members : TomlMembers α) :
    Assoc.get key (bareMembers members) = (Assoc.get key members).map bare := by
  induction members with
  | nil => rfl
  | cons first rest ih =>
    obtain ⟨k, v⟩ := first
    rw [bareMembers]
    by_cases hk : k = key
    · rw [hk, Assoc.get_cons_self, Assoc.get_cons_self]
      rfl
    · rw [Assoc.get_cons_ne hk, Assoc.get_cons_ne hk, ih]

section Alike

variable {β : Type} {members : TomlMembers α} {members' : TomlMembers β}

/-- Two tables that differ in their formatting only mean the same. -/
theorem valueMembers_of_bare (h : bareMembers members' = bareMembers members) :
    valueMembers members' = valueMembers members := by
  rw [← valueMembers_bare members', h, valueMembers_bare]

theorem lookupIn_of_bare (h : bareMembers members' = bareMembers members) (path : List String) :
    lookupIn members' path = lookupIn members path := by
  rw [lookupIn, valueMembers_of_bare h]
  rfl

theorem get_of_bare (h : bareMembers members' = bareMembers members) (key : String) :
    (Assoc.get key members').map bare = (Assoc.get key members).map bare := by
  rw [← get_bareMembers, h, get_bareMembers]

theorem table_of_bare (h : bareMembers members' = bareMembers members) {key : String} {d : α}
    {inner : TomlMembers α} (hget : Assoc.get key members = some (.table d inner)) :
    ∃ d' inner', Assoc.get key members' = some (.table d' inner') ∧
      bareMembers inner' = bareMembers inner := by
  have hmap := get_of_bare h key
  rw [hget] at hmap
  obtain ⟨v, hv, hbare⟩ := Option.map_eq_some_iff.mp hmap
  cases v with
  | table d' inner' =>
    simp only [bare, Toml.table.injEq, true_and] at hbare
    exact ⟨d', inner', hv, hbare⟩
  | _ => simp only [bare, reduceCtorEq] at hbare

end Alike

/-! ### Documents that can be written -/

/-- `Value`, as opposed to `Item`. -/
def isValue : Toml α → Bool
  | .scalar _ _ | .array _ _ | .inline _ _ => true
  | .table _ _ | .tables _ _ => false

def isTable : Toml α → Bool
  | .table _ _ => true
  | _ => false

section WellFormed

-- The scalars a document can hold.
variable (ok : TomlScalar → Bool)

mutual

/-- Keys are distinct, and there are no tables inside a value. -/
def wf : Toml α → Bool
  | .scalar _ s => ok s
  | .array _ items => items.all isValue && wfItems items
  | .inline _ members => (members.all fun m => m.2.isValue) && wfMembers members
  | .table _ members => wfMembers members
  | .tables _ items => items.all isTable && wfItems items

def wfItems : List (Toml α) → Bool
  | [] => true
  | v :: rest => wf v && wfItems rest

def wfMembers : TomlMembers α → Bool
  | [] => true
  | (k, v) :: rest => (Assoc.get k rest).isNone && wf v && wfMembers rest

end

variable {ok} {members : TomlMembers α} {key : String} {v : Toml α}

theorem wfMembers_cons {k : String} : wfMembers ok ((k, v) :: members) = true ↔
    Assoc.get k members = none ∧ wf ok v = true ∧ wfMembers ok members = true := by
  rw [wfMembers, Bool.and_eq_true, Bool.and_eq_true, Option.isNone_iff_eq_none, and_assoc]

theorem wf_of_get (h : wfMembers ok members = true) (hget : Assoc.get key members = some v) :
    wf ok v = true := by
  induction members with
  | nil => cases hget
  | cons first rest ih =>
    obtain ⟨k, w⟩ := first
    obtain ⟨-, hw, hrest⟩ := wfMembers_cons.mp h
    by_cases hk : k = key
    · rw [hk, Assoc.get_cons_self] at hget
      rwa [← Option.some.inj hget]
    · rw [Assoc.get_cons_ne hk] at hget
      exact ih hrest hget

/-- Under distinct keys, a member is what its key means. -/
theorem get_of_mem (h : wfMembers ok members = true) (hm : (key, v) ∈ members) :
    Assoc.get key members = some v := by
  induction members with
  | nil => cases hm
  | cons first rest ih =>
    obtain ⟨k, w⟩ := first
    obtain ⟨hnew, -, hrest⟩ := wfMembers_cons.mp h
    rcases List.mem_cons.mp hm with heq | hm
    · cases heq
      exact Assoc.get_cons_self key v rest
    · have hget := ih hrest hm
      have hk : k ≠ key := by
        rintro rfl
        rw [hget] at hnew
        cases hnew
      rw [Assoc.get_cons_ne hk, hget]

/-- A table without NaN equals itself. -/
theorem eqv_table (h : wfMembers ok members = true)
    (hvalues : ∀ key v, Assoc.get key members = some v → v.value.eqv v.value = true) :
    (TomlValue.table (valueMembers members)).eqv (.table (valueMembers members)) = true := by
  show TomlValue.eqvMembers (valueMembers members) (valueMembers members) = true
  induction members with
  | nil => rfl
  | cons first rest ih =>
    obtain ⟨k, w⟩ := first
    obtain ⟨hnew, -, hrest⟩ := wfMembers_cons.mp h
    rw [valueMembers, TomlValue.eqvMembers_insertSorted, Bool.and_eq_true]
    refine ⟨hvalues k w (Assoc.get_cons_self k w rest), ih hrest fun key v hget => ?_⟩
    have hk : k ≠ key := by
      rintro rfl
      rw [hnew] at hget
      cases hget
    exact hvalues key v (by rw [Assoc.get_cons_ne hk, hget])

theorem wfMembers_append (h : wfMembers ok members = true) (hget : Assoc.get key members = none)
    (hv : wf ok v = true) : wfMembers ok (members ++ [(key, v)]) = true := by
  induction members with
  | nil => exact wfMembers_cons.mpr ⟨rfl, hv, rfl⟩
  | cons first rest ih =>
    obtain ⟨k, w⟩ := first
    obtain ⟨hnew, hw, hrest⟩ := wfMembers_cons.mp h
    have hk : k ≠ key := by
      rintro rfl
      rw [Assoc.get_cons_self] at hget
      cases hget
    rw [Assoc.get_cons_ne hk] at hget
    exact wfMembers_cons.mpr ⟨(Assoc.get_append_ne hk rest v).trans hnew, hw, ih hrest hget⟩

theorem wfMembers_set (h : wfMembers ok members = true) (hv : wf ok v = true) :
    wfMembers ok (Assoc.set key v members) = true := by
  induction members with
  | nil => exact wfMembers_cons.mpr ⟨rfl, hv, rfl⟩
  | cons first rest ih =>
    obtain ⟨k, w⟩ := first
    obtain ⟨hnew, hw, hrest⟩ := wfMembers_cons.mp h
    by_cases hk : k = key
    · rw [Assoc.set, if_pos hk]
      exact wfMembers_cons.mpr ⟨hnew, hv, hrest⟩
    · rw [Assoc.set, if_neg hk]
      exact wfMembers_cons.mpr ⟨by rw [Assoc.get_set_ne hk, hnew], hw, ih hrest⟩

theorem wfMembers_remove (h : wfMembers ok members = true) :
    wfMembers ok (Assoc.remove key members) = true := by
  induction members with
  | nil => rfl
  | cons first rest ih =>
    obtain ⟨k, w⟩ := first
    obtain ⟨hnew, hw, hrest⟩ := wfMembers_cons.mp h
    by_cases hk : k = key
    · rw [Assoc.remove, if_pos hk]
      exact ih hrest
    · rw [Assoc.remove, if_neg hk]
      exact wfMembers_cons.mpr ⟨by rw [Assoc.get_remove_ne hk, hnew], hw, ih hrest⟩

@[simp] theorem wf_redecorate (f : α → α) (v : Toml α) : wf ok (redecorate f v) = wf ok v := by
  cases v <;> rfl

theorem wfMembers_redecorate (f : α → α) (h : wfMembers ok members = true) :
    wfMembers ok (redecorateMembers f members) = true := by
  induction members with
  | nil => rfl
  | cons first rest ih =>
    obtain ⟨k, w⟩ := first
    obtain ⟨hnew, hw, hrest⟩ := wfMembers_cons.mp h
    have hget : Assoc.get k (redecorateMembers f rest) = none := by
      rw [get_redecorateMembers, hnew]
      rfl
    exact wfMembers_cons.mpr ⟨hget, (wf_redecorate f w).trans hw, ih hrest⟩

theorem wfItems_append {items : List (Toml α)} (h : wfItems ok items = true) (hv : wf ok v = true) :
    wfItems ok (items ++ [v]) = true := by
  induction items with
  | nil =>
    show (wf ok v && true) = true
    rw [hv]
    rfl
  | cons w rest ih =>
    obtain ⟨hw, hrest⟩ := Bool.and_eq_true_iff.mp h
    exact Bool.and_eq_true_iff.mpr ⟨hw, ih hrest⟩

end WellFormed

/-! ### Equality of documents -/

section Equality

variable [DecidableEq α]

mutual

def beq : Toml α → Toml α → Bool
  | .scalar d s, .scalar d' s' => decide (d = d') && decide (s = s')
  | .array d items, .array d' items' => decide (d = d') && beqItems items items'
  | .inline d members, .inline d' members' => decide (d = d') && beqMembers members members'
  | .table d members, .table d' members' => decide (d = d') && beqMembers members members'
  | .tables d items, .tables d' items' => decide (d = d') && beqItems items items'
  | _, _ => false

def beqItems : List (Toml α) → List (Toml α) → Bool
  | [], [] => true
  | v :: rest, v' :: rest' => beq v v' && beqItems rest rest'
  | _, _ => false

def beqMembers : List (String × Toml α) → List (String × Toml α) → Bool
  | [], [] => true
  | (k, v) :: rest, (k', v') :: rest' => k == k' && beq v v' && beqMembers rest rest'
  | _, _ => false

end

mutual

theorem eq_of_beq : ∀ {v v' : Toml α}, beq v v' = true → v = v'
  | .scalar d s, v', h => by
    cases v' <;> simp only [beq, Bool.and_eq_true, decide_eq_true_eq, Bool.false_eq_true] at h
    rw [h.1, h.2]
  | .array d items, v', h => by
    cases v' <;> simp only [beq, Bool.and_eq_true, decide_eq_true_eq, Bool.false_eq_true] at h
    rw [h.1, eq_of_beqItems h.2]
  | .inline d members, v', h => by
    cases v' <;> simp only [beq, Bool.and_eq_true, decide_eq_true_eq, Bool.false_eq_true] at h
    rw [h.1, eq_of_beqMembers h.2]
  | .table d members, v', h => by
    cases v' <;> simp only [beq, Bool.and_eq_true, decide_eq_true_eq, Bool.false_eq_true] at h
    rw [h.1, eq_of_beqMembers h.2]
  | .tables d items, v', h => by
    cases v' <;> simp only [beq, Bool.and_eq_true, decide_eq_true_eq, Bool.false_eq_true] at h
    rw [h.1, eq_of_beqItems h.2]

theorem eq_of_beqItems : ∀ {l l' : List (Toml α)}, beqItems l l' = true → l = l'
  | [], l', h => by
    cases l' with
    | nil => rfl
    | cons => cases h
  | v :: rest, l', h => by
    cases l' with
    | nil => cases h
    | cons v' rest' =>
      obtain ⟨h₁, h₂⟩ := Bool.and_eq_true_iff.mp h
      rw [eq_of_beq h₁, eq_of_beqItems h₂]

theorem eq_of_beqMembers : ∀ {l l' : List (String × Toml α)}, beqMembers l l' = true → l = l'
  | [], l', h => by
    cases l' with
    | nil => rfl
    | cons => cases h
  | (k, v) :: rest, l', h => by
    cases l' with
    | nil => cases h
    | cons first rest' =>
      obtain ⟨h₁, h₂⟩ := Bool.and_eq_true_iff.mp h
      obtain ⟨hk, hv⟩ := Bool.and_eq_true_iff.mp h₁
      rw [beq_iff_eq.mp hk, eq_of_beq hv, eq_of_beqMembers h₂]

end

mutual

theorem beq_self : ∀ v : Toml α, beq v v = true
  | .scalar _ _ => by simp only [beq, decide_true, Bool.and_self]
  | .array _ items => by simp only [beq, decide_true, Bool.true_and, beqItems_self items]
  | .inline _ members => by simp only [beq, decide_true, Bool.true_and, beqMembers_self members]
  | .table _ members => by simp only [beq, decide_true, Bool.true_and, beqMembers_self members]
  | .tables _ items => by simp only [beq, decide_true, Bool.true_and, beqItems_self items]

theorem beqItems_self : ∀ l : List (Toml α), beqItems l l = true
  | [] => rfl
  | v :: rest => by simp only [beqItems, beq_self v, beqItems_self rest, Bool.and_self]

theorem beqMembers_self : ∀ l : List (String × Toml α), beqMembers l l = true
  | [] => rfl
  | (_, v) :: rest => by
    simp only [beqMembers, beq_self_eq_true, beq_self v, beqMembers_self rest, Bool.and_self]

end

instance : DecidableEq (Toml α) := fun v v' =>
  decidable_of_iff (beq v v' = true) ⟨eq_of_beq, fun h => h ▸ beq_self v⟩

end Equality

end Toml

end FluxRs.Lib
