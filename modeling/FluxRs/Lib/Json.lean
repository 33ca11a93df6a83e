import FluxRs.Lib.Assoc

/-!
# FluxRs.Lib.Json — values of a JSON document

The values of a document as a tree, the accessors, and the objects that occur in it at any depth.  An
object is the list of its members; a key is looked up at its first occurrence.
-/

namespace FluxRs.Lib

inductive Json where
  | null
  | bool (b : Bool)
  | number (text : String)
  | str (s : String)
  | arr (items : List Json)
  | obj (members : List (String × Json))

namespace Json

abbrev Members := List (String × Json)

def asStr : Json → Option String
  | .str s => some s
  | _ => none

def asArray : Json → Option (List Json)
  | .arr items => some items
  | _ => none

def asObject : Json → Option Members
  | .obj members => some members
  | _ => none

/-- The value of a key, if it is a string. -/
def getStr (key : String) (members : Members) : Option String := (Assoc.get key members).bind asStr

/-! ### What occurs in a document -/

/-- The value occurs in the other one, at any depth. -/
inductive Occurs (v : Json) : Json → Prop
  | here : Occurs v v
  | item {items : List Json} {child : Json} : child ∈ items → Occurs v child → Occurs v (.arr items)
  | member {members : Members} {key : String} {child : Json} :
      (key, child) ∈ members → Occurs v child → Occurs v (.obj members)

mutual

/-- The objects of a document, an object before those inside it. -/
def objects : Json → List Members
  | .obj members => members :: objectsOfMembers members
  | .arr items => objectsOfItems items
  | _ => []

def objectsOfItems : List Json → List Members
  | [] => []
  | child :: rest => objects child ++ objectsOfItems rest

def objectsOfMembers : Members → List Members
  | [] => []
  | (_, child) :: rest => objects child ++ objectsOfMembers rest

end

theorem objects_subset_items {child : Json} {m : Members} (hm : m ∈ objects child) :
    ∀ {items : List Json}, child ∈ items → m ∈ objectsOfItems items
  | first :: rest, h => by
    rw [objectsOfItems, List.mem_append]
    rcases List.mem_cons.mp h with rfl | h
    · exact .inl hm
    · exact .inr (objects_subset_items hm h)

theorem objects_subset_members {child : Json} {m : Members} (hm : m ∈ objects child) {key : String} :
    ∀ {members : Members}, (key, child) ∈ members → m ∈ objectsOfMembers members
  | (k, first) :: rest, h => by
    rw [objectsOfMembers, List.mem_append]
    rcases List.mem_cons.mp h with heq | h
    · cases heq
      exact .inl hm
    · exact .inr (objects_subset_members hm h)

/-- Every object that occurs is listed. -/
theorem mem_objects_of_occurs {m : Members} {v : Json} (h : Occurs (.obj m) v) : m ∈ objects v := by
  induction h with
  | here => exact List.mem_cons_self
  | item hin _ ih => exact objects_subset_items ih hin
  | member hin _ ih => exact List.mem_cons_of_mem _ (objects_subset_members ih hin)

mutual

/-- Every listed object occurs. -/
theorem occurs_of_mem_objects {m : Members} : ∀ {v : Json}, m ∈ objects v → Occurs (.obj m) v
  | .obj members, h => by
    rw [objects, List.mem_cons] at h
    rcases h with rfl | h
    · exact .here
    · obtain ⟨key, child, hin, hchild⟩ := occurs_of_mem_members h
      exact .member hin hchild
  | .arr items, h => by
    rw [objects] at h
    obtain ⟨child, hin, hchild⟩ := occurs_of_mem_items h
    exact .item hin hchild
  | .null, h => by simp [objects] at h
  | .bool _, h => by simp [objects] at h
  | .number _, h => by simp [objects] at h
  | .str _, h => by simp [objects] at h

theorem occurs_of_mem_items {m : Members} :
    ∀ {items : List Json}, m ∈ objectsOfItems items → ∃ child ∈ items, Occurs (.obj m) child
  | [], h => by simp [objectsOfItems] at h
  | child :: rest, h => by
    rw [objectsOfItems, List.mem_append] at h
    rcases h with h | h
    · exact ⟨child, List.mem_cons_self, occurs_of_mem_objects h⟩
    · obtain ⟨other, hin, hother⟩ := occurs_of_mem_items h
      exact ⟨other, List.mem_cons_of_mem _ hin, hother⟩

theorem occurs_of_mem_members {m : Members} :
    ∀ {members : Members}, m ∈ objectsOfMembers members → ∃ key child, (key, child) ∈ members ∧ Occurs (.obj m) child
  | [], h => by simp [objectsOfMembers] at h
  | (key, child) :: rest, h => by
    rw [objectsOfMembers, List.mem_append] at h
    rcases h with h | h
    · exact ⟨key, child, List.mem_cons_self, occurs_of_mem_objects h⟩
    · obtain ⟨other, value, hin, hvalue⟩ := occurs_of_mem_members h
      exact ⟨other, value, List.mem_cons_of_mem _ hin, hvalue⟩

end

theorem mem_objects_iff {m : Members} {v : Json} : m ∈ objects v ↔ Occurs (.obj m) v :=
  ⟨occurs_of_mem_objects, mem_objects_of_occurs⟩

theorem objectsOfItems_map_str (texts : List String) : objectsOfItems (texts.map .str) = [] := by
  induction texts with
  | nil => rfl
  | cons text rest ih =>
    have hstr : objects (.str text) = [] := by simp [objects]
    rw [List.map_cons, objectsOfItems, hstr, ih, List.nil_append]

/-- What a written member adds are the objects of its value. -/
theorem mem_objectsOfMembers_set {m : Members} {key : String} {v : Json} {members : Members}
    (h : m ∈ objectsOfMembers (Assoc.set key v members)) : m ∈ objects v ∨ m ∈ objectsOfMembers members := by
  induction members with
  | nil =>
    rw [Assoc.set, objectsOfMembers, objectsOfMembers, List.append_nil] at h
    exact .inl h
  | cons first rest ih =>
    obtain ⟨k, old⟩ := first
    rw [objectsOfMembers, List.mem_append]
    by_cases hk : k = key
    · rw [Assoc.set, if_pos hk, objectsOfMembers, List.mem_append] at h
      exact h.imp_right .inr
    · rw [Assoc.set, if_neg hk, objectsOfMembers, List.mem_append] at h
      rcases h with h | h
      · exact .inr (.inl h)
      · exact (ih h).imp_right .inr

/-- Where no object of the old members is selected, those of the new value are. -/
theorem filter_objectsOfMembers_set {p : Members → Bool} {key : String} {v : Json} {members : Members}
    (h : ∀ m ∈ objectsOfMembers members, p m = false) :
    (objectsOfMembers (Assoc.set key v members)).filter p = (objects v).filter p := by
  induction members with
  | nil => rw [Assoc.set, objectsOfMembers, objectsOfMembers, List.append_nil]
  | cons first rest ih =>
    obtain ⟨k, old⟩ := first
    simp only [objectsOfMembers, List.mem_append] at h
    have hold : (objects old).filter p = [] :=
      List.filter_eq_nil_iff.mpr fun m hm => by rw [h m (.inl hm)]; exact Bool.false_ne_true
    have hrest : (objectsOfMembers rest).filter p = [] :=
      List.filter_eq_nil_iff.mpr fun m hm => by rw [h m (.inr hm)]; exact Bool.false_ne_true
    by_cases hk : k = key
    · rw [Assoc.set, if_pos hk, objectsOfMembers, List.filter_append, hrest, List.append_nil]
    · rw [Assoc.set, if_neg hk, objectsOfMembers, List.filter_append, hold, List.nil_append]
      exact ih fun m hm => h m (.inr hm)

end Json

end FluxRs.Lib
