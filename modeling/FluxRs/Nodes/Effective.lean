import FluxRs.Nodes.Generate

/-!
# FluxRs.Nodes.Effective — the two inbounds that are injected

`build_effective` of `crates/flux-core/src/engine_config.rs`.  A document that is accepted carries no reserved
tag, so that the injected inbounds are the only objects that do.
-/

namespace FluxRs.Nodes

open FluxRs.Lib Json

/-! ### The injection -/

/-- What varies between the generations of an engine. -/
structure EngineParams where
  generation : ℕ
  portV4 : BitVec 16
  portV6 : BitVec 16

def inboundTagV4 : String := "flux-in-v4"

def inboundTagV6 : String := "flux-in-v6"

def reservedTags : List String := [inboundTagV4, inboundTagV6]

def injectedInbound (tag listen : String) (port : BitVec 16) : Members :=
  [("type", .str "tproxy"), ("tag", .str tag), ("listen", .str listen),
    ("listen_port", .number (toString port.toNat))]

def injectedV4 (params : EngineParams) : Members := injectedInbound inboundTagV4 "198.51.100.1" params.portV4

def injectedV6 (params : EngineParams) : Members := injectedInbound inboundTagV6 "2001:db8:0:1::2" params.portV6

def injectedInbounds (params : EngineParams) : Json := .arr [.obj (injectedV4 params), .obj (injectedV6 params)]

/-- A reserved tag of an object itself. -/
def reservedTagOf (object : Members) : Option String := (getStr "tag" object).filter (· ∈ reservedTags)

mutual

/-- `first_reserved_tag`. -/
def firstReservedTag : Json → Option String
  | .obj object => (reservedTagOf object).or (firstReservedOfMembers object)
  | .arr items => firstReservedOfItems items
  | _ => none

def firstReservedOfItems : List Json → Option String
  | [] => none
  | child :: rest => (firstReservedTag child).or (firstReservedOfItems rest)

def firstReservedOfMembers : Members → Option String
  | [] => none
  | (_, child) :: rest => (firstReservedTag child).or (firstReservedOfMembers rest)

end

/-- `build_effective`. -/
def buildEffective (user : Json) (params : EngineParams) : Except EngineConfigError Json :=
  match user.asObject with
  | none => .error .notAnObject
  | some object =>
    let effective : Except EngineConfigError Json :=
      match firstReservedTag user with
      | some tag => .error (.reservedTag tag)
      | none => .ok (.obj (Assoc.set "inbounds" (injectedInbounds params) object))
    match Assoc.get "inbounds" object with
    | none => effective
    | some (.arr []) => effective
    | some (.arr _) => .error .userSuppliedInbound
    | some _ => .error .inboundsNotArray

/-! ### The search for a reserved tag -/

def Reserved (object : Members) : Prop := ∃ tag ∈ reservedTags, getStr "tag" object = some tag

instance : DecidablePred Reserved := fun object =>
  inferInstanceAs (Decidable (∃ tag ∈ reservedTags, getStr "tag" object = some tag))

theorem reservedTagOf_eq_none_iff {object : Members} : reservedTagOf object = none ↔ ¬ Reserved object := by
  rw [reservedTagOf, Option.filter_eq_none_iff]
  constructor
  · rintro h ⟨tag, hin, htag⟩
    exact h tag htag (decide_eq_true hin)
  · intro h tag htag hin
    exact h ⟨tag, of_decide_eq_true hin, htag⟩

mutual

/-- The search misses no object. -/
theorem firstReservedTag_eq_none_iff :
    ∀ {v : Json}, firstReservedTag v = none ↔ ∀ object ∈ objects v, ¬ Reserved object
  | .obj object => by
    rw [firstReservedTag, Option.or_eq_none_iff, reservedTagOf_eq_none_iff, firstReservedOfMembers_eq_none_iff,
      objects, List.forall_mem_cons]
  | .arr items => by rw [firstReservedTag, firstReservedOfItems_eq_none_iff, objects]
  | .null => by simp [firstReservedTag, objects]
  | .bool _ => by simp [firstReservedTag, objects]
  | .number _ => by simp [firstReservedTag, objects]
  | .str _ => by simp [firstReservedTag, objects]

theorem firstReservedOfItems_eq_none_iff :
    ∀ {items : List Json}, firstReservedOfItems items = none ↔ ∀ object ∈ objectsOfItems items, ¬ Reserved object
  | [] => by simp [firstReservedOfItems, objectsOfItems]
  | child :: rest => by
    rw [firstReservedOfItems, Option.or_eq_none_iff, firstReservedTag_eq_none_iff, firstReservedOfItems_eq_none_iff,
      objectsOfItems, List.forall_mem_append]

theorem firstReservedOfMembers_eq_none_iff :
    ∀ {members : Members},
      firstReservedOfMembers members = none ↔ ∀ object ∈ objectsOfMembers members, ¬ Reserved object
  | [] => by simp [firstReservedOfMembers, objectsOfMembers]
  | (_, child) :: rest => by
    rw [firstReservedOfMembers, Option.or_eq_none_iff, firstReservedTag_eq_none_iff,
      firstReservedOfMembers_eq_none_iff, objectsOfMembers, List.forall_mem_append]

end

/-- No object of the document, at any depth, carries a reserved tag. -/
def ReservedFree (v : Json) : Prop := ∀ object, Occurs (.obj object) v → ¬ Reserved object

theorem firstReservedTag_eq_none {v : Json} : firstReservedTag v = none ↔ ReservedFree v := by
  rw [firstReservedTag_eq_none_iff]
  exact ⟨fun h object ho => h object (mem_objects_of_occurs ho), fun h object ho => h object (mem_objects_iff.mp ho)⟩

/-! ### The exact injection -/

/-- The document leaves the inbounds to the program. -/
def NoInbounds (object : Members) : Prop :=
  Assoc.get "inbounds" object = none ∨ Assoc.get "inbounds" object = some (.arr [])

theorem buildEffective_ok {user effective : Json} {params : EngineParams} :
    buildEffective user params = .ok effective ↔
      ∃ object, user = .obj object ∧ NoInbounds object ∧ ReservedFree user ∧
        effective = .obj (Assoc.set "inbounds" (injectedInbounds params) object) := by
  unfold NoInbounds
  rw [← firstReservedTag_eq_none]
  cases user with
  | obj object =>
    simp only [buildEffective, asObject, Json.obj.injEq, exists_eq_left']
    cases htag : firstReservedTag (.obj object) with
    | some tag =>
      simp only [reduceCtorEq, false_and, and_false, iff_false]
      intro h
      split at h <;> cases h
    | none =>
      cases hin : Assoc.get "inbounds" object with
      | none => simp [eq_comm]
      | some value =>
        rcases value with _ | _ | _ | _ | (_ | ⟨first, rest⟩) | _ <;> simp [eq_comm]
  | _ =>
    constructor
    · intro h
      cases h
    · rintro ⟨object, hobj, -⟩
      cases hobj

/-- The reserved objects of the result, each at its place. -/
theorem reserved_objects {object : Members} {params : EngineParams} (hfree : ReservedFree (.obj object)) :
    (objects (.obj (Assoc.set "inbounds" (injectedInbounds params) object))).filter (fun o => decide (Reserved o)) =
      [injectedV4 params, injectedV6 params] := by
  have hmember : ∀ o ∈ objectsOfMembers object, decide (Reserved o) = false := by
    intro o ho
    refine decide_eq_false (hfree o (mem_objects_iff.mp ?_))
    rw [objects]
    exact List.mem_cons_of_mem _ ho
  have hself : ¬ Reserved (Assoc.set "inbounds" (injectedInbounds params) object) := by
    have hsame : getStr "tag" (Assoc.set "inbounds" (injectedInbounds params) object) = getStr "tag" object := by
      rw [getStr, getStr, Assoc.get_set_ne (by decide)]
    unfold Reserved
    rw [hsame]
    exact hfree object .here
  have h4 : Reserved (injectedV4 params) := ⟨inboundTagV4, List.mem_cons_self, rfl⟩
  have h6 : Reserved (injectedV6 params) := ⟨inboundTagV6, List.mem_cons_of_mem _ List.mem_cons_self, rfl⟩
  rw [objects, List.filter_cons_of_neg (by simpa using hself), filter_objectsOfMembers_set hmember]
  show [injectedV4 params, injectedV6 params].filter (fun o => decide (Reserved o)) = _
  simp only [List.filter_cons, h4, h6, decide_true, if_true, List.filter_nil]

/-- **Injection is exact.**  It succeeds on the objects that leave the inbounds open and carry no reserved tag;
the result differs in the inbounds alone, and the two injected objects are all that carry a reserved tag. -/
theorem buildEffective_exact (user : Json) (params : EngineParams) :
    ((∃ effective, buildEffective user params = .ok effective) ↔
      ∃ object, user = .obj object ∧
        (Assoc.get "inbounds" object = none ∨ Assoc.get "inbounds" object = some (.arr [])) ∧
        ∀ inner, Occurs (.obj inner) user → ∀ tag ∈ ["flux-in-v4", "flux-in-v6"], getStr "tag" inner ≠ some tag) ∧
      ∀ effective, buildEffective user params = .ok effective →
        ∃ object result, user = .obj object ∧ effective = .obj result ∧
          (∀ key, key ≠ "inbounds" → Assoc.get key result = Assoc.get key object) ∧
          Assoc.get "inbounds" result = some (.arr
            [.obj [("type", .str "tproxy"), ("tag", .str "flux-in-v4"), ("listen", .str "198.51.100.1"),
                ("listen_port", .number (toString params.portV4.toNat))],
              .obj [("type", .str "tproxy"), ("tag", .str "flux-in-v6"), ("listen", .str "2001:db8:0:1::2"),
                ("listen_port", .number (toString params.portV6.toNat))]]) ∧
          ∃ v4 v6, (objects effective).filter (fun o => decide (Reserved o)) = [v4, v6] ∧
            getStr "tag" v4 = some "flux-in-v4" ∧ getStr "tag" v6 = some "flux-in-v6" := by
  constructor
  · simp only [buildEffective_ok]
    constructor
    · rintro ⟨_, object, rfl, hin, hfree, -⟩
      exact ⟨object, rfl, hin, fun inner ho tag hmem htag => hfree inner ho ⟨tag, hmem, htag⟩⟩
    · rintro ⟨object, rfl, hin, hfree⟩
      exact ⟨_, object, rfl, hin, fun inner ho ⟨tag, hmem, htag⟩ => hfree inner ho tag hmem htag, rfl⟩
  · intro effective h
    obtain ⟨object, rfl, -, hfree, rfl⟩ := buildEffective_ok.mp h
    refine ⟨object, _, rfl, rfl, ?_, Assoc.get_set_self _ _ _, injectedV4 params, injectedV6 params, ?_, rfl, rfl⟩
    · intro key hkey
      exact Assoc.get_set_ne hkey _ _
    · exact reserved_objects hfree

end FluxRs.Nodes
