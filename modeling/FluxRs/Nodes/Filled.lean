import FluxRs.Nodes.Generate
import Mathlib.Data.List.Forall2

/-!
# FluxRs.Nodes.Filled — generation is fill and append

What the loop of `generate_from_template` leaves of a template: every entry but an empty group as it stood, and
the nodes behind them.
-/

namespace FluxRs.Nodes

open FluxRs.Lib

/-! ### The abstract edit -/

/-- A selector or urltest with a tag and no members. -/
def EmptyGroup (entry : Json) (object : Json.Members) (tag : String) : Prop :=
  entry = .obj object ∧ (Json.getStr "type" object = some "selector" ∨ Json.getStr "type" object = some "urltest") ∧
    Json.getStr "tag" object = some tag ∧ Assoc.get "outbounds" object = some (.arr [])

/-- A node that has a name. -/
def Named (node : RefinedNode) : Prop :=
  ∃ object tag, node.outbound = .obj object ∧ Json.getStr "tag" object = some tag ∧ tag ≠ ""

/-- The tags a group takes, in the order of the nodes. -/
def takenTags (nodes : List RefinedNode) (tag : String) : List String :=
  if tag = "PROXY" ∨ tag = "GLOBAL" ∨ tag = "AUTO" then nodes.filterMap RefinedNode.tag
  else (nodes.filter fun node => tag ∈ node.groups).filterMap RefinedNode.tag

def filledMembers (nodes : List RefinedNode) (tag : String) : List String :=
  if takenTags nodes tag = [] then ["DIRECT"] else takenTags nodes tag

/-- An entry of the template and what becomes of it. -/
def Edited (nodes : List RefinedNode) (old new : Json) : Prop :=
  (∃ object tag, EmptyGroup old object tag ∧
      new = .obj (Assoc.set "outbounds" (.arr ((filledMembers nodes tag).map .str)) object)) ∨
    (∀ object tag, ¬ EmptyGroup old object tag) ∧ new = old

/-! ### The loop -/

theorem emptyGroup_eq_some_iff {entry : Json} {object : Json.Members} {tag : String} :
    emptyGroup entry = some (object, tag) ↔ EmptyGroup entry object tag := by
  unfold emptyGroup EmptyGroup
  cases entry with
  | obj members =>
    simp only [Json.asObject, Option.bind_some, Json.obj.injEq]
    by_cases hkind : Json.getStr "type" members ∈ [some "selector", some "urltest"]
    · rw [if_pos hkind]
      have hkind' : Json.getStr "type" members = some "selector" ∨ Json.getStr "type" members = some "urltest" := by
        simpa using hkind
      cases hout : Assoc.get "outbounds" members with
      | none =>
        simp only [Option.bind_none, reduceCtorEq, false_iff]
        rintro ⟨rfl, -, -, h⟩
        rw [hout] at h
        cases h
      | some value =>
        rcases value with _ | _ | _ | _ | (_ | ⟨first, rest⟩) | _ <;>
          simp only [Option.bind_some, Json.asArray, reduceCtorEq, false_iff]
        case arr.nil =>
          simp only [Option.map_eq_some_iff, Prod.mk.injEq]
          constructor
          · rintro ⟨t, ht, rfl, rfl⟩
            exact ⟨rfl, hkind', ht, hout⟩
          · rintro ⟨rfl, -, ht, -⟩
            exact ⟨tag, ht, rfl, rfl⟩
        all_goals
          rintro ⟨rfl, -, -, h⟩
          rw [hout] at h
          cases h
    · rw [if_neg hkind]
      simp only [reduceCtorEq, false_iff]
      rintro ⟨rfl, hk, -, -⟩
      exact hkind (by simpa using hk)
  | _ => simp [Json.asObject]

theorem emptyGroup_eq_none_iff {entry : Json} :
    emptyGroup entry = none ↔ ∀ object tag, ¬ EmptyGroup entry object tag := by
  rw [Option.eq_none_iff_forall_ne_some]
  constructor
  · intro h object tag he
    exact h (object, tag) (emptyGroup_eq_some_iff.mpr he)
  · rintro h ⟨object, tag⟩ he
    exact h object tag (emptyGroup_eq_some_iff.mp he)

theorem generationTag_eq_ok_iff {node : RefinedNode} {tag : String} :
    generationTag node = .ok tag ↔ node.tag = some tag ∧ tag ≠ "" := by
  unfold generationTag RefinedNode.tag
  cases node.outbound with
  | obj object =>
    simp only [Json.asObject, Option.bind_some]
    cases h : Json.getStr "tag" object with
    | none => simp
    | some t =>
      by_cases ht : t = ""
      · subst ht
        rw [Option.filter_some, if_neg (by simp)]
        constructor
        · intro h
          cases h
        · rintro ⟨heq, hne⟩
          exact absurd (Option.some.inj heq).symm hne
      · rw [Option.filter_some, if_pos (by simpa using ht)]
        simp only [Except.ok.injEq, Option.some.injEq]
        constructor
        · rintro rfl
          exact ⟨rfl, ht⟩
        · exact fun h => h.1
  | _ => simp [Json.asObject]

theorem named_iff {node : RefinedNode} : Named node ↔ ∃ tag, generationTag node = .ok tag := by
  simp only [generationTag_eq_ok_iff, RefinedNode.tag, Named]
  cases node.outbound with
  | obj object => simp [Json.asObject]
  | _ => simp [Json.asObject]

theorem generationTags_eq_ok_iff {nodes : List RefinedNode} {tags : List String} :
    generationTags nodes = .ok tags ↔ List.Forall₂ (fun node tag => generationTag node = .ok tag) nodes tags := by
  induction nodes generalizing tags with
  | nil => simp [generationTags, eq_comm]
  | cons node rest ih =>
    rw [generationTags]
    cases htag : generationTag node with
    | error error =>
      simp only [reduceCtorEq, false_iff]
      intro h
      cases h with
      | cons hhead _ => rw [htag] at hhead; cases hhead
    | ok tag =>
      cases htags : generationTags rest with
      | error error =>
        simp only [reduceCtorEq, false_iff]
        intro h
        cases h with
        | cons _ htail => rw [ih.mpr htail] at htags; cases htags
      | ok others =>
        simp only [Except.ok.injEq]
        constructor
        · rintro rfl
          exact .cons htag (ih.mp htags)
        · intro h
          cases h with
          | cons hhead htail =>
            rw [htag] at hhead
            rw [ih.mpr htail] at htags
            rw [Except.ok.inj hhead, Except.ok.inj htags]

/-- Every node is named, or the tags fail. -/
theorem generationTags_named {nodes : List RefinedNode} :
    (∃ tags, generationTags nodes = .ok tags) ↔ ∀ node ∈ nodes, Named node := by
  induction nodes with
  | nil => simp [generationTags]
  | cons node rest ih =>
    rw [List.forall_mem_cons, ← ih, named_iff]
    simp only [generationTags_eq_ok_iff]
    constructor
    · rintro ⟨_, h⟩
      cases h with
      | cons hhead htail => exact ⟨⟨_, hhead⟩, ⟨_, htail⟩⟩
    · rintro ⟨⟨tag, hhead⟩, ⟨tags, htail⟩⟩
      exact ⟨tag :: tags, .cons hhead htail⟩

theorem selected_tags {nodes : List RefinedNode} {tags : List String}
    (h : List.Forall₂ (fun node tag => generationTag node = .ok tag) nodes tags) (p : RefinedNode → Bool) :
    ((nodes.zip tags).filter fun node => p node.1).map (fun node => Json.str node.2) =
      ((nodes.filter p).filterMap RefinedNode.tag).map .str := by
  induction h with
  | nil => rfl
  | @cons node tag _ _ hhead _ ih =>
    have htag := (generationTag_eq_ok_iff.mp hhead).1
    rw [List.zip_cons_cons]
    cases hp : p node with
    | true =>
      rw [List.filter_cons_of_pos (by simpa using hp), List.filter_cons_of_pos (by simpa using hp), List.map_cons, ih,
        List.filterMap_cons_some htag, List.map_cons]
    | false =>
      rw [List.filter_cons_of_neg (by simp [hp]), List.filter_cons_of_neg (by simp [hp]), ih]

theorem groupMembers_eq {nodes : List RefinedNode} {tags : List String} (h : generationTags nodes = .ok tags)
    (tag : String) : groupMembers nodes tags tag = (filledMembers nodes tag).map .str := by
  have htags := generationTags_eq_ok_iff.mp h
  unfold groupMembers filledMembers
  have hselected : ((nodes.zip tags).filter fun node =>
      decide (tag ∈ ["PROXY", "GLOBAL", "AUTO"]) || decide (tag ∈ node.1.groups)).map (fun node => Json.str node.2) =
        (takenTags nodes tag).map .str := by
    unfold takenTags
    by_cases hall : tag = "PROXY" ∨ tag = "GLOBAL" ∨ tag = "AUTO"
    · have hin : tag ∈ ["PROXY", "GLOBAL", "AUTO"] := by simpa using hall
      simp only [hin, decide_true, Bool.true_or]
      rw [if_pos hall, selected_tags htags fun _ => true, List.filter_true]
    · have hin : tag ∉ ["PROXY", "GLOBAL", "AUTO"] := by simpa using hall
      simp only [hin, decide_false, Bool.false_or]
      rw [if_neg hall, selected_tags htags fun node => decide (tag ∈ node.groups)]
  simp only [hselected, List.isEmpty_map]
  cases takenTags nodes tag with
  | nil => rfl
  | cons first rest => rfl

/-- With a node at hand, one round edits an empty group and nothing else. -/
theorem fillGroup_edited {nodes : List RefinedNode} {tags : List String} (h : generationTags nodes = .ok tags)
    (entry : Json) (hfilled : (fillGroup nodes tags entry).2 = none) :
    Edited nodes entry (fillGroup nodes tags entry).1 := by
  unfold fillGroup at hfilled ⊢
  cases hgroup : emptyGroup entry with
  | none => exact .inr ⟨emptyGroup_eq_none_iff.mp hgroup, rfl⟩
  | some group =>
    obtain ⟨object, tag⟩ := group
    rw [hgroup] at hfilled
    simp only at hfilled ⊢
    split_ifs at hfilled with hempty
    rw [if_neg hempty, groupMembers_eq h]
    exact .inl ⟨object, tag, emptyGroup_eq_some_iff.mp hgroup, rfl⟩

/-- One round reports a group exactly if there is no node for it. -/
theorem fillGroup_unfilled {nodes : List RefinedNode} {tags : List String} {entry : Json} :
    (fillGroup nodes tags entry).2 ≠ none ↔ nodes = [] ∧ ∃ object tag, EmptyGroup entry object tag := by
  unfold fillGroup
  cases hgroup : emptyGroup entry with
  | none =>
    have hno := emptyGroup_eq_none_iff.mp hgroup
    simp [hno]
  | some group =>
    obtain ⟨object, tag⟩ := group
    have hyes := emptyGroup_eq_some_iff.mp hgroup
    by_cases hempty : nodes = []
    · subst hempty
      simpa using ⟨object, tag, hyes⟩
    · simp [hempty]

/-! ### The whole generation -/

theorem generateFromTemplate_eq_ok {template : Json} {nodes : List RefinedNode} {generated : Json} :
    generateFromTemplate template nodes = .ok generated ↔
      ∃ object outbounds tags, template = .obj object ∧ Assoc.get "outbounds" object = some (.arr outbounds) ∧
        generationTags nodes = .ok tags ∧ (∀ entry ∈ outbounds, (fillGroup nodes tags entry).2 = none) ∧
        generated = .obj (Assoc.set "outbounds"
          (.arr ((outbounds.map fun entry => (fillGroup nodes tags entry).1) ++ nodes.map RefinedNode.outbound))
          object) := by
  unfold generateFromTemplate
  cases template with
  | obj object =>
    simp only [Json.asObject, Json.obj.injEq, exists_and_left, exists_eq_left']
    cases hout : Assoc.get "outbounds" object with
    | none => simp
    | some value =>
      cases value with
      | arr outbounds =>
        simp only [Option.bind_some, Json.asArray, Option.some.injEq, Json.arr.injEq, exists_eq_left']
        cases htags : generationTags nodes with
        | error error => simp
        | ok tags =>
          simp only [Except.ok.injEq, exists_eq_left', List.map_map]
          have hnone : (outbounds.map (fillGroup nodes tags)).filterMap Prod.snd = [] ↔
              ∀ entry ∈ outbounds, (fillGroup nodes tags entry).2 = none := by
            simp [List.filterMap_eq_nil_iff]
          by_cases hall : ∀ entry ∈ outbounds, (fillGroup nodes tags entry).2 = none
          · rw [if_pos (hnone.mpr hall)]
            simp only [Except.ok.injEq, eq_comm (b := generated)]
            exact ⟨fun h => ⟨hall, h⟩, fun h => h.2⟩
          · rw [if_neg (fun h => hall (hnone.mp h))]
            simp [hall]
      | _ => simp [Json.asArray]
  | _ => simp [Json.asObject]

/-- What an accepted generation gives: the entries edited, and the nodes behind them. -/
theorem generated_edits {template generated : Json} {nodes : List RefinedNode}
    (h : generateFromTemplate template nodes = .ok generated) :
    ∃ object outbounds filled, template = .obj object ∧ Assoc.get "outbounds" object = some (.arr outbounds) ∧
      generated = .obj (Assoc.set "outbounds" (.arr (filled ++ nodes.map RefinedNode.outbound)) object) ∧
      List.Forall₂ (Edited nodes) outbounds filled := by
  obtain ⟨object, outbounds, tags, rfl, hout, htags, hfilled, rfl⟩ := generateFromTemplate_eq_ok.mp h
  refine ⟨object, outbounds, outbounds.map fun entry => (fillGroup nodes tags entry).1, rfl, hout, rfl, ?_⟩
  rw [List.forall₂_map_right_iff, List.forall₂_same]
  intro entry hin
  exact fillGroup_edited htags entry (hfilled entry hin)

/-- **Generation fills and appends.**  The result is the template with its outbounds edited entry by entry and the
nodes' outbounds behind them, unchanged and in order; it fails on a template of another shape, on a node without a
name, and where an empty group has no node at all to take. -/
theorem generate_exact (template : Json) (nodes : List RefinedNode) :
    (∀ generated, generateFromTemplate template nodes = .ok generated →
      ∃ object outbounds result filled, template = .obj object ∧
        Assoc.get "outbounds" object = some (.arr outbounds) ∧ generated = .obj result ∧
        Assoc.set "outbounds" (.arr outbounds) result = object ∧
        Assoc.get "outbounds" result = some (.arr (filled ++ nodes.map RefinedNode.outbound)) ∧
        List.Forall₂ (Edited nodes) outbounds filled) ∧
      ((∃ error, generateFromTemplate template nodes = .error error) ↔
        (¬ ∃ object, template = .obj object) ∨
          (∃ object, template = .obj object ∧ ¬ ∃ outbounds, Assoc.get "outbounds" object = some (.arr outbounds)) ∨
          (∃ node ∈ nodes, ¬ Named node) ∨
          nodes = [] ∧ ∃ object outbounds, template = .obj object ∧
            Assoc.get "outbounds" object = some (.arr outbounds) ∧
            ∃ entry ∈ outbounds, ∃ group tag, EmptyGroup entry group tag) := by
  constructor
  · intro generated h
    obtain ⟨object, outbounds, filled, rfl, hout, rfl, hedited⟩ := generated_edits h
    refine ⟨object, outbounds, _, filled, rfl, hout, rfl, ?_, Assoc.get_set_self _ _ _, hedited⟩
    rw [Assoc.set_set, Assoc.set_of_get hout]
  · have hfails : (∃ error, generateFromTemplate template nodes = .error error) ↔
        ¬ ∃ generated, generateFromTemplate template nodes = .ok generated := by
      cases generateFromTemplate template nodes <;> simp
    rw [hfails]
    simp only [generateFromTemplate_eq_ok]
    constructor
    · intro hno
      by_contra hother
      rw [not_or, not_or, not_or] at hother
      obtain ⟨hobj, harr, hnamed, hgroups⟩ := hother
      obtain ⟨object, rfl⟩ := not_not.mp hobj
      obtain ⟨outbounds, hout⟩ := not_not.mp fun h => harr ⟨object, rfl, h⟩
      obtain ⟨tags, htags⟩ :=
        generationTags_named.mpr fun node hin => not_not.mp fun h => hnamed ⟨node, hin, h⟩
      refine hno ⟨_, object, outbounds, tags, rfl, hout, htags, ?_, rfl⟩
      intro entry hin
      by_contra hunfilled
      obtain ⟨hnil, group, tag, hempty⟩ := fillGroup_unfilled.mp hunfilled
      exact hgroups ⟨hnil, object, outbounds, rfl, hout, entry, hin, group, tag, hempty⟩
    · rintro hcases ⟨_, object, outbounds, tags, rfl, hout, htags, hfilled, -⟩
      rcases hcases with hobj | ⟨_, hobj, harr⟩ | ⟨node, hin, hnamed⟩ | ⟨rfl, _, _, hobj, hout', entry, hin, hempty⟩
      · exact hobj ⟨object, rfl⟩
      · obtain rfl := Json.obj.inj hobj
        exact harr ⟨outbounds, hout⟩
      · exact hnamed (generationTags_named.mp ⟨tags, htags⟩ node hin)
      · obtain rfl := Json.obj.inj hobj
        obtain rfl := Json.arr.inj (Option.some.inj (hout.symm.trans hout'))
        exact fillGroup_unfilled.mpr ⟨rfl, hempty⟩ (hfilled entry hin)

end FluxRs.Nodes
