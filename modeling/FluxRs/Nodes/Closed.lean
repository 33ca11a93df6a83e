import FluxRs.Nodes.Assemble
import FluxRs.Nodes.Effective
import FluxRs.Nodes.Filled

/-!
# FluxRs.Nodes.Closed — when a generated configuration is closed and unambiguous

The tags of an assembly are distinct among themselves; against the tags of the template and the reserved ones
nothing checks them, and that is all that can go wrong.
-/

namespace FluxRs.Nodes

open FluxRs.Lib Json

/-! ### Kinds of assembled nodes -/

section Kinds

variable {lib : Libraries} {config : NodeConfig lib} {response : RemoteSource → Option (List U8)}

/-- Not a group, nor any other entry that is the template's own. -/
def ProxyKind (outbound : Json) : Prop :=
  ∃ object kind, outbound = .obj object ∧ getStr "type" object = some kind ∧ kind ∉ infrastructureTypes

theorem baseOutbound_kind {kind tag : String} {fields : Members} (h : kind ∉ infrastructureTypes) :
    ProxyKind (.obj (baseOutbound kind tag fields)) :=
  ⟨_, kind, rfl, by rw [baseOutbound, getStr, Assoc.get_cons_self]; rfl, h⟩

theorem parseUri_kind {line : String} {object : Members} (h : parseUri lib line = .ok object) :
    ProxyKind (.obj object) := by
  have hurl : ∀ {scheme : String}, (if scheme = "ss" then "shadowsocks" else scheme) ∉ infrastructureTypes →
      parseUrlOutbound lib line scheme = .ok object → ProxyKind (.obj object) := by
    intro scheme hkind h
    unfold parseUrlOutbound at h
    split at h
    · cases h
    · obtain rfl := Except.ok.inj h
      exact baseOutbound_kind hkind
  unfold parseUri at h
  split at h
  · cases h
  · simp only at h
    split_ifs at h with hvmess hss hhy2 hscheme
    · unfold parseVmess at h
      split at h
      · cases h
      · obtain rfl := Except.ok.inj h
        exact baseOutbound_kind (by decide)
    · unfold parseShadowsocks at h
      simp only at h
      split at h
      · cases h
      · obtain rfl := Except.ok.inj h
        exact baseOutbound_kind (by decide)
    · exact hurl (by decide) h
    · refine hurl ?_ h
      have hall : ∀ scheme ∈ urlSchemes, (if scheme = "ss" then "shadowsocks" else scheme) ∉ infrastructureTypes := by
        decide
      exact hall _ hscheme

theorem refineOne_kind {policy : NodePolicy} {index : ℕ} {outbound : Json} {node : RefinedNode}
    (h : policy.refineOne index outbound = .ok (some node)) : ProxyKind node.outbound := by
  unfold NodePolicy.refineOne at h
  split at h
  · cases h
  · rename_i object _
    split at h
    · cases h
    · rename_i kind hkind
      split_ifs at h with hinfra
      · cases h
      · split at h
        · cases h
        · split_ifs at h
          · cases h
          · obtain rfl := Option.some.inj (Except.ok.inj h)
            refine ⟨_, kind, rfl, ?_, hinfra⟩
            rw [getStr, Assoc.get_set_ne (by decide)]
            exact hkind

theorem refineFrom_kind {policy : NodePolicy} :
    ∀ {outbounds : List Json} {index : ℕ} {nodes : List RefinedNode},
      policy.refineFrom index outbounds = .ok nodes → ∀ node ∈ nodes, ProxyKind node.outbound
  | [], _, nodes, h => by
    obtain rfl := Except.ok.inj h
    intro node hin
    cases hin
  | outbound :: rest, index, nodes, h => by
    unfold NodePolicy.refineFrom at h
    split at h
    · cases h
    · rename_i kept hkept
      split at h
      · cases h
      · rename_i more hmore
        obtain rfl := Except.ok.inj h
        intro node hin
        rcases List.mem_append.mp hin with hin | hin
        · obtain rfl := Option.mem_toList.mp hin
          exact refineOne_kind hkept
        · exact refineFrom_kind hmore node hin

theorem remote_kind {policy : NodePolicy} {bytes : List U8} {nodes : List RefinedNode}
    (h : policy.remote lib bytes = .ok nodes) : ∀ node ∈ nodes, ProxyKind node.outbound := by
  unfold NodePolicy.remote at h
  split at h
  · cases h
  · unfold NodePolicy.refine at h
    split at h
    · cases h
    · cases h
    · rename_i hfrom
      obtain rfl := Except.ok.inj h
      exact refineFrom_kind hfrom

theorem contribution_kind {input : NodeSource} (hin : input ∈ config.sources) :
    ∀ node ∈ contribution config response input, ProxyKind node.outbound := by
  cases input with
  | manual node position =>
    intro other hother
    obtain rfl := List.mem_singleton.mp hother
    obtain ⟨uri, huri⟩ := config.manual_parsed other position hin
    unfold NodePolicy.manual at huri
    split at huri
    · cases huri
    · rename_i object hparse
      obtain rfl := Except.ok.inj huri
      exact parseUri_kind hparse
  | remote source position =>
    intro node hnode
    unfold contribution at hnode
    cases hresp : response source with
    | none => simp [hresp] at hnode
    | some bytes =>
      cases hremote : config.policy.remote lib bytes with
      | error error => simp [hresp, hremote, Except.toOption] at hnode
      | ok batch =>
        simp only [hresp, hremote, Except.toOption, Option.getD_some] at hnode
        exact remote_kind hremote node hnode

theorem assembled_kind {nodes : List RefinedNode} (h : assembleNodes config response = .ok nodes) :
    ∀ node ∈ nodes, ProxyKind node.outbound := by
  obtain ⟨-, -, rfl⟩ := assembleNodes_ok_iff.mp h
  intro node hin
  obtain ⟨input, hinput, hnode⟩ := List.mem_flatMap.mp hin
  exact contribution_kind hinput node hnode

end Kinds

/-! ### Closed lists of outbounds -/

def outboundTag (entry : Json) : Option String := entry.asObject.bind (getStr "tag")

/-- The member array of a selector or urltest. -/
def memberArray (entry : Json) : Option (List Json) :=
  entry.asObject.bind fun object =>
    if getStr "type" object = some "selector" ∨ getStr "type" object = some "urltest" then
      (Assoc.get "outbounds" object).bind asArray
    else none

def memberStrings (entry : Json) : List String := ((memberArray entry).getD []).filterMap asStr

/-- No tag stands for two outbounds, no group is empty, and every member of a group is an outbound. -/
structure Closed (outbounds : List Json) : Prop where
  distinct : (outbounds.filterMap outboundTag).Nodup
  nonempty : ∀ entry ∈ outbounds, memberArray entry ≠ some []
  members : ∀ entry ∈ outbounds, ∀ member ∈ memberStrings entry, member ∈ outbounds.filterMap outboundTag

/-- What is asked of a template. -/
structure Template (object : Members) (outbounds : List Json) : Prop where
  array : Assoc.get "outbounds" object = some (.arr outbounds)
  tagged : ∀ entry ∈ outbounds, ∃ tag, outboundTag entry = some tag
  distinct : (outbounds.filterMap outboundTag).Nodup
  direct : "DIRECT" ∈ outbounds.filterMap outboundTag
  members : ∀ entry ∈ outbounds, ∀ member ∈ memberStrings entry, member ∈ outbounds.filterMap outboundTag
  unreserved : ReservedFree (.obj object)

section Edits

variable {nodes : List RefinedNode} {old new : Json}

theorem Edited.tag (h : Edited nodes old new) : outboundTag new = outboundTag old := by
  rcases h with ⟨object, tag, ⟨rfl, -, -, -⟩, rfl⟩ | ⟨-, rfl⟩
  · show getStr "tag" _ = getStr "tag" _
    rw [getStr, getStr, Assoc.get_set_ne (by decide)]
  · rfl

theorem tags_of_edited {olds news : List Json} (h : List.Forall₂ (Edited nodes) olds news) :
    news.filterMap outboundTag = olds.filterMap outboundTag := by
  induction h with
  | nil => rfl
  | cons hhead _ ih => rw [List.filterMap_cons, List.filterMap_cons, hhead.tag, ih]

theorem exists_edited {olds news : List Json} (h : List.Forall₂ (Edited nodes) olds news) :
    ∀ entry ∈ news, ∃ old ∈ olds, Edited nodes old entry := by
  induction h with
  | nil =>
    intro entry hin
    cases hin
  | @cons old new _ _ hhead _ ih =>
    intro entry hin
    rcases List.mem_cons.mp hin with rfl | hin
    · exact ⟨old, List.mem_cons_self, hhead⟩
    · obtain ⟨other, hother, hedit⟩ := ih entry hin
      exact ⟨other, List.mem_cons_of_mem _ hother, hedit⟩

theorem filledMembers_ne_nil (nodes : List RefinedNode) (tag : String) : filledMembers nodes tag ≠ [] := by
  unfold filledMembers
  split_ifs with h
  · exact List.cons_ne_nil _ _
  · exact h

theorem mem_filledMembers {tag member : String} (h : member ∈ filledMembers nodes tag) :
    member = "DIRECT" ∨ member ∈ tagsOf nodes := by
  unfold filledMembers at h
  split_ifs at h
  · exact .inl (List.mem_singleton.mp h)
  · right
    unfold takenTags at h
    split_ifs at h
    · exact h
    · exact (List.filter_sublist.filterMap _).subset h

/-- The members of an edited entry: those it had, or a filling that is not empty. -/
theorem Edited.memberArray (h : Edited nodes old new) :
    (Nodes.memberArray new = Nodes.memberArray old ∧ Nodes.memberArray old ≠ some [] ∨
      outboundTag old = none ∧ new = old) ∨
      ∃ tag, Nodes.memberArray new = some ((filledMembers nodes tag).map .str) := by
  rcases h with ⟨object, tag, ⟨rfl, hkind, -, -⟩, rfl⟩ | ⟨hno, rfl⟩
  · refine .inr ⟨tag, ?_⟩
    show (if _ ∨ _ then _ else _) = _
    have hsame : getStr "type" (Assoc.set "outbounds" (.arr ((filledMembers nodes tag).map .str)) object) =
        getStr "type" object := by
      rw [getStr, getStr, Assoc.get_set_ne (by decide)]
    rw [hsame, if_pos hkind, Assoc.get_set_self]
    rfl
  · left
    cases htag : outboundTag new with
    | none => exact .inr ⟨rfl, rfl⟩
    | some tag =>
      refine .inl ⟨rfl, ?_⟩
      intro hempty
      cases new with
      | obj object =>
        simp only [Nodes.memberArray, asObject, Option.bind_some] at hempty
        split_ifs at hempty with hkind
        have hout : Assoc.get "outbounds" object = some (.arr []) := by
          obtain ⟨value, hget, hval⟩ := Option.bind_eq_some_iff.mp hempty
          cases value with
          | arr items =>
            obtain rfl := Option.some.inj hval
            exact hget
          | _ => cases hval
        exact hno object tag ⟨rfl, hkind, htag, hout⟩
      | _ => cases htag

/-- An edit adds no object. -/
theorem Edited.reservedFree (h : Edited nodes old new) (hfree : ReservedFree old) : ReservedFree new := by
  rcases h with ⟨object, tag, ⟨rfl, -, -, -⟩, rfl⟩ | ⟨-, rfl⟩
  · intro inner ho
    have hin := mem_objects_of_occurs ho
    rw [objects, List.mem_cons] at hin
    rcases hin with rfl | hin
    · have hsame : getStr "tag" (Assoc.set "outbounds" (.arr ((filledMembers nodes tag).map .str)) object) =
          getStr "tag" object := by
        rw [getStr, getStr, Assoc.get_set_ne (by decide)]
      unfold Reserved
      rw [hsame]
      exact hfree object .here
    · rcases mem_objectsOfMembers_set hin with hin | hin
      · rw [objects, objectsOfItems_map_str] at hin
        cases hin
      · refine hfree inner (mem_objects_iff.mp ?_)
        rw [objects]
        exact List.mem_cons_of_mem _ hin
  · exact hfree

end Edits

/-! ### The generated configuration -/

section Generated

variable {lib : Libraries} {config : NodeConfig lib} {response : RemoteSource → Option (List U8)}
  {nodes : List RefinedNode}

/-- A proxy is not a group. -/
theorem ProxyKind.memberArray {outbound : Json} (h : ProxyKind outbound) : Nodes.memberArray outbound = none := by
  obtain ⟨object, kind, rfl, hkind, hnot⟩ := h
  show (if _ ∨ _ then _ else _) = none
  rw [if_neg]
  intro hin
  rw [hkind, Option.some_inj, Option.some_inj] at hin
  rcases hin with rfl | rfl
  · exact hnot (by decide)
  · exact hnot (by decide)

theorem outboundTag_outbound (nodes : List RefinedNode) :
    (nodes.map RefinedNode.outbound).filterMap outboundTag = tagsOf nodes := by
  rw [List.filterMap_map]
  rfl

/-- Everything but the distinctness of the tags is promised. -/
theorem closed_append_iff {object : Members} {outbounds filled : List Json} (ht : Template object outbounds)
    (hedited : List.Forall₂ (Edited nodes) outbounds filled) (hkind : ∀ node ∈ nodes, ProxyKind node.outbound)
    (hnodup : (tagsOf nodes).Nodup) :
    Closed (filled ++ nodes.map RefinedNode.outbound) ↔
      List.Disjoint (outbounds.filterMap outboundTag) (tagsOf nodes) := by
  have htags : (filled ++ nodes.map RefinedNode.outbound).filterMap outboundTag =
      outbounds.filterMap outboundTag ++ tagsOf nodes := by
    rw [List.filterMap_append, tags_of_edited hedited, outboundTag_outbound]
  have harray : ∀ entry ∈ filled ++ nodes.map RefinedNode.outbound,
      memberArray entry ≠ some [] ∧ ∀ member ∈ memberStrings entry,
        member ∈ outbounds.filterMap outboundTag ++ tagsOf nodes := by
    intro entry hin
    rcases List.mem_append.mp hin with hin | hin
    · obtain ⟨old, hold, hedit⟩ := exists_edited hedited entry hin
      rcases hedit.memberArray with (⟨hsame, hne⟩ | ⟨hnone, -⟩) | ⟨tag, hfilled⟩
      · rw [memberStrings, hsame]
        exact ⟨hne, fun member hmember => List.mem_append_left _ (ht.members old hold member hmember)⟩
      · obtain ⟨tag, htag⟩ := ht.tagged old hold
        rw [hnone] at htag
        cases htag
      · rw [memberStrings, hfilled]
        refine ⟨fun hempty => filledMembers_ne_nil nodes tag (List.map_eq_nil_iff.mp (Option.some.inj hempty)), ?_⟩
        intro member hmember
        rw [Option.getD_some, List.filterMap_map] at hmember
        obtain ⟨text, htext, hsome⟩ := List.mem_filterMap.mp hmember
        obtain rfl := Option.some.inj hsome
        rcases mem_filledMembers htext with rfl | htag
        · exact List.mem_append_left _ ht.direct
        · exact List.mem_append_right _ htag
    · obtain ⟨node, hnode, rfl⟩ := List.mem_map.mp hin
      have hnone := (hkind node hnode).memberArray
      rw [memberStrings, hnone]
      exact ⟨by simp, fun member hmember => (by cases hmember)⟩
  constructor
  · intro h
    have hdistinct := h.distinct
    rw [htags] at hdistinct
    exact (List.nodup_append'.mp hdistinct).2.2
  · intro h
    refine ⟨?_, fun entry hin => (harray entry hin).1, ?_⟩
    · rw [htags]
      exact List.nodup_append'.mpr ⟨ht.distinct, hnodup, h⟩
    · rw [htags]
      exact fun entry hin => (harray entry hin).2

/-- The reserved tags of the result are those of the nodes. -/
theorem reservedFree_generated_iff {object : Members} {outbounds filled : List Json} (ht : Template object outbounds)
    (hedited : List.Forall₂ (Edited nodes) outbounds filled) :
    ReservedFree (.obj (Assoc.set "outbounds" (.arr (filled ++ nodes.map RefinedNode.outbound)) object)) ↔
      ∀ node ∈ nodes, ReservedFree node.outbound := by
  have hget := Assoc.get_set_self "outbounds" (Json.arr (filled ++ nodes.map RefinedNode.outbound)) object
  constructor
  · intro h node hin inner ho
    refine h inner (.member (Assoc.mem_of_get hget) (.item ?_ ho))
    exact List.mem_append_right _ (List.mem_map_of_mem hin)
  · intro h inner ho
    have hin := mem_objects_of_occurs ho
    rw [objects, List.mem_cons] at hin
    rcases hin with rfl | hin
    · unfold Reserved
      rw [getStr, Assoc.get_set_ne (by decide)]
      exact ht.unreserved object .here
    · rcases mem_objectsOfMembers_set hin with hin | hin
      · rw [objects] at hin
        obtain ⟨entry, hentry, hocc⟩ := occurs_of_mem_items hin
        rcases List.mem_append.mp hentry with hentry | hentry
        · obtain ⟨old, hold, hedit⟩ := exists_edited hedited entry hentry
          refine hedit.reservedFree ?_ inner hocc
          intro other hother
          exact ht.unreserved other (.member (Assoc.mem_of_get ht.array) (.item hold hother))
        · obtain ⟨node, hnode, rfl⟩ := List.mem_map.mp hentry
          exact h node hnode inner hocc
      · refine ht.unreserved inner (mem_objects_iff.mp ?_)
        rw [objects]
        exact List.mem_cons_of_mem _ hin

/-- **A generated configuration is closed and usable exactly if** no node has the tag of a template's outbound
and, where the inbounds are to be injected, no node carries a reserved tag at any depth. -/
theorem generated_closed_iff {object : Members} {outbounds : List Json} {generated : Json} (params : EngineParams)
    (ht : Template object outbounds) (hassembled : assembleNodes config response = .ok nodes)
    (hgenerated : generateFromTemplate (.obj object) nodes = .ok generated) :
    (∃ result entries, generated = .obj result ∧ Assoc.get "outbounds" result = some (.arr entries) ∧ Closed entries ∧
        (NoInbounds object → ∃ effective, buildEffective generated params = .ok effective)) ↔
      (∀ node ∈ nodes, ∀ tag, node.tag = some tag → tag ∉ outbounds.filterMap outboundTag) ∧
        (NoInbounds object → ∀ node ∈ nodes, ReservedFree node.outbound) := by
  obtain ⟨object', outbounds', filled, hobj, hout, rfl, hedited⟩ := generated_edits hgenerated
  obtain rfl := Json.obj.inj hobj
  obtain rfl := Json.arr.inj (Option.some.inj (ht.array.symm.trans hout))
  obtain ⟨-, hnodup, hpool⟩ := assembleNodes_ok_iff.mp hassembled
  rw [← hpool] at hnodup
  have hclosed := closed_append_iff ht hedited (assembled_kind hassembled) hnodup
  have hdisjoint : List.Disjoint (outbounds.filterMap outboundTag) (tagsOf nodes) ↔
      ∀ node ∈ nodes, ∀ tag, node.tag = some tag → tag ∉ outbounds.filterMap outboundTag := by
    constructor
    · intro h node hin tag htag hmem
      exact h hmem (List.mem_filterMap.mpr ⟨node, hin, htag⟩)
    · intro h tag hmem htag
      obtain ⟨node, hin, htag⟩ := List.mem_filterMap.mp htag
      exact h node hin tag htag hmem
  have hinbounds : NoInbounds (Assoc.set "outbounds" (.arr (filled ++ nodes.map RefinedNode.outbound)) object) ↔
      NoInbounds object := by
    rw [NoInbounds, NoInbounds, Assoc.get_set_ne (by decide)]
  have heffective : NoInbounds object →
      ((∃ effective, buildEffective
          (.obj (Assoc.set "outbounds" (.arr (filled ++ nodes.map RefinedNode.outbound)) object)) params = .ok effective) ↔
        ∀ node ∈ nodes, ReservedFree node.outbound) := by
    intro hno
    rw [← reservedFree_generated_iff ht hedited]
    constructor
    · rintro ⟨effective, h⟩
      obtain ⟨_, -, -, hfree, -⟩ := buildEffective_ok.mp h
      exact hfree
    · intro hfree
      exact ⟨_, buildEffective_ok.mpr ⟨_, rfl, hinbounds.mpr hno, hfree, rfl⟩⟩
  rw [← hdisjoint, ← hclosed]
  constructor
  · rintro ⟨result, entries, hresult, hentries, hclosed, hbuild⟩
    obtain rfl := Json.obj.inj hresult
    rw [Assoc.get_set_self] at hentries
    obtain rfl := Json.arr.inj (Option.some.inj hentries)
    exact ⟨hclosed, fun hno => (heffective hno).mp (hbuild hno)⟩
  · rintro ⟨hclosed, hfree⟩
    exact ⟨_, _, rfl, Assoc.get_set_self _ _ _, hclosed, fun hno => (heffective hno).mpr (hfree hno)⟩

end Generated

/-! ### A provider that names a node DIRECT -/

/-- A provider document with one node of that name, and nothing else that is JSON. -/
def oneDocument (tag : String) : Libraries :=
  { twoDocuments with
    fromSlice := fun bytes =>
      if bytes = oneOutboundBytes "trojan" tag then .ok (oneOutbound "trojan" tag)
      else .error "expected value at line 1 column 1" }

def oneSubscription (tag : String) : NodeConfig (oneDocument tag) where
  policy := oneRemote.policy
  sources := [.remote ⟨"https://example.invalid/sub", "sub"⟩ "nodes.sources entry 1"]
  manual_parsed _ _ h := by simp at h

def menuOutbounds : List Json :=
  [.obj [("type", .str "direct"), ("tag", .str "DIRECT")],
    .obj [("type", .str "selector"), ("tag", .str "PROXY"), ("outbounds", .arr [])]]

def menuTemplate : Members := [("outbounds", .arr menuOutbounds)]

theorem menuTemplate_template : Template menuTemplate menuOutbounds where
  array := rfl
  tagged := by
    intro entry hin
    rcases List.mem_pair.mp hin with rfl | rfl
    · exact ⟨"DIRECT", rfl⟩
    · exact ⟨"PROXY", rfl⟩
  distinct := by decide
  direct := by decide
  members := by
    intro entry hin member hmember
    rcases List.mem_pair.mp hin with rfl | rfl
    · cases hmember
    · cases hmember
  unreserved := firstReservedTag_eq_none.mp (by decide)

theorem generated_closed_iff_tokyo :
    ∃ generated, generateFromTemplate (.obj menuTemplate) [oneNode "trojan" "Tokyo"] = .ok generated ∧
      ∃ effective, buildEffective generated ⟨7, 61001, 61002⟩ = .ok effective := by
  have hassembled : assembleNodes (oneSubscription "Tokyo") (fun _ => some (oneOutboundBytes "trojan" "Tokyo")) =
      .ok [oneNode "trojan" "Tokyo"] := rfl
  have hgenerated : ∃ generated, generateFromTemplate (.obj menuTemplate) [oneNode "trojan" "Tokyo"] = .ok generated :=
    ⟨_, rfl⟩
  obtain ⟨generated, hgenerated⟩ := hgenerated
  have hiff := generated_closed_iff ⟨7, 61001, 61002⟩ menuTemplate_template hassembled hgenerated
  obtain ⟨_, _, -, -, -, hbuild⟩ := hiff.mpr (by
    constructor
    · intro node hin tag htag
      obtain rfl := List.mem_singleton.mp hin
      obtain rfl := Option.some.inj htag
      decide
    · intro _ node hin
      obtain rfl := List.mem_singleton.mp hin
      exact firstReservedTag_eq_none.mp (by decide))
  exact ⟨generated, hgenerated, hbuild (.inl rfl)⟩

/-- The node is accepted, and the result has two outbounds of one tag. -/
theorem direct_node_ambiguous :
    ¬ ∀ (lib : Libraries) (config : NodeConfig lib) (response : RemoteSource → Option (List U8))
      (nodes : List RefinedNode) (object : Members) (outbounds : List Json) (generated : Json),
      Template object outbounds → assembleNodes config response = .ok nodes → nodes ≠ [] →
      generateFromTemplate (.obj object) nodes = .ok generated →
        ∃ result entries, generated = .obj result ∧ Assoc.get "outbounds" result = some (.arr entries) ∧
          Closed entries := by
  intro h
  obtain ⟨result, entries, hresult, hentries, hclosed⟩ :=
    h _ (oneSubscription "DIRECT") (fun _ => some (oneOutboundBytes "trojan" "DIRECT")) [oneNode "trojan" "DIRECT"]
      menuTemplate menuOutbounds _ menuTemplate_template rfl (List.cons_ne_nil _ _) rfl
  obtain rfl := Json.obj.inj hresult
  obtain rfl := Json.arr.inj (Option.some.inj hentries)
  exact absurd hclosed.distinct (by decide)

end FluxRs.Nodes
