import FluxRs.Nodes.Sources

/-!
# FluxRs.Nodes.Generate — the engine configuration from a template

`generate_from_template` of `crates/flux-core/src/engine_config.rs`, over the nodes that
`assemble_nodes` accepted.  Generation checks every tag once more.
-/

namespace FluxRs.Nodes

open FluxRs.Lib

inductive EngineConfigError where
  | notAnObject
  | userSuppliedInbound
  | inboundsNotArray
  | reservedTag (tag : String)
  | outboundsNotArray
  | nodeNotAnObject
  | nodeTagMissing
  | unfilledGroups (tags : List String)
  deriving DecidableEq, Repr

/-- `DIRECT_TAG`. -/
def directTag : String := "DIRECT"

/-- The tag that generation takes from a node. -/
def generationTag (node : RefinedNode) : Except EngineConfigError String :=
  match node.outbound.asObject with
  | none => .error .nodeNotAnObject
  | some object =>
    match (Json.getStr "tag" object).filter (· ≠ "") with
    | none => .error .nodeTagMissing
    | some tag => .ok tag

/-- `node_tags`: the first node without a tag fails them all. -/
def generationTags : List RefinedNode → Except EngineConfigError (List String)
  | [] => .ok []
  | node :: rest =>
    match generationTag node with
    | .error error => .error error
    | .ok tag =>
      match generationTags rest with
      | .error error => .error error
      | .ok tags => .ok (tag :: tags)

/-- The members of a group that is to be filled, and its tag. -/
def emptyGroup (group : Json) : Option (Json.Members × String) :=
  group.asObject.bind fun object =>
    if Json.getStr "type" object ∈ [some "selector", some "urltest"] then
      match (Assoc.get "outbounds" object).bind Json.asArray with
      | some [] => (Json.getStr "tag" object).map fun tag => (object, tag)
      | _ => none
    else none

/-- What an empty group is filled with; all-node groups take every node. -/
def groupMembers (nodes : List RefinedNode) (tags : List String) (groupTag : String) : List Json :=
  let all := decide (groupTag ∈ ["PROXY", "GLOBAL", "AUTO"])
  let filled := ((nodes.zip tags).filter fun node => all || decide (groupTag ∈ node.1.groups)).map
    fun node => Json.str node.2
  if filled.isEmpty then [.str directTag] else filled

/-- One round of the loop over the outbounds: the entry afterwards, and the tag of an unfilled group. -/
def fillGroup (nodes : List RefinedNode) (tags : List String) (group : Json) : Json × Option String :=
  match emptyGroup group with
  | none => (group, none)
  | some (object, groupTag) =>
    if nodes.isEmpty then (group, some groupTag)
    else (.obj (Assoc.set "outbounds" (.arr (groupMembers nodes tags groupTag)) object), none)

def generateFromTemplate (template : Json) (nodes : List RefinedNode) : Except EngineConfigError Json :=
  match template.asObject with
  | none => .error .notAnObject
  | some object =>
    match (Assoc.get "outbounds" object).bind Json.asArray with
    | none => .error .outboundsNotArray
    | some outbounds =>
      match generationTags nodes with
      | .error error => .error error
      | .ok tags =>
        let filled := outbounds.map (fillGroup nodes tags)
        let unfilled := filled.filterMap Prod.snd
        if unfilled = [] then
          .ok (.obj (Assoc.set "outbounds"
            (.arr (filled.map Prod.fst ++ nodes.map RefinedNode.outbound)) object))
        else .error (.unfilledGroups unfilled)

/-! ### When generation succeeds -/

theorem generationTag_ok_iff {node : RefinedNode} {tag : String} (h : node.tag = some tag) :
    (∃ t, generationTag node = .ok t) ↔ tag ≠ "" := by
  obtain ⟨object, hobj, htag⟩ := Option.bind_eq_some_iff.mp h
  unfold generationTag
  rw [hobj]
  simp only [htag]
  by_cases hne : tag = ""
  · rw [hne]
    exact ⟨fun ⟨t, ht⟩ => (by cases ht), fun h => absurd rfl h⟩
  · rw [Option.filter_some, if_pos (by simpa using hne)]
    exact ⟨fun _ => hne, fun _ => ⟨tag, rfl⟩⟩

theorem generationTags_ok_iff {nodes : List RefinedNode} (h : ∀ node ∈ nodes, ∃ tag, node.tag = some tag) :
    (∃ tags, generationTags nodes = .ok tags) ↔ ¬ ∃ node ∈ nodes, node.tag = some "" := by
  induction nodes with
  | nil => exact ⟨fun _ ⟨_, hn, _⟩ => (by cases hn), fun _ => ⟨[], rfl⟩⟩
  | cons node rest ih =>
    obtain ⟨tag, htag⟩ := h node List.mem_cons_self
    have hone := generationTag_ok_iff htag
    have hrest := ih fun n hn => h n (List.mem_cons_of_mem _ hn)
    have hsplit : (∃ n ∈ node :: rest, n.tag = some "") ↔
        tag = "" ∨ ∃ n ∈ rest, n.tag = some "" := by
      simp only [List.mem_cons, or_and_right, exists_or, exists_eq_left, htag, Option.some_inj]
    rw [hsplit, not_or, ← ne_eq, ← hone, ← hrest]
    constructor
    · rintro ⟨tags, htags⟩
      unfold generationTags at htags
      split at htags
      · cases htags
      · rename_i t ht
        split at htags
        · cases htags
        · rename_i ts hts
          exact ⟨⟨t, ht⟩, ⟨ts, hts⟩⟩
    · rintro ⟨⟨t, ht⟩, ⟨ts, hts⟩⟩
      exact ⟨t :: ts, by simp only [generationTags, ht, hts]⟩

/-- With a node at hand no group stays unfilled. -/
theorem fillGroup_filled {nodes : List RefinedNode} (hne : nodes ≠ []) (tags : List String) (group : Json) :
    (fillGroup nodes tags group).2 = none := by
  unfold fillGroup
  split
  · rfl
  · rw [if_neg (by simpa using hne)]

theorem generateFromTemplate_ok_iff {object : Json.Members} {outbounds : List Json}
    (harr : Assoc.get "outbounds" object = some (.arr outbounds)) {nodes : List RefinedNode}
    (hne : nodes ≠ []) :
    (∃ generated, generateFromTemplate (.obj object) nodes = .ok generated) ↔
      ∃ tags, generationTags nodes = .ok tags := by
  unfold generateFromTemplate
  simp only [Json.asObject, harr, Option.bind_some, Json.asArray]
  cases htags : generationTags nodes with
  | error error =>
    constructor
    · rintro ⟨_, h⟩
      cases h
    · rintro ⟨_, h⟩
      cases h
  | ok tags =>
    have hfilled : (outbounds.map (fillGroup nodes tags)).filterMap Prod.snd = [] := by
      rw [List.filterMap_eq_nil_iff]
      intro entry hin
      obtain ⟨group, -, rfl⟩ := List.mem_map.mp hin
      exact fillGroup_filled hne tags group
    simp only [hfilled, if_true]
    exact ⟨fun _ => ⟨tags, rfl⟩, fun _ => ⟨_, rfl⟩⟩

/-- **Generation after an accepted assembly** fails exactly if an answered source lists an outbound of
empty type whose tag is cleaned away. -/
theorem generate_ok_iff {lib : Libraries} (config : NodeConfig lib) (response : RemoteSource → Option (List U8))
    {object : Json.Members} {outbounds : List Json}
    (harr : Assoc.get "outbounds" object = some (.arr outbounds)) {nodes : List RefinedNode}
    (h : assembleNodes config response = .ok nodes) (hne : nodes ≠ []) :
    (∃ generated, generateFromTemplate (.obj object) nodes = .ok generated) ↔
      ∀ input ∈ config.sources, ¬ NamelessIn config response input := by
  obtain ⟨htags, hempty⟩ := assembleNodes_tags h
  rw [generateFromTemplate_ok_iff harr hne, generationTags_ok_iff htags, hempty]
  simp only [not_exists, not_and]

/-! ### An outbound without a name -/

def asciiBytes (text : String) : List U8 := text.toList.map fun c => BitVec.ofNat 8 c.toNat

/-- A provider document with one outbound of that type and tag. -/
def oneOutbound (kind tag : String) : Json :=
  .obj [("outbounds", .arr [.obj [("type", .str kind), ("tag", .str tag)]])]

def oneOutboundBytes (kind tag : String) : List U8 :=
  asciiBytes ("\x7b\"outbounds\":[\x7b\"type\":\"" ++ kind ++ "\",\"tag\":\"" ++ tag ++ "\"\x7d]\x7d")

/-- Libraries that read the two documents below, and nothing else. -/
def twoDocuments : Libraries where
  fromSlice bytes :=
    if bytes = oneOutboundBytes "" "" then .ok (oneOutbound "" "")
    else if bytes = oneOutboundBytes "trojan" "old" then .ok (oneOutbound "trojan" "old")
    else .error "expected value at line 1 column 1"
  base64Standard _ := .error "invalid padding"
  base64StandardNoPad _ := .error "invalid padding"
  base64UrlSafe _ := .error "invalid padding"
  base64UrlSafeNoPad _ := .error "invalid padding"
  decodeUrlComponent := id
  decode_nonempty _ h := h
  url _ _ := .error "invalid port number"
  vmess _ := .error "invalid vmess JSON"
  shadowsocks _ := .error "legacy shadowsocks payload has no endpoint"

def oneRemote : NodeConfig twoDocuments where
  policy := ⟨true, 32, by decide, none, [], []⟩
  sources := [.remote ⟨"https://example.invalid/sub", "sub"⟩ "entry 1"]
  manual_parsed _ _ h := by simp at h

/-- A template whose one group is to be filled. -/
def autoTemplate : Json.Members :=
  [("outbounds", .arr [.obj [("type", .str "selector"), ("tag", .str "AUTO"), ("outbounds", .arr [])]])]

def oneNode (kind tag : String) : RefinedNode := ⟨.obj [("type", .str kind), ("tag", .str tag)], []⟩

theorem generate_ok_iff_trojan :
    generateFromTemplate (.obj autoTemplate) [oneNode "trojan" "old"] ≠ .error .nodeTagMissing := by
  have hassembled : assembleNodes oneRemote (fun _ => some (oneOutboundBytes "trojan" "old")) =
      .ok [oneNode "trojan" "old"] := rfl
  have hnamed : ∀ input ∈ oneRemote.sources,
      ¬ NamelessIn oneRemote (fun _ => some (oneOutboundBytes "trojan" "old")) input := by
    rintro input - ⟨_, _, bytes, outbounds, -, hbytes, hparse, outbound, hin, object, tag, rfl, hkind, -⟩
    obtain rfl := Option.some.inj hbytes
    have hread : parseSubscription twoDocuments (oneOutboundBytes "trojan" "old") =
        .ok [.obj [("type", .str "trojan"), ("tag", .str "old")]] := rfl
    obtain rfl := Except.ok.inj (hread.symm.trans hparse)
    obtain rfl := Json.obj.inj (List.mem_singleton.mp hin)
    exact absurd hkind (by decide)
  intro herror
  obtain ⟨generated, hok⟩ :=
    (generate_ok_iff oneRemote _ (Assoc.get_cons_self "outbounds" _ []) hassembled
      (List.cons_ne_nil _ _)).mpr hnamed
  rw [autoTemplate, hok] at herror
  cases herror

/-- The response is accepted, and generation refuses what comes of it. -/
theorem nameless_response_accepted :
    assembleNodes oneRemote (fun _ => some (oneOutboundBytes "" "")) = .ok [oneNode "" ""] ∧
      generateFromTemplate (.obj autoTemplate) [oneNode "" ""] = .error .nodeTagMissing := by
  exact ⟨rfl, rfl⟩

end FluxRs.Nodes
