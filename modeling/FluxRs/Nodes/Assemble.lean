import FluxRs.Nodes.Parse
import FluxRs.Nodes.Generate

/-!
# FluxRs.Nodes.Assemble — the pool of nodes

What `assemble_nodes` makes of the sources: the contributions one after the other, if every answer that came
is accepted and no tag comes twice.
-/

namespace FluxRs.Nodes

open FluxRs.Lib

/-! ### Contributions -/

section Contributions

variable {lib : Libraries} (config : NodeConfig lib) (response : RemoteSource → Option (List U8))

/-- What a source adds to the pool. -/
def contribution : NodeSource → List RefinedNode
  | .manual node _ => [node]
  | .remote source _ =>
    match response source with
    | none => []
    | some bytes => ((config.policy.remote lib bytes).toOption).getD []

/-- The answer of a source, if there is one, is accepted. -/
def Accepts : NodeSource → Prop
  | .manual _ _ => True
  | .remote source _ => ∀ bytes, response source = some bytes → ∃ batch, config.policy.remote lib bytes = .ok batch

def pool (inputs : List NodeSource) : List RefinedNode := inputs.flatMap (contribution config response)

def tagsOf (nodes : List RefinedNode) : List String := nodes.filterMap RefinedNode.tag

variable {config response}

theorem tagsOf_append (nodes more : List RefinedNode) : tagsOf (nodes ++ more) = tagsOf nodes ++ tagsOf more :=
  List.filterMap_append

theorem batchOf_ok_iff {input : NodeSource} {batch : List RefinedNode} :
    (∃ position, batchOf config response input = .ok (batch, position)) ↔
      Accepts config response input ∧ batch = contribution config response input := by
  cases input with
  | manual node position =>
    simp [batchOf, Accepts, contribution, eq_comm]
  | remote source position =>
    cases hresp : response source with
    | none => simp [batchOf, Accepts, contribution, hresp, eq_comm]
    | some bytes =>
      cases hremote : config.policy.remote lib bytes with
      | error error => simp [batchOf, Accepts, hresp, hremote]
      | ok nodes =>
        simp [batchOf, Accepts, contribution, hresp, hremote, Except.toOption, eq_comm]

/-! ### The duplicate check -/

theorem find_key_eq_none_iff {tag : String} {tags : TagTable} :
    (tags.find? fun entry => entry.1 == tag) = none ↔ tag ∉ tags.map Prod.fst := by
  simp only [List.find?_eq_none, beq_iff_eq, List.mem_map, not_exists, not_and]

theorem addBatch_ok_iff {position : String} {index : ℕ} {batch : List RefinedNode} {tags : TagTable}
    (htagged : ∀ node ∈ batch, ∃ tag, node.tag = some tag) :
    (∃ tags', addBatch position index batch tags = .ok tags') ↔
      (tagsOf batch).Nodup ∧ List.Disjoint (tags.map Prod.fst) (tagsOf batch) := by
  induction batch generalizing index tags with
  | nil => simp [addBatch, tagsOf]
  | cons node rest ih =>
    obtain ⟨tag, htag⟩ := htagged node List.mem_cons_self
    have hcons : tagsOf (node :: rest) = tag :: tagsOf rest := List.filterMap_cons_some htag
    rw [hcons, List.nodup_cons, List.disjoint_cons_right, addBatch]
    simp only [htag]
    cases hfind : tags.find? fun entry => entry.1 == tag with
    | some first =>
      have hin : tag ∈ tags.map Prod.fst := by
        by_contra hnot
        rw [find_key_eq_none_iff.mpr hnot] at hfind
        cases hfind
      simp [hin]
    | none =>
      have hnot := find_key_eq_none_iff.mp hfind
      simp only
      rw [ih fun n hn => htagged n (List.mem_cons_of_mem _ hn), List.map_cons, List.disjoint_cons_left]
      constructor
      · rintro ⟨hnodup, hfresh, hdisjoint⟩
        exact ⟨⟨hfresh, hnodup⟩, hnot, hdisjoint⟩
      · rintro ⟨⟨hfresh, hnodup⟩, -, hdisjoint⟩
        exact ⟨hnodup, hfresh, hdisjoint⟩

theorem addBatch_keys {position : String} {index : ℕ} {batch : List RefinedNode} {tags tags' : TagTable}
    (h : addBatch position index batch tags = .ok tags') (tag : String) :
    tag ∈ tags'.map Prod.fst ↔ tag ∈ tags.map Prod.fst ∨ tag ∈ tagsOf batch := by
  induction batch generalizing index tags with
  | nil =>
    obtain rfl := Except.ok.inj h
    simp [tagsOf]
  | cons node rest ih =>
    unfold addBatch at h
    simp only at h
    split at h
    · cases h
    · rename_i t ht
      have hcons : tagsOf (node :: rest) = t :: tagsOf rest := List.filterMap_cons_some ht
      split at h
      · cases h
      · rw [ih h, hcons, List.map_cons, List.mem_cons, List.mem_cons]
        tauto

/-! ### The pool -/

theorem assembleFrom_pool {inputs : List NodeSource} {tags : TagTable} {nodes : List RefinedNode}
    (h : assembleFrom config response inputs tags = .ok nodes) : nodes = pool config response inputs := by
  induction inputs generalizing tags nodes with
  | nil =>
    obtain rfl := Except.ok.inj h
    rfl
  | cons input rest ih =>
    unfold assembleFrom at h
    split at h
    · cases h
    · rename_i batch position hbatch
      split at h
      · cases h
      · split at h
        · cases h
        · rename_i more hmore
          obtain rfl := Except.ok.inj h
          rw [(batchOf_ok_iff.mp ⟨position, hbatch⟩).2, ih hmore]
          exact List.flatMap_cons.symm

theorem assembleFrom_ok_iff {inputs : List NodeSource} {tags : TagTable} (hsub : inputs ⊆ config.sources) :
    (∃ nodes, assembleFrom config response inputs tags = .ok nodes) ↔
      (∀ input ∈ inputs, Accepts config response input) ∧ (tagsOf (pool config response inputs)).Nodup ∧
        List.Disjoint (tags.map Prod.fst) (tagsOf (pool config response inputs)) := by
  induction inputs generalizing tags with
  | nil => simp [assembleFrom, pool, tagsOf]
  | cons input rest ih =>
    have hpool : pool config response (input :: rest) = contribution config response input ++ pool config response rest :=
      List.flatMap_cons
    rw [hpool, tagsOf_append, List.nodup_append', List.disjoint_append_right, List.forall_mem_cons, assembleFrom]
    cases hbatch : batchOf config response input with
    | error error =>
      have hnot : ¬ Accepts config response input := by
        intro hacc
        obtain ⟨position, hok⟩ := batchOf_ok_iff.mpr ⟨hacc, rfl⟩
        rw [hbatch] at hok
        cases hok
      simp [hnot]
    | ok result =>
      obtain ⟨batch, position⟩ := result
      obtain ⟨hacc, rfl⟩ := batchOf_ok_iff.mp ⟨position, hbatch⟩
      have htagged := (batchOf_tags (hsub List.mem_cons_self) hbatch).1
      have hadd := @addBatch_ok_iff position 0 _ tags htagged
      simp only
      cases hadded : addBatch position 0 (contribution config response input) tags with
      | error failure =>
        rw [hadded] at hadd
        simp only [reduceCtorEq, exists_false, false_iff] at hadd
        simp only [reduceCtorEq, exists_false, false_iff]
        rintro ⟨-, ⟨hnodup, -⟩, hdisjoint, -⟩
        exact hadd ⟨hnodup, hdisjoint⟩
      | ok tags' =>
        obtain ⟨hnodup, hdisjoint⟩ := hadd.mp ⟨tags', hadded⟩
        have hkeys := addBatch_keys hadded
        have hboth : List.Disjoint (tags'.map Prod.fst) (tagsOf (pool config response rest)) ↔
            List.Disjoint (tags.map Prod.fst) (tagsOf (pool config response rest)) ∧
              List.Disjoint (tagsOf (contribution config response input)) (tagsOf (pool config response rest)) := by
          simp only [List.Disjoint, hkeys, or_imp, forall_and]
        have hrest := @ih tags' (List.subset_of_cons_subset hsub)
        rw [hboth] at hrest
        dsimp only
        cases hmore : assembleFrom config response rest tags' with
        | error failure =>
          rw [hmore] at hrest
          simp only [reduceCtorEq, exists_false, false_iff] at hrest ⊢
          tauto
        | ok more =>
          rw [hmore] at hrest
          simp only [Except.ok.injEq, exists_eq', true_iff] at hrest ⊢
          tauto

/-- The assembly in terms of the contributions. -/
theorem assembleNodes_ok_iff {nodes : List RefinedNode} :
    assembleNodes config response = .ok nodes ↔
      (∀ input ∈ config.sources, Accepts config response input) ∧ (tagsOf (pool config response config.sources)).Nodup ∧
        nodes = pool config response config.sources := by
  have hiff := @assembleFrom_ok_iff _ config response _ [] (List.Subset.refl _)
  rw [List.map_nil, and_iff_left (List.disjoint_nil_left _)] at hiff
  constructor
  · intro h
    obtain ⟨haccepts, hnodup⟩ := hiff.mp ⟨nodes, h⟩
    exact ⟨haccepts, hnodup, assembleFrom_pool h⟩
  · rintro ⟨haccepts, hnodup, rfl⟩
    obtain ⟨nodes, h⟩ := hiff.mpr ⟨haccepts, hnodup⟩
    have hok : assembleNodes config response = .ok nodes := h
    rw [hok, assembleFrom_pool h]

/-! ### A response that is taken away -/

theorem pool_append (inputs more : List NodeSource) :
    pool config response (inputs ++ more) = pool config response inputs ++ pool config response more :=
  List.flatMap_append

theorem pool_singleton (input : NodeSource) : pool config response [input] = contribution config response input :=
  List.flatMap_singleton _ _

/-- The map without the answer of one source. -/
def without (source : RemoteSource) (response : RemoteSource → Option (List U8)) : RemoteSource → Option (List U8) :=
  fun other => if other = source then none else response other

theorem Accepts.without {input : NodeSource} (h : Accepts config response input) (source : RemoteSource) :
    Accepts config (without source response) input := by
  cases input with
  | manual node position => trivial
  | remote other position =>
    intro bytes hbytes
    unfold Nodes.without at hbytes
    split_ifs at hbytes
    exact h bytes hbytes

theorem pool_without {source : RemoteSource} {inputs : List NodeSource} (h : source ∉ remotes inputs) :
    pool config (without source response) inputs = pool config response inputs := by
  refine List.flatMap_congr fun input hin => ?_
  cases input with
  | manual node position => rfl
  | remote other position =>
    have hne : other ≠ source := by
      rintro rfl
      exact h (mem_remotes.mpr ⟨position, hin⟩)
    simp only [contribution, without, if_neg hne]

theorem pool_without_self (source : RemoteSource) (position : String) :
    pool config (without source response) [.remote source position] = [] := by
  simp [pool, contribution, without]

end Contributions

/-! ### Assembly of a parsed list -/

section Parsed

variable {lib : Libraries} {urls : UrlLibrary} {readFile : String → Except String (List U8)} {policy : NodePolicy}
  {top : List (String × TomlValue)} {sources : List NodeSource}

/-- The configuration that a parsed document gives. -/
def NodeConfig.ofParsed (h : parseNodes lib urls readFile policy top = .ok sources) : NodeConfig lib :=
  ⟨policy, sources, (parseNodes_ok h).1⟩

/-- **Assembly is exact.**  It succeeds if every answer that came is accepted and the tags are distinct, and then
gives the contributions in the order of the sources; without one of the answers it gives the same nodes but
those of that source; and no URL stands twice in the list. -/
theorem assembleNodes_exact (h : parseNodes lib urls readFile policy top = .ok sources)
    (response : RemoteSource → Option (List U8)) :
    ((∃ nodes, assembleNodes (.ofParsed h) response = .ok nodes) ↔
        (∀ source position, .remote source position ∈ sources → ∀ bytes, response source = some bytes →
          ∃ batch, policy.remote lib bytes = .ok batch) ∧
          (tagsOf (pool (.ofParsed h) response sources)).Nodup) ∧
      (∀ nodes, assembleNodes (.ofParsed h) response = .ok nodes → nodes = pool (.ofParsed h) response sources) ∧
      (∀ nodes source position before after, assembleNodes (.ofParsed h) response = .ok nodes →
        sources = before ++ .remote source position :: after →
          nodes = pool (.ofParsed h) response before ++ contribution (.ofParsed h) response (.remote source position) ++
              pool (.ofParsed h) response after ∧
            assembleNodes (.ofParsed h) (without source response) =
              .ok (pool (.ofParsed h) response before ++ pool (.ofParsed h) response after)) ∧
      ((remotes sources).map RemoteSource.url).Nodup := by
  refine ⟨?_, fun nodes hok => (assembleNodes_ok_iff.mp hok).2.2, ?_, parseNodes_urls h⟩
  · simp only [assembleNodes_ok_iff, exists_and_left, exists_eq, and_true]
    refine and_congr_left fun _ => ⟨fun hall source position hin => hall _ hin, fun hall input hin => ?_⟩
    cases input with
    | manual node position => trivial
    | remote source position => exact hall source position hin
  · intro nodes source position before after hok hsplit
    obtain ⟨haccepts, hnodup, rfl⟩ := assembleNodes_ok_iff.mp hok
    have hsources : (NodeConfig.ofParsed h).sources = before ++ ([.remote source position] ++ after) := hsplit
    rw [hsources, pool_append, pool_append] at hnodup ⊢
    -- the source stands in the list once
    have hunique : (remotes before ++ ([source] ++ remotes after)).Nodup := by
      have hall := (parseNodes_ok h).2.2
      rw [hsplit, remotes_append] at hall
      exact hall
    have hbefore : source ∉ remotes before := by
      intro hin
      exact (List.nodup_append'.mp hunique).2.2 hin (List.mem_append_left _ List.mem_cons_self)
    have hafter : source ∉ remotes after :=
      (List.nodup_cons.mp (List.nodup_append'.mp hunique).2.1).1
    have hpool : pool (.ofParsed h) (without source response) (NodeConfig.ofParsed h).sources =
        pool (.ofParsed h) response before ++ pool (.ofParsed h) response after := by
      rw [hsources, pool_append, pool_append, pool_without hbefore, pool_without hafter, pool_without_self,
        List.nil_append]
    refine ⟨by rw [List.append_assoc, pool_singleton], ?_⟩
    rw [assembleNodes_ok_iff, hpool]
    refine ⟨fun input hin => (haccepts input hin).without source, ?_, rfl⟩
    refine hnodup.sublist ?_
    rw [tagsOf_append, tagsOf_append, tagsOf_append]
    exact (List.Sublist.refl _).append (List.sublist_append_right _ _)

end Parsed

/-- One subscription, written twice. -/
def twiceListed : List (String × TomlValue) :=
  [("nodes", .table [("sources", .array [.str "https://example.invalid/sub", .str "https://example.invalid/sub"])])]

def exampleUrls : UrlLibrary := ⟨fun _ => some ("https", true), fun _ => "sub"⟩

theorem twiceListed_parsed :
    parseNodes twoDocuments exampleUrls (fun _ => .error "no file") oneRemote.policy twiceListed =
      .ok [.remote ⟨"https://example.invalid/sub", "sub"⟩ "nodes.sources entry 1"] := by
  rfl

theorem assembleNodes_exact_twice :
    assembleNodes (.ofParsed twiceListed_parsed) (without ⟨"https://example.invalid/sub", "sub"⟩
      fun _ => some (oneOutboundBytes "trojan" "old")) = .ok [] := by
  have hok : assembleNodes (.ofParsed twiceListed_parsed) (fun _ => some (oneOutboundBytes "trojan" "old")) =
      .ok [oneNode "trojan" "old"] := rfl
  exact ((assembleNodes_exact twiceListed_parsed _).2.2.1 _ _ _ [] [] hok rfl).2

end FluxRs.Nodes
