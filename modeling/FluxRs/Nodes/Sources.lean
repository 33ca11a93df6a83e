import FluxRs.Lib.Percent
import FluxRs.Nodes.Refine

/-!
# FluxRs.Nodes.Sources — node sources, and the nodes they contribute

`parse_subscription`, the tags of `parse_uri`, and `assemble_nodes`.  JSON, base64 and URL parsing are
libraries; of a URI the model keeps how its type and its tag are chosen.
-/

namespace FluxRs.Nodes

open FluxRs.Lib

/-! ### Libraries -/

/-- What the crates answer.  The fields of a scheme are those beyond type, tag, server and port. -/
structure Libraries where
  /-- `serde_json::from_slice`. -/
  fromSlice : List U8 → Except String Json
  /-- The four engines of `decode_base64`, in its order. -/
  base64Standard : List U8 → Except String (List U8)
  base64StandardNoPad : List U8 → Except String (List U8)
  base64UrlSafe : List U8 → Except String (List U8)
  base64UrlSafeNoPad : List U8 → Except String (List U8)
  /-- `form_urlencoded::parse` of one pair, as `decode_url_component` uses it. -/
  decodeUrlComponent : String → String
  decode_nonempty : ∀ raw, raw ≠ "" → decodeUrlComponent raw ≠ ""
  /-- `Url::parse`, `endpoint` and the fields of the scheme, with the fragment of the URL. -/
  url : (line scheme : String) → Except String (Option String × Json.Members)
  /-- The JSON object of a vmess payload, and the fields from it. -/
  vmess : (encoded : String) → Except String (Json.Members × Json.Members)
  /-- The credentials and the endpoint of an ss URI without its fragment. -/
  shadowsocks : (text : String) → Except String Json.Members

section Parse

variable (lib : Libraries)

/-! ### URIs -/

/-- `split_once`. -/
def splitOnce (pattern : List Char) : List Char → Option (List Char × List Char)
  | [] => if pattern = [] then some ([], []) else none
  | c :: text =>
    if pattern.isPrefixOf (c :: text) then some ([], (c :: text).drop pattern.length)
    else (splitOnce pattern text).map fun (before, after) => (c :: before, after)

/-- A text without the first character of the pattern is not cut. -/
theorem splitOnce_absent {c : Char} {text : List Char} (h : c ∉ text) (pattern : List Char) :
    splitOnce (c :: pattern) text = none := by
  induction text with
  | nil => rfl
  | cons d text ih =>
    rw [List.mem_cons, not_or] at h
    rw [splitOnce, if_neg, ih h.2]
    · rfl
    · simp [h.1]

theorem splitOnce_at {c : Char} {before : List Char} (h : c ∉ before) (pattern after : List Char) :
    splitOnce (c :: pattern) (before ++ c :: pattern ++ after) = some (before, after) := by
  induction before with
  | nil =>
    rw [List.nil_append, List.cons_append, splitOnce, if_pos (by simp), ← List.cons_append, List.drop_left]
  | cons d before ih =>
    rw [List.mem_cons, not_or] at h
    rw [List.cons_append, List.cons_append, splitOnce, if_neg, ih h.2]
    · rfl
    · simp [h.1]

theorem splitOnce_sound {pattern text before after : List Char} (h : splitOnce pattern text = some (before, after)) :
    text = before ++ pattern ++ after := by
  induction text generalizing before with
  | nil =>
    rw [splitOnce] at h
    split at h
    · rename_i hpattern
      obtain ⟨rfl, rfl⟩ := Prod.mk.inj (Option.some.inj h)
      rw [hpattern]
      rfl
    · cases h
  | cons c text ih =>
    rw [splitOnce] at h
    split at h
    · rename_i hfront
      obtain ⟨rfl, rfl⟩ := Prod.mk.inj (Option.some.inj h)
      exact (List.prefix_iff_eq_append.mp (List.isPrefixOf_iff_prefix.mp hfront)).symm
    · obtain ⟨⟨front, back⟩, hsplit, heq⟩ := Option.map_eq_some_iff.mp h
      obtain ⟨rfl, rfl⟩ := Prod.mk.inj heq
      rw [ih hsplit]
      rfl

/-- `base_outbound`, with the fields inserted after it. -/
def baseOutbound (kind tag : String) (fields : Json.Members) : Json.Members :=
  ("type", .str kind) :: ("tag", .str tag) :: fields

/-- `uri_tag`. -/
def uriTag (fragment : Option String) (fallback : String) : String :=
  ((fragment.map lib.decodeUrlComponent).filter (· ≠ "")).getD fallback

/-- `json_string`. -/
def jsonString (object : Json.Members) (key : String) : Option String :=
  match Assoc.get key object with
  | some (.str value) => some value
  | some (.number text) => some text
  | _ => none

def parseVmess (encoded : String) : Except String Json.Members :=
  match lib.vmess encoded with
  | .error error => .error error
  | .ok (source, fields) =>
    .ok (baseOutbound "vmess" (((jsonString source "ps").filter (· ≠ "")).getD "VMess") fields)

def parseShadowsocks (raw : String) : Except String Json.Members :=
  let (withoutFragment, fragment) := (splitOnce ['#'] raw.toList).getD (raw.toList, [])
  let tag := if fragment = [] then "shadowsocks" else lib.decodeUrlComponent (String.ofList fragment)
  match lib.shadowsocks (String.ofList withoutFragment) with
  | .error error => .error error
  | .ok fields => .ok (baseOutbound "shadowsocks" tag fields)

def parseUrlOutbound (line scheme : String) : Except String Json.Members :=
  match lib.url line scheme with
  | .error error => .error error
  | .ok (fragment, fields) =>
    .ok (baseOutbound (if scheme = "ss" then "shadowsocks" else scheme) (uriTag lib fragment scheme) fields)

/-- The schemes whose name is also the type. -/
def urlSchemes : List String := ["vless", "trojan", "hysteria", "hysteria2", "tuic", "socks", "http"]

def parseUri (line : String) : Except String Json.Members :=
  match splitOnce "://".toList line.toList with
  | none => .error "URI has no scheme separator"
  | some (scheme, rest) =>
    let scheme := String.ofList (scheme.map Char.toLower)
    if scheme = "vmess" then parseVmess lib (String.ofList rest)
    else if scheme = "ss" then parseShadowsocks lib (String.ofList rest)
    else if scheme = "hy2" then parseUrlOutbound lib line "hysteria2"
    else if scheme ∈ urlSchemes then parseUrlOutbound lib line scheme
    else .error ("unsupported URI scheme '" ++ scheme ++ "'")

/-! ### Responses -/

/-- `strip_utf8_bom`. -/
def stripUtf8Bom : List U8 → List U8
  | 0xEF :: 0xBB :: 0xBF :: rest => rest
  | bytes => bytes

/-- `u8::is_ascii_whitespace`. -/
def isAsciiWhitespace (byte : U8) : Bool :=
  byte == 0x20 || byte == 0x09 || byte == 0x0A || byte == 0x0C || byte == 0x0D

/-- `looks_like_json`: the first byte that is not blank opens an object or an array. -/
def looksLikeJson (bytes : List U8) : Bool :=
  match bytes.find? fun byte => !isAsciiWhitespace byte with
  | some byte => byte == 0x7B || byte == 0x5B
  | none => false

def jsonOutbounds (value : Json) : Except SubscriptionError (List Json) :=
  match value.asObject with
  | none => .error .jsonNotObject
  | some object =>
    match Assoc.get "outbounds" object with
    | none => .error .jsonOutboundsMissing
    | some outbounds =>
      match outbounds.asArray with
      | none => .error .jsonOutboundsNotArray
      | some items => .ok items

def decodeBase64 (input : List U8) : Except String (List U8) :=
  let compact := input.filter fun byte => !isAsciiWhitespace byte
  match lib.base64Standard compact with
  | .ok bytes => .ok bytes
  | .error _ =>
    match lib.base64StandardNoPad compact with
    | .ok bytes => .ok bytes
    | .error _ =>
      match lib.base64UrlSafe compact with
      | .ok bytes => .ok bytes
      | .error _ => lib.base64UrlSafeNoPad compact

/-- `str::from_utf8`. -/
def fromUtf8 (bytes : List U8) : Option String :=
  String.fromUTF8? ⟨(bytes.map UInt8.ofBitVec).toArray⟩

theorem fromUtf8_utf8 (text : List Char) : fromUtf8 (utf8 text) = some (String.ofList text) := by
  have hbytes : ((utf8 text).map UInt8.ofBitVec) = text.flatMap String.utf8EncodeChar := by
    unfold utf8 utf8Char
    rw [List.map_flatMap]
    refine congrArg (text.flatMap ·) (funext fun c => ?_)
    rw [List.map_map]
    exact List.map_id _
  have harray : (⟨(text.flatMap String.utf8EncodeChar).toArray⟩ : ByteArray) = (String.ofList text).toByteArray := by
    rw [String.toByteArray_ofList]
    exact ByteArray.ext List.data_toByteArray.symm
  unfold fromUtf8 String.fromUTF8?
  rw [hbytes, harray, dif_pos (String.ofList text).isValidUTF8]
  rfl

theorem fromUtf8_eq_some {bytes : List U8} {text : String} (h : fromUtf8 bytes = some text) : bytes = utf8 text.toList := by
  unfold fromUtf8 String.fromUTF8? at h
  split at h
  · have hbytes := congrArg String.toByteArray (Option.some.inj h)
    rw [← @String.ofList_toList text, String.toByteArray_ofList] at hbytes
    have hlist := congrArg (fun bytes => bytes.data.toList) hbytes
    rw [List.utf8Encode, List.data_toByteArray] at hlist
    have hbits : bytes.map UInt8.ofBitVec = text.toList.flatMap String.utf8EncodeChar := hlist
    have hutf8 : utf8 text.toList = (text.toList.flatMap String.utf8EncodeChar).map UInt8.toBitVec := by
      rw [List.map_flatMap]
      rfl
    rw [hutf8, ← hbits, List.map_map]
    exact (List.map_id bytes).symm
  · cases h

/-- `str::trim`. -/
def trim (text : List Char) : List Char :=
  ((text.dropWhile isWhitespace).reverse.dropWhile isWhitespace).reverse

/-- The loop over `list.lines()`; a trailing carriage return is blank, so that `trim` takes it too. -/
def parseLines : ℕ → List (List Char) → Except SubscriptionError (List Json)
  | _, [] => .ok []
  | line, raw :: rest =>
    let text := trim raw
    if text = [] ∨ text.head? = some '#' then parseLines (line + 1) rest
    else match parseUri lib (String.ofList text) with
      | .error reason => .error (.invalidUri line reason)
      | .ok object =>
        match parseLines (line + 1) rest with
        | .error error => .error error
        | .ok outbounds => .ok (.obj object :: outbounds)

/-- `parse_subscription`. -/
def parseSubscription (response : List U8) : Except SubscriptionError (List Json) :=
  let response := stripUtf8Bom response
  match lib.fromSlice response with
  | .ok value => jsonOutbounds value
  | .error error =>
    if looksLikeJson response then .error (.jsonSyntax error)
    else match decodeBase64 lib response with
      | .error error => .error (.invalidBase64 error)
      | .ok decoded =>
        match fromUtf8 (stripUtf8Bom decoded) with
        | none => .error .decodedListNotUtf8
        | some list => parseLines lib 1 (list.toList.splitOn '\n')

namespace NodePolicy

variable (policy : NodePolicy)

/-- One explicit URI, without provider cleanup. -/
def manual (uri : String) : Except String RefinedNode :=
  match parseUri lib uri with
  | .error error => .error error
  | .ok object => .ok ⟨.obj object, policy.groupsOf ((Json.getStr "tag" object).getD "")⟩

def remote (bytes : List U8) : Except SubscriptionError (List RefinedNode) :=
  match parseSubscription lib bytes with
  | .error error => .error error
  | .ok outbounds => policy.refine outbounds

end NodePolicy

end Parse

/-! ### The node configuration -/

structure RemoteSource where
  url : String
  id : String
  deriving DecidableEq

inductive NodeSource where
  | manual (node : RefinedNode) (position : String)
  | remote (source : RemoteSource) (position : String)

/-- `NodeConfig` as the parser builds it: a manual node is the node of some URI. -/
structure NodeConfig (lib : Libraries) where
  policy : NodePolicy
  sources : List NodeSource
  manual_parsed : ∀ node position, .manual node position ∈ sources → ∃ uri, policy.manual lib uri = .ok node

/-- A failed assembly: an error, or the panic of `expect("parsed node has tag")`. -/
inductive AssembleFailure where
  | error (error : SubscriptionError)
  | panic
  deriving DecidableEq

section Assemble

variable {lib : Libraries} (config : NodeConfig lib) (response : RemoteSource → Option (List U8))

/-- The first contributor of every tag. -/
abbrev TagTable := List (String × String)

/-- The inner loop of `assemble_nodes`. -/
def addBatch (position : String) : ℕ → List RefinedNode → TagTable →
    Except AssembleFailure TagTable
  | _, [], tags => .ok tags
  | index, node :: rest, tags =>
    let location := position ++ ", node " ++ toString (index + 1)
    match node.tag with
    | none => .error .panic
    | some tag =>
      match tags.find? fun entry => entry.1 == tag with
      | some first => .error (.error (.duplicateTag first.2 location))
      | none => addBatch position (index + 1) rest ((tag, location) :: tags)

/-- What one source contributes; a missing response is skipped. -/
def batchOf : NodeSource → Except SubscriptionError (List RefinedNode × String)
  | .manual node position => .ok ([node], position)
  | .remote source position =>
    match response source with
    | none => .ok ([], position)
    | some bytes =>
      match config.policy.remote lib bytes with
      | .error error => .error (.source position error)
      | .ok batch => .ok (batch, position)

/-- The outer loop of `assemble_nodes`. -/
def assembleFrom : List NodeSource → TagTable → Except AssembleFailure (List RefinedNode)
  | [], _ => .ok []
  | input :: rest, tags =>
    match batchOf config response input with
    | .error error => .error (.error error)
    | .ok (batch, position) =>
      match addBatch position 0 batch tags with
      | .error failure => .error failure
      | .ok tags =>
        match assembleFrom rest tags with
        | .error failure => .error failure
        | .ok nodes => .ok (batch ++ nodes)

def assembleNodes : Except AssembleFailure (List RefinedNode) :=
  assembleFrom config response config.sources []

/-! ### What the sources contribute -/

variable {config response}

/-- Every URI has a tag of its own. -/
theorem parseUri_tag {line : String} {object : Json.Members} (h : parseUri lib line = .ok object) :
    ∃ tag, Json.getStr "tag" object = some tag ∧ tag ≠ "" := by
  have hbase : ∀ kind tag fields, Json.getStr "tag" (baseOutbound kind tag fields) = some tag := by
    intro kind tag fields
    unfold Json.getStr baseOutbound
    rw [Assoc.get_cons_ne (by decide), Assoc.get_cons_self]
    rfl
  have hurl : ∀ {line scheme : String}, scheme ≠ "" → parseUrlOutbound lib line scheme = .ok object →
      ∃ tag, Json.getStr "tag" object = some tag ∧ tag ≠ "" := by
    intro line scheme hscheme h
    unfold parseUrlOutbound at h
    split at h
    · cases h
    · rename_i fragment fields _
      obtain rfl := Except.ok.inj h
      refine ⟨_, hbase _ _ _, ?_⟩
      unfold uriTag
      cases hf : (fragment.map lib.decodeUrlComponent).filter (· ≠ "") with
      | none => exact hscheme
      | some tag => exact of_decide_eq_true (Option.filter_eq_some_iff.mp hf).2
  unfold parseUri at h
  split at h
  · cases h
  · simp only at h
    split_ifs at h with hvmess hss hhy2 hscheme
    · unfold parseVmess at h
      split at h
      · cases h
      · rename_i source fields _
        obtain rfl := Except.ok.inj h
        refine ⟨_, hbase _ _ _, ?_⟩
        cases hf : (jsonString source "ps").filter (· ≠ "") with
        | none => exact (by decide : ("VMess" : String) ≠ "")
        | some tag => exact of_decide_eq_true (Option.filter_eq_some_iff.mp hf).2
    · unfold parseShadowsocks at h
      simp only at h
      split at h
      · cases h
      · obtain rfl := Except.ok.inj h
        refine ⟨_, hbase _ _ _, ?_⟩
        split_ifs with hfragment
        · decide
        · refine lib.decode_nonempty _ fun hempty => hfragment ?_
          have hlist := congrArg String.toList hempty
          rwa [String.toList_ofList] at hlist
    · exact hurl (by decide) h
    · refine hurl ?_ h
      intro hempty
      rw [hempty] at hscheme
      exact absurd hscheme (by decide)

/-- A manual node has a tag of its own. -/
theorem manual_tag {policy : NodePolicy} {uri : String} {node : RefinedNode}
    (h : policy.manual lib uri = .ok node) : ∃ tag, node.tag = some tag ∧ tag ≠ "" := by
  unfold NodePolicy.manual at h
  split at h
  · cases h
  · rename_i object hparse
    obtain rfl := Except.ok.inj h
    exact parseUri_tag hparse

/-- A nameless outbound among those of an answered source. -/
def NamelessIn (config : NodeConfig lib) (response : RemoteSource → Option (List U8)) (input : NodeSource) :
    Prop :=
  ∃ source position bytes outbounds, input = .remote source position ∧ response source = some bytes ∧
    parseSubscription lib bytes = .ok outbounds ∧ ∃ outbound ∈ outbounds, Nameless config.policy outbound

/-- The batch of a source: each node has a tag, and one is empty exactly if an outbound is nameless. -/
theorem batchOf_tags {input : NodeSource} (hin : input ∈ config.sources) {batch : List RefinedNode}
    {position : String} (h : batchOf config response input = .ok (batch, position)) :
    (∀ node ∈ batch, ∃ tag, node.tag = some tag) ∧
      ((∃ node ∈ batch, node.tag = some "") ↔ NamelessIn config response input) := by
  cases input with
  | manual node position' =>
    obtain ⟨uri, huri⟩ := config.manual_parsed node position' hin
    obtain ⟨tag, htag, hne⟩ := manual_tag huri
    obtain ⟨rfl, -⟩ := Prod.mk.inj (Except.ok.inj h)
    refine ⟨fun n hn => ⟨tag, by rwa [List.mem_singleton.mp hn]⟩, ⟨?_, ?_⟩⟩
    · rintro ⟨n, hn, hempty⟩
      rw [List.mem_singleton.mp hn, htag] at hempty
      exact absurd (Option.some.inj hempty) hne
    · rintro ⟨_, _, _, _, hinput, -⟩
      cases hinput
  | remote source position' =>
    simp only [batchOf] at h
    cases hresp : response source with
    | none =>
      rw [hresp] at h
      obtain ⟨rfl, -⟩ := Prod.mk.inj (Except.ok.inj h)
      refine ⟨fun n hn => (by cases hn), ⟨fun ⟨n, hn, _⟩ => (by cases hn), ?_⟩⟩
      rintro ⟨_, _, bytes, _, hinput, hsome, -⟩
      cases hinput
      rw [hresp] at hsome
      cases hsome
    | some bytes =>
      simp only [hresp, NodePolicy.remote] at h
      cases hparse : parseSubscription lib bytes with
      | error error =>
        rw [hparse] at h
        cases h
      | ok outbounds =>
        rw [hparse] at h
        simp only at h
        cases hrefine : config.policy.refine outbounds with
        | error error =>
          rw [hrefine] at h
          cases h
        | ok nodes =>
          rw [hrefine] at h
          obtain ⟨rfl, -⟩ := Prod.mk.inj (Except.ok.inj h)
          obtain ⟨htags, hempty⟩ := refine_tags hrefine
          refine ⟨htags, hempty.trans ⟨fun hno => ⟨source, position', bytes, outbounds, rfl, hresp, hparse, hno⟩, ?_⟩⟩
          rintro ⟨_, _, bytes', outbounds', hinput, hsome, hparse', hno⟩
          cases hinput
          obtain rfl := Option.some.inj (hresp.symm.trans hsome)
          obtain rfl := Except.ok.inj (hparse.symm.trans hparse')
          exact hno

theorem assembleFrom_tags : ∀ {inputs : List NodeSource} {tags : TagTable} {nodes : List RefinedNode},
    inputs ⊆ config.sources → assembleFrom config response inputs tags = .ok nodes →
      (∀ node ∈ nodes, ∃ tag, node.tag = some tag) ∧
        ((∃ node ∈ nodes, node.tag = some "") ↔ ∃ input ∈ inputs, NamelessIn config response input)
  | [], _, nodes, _, h => by
    obtain rfl := Except.ok.inj h
    simp
  | input :: rest, tags, nodes, hsub, h => by
    unfold assembleFrom at h
    cases hbatch : batchOf config response input with
    | error error =>
      rw [hbatch] at h
      cases h
    | ok result =>
      obtain ⟨batch, position⟩ := result
      rw [hbatch] at h
      simp only at h
      cases hadd : addBatch position 0 batch tags with
      | error failure =>
        rw [hadd] at h
        cases h
      | ok tags' =>
        rw [hadd] at h
        simp only at h
        cases hrest : assembleFrom config response rest tags' with
        | error failure =>
          rw [hrest] at h
          cases h
        | ok tail =>
          rw [hrest] at h
          obtain rfl := Except.ok.inj h
          obtain ⟨hb, hbe⟩ := batchOf_tags (hsub List.mem_cons_self) hbatch
          obtain ⟨ht, hte⟩ := assembleFrom_tags (List.subset_of_cons_subset hsub) hrest
          refine ⟨fun node hn => ?_, ?_⟩
          · rcases List.mem_append.mp hn with hn | hn
            · exact hb node hn
            · exact ht node hn
          · simp only [List.mem_append, or_and_right, exists_or, hbe, hte, List.mem_cons, exists_eq_left]

/-- The nodes of an assembly: each has a tag, and one is empty exactly if a source has a nameless
outbound. -/
theorem assembleNodes_tags {nodes : List RefinedNode} (h : assembleNodes config response = .ok nodes) :
    (∀ node ∈ nodes, ∃ tag, node.tag = some tag) ∧
      ((∃ node ∈ nodes, node.tag = some "") ↔ ∃ input ∈ config.sources, NamelessIn config response input) :=
  assembleFrom_tags (List.Subset.refl _) h

end Assemble

end FluxRs.Nodes
