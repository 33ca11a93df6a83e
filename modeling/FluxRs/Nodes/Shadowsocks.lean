import FluxRs.Lib.Base64
import FluxRs.Lib.Checked
import FluxRs.Nodes.Uri
import FluxRs.Net.TextRoundTrip

/-!
# FluxRs.Nodes.Shadowsocks — what a Shadowsocks link encodes

A link in each of its spellings, and the outbound that `parse_shadowsocks` reads back.  The separators are
searched in text that may contain them: an at sign in the query is taken for the one behind the
credentials, and a plus sign in the plugin is read as a blank.
-/

namespace FluxRs.Nodes

open FluxRs.Lib FluxRs.Net

namespace Uri

/-! ### Separators -/

theorem splitOnce_none {c : Char} {text : List Char} (h : c ∉ text) : splitOnce [c] text = none := by
  induction text with
  | nil => rfl
  | cons d text ih =>
    rw [List.mem_cons, not_or] at h
    rw [splitOnce, if_neg, ih h.2]
    · rfl
    · simpa using h.1

theorem splitOnce_first {c : Char} {before : List Char} (h : c ∉ before) (after : List Char) :
    splitOnce [c] (before ++ c :: after) = some (before, after) := by
  induction before with
  | nil => simp [splitOnce]
  | cons d before ih =>
    rw [List.mem_cons, not_or] at h
    rw [List.cons_append, splitOnce, if_neg, ih h.2]
    · rfl
    · simpa using h.1

/-- A text is cut at the first separator there is. -/
theorem splitOnce_eq (c : Char) (text : List Char) :
    (splitOnce [c] text).getD (text, []) = (text.takeWhile (· ≠ c), (text.dropWhile (· ≠ c)).drop 1) := by
  induction text with
  | nil => rfl
  | cons d text ih =>
    by_cases hd : d = c
    · subst hd
      simp [splitOnce]
    · have hsplit : splitOnce [c] (d :: text) = (splitOnce [c] text).map fun parts => (d :: parts.1, parts.2) := by
        rw [splitOnce, if_neg]
        simpa using Ne.symm hd
      rw [hsplit, List.takeWhile_cons_of_pos (by simpa using hd), List.dropWhile_cons_of_pos (by simpa using hd)]
      cases hrest : splitOnce [c] text with
      | none =>
        rw [hrest] at ih
        obtain ⟨htake, hdrop⟩ := Prod.mk.inj ih
        exact Prod.ext (congrArg (d :: ·) htake) hdrop
      | some parts =>
        rw [hrest] at ih
        obtain ⟨htake, hdrop⟩ := Prod.mk.inj ih
        exact Prod.ext (congrArg (d :: ·) htake) hdrop

theorem splitOnce_scheme (rest : List Char) :
    splitOnce "://".toList ("ss://".toList ++ rest) = some ("ss".toList, rest) := rfl

theorem rsplitAt_none {text : List Char} (h : '@' ∉ text) : rsplitAt text = none := if_neg h

theorem rsplitAt_last {after : List Char} (h : '@' ∉ after) (before : List Char) :
    rsplitAt (before ++ '@' :: after) = some (before, after) := by
  have htail : ((before ++ '@' :: after).reverse.takeWhile (· ≠ '@')).reverse = after := by
    have hall : ∀ c ∈ after.reverse, decide (c ≠ '@') = true := by
      intro c hc
      refine decide_eq_true ?_
      rintro rfl
      exact h (List.mem_reverse.mp hc)
    rw [List.reverse_append, List.reverse_cons, List.append_assoc, List.takeWhile_append_of_pos hall]
    simp
  unfold rsplitAt
  rw [if_pos (by simp)]
  simp only [htail]
  have hlen : (before ++ '@' :: after).length - after.length - 1 = before.length := by
    rw [List.length_append, List.length_cons]
    omega
  rw [hlen, List.take_left]

/-! ### The crates -/

def urlSafe : Engine → Bool
  | .standard | .standardNoPad => false
  | .urlSafe | .urlSafeNoPad => true

def padded : Engine → Bool
  | .standard | .urlSafe => true
  | .standardNoPad | .urlSafeNoPad => false

/-- The text of one engine. -/
def base64Text (engine : Engine) (bytes : List U8) : List Char := Base64.encode (urlSafe engine) (padded engine) bytes

/-- The crates decode as specified: an engine accepts its own encodings alone, and a form is cut and decoded as the
URL standard says. -/
structure Specified (crates : Crates) (decoder : TextDecoder) : Prop where
  base64 : ∀ engine text bytes, crates.base64 engine text = .ok bytes ↔ text = utf8 (base64Text engine bytes)
  form : ∀ query, crates.formParse query =
    (Percent.formParse decoder query.toList).map fun pair => (String.ofList pair.1, String.ofList pair.2)

section Crates

variable {crates : Crates} {decoder : TextDecoder} (spec : Specified crates decoder)

/-! ### Components -/

theorem protect_append (text more : List Char) : protect (text ++ more) = protect text ++ protect more := by
  simp only [protect, replace, List.flatMap_append]

theorem protect_cons {c : Char} (h : c ≠ '+' ∧ c ≠ '&' ∧ c ≠ '=') (text : List Char) :
    protect (c :: text) = c :: protect text := by
  have hc : protect [c] = [c] := by
    simp [protect, replace, h]
  rw [← List.singleton_append, protect_append, hc]
  rfl

/-- The escape of one byte, as `%2B` and its like are written. -/
theorem escapes_one (c : Char) {high low : Char} (h : (Percent.escaped high low).map (fun byte => [byte]) = some (utf8Char c)) :
    Percent.Escapes ['%', high, low] (utf8Char c) := by
  obtain ⟨byte, hbyte, heq⟩ := Option.map_eq_some_iff.mp h
  rw [← heq]
  exact .cons hbyte .nil

theorem spells_protect {encoded text : List Char} (h : Percent.Spells encoded text) :
    Percent.Spells (protect encoded) text := by
  refine ((h.replace (by decide) (by decide) ?_).replace (by decide) (by decide) ?_).replace (by decide) (by decide) ?_
  · exact escapes_one '+' (by decide)
  · exact escapes_one '&' (by decide)
  · exact escapes_one '=' (by decide)

theorem not_mem_replace {c : Char} {by_ : String} (h : c ∉ by_.toList) (text : List Char) : c ∉ replace c by_ text := by
  unfold replace
  rw [List.mem_flatMap]
  rintro ⟨x, -, hx⟩
  split_ifs at hx with hxc
  · exact h hx
  · exact hxc (List.mem_singleton.mp hx).symm

theorem not_mem_replace_of {c d : Char} {by_ : String} (h : d ∉ by_.toList) {text : List Char} (hd : d ∉ text) :
    d ∉ replace c by_ text := by
  unfold replace
  rw [List.mem_flatMap]
  rintro ⟨x, hx, hmem⟩
  split_ifs at hmem
  · exact h hmem
  · rw [List.mem_singleton.mp hmem] at hd
    exact hd hx

theorem protect_plain (text : List Char) : '+' ∉ protect text ∧ '&' ∉ protect text := by
  refine ⟨?_, ?_⟩
  · exact not_mem_replace_of (by decide) (not_mem_replace_of (by decide) (not_mem_replace (by decide) _))
  · exact not_mem_replace_of (by decide) (not_mem_replace (by decide) _)

/-- The form decoder sees one pair, whose value is the component. -/
theorem formParse_value (decoder : TextDecoder) {text : List Char} (hplus : '+' ∉ text) (hand : '&' ∉ text) :
    Percent.formParse decoder ("value=".toList ++ text) =
      [(Percent.component decoder "value".toList, decoder.decode (Percent.decode text))] := by
  have hnot : '&' ∉ "value=".toList ++ text := by
    rw [List.mem_append, not_or]
    exact ⟨by decide, hand⟩
  have hsame : Percent.plusToSpace text = text := by
    refine (List.map_congr_left fun c hc => ?_).trans (List.map_id' text)
    rw [if_neg]
    rintro rfl
    exact hplus hc
  unfold Percent.formParse
  rw [List.splitOn_eq_singleton hnot]
  have htake : ("value=".toList ++ text).takeWhile (· ≠ '=') = "value".toList := by
    simp
  have hdrop : (("value=".toList ++ text).dropWhile (· ≠ '=')).drop 1 = text := by
    simp
  simp only [List.filter_cons, List.filter_nil]
  rw [if_pos (by simp), List.map_cons, List.map_nil, htake, hdrop]
  rw [Percent.component, Percent.component, hsame]

include spec in
theorem decodeUrlComponent_eq (raw : List Char) :
    decodeUrlComponent crates (String.ofList raw) = String.ofList (decoder.decode (Percent.decode (protect raw))) := by
  obtain ⟨hplus, hand⟩ := protect_plain raw
  have htext : ("value=" ++ String.ofList (protect (String.ofList raw).toList)).toList = "value=".toList ++ protect raw := by
    rw [String.toList_append, String.toList_ofList (l := raw), String.toList_ofList (l := protect raw)]
  unfold decodeUrlComponent
  rw [spec.form, htext, formParse_value decoder hplus hand]
  rfl

include spec in
/-- An encoding at the front is decoded whatever follows it. -/
theorem decodeUrlComponent_append {encoded text : List Char} (h : Percent.Spells encoded text) (more : List Char) :
    ∃ tail, decodeUrlComponent crates (String.ofList (encoded ++ more)) = String.ofList (text ++ tail) ∧
      tail = decoder.decode (Percent.decode (protect more)) := by
  refine ⟨_, ?_, rfl⟩
  rw [decodeUrlComponent_eq spec, protect_append, (spells_protect h).decode_append, decoder.utf8_append]

include spec in
theorem decodeUrlComponent_spells {encoded text : List Char} (h : Percent.Spells encoded text) :
    decodeUrlComponent crates (String.ofList encoded) = String.ofList text := by
  obtain ⟨tail, heq, rfl⟩ := decodeUrlComponent_append spec h []
  rw [List.append_nil] at heq
  rw [heq]
  change String.ofList (text ++ decoder.decode []) = String.ofList text
  rw [decoder.nil, List.append_nil]

/-! ### Base64 -/

/-- The bytes that a base64 text may have: no blank, and no separator. -/
def isTextByte (byte : U8) : Bool := !isAsciiWhitespace byte && byte != 0x40 && byte != 0x3F

theorem isTextByte_of_symbol {c : Char} (h : Base64.IsSymbol c) : ∀ byte ∈ utf8Char c, isTextByte byte = true := by
  have hall : ∀ n < 128, ((Base64.value (Char.ofNat n)).isSome = true ∨ Char.ofNat n = '=') →
      isTextByte (BitVec.ofNat 8 n) = true := by decide +kernel
  have hascii : c.toNat < 128 := by
    rcases h with h | rfl
    · by_contra hlarge
      have hnone : Base64.value c = none := by
        have hrange : ∀ d : Char, d.toNat < 128 → ¬c ≤ d ∧ c ≠ d := by
          intro d hd
          refine ⟨fun hle => ?_, ?_⟩
          · have hnat : c.toNat ≤ d.toNat := hle
            omega
          · rintro rfl
            exact hlarge hd
        unfold Base64.value
        rw [if_neg fun h => (hrange 'Z' (by decide)).1 h.2, if_neg fun h => (hrange 'z' (by decide)).1 h.2,
          if_neg fun h => (hrange '9' (by decide)).1 h.2, if_neg, if_neg]
        · rintro (h | h)
          · exact (hrange '/' (by decide)).2 h
          · exact (hrange '_' (by decide)).2 h
        · rintro (h | h)
          · exact (hrange '+' (by decide)).2 h
          · exact (hrange '-' (by decide)).2 h
      rw [hnone] at h
      cases h
    · decide
  have hc := hall c.toNat hascii
  rw [Char.ofNat_toNat] at hc
  intro byte hbyte
  rw [utf8Char_ascii hascii, List.mem_singleton] at hbyte
  rw [hbyte]
  exact hc h

theorem isTextByte_base64Text (engine : Engine) (bytes : List U8) :
    ∀ byte ∈ utf8 (base64Text engine bytes), isTextByte byte = true := by
  intro byte hbyte
  obtain ⟨c, hc, hmem⟩ := List.mem_flatMap.mp hbyte
  exact isTextByte_of_symbol (Base64.isSymbol_of_mem c hc) byte hmem

theorem utf8_injective (decoder : TextDecoder) {text text' : List Char} (h : utf8 text = utf8 text') : text = text' := by
  have hdecode := congrArg decoder.decode h
  rwa [decoder.utf8, decoder.utf8] at hdecode

include spec in
/-- No two engines read one text in different ways. -/
theorem base64_cases (engine other : Engine) (bytes : List U8) :
    crates.base64 other (utf8 (base64Text engine bytes)) = .ok bytes ∨
      (other ≠ engine ∧ ∃ error, crates.base64 other (utf8 (base64Text engine bytes)) = .error error) := by
  cases h : crates.base64 other (utf8 (base64Text engine bytes)) with
  | ok bytes' =>
    have htext := utf8_injective decoder ((spec.base64 _ _ _).mp h)
    rw [Base64.encode_inj htext]
    exact .inl rfl
  | error error =>
    refine .inr ⟨?_, error, rfl⟩
    rintro rfl
    rw [(spec.base64 _ _ _).mpr rfl] at h
    cases h

include spec in
theorem decodeBase64_base64Text (engine : Engine) (bytes : List U8) :
    decodeBase64 crates (utf8 (base64Text engine bytes)) = .ok bytes := by
  have hcompact : (utf8 (base64Text engine bytes)).filter (fun byte => !isAsciiWhitespace byte) =
      utf8 (base64Text engine bytes) := by
    refine List.filter_eq_self.mpr fun byte hbyte => ?_
    have h := isTextByte_base64Text engine bytes byte hbyte
    simp only [isTextByte, Bool.and_eq_true] at h
    exact h.1.1
  unfold decodeBase64
  rw [hcompact]
  simp only
  obtain h1 | ⟨hne1, e1, h1⟩ := base64_cases spec engine .standard bytes
  · rw [h1]
  rw [h1]
  obtain h2 | ⟨hne2, e2, h2⟩ := base64_cases spec engine .standardNoPad bytes
  · rw [h2]
  rw [h2]
  obtain h3 | ⟨hne3, e3, h3⟩ := base64_cases spec engine .urlSafe bytes
  · rw [h3]
  rw [h3]
  obtain h4 | ⟨hne4, e4, h4⟩ := base64_cases spec engine .urlSafeNoPad bytes
  · rw [h4]
  · cases engine <;> contradiction

include spec in
/-- A text with a separator in it is no base64. -/
theorem decodeBase64_separator {text : List U8} {byte : U8} (hmem : byte ∈ text) (hbyte : byte = 0x40 ∨ byte = 0x3F)
    (bytes : List U8) : decodeBase64 crates text ≠ .ok bytes := by
  have hkept : byte ∈ text.filter fun byte => !isAsciiWhitespace byte := by
    refine List.mem_filter.mpr ⟨hmem, ?_⟩
    rcases hbyte with rfl | rfl <;> decide
  have hnone : ∀ engine bytes, crates.base64 engine (text.filter fun byte => !isAsciiWhitespace byte) ≠ .ok bytes := by
    intro engine bytes h
    rw [(spec.base64 _ _ _).mp h] at hkept
    have htext := isTextByte_base64Text engine bytes byte hkept
    rcases hbyte with rfl | rfl
    · exact absurd htext (by decide)
    · exact absurd htext (by decide)
  intro h
  unfold decodeBase64 at h
  simp only at h
  split at h
  · rename_i heq
    exact hnone _ _ heq
  · split at h
    · rename_i heq
      exact hnone _ _ heq
    · split at h
      · rename_i heq
        exact hnone _ _ heq
      · exact hnone _ _ h

include spec in
theorem decodeBase64Text_base64Text (engine : Engine) (text : List Char) (what : String) :
    decodeBase64Text crates (String.ofList (base64Text engine (utf8 text))) what = .ok (String.ofList text) := by
  unfold decodeBase64Text asBytes
  rw [String.toList_ofList, decodeBase64_base64Text spec]
  simp only
  rw [fromUtf8_utf8]

include spec in
theorem decodeBase64Text_separator {text : List Char} (hmem : '@' ∈ text ∨ '?' ∈ text) (what result : String) :
    decodeBase64Text crates (String.ofList text) what ≠ .ok result := by
  have hbyte : ∃ byte ∈ utf8 text, byte = 0x40 ∨ byte = 0x3F := by
    rcases hmem with h | h
    · exact ⟨0x40, List.mem_flatMap.mpr ⟨'@', h, by decide⟩, .inl rfl⟩
    · exact ⟨0x3F, List.mem_flatMap.mpr ⟨'?', h, by decide⟩, .inr rfl⟩
  obtain ⟨byte, hin, hbyte⟩ := hbyte
  intro h
  unfold decodeBase64Text asBytes at h
  rw [String.toList_ofList] at h
  split at h
  · cases h
  · rename_i bytes hbytes
    exact decodeBase64_separator spec hin hbyte bytes hbytes

end Crates

/-! ### Links -/

/-- A server as it is written: a name, or an IPv6 address in brackets. -/
structure Server where
  text : List Char
  host : Host
  written : (host = .domain (String.ofList text) ∧ text ≠ []) ∨
    ∃ addr literal, host = .ipv6 addr ∧ text = '[' :: literal ++ [']'] ∧ parseIpv6Addr literal = some addr
  plain : '@' ∉ text ∧ '#' ∉ text

/-- What a link says, with the query and the fragment as they are written. -/
structure Link where
  method : List Char
  password : List Char
  server : Server
  port : ℕ
  query : Option (List Percent.Param)
  tag : List Char
  fragment : Option (List Char)
  method_ne : method ≠ []
  method_plain : ':' ∉ method
  password_ne : password ≠ []
  port_range : 0 < port ∧ port < 65536
  query_plain : '#' ∉ Percent.queryText (query.getD [])
  tag_spelled : Percent.Spells (fragment.getD []) tag

/-- A query behind its question mark, a fragment behind its number sign. -/
def suffix (mark : Char) : Option (List Char) → List Char
  | none => []
  | some text => mark :: text

namespace Link

variable (link : Link)

def params : List Percent.Param := link.query.getD []

def credentials : List Char := link.method ++ ':' :: link.password

def endpointText : List Char := link.server.text ++ ':' :: Nat.toDigits 10 link.port

def queryText : List Char := Percent.queryText link.params

def querySuffix : List Char := suffix '?' (link.query.map fun _ => link.queryText)

def fragmentSuffix : List Char := suffix '#' link.fragment

/-- The spellings of the credentials and the endpoint: base64 or percent-encoded credentials before the endpoint, or
base64 of both. -/
inductive Spelling : List Char → Prop
  | base64 (engine : Engine) {userinfo : List Char} :
      Percent.Spells userinfo (base64Text engine (utf8 link.credentials)) → '@' ∉ userinfo → '#' ∉ userinfo →
      Spelling (userinfo ++ '@' :: link.endpointText)
  | percent {userinfo : List Char} :
      Percent.Spells userinfo link.credentials → '@' ∉ userinfo → '#' ∉ userinfo →
      Spelling (userinfo ++ '@' :: link.endpointText)
  | legacy (engine : Engine) :
      Spelling (base64Text engine (utf8 (link.credentials ++ '@' :: link.endpointText)))

def line (body : List Char) : String :=
  String.ofList ("ss://".toList ++ body ++ link.querySuffix ++ link.fragmentSuffix)

end Link

/-- The key of the plugin, in any case. -/
def isPlugin (name : List Char) : Bool := name.map Char.toLower == "plugin".toList

namespace Link

variable (link : Link)

def pluginParam : Option Percent.Param := link.params.find? fun param => isPlugin param.name

def plugin : Option (List Char) := link.pluginParam.map Percent.Param.value

/-- **The outbound says what the link says**: the plugin up to its first semicolon and the options behind it. -/
structure Yields (outbound : Json.Members) : Prop where
  kind : Assoc.get "type" outbound = some (.str "shadowsocks")
  tag : Assoc.get "tag" outbound = some (.str (if link.tag = [] then "shadowsocks" else String.ofList link.tag))
  server : Assoc.get "server" outbound = some (.str (Host.text link.server.host))
  port : Assoc.get "server_port" outbound = some (.number (toString link.port))
  method : Assoc.get "method" outbound = some (.str (String.ofList link.method))
  password : Assoc.get "password" outbound = some (.str (String.ofList link.password))
  plugin : Assoc.get "plugin" outbound =
    ((link.plugin.map (·.takeWhile (· ≠ ';'))).filter (· ≠ [])).map fun name => .str (String.ofList name)
  options : Assoc.get "plugin_opts" outbound =
    ((link.plugin.map fun value => (value.dropWhile (· ≠ ';')).drop 1).filter (· ≠ [])).map fun options =>
      .str (String.ofList options)

/-- No at sign stands in the query as itself, and no plus sign in the value of the plugin. -/
def Plain : Prop :=
  '@' ∉ link.queryText ∧ ∀ param, link.pluginParam = some param → '+' ∉ param.valueText.getD []

/-- The URL crate reads the endpoint of the link: its host, its port and its query. -/
def EndpointRead (crates : Crates) : Prop :=
  ∀ query : Option (List Char), query.getD [] = link.queryText →
    ∃ url, crates.urlParse ("ss://placeholder@" ++ String.ofList (link.endpointText ++ suffix '?' query)) = .ok url ∧
      url.host = some link.server.host ∧ url.portOrKnownDefault = some link.port ∧
      url.query.getD "" = String.ofList link.queryText

end Link

section Read

variable {crates : Crates} {decoder : TextDecoder} (spec : Specified crates decoder) (link : Link)

/-! ### The query -/

theorem eqIgnoreAsciiCase_plugin (name : List Char) :
    eqIgnoreAsciiCase (String.ofList name) "plugin" = isPlugin name := by
  unfold eqIgnoreAsciiCase isPlugin
  rw [String.toList_ofList]
  rfl

/-- A plus sign read as a blank does not change which parameter is the plugin. -/
theorem isPlugin_blanked {name blanked : List Char} (h : Percent.Blanked name blanked) :
    isPlugin blanked = isPlugin name := by
  have hnot : ∀ {text : List Char} {c : Char}, c.toLower ∉ "plugin".toList → isPlugin text = true → c ∉ text := by
    intro text c hc hplugin hmem
    have hlower : c.toLower ∈ text.map Char.toLower := List.mem_map_of_mem hmem
    rw [eq_of_beq hplugin] at hlower
    exact hc hlower
  rw [Bool.eq_iff_iff]
  constructor
  · intro hplugin
    rwa [← h.eq_of_blank (hnot (by decide) hplugin)]
  · intro hplugin
    rwa [h.eq_of_plus (hnot (by decide) hplugin)]

theorem spells_nil {text : List Char} (h : Percent.Spells [] text) : text = [] := by
  have hdecode := h.decode_eq
  cases text with
  | nil => rfl
  | cons c text =>
    have hlen := congrArg List.length hdecode
    have hpos := length_utf8Char_pos c
    rw [utf8_cons, List.length_append] at hlen
    simp only [Percent.decode, List.length_nil] at hlen
    omega

/-- The plugin as the form decoder reads it. -/
def pluginRead (decoder : TextDecoder) : Option (List Char) :=
  link.pluginParam.map fun param => Percent.component decoder (param.valueText.getD [])

include spec in
theorem queryValue_plugin {url : Url} (h : url.query.getD "" = String.ofList link.queryText) :
    queryValue crates url ["plugin"] = (pluginRead link decoder).map String.ofList := by
  have hpairs : queryPairs crates url = (link.params.filter fun param => param.text ≠ []).map fun param =>
      (String.ofList (Percent.component decoder param.nameText),
        String.ofList (Percent.component decoder (param.valueText.getD []))) := by
    rw [queryPairs, h, spec.form, String.toList_ofList, Link.queryText, Percent.formParse_queryText, List.map_map]
    rfl
  have hname : ∀ param : Percent.Param,
      isPlugin (Percent.component decoder param.nameText) = isPlugin param.name := fun param =>
    isPlugin_blanked (param.name_spelled.component decoder).1
  have hfind : ∀ params : List Percent.Param,
      (params.filter fun param => param.text ≠ []).find? (fun param => isPlugin param.name) =
        params.find? fun param => isPlugin param.name := by
    intro params
    rw [List.find?_filter]
    refine List.find?_congr fun param _ => ?_
    by_cases hplugin : isPlugin param.name = true
    · rw [hplugin]
      refine decide_eq_true ⟨decide_eq_true fun hempty => ?_, rfl⟩
      have hnameText : param.nameText = [] := by
        rw [← param.cut_text.1, hempty]
        rfl
      have hspelled := param.name_spelled
      rw [hnameText] at hspelled
      rw [spells_nil hspelled] at hplugin
      exact absurd hplugin (by decide)
    · rw [Bool.eq_false_iff.mpr hplugin]
      exact decide_eq_false fun hboth => Bool.false_ne_true hboth.2
  have hpred : ((fun pair : String × String => ["plugin"].any fun name => eqIgnoreAsciiCase pair.1 name) ∘
      fun param : Percent.Param => (String.ofList (Percent.component decoder param.nameText),
        String.ofList (Percent.component decoder (param.valueText.getD [])))) = fun param => isPlugin param.name := by
    funext param
    simp only [Function.comp_apply, List.any_cons, List.any_nil, Bool.or_false]
    rw [eqIgnoreAsciiCase_plugin, hname]
  unfold queryValue pluginRead Link.pluginParam
  rw [hpairs, List.find?_map, hpred, hfind, Option.map_map, Option.map_map]
  rfl

/-! ### The outbound -/

theorem text_filter_inj {text text' : Option (List Char)}
    (h : (text.filter (· ≠ [])).map (fun name => Json.str (String.ofList name)) =
      (text'.filter (· ≠ [])).map fun name => Json.str (String.ofList name)) :
    text.getD [] = text'.getD [] := by
  have hinj : Function.Injective fun name : List Char => Json.str (String.ofList name) := by
    intro name name' heq
    have hlist := congrArg String.toList (Json.str.inj heq)
    rwa [String.toList_ofList (l := name), String.toList_ofList (l := name')] at hlist
  have hfilter := Option.map_injective hinj h
  have hget : ∀ text : Option (List Char), (text.filter (· ≠ [])).getD [] = text.getD [] := by
    intro text
    cases text with
    | none => rfl
    | some text =>
      by_cases hempty : text = []
      · subst hempty
        rfl
      · rw [Option.filter_some_pos (by simpa using hempty)]
  rw [← hget text, ← hget text', hfilter]

/-- The two parts of a value determine it among those of its length. -/
theorem parts_inj {value value' : List Char} (hlen : value.length = value'.length)
    (htake : value.takeWhile (· ≠ ';') = value'.takeWhile (· ≠ ';'))
    (hdrop : (value.dropWhile (· ≠ ';')).drop 1 = (value'.dropWhile (· ≠ ';')).drop 1) : value = value' := by
  have hdropLen : (value.dropWhile (· ≠ ';')).length = (value'.dropWhile (· ≠ ';')).length := by
    have h := congrArg List.length (List.takeWhile_append_dropWhile (p := (· ≠ ';')) (l := value))
    have h' := congrArg List.length (List.takeWhile_append_dropWhile (p := (· ≠ ';')) (l := value'))
    rw [List.length_append] at h h'
    rw [htake] at h
    omega
  have hhead : ∀ text : List Char, text.dropWhile (· ≠ ';') = [] ∨
      text.dropWhile (· ≠ ';') = ';' :: (text.dropWhile (· ≠ ';')).drop 1 := by
    intro text
    cases h : text.dropWhile (· ≠ ';') with
    | nil => exact .inl rfl
    | cons c rest =>
      have hc := List.head_dropWhile_not (p := (· ≠ ';')) (l := text) (by rw [h]; exact List.cons_ne_nil _ _)
      simp only [h, List.head_cons] at hc
      have hsemicolon : c = ';' := by simpa using hc
      rw [hsemicolon]
      exact .inr rfl
  have hsame : value.dropWhile (· ≠ ';') = value'.dropWhile (· ≠ ';') := by
    rcases hhead value with h | h
    · rw [h] at hdropLen ⊢
      exact (List.length_eq_zero_iff.mp hdropLen.symm).symm
    · rcases hhead value' with h' | h'
      · rw [h'] at hdropLen ⊢
        exact List.length_eq_zero_iff.mp hdropLen
      · rw [h, h', hdrop]
  calc value = value.takeWhile (· ≠ ';') ++ value.dropWhile (· ≠ ';') := List.takeWhile_append_dropWhile.symm
    _ = value'.takeWhile (· ≠ ';') ++ value'.dropWhile (· ≠ ';') := by rw [htake, hsame]
    _ = value' := List.takeWhile_append_dropWhile

/-- What the plugin puts into an outbound. -/
structure PluginOf (value : Option (List Char)) (outbound : Json.Members) : Prop where
  plugin : Assoc.get "plugin" outbound =
    ((value.map (·.takeWhile (· ≠ ';'))).filter (· ≠ [])).map fun name => .str (String.ofList name)
  options : Assoc.get "plugin_opts" outbound =
    ((value.map fun value => (value.dropWhile (· ≠ ';')).drop 1).filter (· ≠ [])).map fun options =>
      .str (String.ofList options)

theorem nonEmpty_ofList (text : List Char) :
    (nonEmpty (some (String.ofList text))).map Json.str =
      ((some text).filter (· ≠ [])).map fun name => Json.str (String.ofList name) := by
  by_cases h : text = []
  · subst h
    rfl
  · have hne : String.ofList text ≠ "" := by
      intro hempty
      have hlist := congrArg String.toList hempty
      rw [String.toList_ofList (l := text)] at hlist
      exact h hlist
    rw [nonEmpty, Option.filter_some_pos (by simpa using hne), Option.filter_some_pos (by simpa using h)]
    rfl

theorem insertPlugin_of (value : Option (List Char)) {outbound : Json.Members}
    (hplugin : Assoc.get "plugin" outbound = none) (hoptions : Assoc.get "plugin_opts" outbound = none) :
    PluginOf value (insertPlugin (value.map String.ofList) outbound) := by
  cases value with
  | none => exact ⟨hplugin, hoptions⟩
  | some value =>
    rw [Option.map_some, insertPlugin]
    simp only
    rw [String.toList_ofList, splitOnce_eq, nonEmpty_ofList, nonEmpty_ofList]
    refine ⟨?_, ?_⟩
    · rw [get_insertSome_ne (by decide)]
      exact get_insertSome_self _ _ hplugin
    · refine get_insertSome_self _ _ ?_
      rw [get_insertSome_ne (by decide), hoptions]

theorem insertPlugin_get_ne {key : String} (h : key ≠ "plugin" ∧ key ≠ "plugin_opts") (value : Option String)
    (outbound : Json.Members) : Assoc.get key (insertPlugin value outbound) = Assoc.get key outbound := by
  cases value with
  | none => rfl
  | some value =>
    rw [insertPlugin]
    simp only
    rw [get_insertSome_ne (Ne.symm h.2), get_insertSome_ne (Ne.symm h.1)]

/-- The outbound of a link before its plugin. -/
def linkBase (tag : String) : Json.Members :=
  Assoc.set "password" (.str (String.ofList link.password)) (Assoc.set "method" (.str (String.ofList link.method))
    (baseOutbound "shadowsocks" tag (Host.text link.server.host) link.port))

/-- The tag of a link, or the fallback. -/
def linkTag : String := if link.tag = [] then "shadowsocks" else String.ofList link.tag

theorem linkBase_plugin (tag : String) :
    Assoc.get "plugin" (linkBase link tag) = none ∧ Assoc.get "plugin_opts" (linkBase link tag) = none := by
  unfold linkBase
  constructor
  · rw [Assoc.get_set_ne (by decide), Assoc.get_set_ne (by decide), baseOutbound_none (by decide)]
  · rw [Assoc.get_set_ne (by decide), Assoc.get_set_ne (by decide), baseOutbound_none (by decide)]

/-- Everything but the plugin is as the link says. -/
theorem yields_iff (value : Option (List Char)) :
    link.Yields (insertPlugin (value.map String.ofList) (linkBase link (linkTag link))) ↔
      PluginOf link.plugin (insertPlugin (value.map String.ofList) (linkBase link (linkTag link))) := by
  have hkeep : ∀ key, key ≠ "plugin" ∧ key ≠ "plugin_opts" →
      Assoc.get key (insertPlugin (value.map String.ofList) (linkBase link (linkTag link))) =
        Assoc.get key (linkBase link (linkTag link)) := fun key h => insertPlugin_get_ne h _ _
  have hbase : ∀ key, key ≠ "password" ∧ key ≠ "method" →
      Assoc.get key (linkBase link (linkTag link)) =
        Assoc.get key (baseOutbound "shadowsocks" (linkTag link) (Host.text link.server.host) link.port) := by
    intro key h
    rw [linkBase, Assoc.get_set_ne h.1, Assoc.get_set_ne h.2]
  constructor
  · exact fun h => ⟨h.plugin, h.options⟩
  · intro h
    refine ⟨?_, ?_, ?_, ?_, ?_, ?_, h.plugin, h.options⟩
    · rw [hkeep _ (by decide), hbase _ (by decide)]
      rfl
    · rw [hkeep _ (by decide), hbase _ (by decide)]
      rfl
    · rw [hkeep _ (by decide), hbase _ (by decide)]
      rfl
    · rw [hkeep _ (by decide), hbase _ (by decide)]
      rfl
    · rw [hkeep _ (by decide), linkBase, Assoc.get_set_ne (by decide), Assoc.get_set_self]
    · rw [hkeep _ (by decide), linkBase, Assoc.get_set_self]

/-- The plugin is read as it is written unless a plus sign stands in it. -/
theorem yields_pluginRead_iff (decoder : TextDecoder) :
    link.Yields (insertPlugin ((pluginRead link decoder).map String.ofList) (linkBase link (linkTag link))) ↔
      ∀ param, link.pluginParam = some param → '+' ∉ param.valueText.getD [] := by
  rw [yields_iff]
  have hread := insertPlugin_of (pluginRead link decoder) (linkBase_plugin link (linkTag link)).1
    (linkBase_plugin link (linkTag link)).2
  cases hparam : link.pluginParam with
  | none =>
    have hnone : link.plugin = pluginRead link decoder := by
      rw [Link.plugin, pluginRead, hparam]
      rfl
    rw [hnone]
    refine iff_of_true hread fun param h => ?_
    cases h
  | some param =>
    obtain ⟨hblanked, heq⟩ := param.value_spelled.component decoder
    have hplugin : link.plugin = some param.value := by
      rw [Link.plugin, hparam]
      rfl
    have hvalue : pluginRead link decoder = some (Percent.component decoder (param.valueText.getD [])) := by
      rw [pluginRead, hparam]
      rfl
    rw [hvalue] at hread ⊢
    rw [hplugin]
    constructor
    · intro h other hother
      obtain rfl := Option.some.inj hother
      rw [← heq]
      have htake := text_filter_inj (hread.plugin.symm.trans h.plugin)
      have hdrop := text_filter_inj (hread.options.symm.trans h.options)
      exact parts_inj hblanked.length_eq.symm htake hdrop
    · intro h
      rw [heq.mpr (h param rfl)] at hread ⊢
      exact hread

include spec in
/-- The credentials and the endpoint of a link give its outbound. -/
theorem shadowsocksOutbound_link (hendpoint : link.EndpointRead crates) (tag : String) (query : Option (List Char))
    (hquery : query.getD [] = link.queryText) :
    shadowsocksOutbound crates tag (String.ofList link.credentials) (link.endpointText ++ suffix '?' query) =
      .ok (insertPlugin ((pluginRead link decoder).map String.ofList) (linkBase link tag)) := by
  obtain ⟨url, hurl, hhost, hport, htext⟩ := hendpoint query hquery
  have hserver : endpoint url "ss" = .ok (Host.text link.server.host, link.port) := by
    have hnamed : link.server.host ≠ .domain "" := by
      intro hempty
      rcases link.server.written with ⟨hdomain, hne⟩ | ⟨addr, literal, haddr, -, -⟩
      · rw [hempty] at hdomain
        have hlist := congrArg String.toList (Host.domain.inj hdomain)
        rw [String.toList_ofList (l := link.server.text)] at hlist
        exact hne hlist.symm
      · rw [hempty] at haddr
        cases haddr
    unfold endpoint
    rw [hhost, hport]
    simp only
    rfl
  unfold shadowsocksOutbound
  rw [String.toList_ofList, Link.credentials, splitOnce_first link.method_plain]
  simp only
  rw [if_neg (by rw [not_or]; exact ⟨link.method_ne, link.password_ne⟩), hurl]
  simp only
  rw [hserver]
  simp only
  rw [queryValue_plugin spec link htext]
  rfl

/-! ### The separators of a link -/

theorem not_mem_base64Text {c : Char} (h : Base64.value c = none ∧ c ≠ '=') (engine : Engine) (bytes : List U8) :
    c ∉ base64Text engine bytes := by
  intro hmem
  rcases Base64.isSymbol_of_mem c hmem with hvalue | heq
  · rw [h.1] at hvalue
    cases hvalue
  · exact h.2 heq

theorem not_mem_endpointText {c : Char} (hserver : c ∉ link.server.text) (hcolon : c ≠ ':') (hdigit : toDigit 10 c = none) :
    c ∉ link.endpointText := by
  rw [Link.endpointText, List.mem_append, List.mem_cons, not_or, not_or]
  refine ⟨hserver, hcolon, fun hmem => ?_⟩
  have h := base10.toDigits_digit link.port c hmem
  rw [hdigit] at h
  cases h

theorem at_not_mem_endpointText : '@' ∉ link.endpointText :=
  not_mem_endpointText link link.server.plain.1 (by decide) (by decide)

theorem hash_not_mem_body {body : List Char} (h : link.Spelling body) : '#' ∉ body := by
  have hendpoint := not_mem_endpointText link link.server.plain.2 (by decide) (by decide)
  cases h with
  | base64 engine hspells hat hhash =>
    simp only [List.mem_append, List.mem_cons, not_or]
    exact ⟨hhash, by decide, hendpoint⟩
  | percent hspells hat hhash =>
    simp only [List.mem_append, List.mem_cons, not_or]
    exact ⟨hhash, by decide, hendpoint⟩
  | legacy engine => exact not_mem_base64Text (by decide) engine _

theorem not_mem_querySuffix {c : Char} (hmark : c ≠ '?') (h : c ∉ link.queryText) : c ∉ link.querySuffix := by
  unfold Link.querySuffix
  cases link.query with
  | none => simp [suffix]
  | some params =>
    simp only [Option.map_some, suffix, List.mem_cons, not_or]
    exact ⟨hmark, h⟩

/-- The fragment is cut off first, and gives the tag. -/
theorem parseShadowsocks_line {body : List Char} (h : link.Spelling body) :
    parseShadowsocks crates (link.line body) =
      credentialsOf crates (body ++ link.querySuffix) >>= fun parts =>
        shadowsocksOutbound crates (if link.fragment.getD [] = [] then "shadowsocks" else
          decodeUrlComponent crates (String.ofList (link.fragment.getD []))) parts.1 parts.2 := by
  have hscheme : splitOnce "://".toList (link.line body).toList =
      some ("ss".toList, body ++ link.querySuffix ++ link.fragmentSuffix) := by
    have hline : (link.line body).toList = "ss://".toList ++ (body ++ link.querySuffix ++ link.fragmentSuffix) :=
      String.toList_ofList.trans (by rw [List.append_assoc, List.append_assoc, List.append_assoc])
    rw [hline]
    exact splitOnce_scheme _
  have hhash : '#' ∉ body ++ link.querySuffix := by
    rw [List.mem_append, not_or]
    exact ⟨hash_not_mem_body link h, not_mem_querySuffix link (by decide) link.query_plain⟩
  have hfragment : (splitOnce ['#'] (body ++ link.querySuffix ++ link.fragmentSuffix)).getD
      (body ++ link.querySuffix ++ link.fragmentSuffix, []) = (body ++ link.querySuffix, link.fragment.getD []) := by
    unfold Link.fragmentSuffix
    cases link.fragment with
    | none =>
      rw [suffix, List.append_nil, splitOnce_none hhash]
      rfl
    | some fragment =>
      rw [suffix, splitOnce_first hhash]
      rfl
  unfold parseShadowsocks
  rw [hscheme]
  simp only [hfragment]

theorem eq_nil_of_spells_nil {encoded : List Char} (h : Percent.Spells encoded []) : encoded = [] := by
  cases h
  rfl

include spec in
theorem tag_line : (if link.fragment.getD [] = [] then "shadowsocks" else
    decodeUrlComponent crates (String.ofList (link.fragment.getD []))) = linkTag link := by
  have hspelled := link.tag_spelled
  unfold linkTag
  split_ifs with hfragment htag htag
  · rfl
  · rw [hfragment] at hspelled
    exact absurd (spells_nil hspelled) htag
  · rw [htag] at hspelled
    exact absurd (eq_nil_of_spells_nil hspelled) hfragment
  · exact decodeUrlComponent_spells spec hspelled

/-! ### The credentials -/

theorem colon_mem_credentials : ':' ∈ link.credentials := by
  rw [Link.credentials]
  simp

include spec in
/-- Without an at sign in the query the credentials and the endpoint come out. -/
theorem credentialsOf_plain {body : List Char} (h : link.Spelling body) (hat : '@' ∉ link.queryText) :
    ∃ query, query.getD [] = link.queryText ∧ credentialsOf crates (body ++ link.querySuffix) =
      .ok (String.ofList link.credentials, link.endpointText ++ suffix '?' query) := by
  have hrest : '@' ∉ link.endpointText ++ link.querySuffix := by
    rw [List.mem_append, not_or]
    exact ⟨at_not_mem_endpointText link, not_mem_querySuffix link (by decide) hat⟩
  have hquery : (link.query.map fun _ => link.queryText).getD [] = link.queryText := by
    cases hq : link.query with
    | none =>
      rw [Link.queryText, Link.params, hq]
      rfl
    | some params => rfl
  cases h with
  | @base64 engine userinfo hspells huser hhash =>
    refine ⟨_, hquery, ?_⟩
    rw [List.append_assoc, List.cons_append, credentialsOf, rsplitAt_last hrest]
    simp only
    rw [decodeUrlComponent_spells spec hspells, String.toList_ofList (l := base64Text _ _),
      if_neg (not_mem_base64Text (by decide) engine _), decodeBase64Text_base64Text spec]
    rfl
  | @percent userinfo hspells huser hhash =>
    refine ⟨_, hquery, ?_⟩
    rw [List.append_assoc, List.cons_append, credentialsOf, rsplitAt_last hrest]
    simp only
    rw [decodeUrlComponent_spells spec hspells, String.toList_ofList (l := link.credentials),
      if_pos (colon_mem_credentials link)]
    rfl
  | legacy engine =>
    refine ⟨if link.queryText = [] then none else some link.queryText, ?_, ?_⟩
    · split_ifs with hempty
      · exact hempty.symm
      · rfl
    · have hnone : '@' ∉ base64Text engine (utf8 (link.credentials ++ '@' :: link.endpointText)) ++ link.querySuffix := by
        rw [List.mem_append, not_or]
        exact ⟨not_mem_base64Text (by decide) engine _, not_mem_querySuffix link (by decide) hat⟩
      have hmark := not_mem_base64Text (c := '?') (by decide) engine (utf8 (link.credentials ++ '@' :: link.endpointText))
      have hsplit : (splitOnce ['?'] (base64Text engine (utf8 (link.credentials ++ '@' :: link.endpointText)) ++
          link.querySuffix)).getD (base64Text engine (utf8 (link.credentials ++ '@' :: link.endpointText)) ++
          link.querySuffix, []) =
          (base64Text engine (utf8 (link.credentials ++ '@' :: link.endpointText)), link.queryText) := by
        unfold Link.querySuffix
        cases hq : link.query with
        | none =>
          rw [Option.map_none, suffix, List.append_nil, splitOnce_none hmark]
          rw [← hquery, hq]
          rfl
        | some params =>
          rw [Option.map_some, suffix, splitOnce_first hmark]
          rfl
      rw [credentialsOf, rsplitAt_none hnone]
      simp only
      rw [hsplit]
      simp only
      rw [decodeBase64Text_base64Text spec]
      simp only
      rw [String.toList_ofList (l := link.credentials ++ _), rsplitAt_last (at_not_mem_endpointText link)]
      split_ifs with hempty
      · rw [suffix, List.append_nil]
      · rfl

theorem last_split {c : Char} {text : List Char} (h : c ∈ text) :
    ∃ before after, text = before ++ c :: after ∧ c ∉ after := by
  induction text with
  | nil => cases h
  | cons d text ih =>
    by_cases hmem : c ∈ text
    · obtain ⟨before, after, rfl, hafter⟩ := ih hmem
      exact ⟨d :: before, after, rfl, hafter⟩
    · rcases List.mem_cons.mp h with rfl | h
      · exact ⟨[], text, rfl, hmem⟩
      · exact absurd h hmem

theorem shadowsocksOutbound_get {tag : String} {credentials endpointText : List Char} {outbound : Json.Members}
    (h : shadowsocksOutbound crates tag (String.ofList credentials) endpointText = .ok outbound) :
    ∃ method password, splitOnce [':'] credentials = some (method, password) ∧
      Assoc.get "method" outbound = some (.str (String.ofList method)) ∧
      Assoc.get "password" outbound = some (.str (String.ofList password)) := by
  unfold shadowsocksOutbound at h
  rw [String.toList_ofList] at h
  split at h
  · cases h
  · rename_i method password hsplit
    split_ifs at h
    split at h
    · cases h
    · split at h
      · cases h
      · obtain rfl := Except.ok.inj h
        refine ⟨method, password, hsplit, ?_, ?_⟩
        · rw [insertPlugin_get_ne (by decide), Assoc.get_set_ne (by decide), Assoc.get_set_self]
        · rw [insertPlugin_get_ne (by decide), Assoc.get_set_self]

/-- Credentials that are cut elsewhere. -/
def Miscut (credentials : List Char) : Prop := splitOnce [':'] credentials ≠ some (link.method, link.password)

theorem not_yields_of_miscut {tag : String} {credentials endpointText : List Char} {outbound : Json.Members}
    (hcut : Miscut link credentials)
    (h : shadowsocksOutbound crates tag (String.ofList credentials) endpointText = .ok outbound) : ¬link.Yields outbound := by
  intro hyields
  obtain ⟨method, password, hsplit, hmethod, hpassword⟩ := shadowsocksOutbound_get h
  have hinj : ∀ text text' : List Char, some (Json.str (String.ofList text)) = some (Json.str (String.ofList text')) →
      text = text' := by
    intro text text' heq
    have hlist := congrArg String.toList (Json.str.inj (Option.some.inj heq))
    rwa [String.toList_ofList (l := text), String.toList_ofList (l := text')] at hlist
  have hm := hinj _ _ (hmethod.symm.trans hyields.method)
  have hp := hinj _ _ (hpassword.symm.trans hyields.password)
  rw [hm, hp] at hsplit
  exact hcut hsplit

/-- A base64 text with more behind it is longer than the method. -/
theorem miscut_base64Text (engine : Engine) {bytes : List U8} (hlen : link.method.length < bytes.length) (c : Char)
    (more : List Char) : Miscut link (base64Text engine bytes ++ c :: more) := by
  intro hsplit
  have hcolon := not_mem_base64Text (c := ':') (by decide) engine bytes
  have hmethod : (base64Text engine bytes ++ c :: more).takeWhile (· ≠ ':') = link.method := by
    have h := splitOnce_eq ':' (base64Text engine bytes ++ c :: more)
    rw [hsplit] at h
    exact (Prod.mk.inj h).1.symm
  have hall : ∀ d ∈ base64Text engine bytes, decide (d ≠ ':') = true := by
    intro d hd
    refine decide_eq_true ?_
    rintro rfl
    exact hcolon hd
  rw [List.takeWhile_append_of_pos hall] at hmethod
  have hlong := Base64.length_le_length_encode (urlSafe engine) (padded engine) bytes
  have hlength := congrArg List.length hmethod
  rw [List.length_append] at hlength
  change bytes.length ≤ (base64Text engine bytes).length at hlong
  omega

theorem miscut_credentials (c : Char) (more : List Char) : Miscut link (link.credentials ++ c :: more) := by
  intro hsplit
  rw [Link.credentials, List.append_assoc, List.cons_append, splitOnce_first link.method_plain] at hsplit
  have hpassword := congrArg List.length (Prod.mk.inj (Option.some.inj hsplit)).2
  rw [List.length_append, List.length_cons] at hpassword
  omega

theorem length_method_lt_credentials (more : List Char) :
    link.method.length < (utf8 (link.credentials ++ more)).length := by
  have hlen := length_le_length_utf8 (link.credentials ++ more)
  rw [List.length_append] at hlen
  have hcredentials : link.credentials.length = link.method.length + (link.password.length + 1) := by
    rw [Link.credentials, List.length_append, List.length_cons]
  omega

include spec in
/-- What stands behind an encoding stays behind its text. -/
theorem decodeUrlComponent_behind {encoded text : List Char} (h : Percent.Spells encoded text) {c : Char}
    (hc : c = '@' ∨ c = '?') (more : List Char) :
    ∃ tail, decodeUrlComponent crates (String.ofList (encoded ++ c :: more)) = String.ofList (text ++ c :: tail) := by
  have hplain : (c ≠ '+' ∧ c ≠ '&' ∧ c ≠ '=') ∧ c ≠ '%' := by
    rcases hc with rfl | rfl <;> decide
  obtain ⟨tail, heq, htail⟩ := decodeUrlComponent_append spec h (c :: more)
  have hbehind := decoder.utf8_append [c] (Percent.decode (protect more))
  rw [utf8_cons, utf8_nil, List.append_nil, List.singleton_append] at hbehind
  rw [protect_cons hplain.1, Percent.decode_cons_of_ne hplain.2, hbehind] at htail
  exact ⟨_, by rw [heq, htail]⟩

include spec in
/-- With an at sign in the query no credentials come out, or ones that are cut elsewhere. -/
theorem credentialsOf_miscut {body : List Char} (h : link.Spelling body) (hat : '@' ∈ link.queryText)
    {parts : String × List Char} (hparts : credentialsOf crates (body ++ link.querySuffix) = .ok parts) :
    ∃ credentials, parts.1 = String.ofList credentials ∧ Miscut link credentials := by
  obtain ⟨before, after, hquery, hafter⟩ := last_split hat
  have hsuffix : link.querySuffix = '?' :: before ++ '@' :: after := by
    unfold Link.querySuffix
    cases hq : link.query with
    | none =>
      rw [Link.queryText, Link.params, hq] at hat
      exact absurd hat (by decide)
    | some params =>
      rw [Option.map_some, suffix, hquery]
      rfl
  -- what is decoded starts with the text of the credentials, and a separator follows
  have hread : ∀ {encoded text : List Char} {c : Char} {more : List Char}, Percent.Spells encoded text →
      c = '@' ∨ c = '?' → body ++ '?' :: before = encoded ++ c :: more → (∀ tail, Miscut link (text ++ c :: tail)) →
      ∃ credentials, parts.1 = String.ofList credentials ∧ Miscut link credentials := by
    intro encoded text c more hspells hc hbody hcut
    have htext : body ++ link.querySuffix = (encoded ++ c :: more) ++ '@' :: after := by
      rw [hsuffix, ← hbody, List.append_assoc]
    rw [htext, credentialsOf, rsplitAt_last hafter] at hparts
    obtain ⟨tail, hinfo⟩ := decodeUrlComponent_behind spec hspells hc more
    simp only [hinfo] at hparts
    split_ifs at hparts
    · obtain rfl := Except.ok.inj hparts
      exact ⟨_, rfl, hcut tail⟩
    · split at hparts
      · cases hparts
      · rename_i credentials hdecoded
        have hmem : '@' ∈ text ++ c :: tail ∨ '?' ∈ text ++ c :: tail := by
          rcases hc with rfl | rfl
          · exact .inl (List.mem_append_right _ List.mem_cons_self)
          · exact .inr (List.mem_append_right _ List.mem_cons_self)
        exact absurd hdecoded (decodeBase64Text_separator spec hmem _ _)
  cases h with
  | @base64 engine userinfo hspells huser hhash =>
    refine hread hspells (.inl rfl) (List.append_assoc _ _ _) fun tail => ?_
    have hlen := length_method_lt_credentials link []
    rw [List.append_nil] at hlen
    exact miscut_base64Text link engine hlen '@' tail
  | @percent userinfo hspells huser hhash =>
    exact hread hspells (.inl rfl) (List.append_assoc _ _ _) fun tail => miscut_credentials link '@' tail
  | legacy engine =>
    refine hread (Percent.spells_self (not_mem_base64Text (by decide) engine _)) (.inr rfl) rfl fun tail => ?_
    exact miscut_base64Text link engine (length_method_lt_credentials link _) '?' tail

include spec in
theorem not_decoded_of_at {body : List Char} (h : link.Spelling body) (hat : '@' ∈ link.queryText) :
    ¬∃ outbound, parseShadowsocks crates (link.line body) = .ok outbound ∧ link.Yields outbound := by
  rintro ⟨outbound, hparse, hyields⟩
  rw [parseShadowsocks_line link h] at hparse
  obtain ⟨parts, hparts, hout⟩ := bind_ok.mp hparse
  obtain ⟨credentials, hcredentials, hcut⟩ := credentialsOf_miscut spec link h hat hparts
  rw [hcredentials] at hout
  exact not_yields_of_miscut link hcut hout hyields

include spec in
/-- **A Shadowsocks link decodes to what it encodes exactly when its query is plain**, in each of its spellings. -/
theorem parseShadowsocks_yields_iff (hendpoint : link.EndpointRead crates) {body : List Char} (h : link.Spelling body) :
    (∃ outbound, parseShadowsocks crates (link.line body) = .ok outbound ∧ link.Yields outbound) ↔ link.Plain := by
  by_cases hat : '@' ∈ link.queryText
  · exact iff_of_false (not_decoded_of_at spec link h hat) fun hplain => hplain.1 hat
  · obtain ⟨query, hquery, hcredentials⟩ := credentialsOf_plain spec link h hat
    have hparse : parseShadowsocks crates (link.line body) =
        .ok (insertPlugin ((pluginRead link decoder).map String.ofList) (linkBase link (linkTag link))) := by
      rw [parseShadowsocks_line link h, tag_line spec link, hcredentials]
      exact shadowsocksOutbound_link spec link hendpoint (linkTag link) query hquery
    rw [hparse]
    constructor
    · rintro ⟨outbound, hout, hyields⟩
      obtain rfl := Except.ok.inj hout
      exact ⟨hat, (yields_pluginRead_iff link decoder).mp hyields⟩
    · intro hplain
      exact ⟨_, rfl, (yields_pluginRead_iff link decoder).mpr hplain.2⟩

end Read

/-! ### Two links -/

/-- One endpoint, with the query of the text. -/
def exampleUrl (text : List Char) : Url where
  username := "placeholder"
  password := none
  host := some (.domain "ss.example")
  portOrKnownDefault := some 8388
  query := some (String.ofList ((text.dropWhile (· ≠ '?')).drop 1))
  fragment := none

/-- The crates on that endpoint. -/
def exampleCrates : Crates where
  fromStr _ := .error ""
  number_text := number_text_error ""
  base64 engine text :=
    let bytes := Base64.decode (TextDecoder.lossy.decode text)
    if text = utf8 (base64Text engine bytes) then .ok bytes else .error "invalid symbol"
  urlParse text :=
    if text.toList.takeWhile (· ≠ '?') = "ss://placeholder@ss.example:8388".toList then
      .ok (exampleUrl text.toList)
    else .error "invalid domain character"
  formParse query :=
    (Percent.formParse TextDecoder.lossy query.toList).map fun pair => (String.ofList pair.1, String.ofList pair.2)

theorem exampleCrates_specified : Specified exampleCrates TextDecoder.lossy := by
  refine ⟨?_, fun query => rfl⟩
  intro engine text bytes
  change (if text = utf8 (base64Text engine (Base64.decode (TextDecoder.lossy.decode text))) then
    Except.ok (Base64.decode (TextDecoder.lossy.decode text)) else Except.error "invalid symbol") = .ok bytes ↔ _
  constructor
  · intro h
    split_ifs at h with htext
    rw [Except.ok.inj h] at htext
    exact htext
  · rintro rfl
    rw [TextDecoder.lossy.utf8, base64Text, Base64.decode_encode]
    exact if_pos rfl

def exampleServer : Server where
  text := "ss.example".toList
  host := .domain "ss.example"
  written := .inl ⟨by rw [String.ofList_toList], by decide⟩
  plain := ⟨by decide, by decide⟩

/-- A plugin as a query writes it. -/
def pluginQuery (plugin pluginText : List Char) (h : Percent.Spells pluginText plugin) (hplain : '&' ∉ pluginText) :
    Percent.Param where
  name := "plugin".toList
  value := plugin
  nameText := "plugin".toList
  valueText := some pluginText
  name_spelled := Percent.spells_self (by decide)
  value_spelled := h
  name_plain := ⟨by decide, by decide⟩
  value_plain := hplain

def exampleLink (param : Percent.Param) (h : '#' ∉ Percent.queryText [param]) : Link where
  method := "aes-256-gcm".toList
  password := "password".toList
  server := exampleServer
  port := 8388
  query := some [param]
  tag := "JP".toList
  fragment := some "JP".toList
  method_ne := by decide
  method_plain := by decide
  password_ne := by decide
  port_range := ⟨by decide, by decide⟩
  query_plain := h
  tag_spelled := Percent.spells_self (by decide)

theorem exampleLink_read (param : Percent.Param) (h : '#' ∉ Percent.queryText [param]) :
    (exampleLink param h).EndpointRead exampleCrates := by
  intro query hquery
  have hendpoint : (exampleLink param h).endpointText = "ss.example:8388".toList := by
    have hport : Nat.toDigits 10 8388 = "8388".toList := by decide
    change exampleServer.text ++ ':' :: Nat.toDigits 10 8388 = _
    rw [hport]
    rfl
  have htext : ("ss://placeholder@" ++ String.ofList ("ss.example:8388".toList ++ suffix '?' query)).toList =
      "ss://placeholder@ss.example:8388".toList ++ suffix '?' query := by
    rw [String.toList_append, String.toList_ofList (l := _ ++ _)]
    rfl
  have hcut : ("ss://placeholder@ss.example:8388".toList ++ suffix '?' query).takeWhile (· ≠ '?') =
        "ss://placeholder@ss.example:8388".toList ∧
      (("ss://placeholder@ss.example:8388".toList ++ suffix '?' query).dropWhile (· ≠ '?')).drop 1 = query.getD [] := by
    cases query with
    | none => exact ⟨by decide, by decide⟩
    | some query =>
      have hmark : '?' ∉ "ss://placeholder@ss.example:8388".toList := by decide
      have hall : ∀ c ∈ "ss://placeholder@ss.example:8388".toList, decide (c ≠ '?') = true := by
        intro c hc
        refine decide_eq_true ?_
        rintro rfl
        exact hmark hc
      rw [suffix, List.takeWhile_append_of_pos hall, List.dropWhile_append_of_pos hall]
      simp
  refine ⟨exampleUrl ("ss://placeholder@ss.example:8388".toList ++ suffix '?' query), ?_, rfl, rfl, ?_⟩
  · rw [hendpoint]
    change (if _ = _ then Except.ok _ else Except.error _) = _
    rw [htext, if_pos hcut.1]
  · change String.ofList _ = _
    rw [hcut.2, hquery]

/-- A plugin with a semicolon that is encoded. -/
def plainParam : Percent.Param :=
  pluginQuery "obfs-local;obfs=http".toList ("obfs-local".toList ++ ("%3B".toList ++ "obfs=http".toList))
    ((Percent.spells_self (by decide)).append
      (.escape (escapes_one ';' (by decide)) (Percent.spells_self (by decide)))) (by decide)

theorem parseShadowsocks_yields_plain : ∃ outbound,
    parseShadowsocks exampleCrates ((exampleLink plainParam (by decide)).line
      (base64Text .urlSafeNoPad (utf8 (exampleLink plainParam (by decide)).credentials) ++ '@' ::
        (exampleLink plainParam (by decide)).endpointText)) = .ok outbound ∧
      (exampleLink plainParam (by decide)).Yields outbound := by
  have hspells := Percent.spells_self (not_mem_base64Text (c := '%') (by decide) .urlSafeNoPad
    (utf8 (exampleLink plainParam (by decide)).credentials))
  refine (parseShadowsocks_yields_iff exampleCrates_specified _ (exampleLink_read plainParam (by decide))
    (.base64 .urlSafeNoPad hspells (not_mem_base64Text (by decide) _ _) (not_mem_base64Text (by decide) _ _))).mpr
    ⟨by decide, ?_⟩
  intro param hparam
  have hsame : (exampleLink plainParam (by decide)).pluginParam = some plainParam := by
    rfl
  rw [hsame] at hparam
  obtain rfl := Option.some.inj hparam
  decide

/-- A plugin whose options hold an at sign, which a query need not encode. -/
def atParam : Percent.Param :=
  pluginQuery "v2ray-plugin;host=user@h".toList "v2ray-plugin;host=user@h".toList (Percent.spells_self (by decide)) (by decide)

/-- An at sign in the query moves the cut behind the credentials. -/
theorem query_at_miscut : ¬∀ (crates : Crates) (decoder : TextDecoder) (link : Link) (body : List Char),
    Specified crates decoder → link.EndpointRead crates → link.Spelling body →
    ∃ outbound, parseShadowsocks crates (link.line body) = .ok outbound ∧ link.Yields outbound := by
  intro h
  have hspells : (exampleLink atParam (by decide)).Spelling
      ((exampleLink atParam (by decide)).credentials ++ '@' :: (exampleLink atParam (by decide)).endpointText) :=
    .percent (Percent.spells_self (by decide)) (by decide) (by decide)
  exact not_decoded_of_at exampleCrates_specified _ hspells (by decide)
    (h exampleCrates TextDecoder.lossy _ _ exampleCrates_specified (exampleLink_read atParam (by decide)) hspells)

end Uri

end FluxRs.Nodes
