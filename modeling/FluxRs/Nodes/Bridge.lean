import FluxRs.Nodes.Uri
import FluxRs.Lib.Checked

/-!
# FluxRs.Nodes.Bridge — the links of a source and the parser of links

`FluxRs.Nodes.Sources` keeps of a link its type and its tag and leaves the rest to libraries; `FluxRs.Nodes.Uri`
builds every field.  Libraries made of the crates are such that both give one answer.
-/

namespace FluxRs.Nodes

open FluxRs.Lib

/-! ### Outbounds that begin with their type and their tag -/

/-- What `base_outbound` has put first is first still. -/
def Headed (kind tag : String) (object : Json.Members) : Prop := ∃ fields, object = baseOutbound kind tag fields

section Headed

variable {kind tag : String} {object : Json.Members}

theorem Headed.drop (h : Headed kind tag object) : baseOutbound kind tag (object.drop 2) = object := by
  obtain ⟨fields, rfl⟩ := h
  rfl

theorem headed_base (kind tag server : String) (port : ℕ) : Headed kind tag (Uri.baseOutbound kind tag server port) :=
  ⟨_, rfl⟩

/-- Every other member is put in behind them. -/
theorem set_base {key : String} (hkey : key ∉ ["type", "tag"]) (value : Json) (fields : Json.Members) :
    Assoc.set key value (baseOutbound kind tag fields) = baseOutbound kind tag (Assoc.set key value fields) := by
  simp only [List.mem_cons, List.not_mem_nil, or_false, not_or] at hkey
  rw [baseOutbound, Assoc.set, if_neg (Ne.symm hkey.1), Assoc.set, if_neg (Ne.symm hkey.2)]
  rfl

theorem insertSome_base {key : String} (hkey : key ∉ ["type", "tag"]) (value : Option Json) (fields : Json.Members) :
    Uri.insertSome key value (baseOutbound kind tag fields) = baseOutbound kind tag (Uri.insertSome key value fields) := by
  cases value with
  | none => rfl
  | some value => exact set_base hkey value fields

theorem insertPlugin_base (spec : Option String) (fields : Json.Members) :
    Uri.insertPlugin spec (baseOutbound kind tag fields) = baseOutbound kind tag (Uri.insertPlugin spec fields) := by
  cases spec with
  | none => rfl
  | some spec =>
    unfold Uri.insertPlugin
    simp only
    rw [insertSome_base (by decide), insertSome_base (by decide)]

theorem Headed.set (h : Headed kind tag object) {key : String} (hkey : key ∉ ["type", "tag"]) (value : Json) :
    Headed kind tag (Assoc.set key value object) := by
  obtain ⟨fields, rfl⟩ := h
  exact ⟨_, set_base hkey value fields⟩

theorem Headed.insertSome (h : Headed kind tag object) {key : String} (hkey : key ∉ ["type", "tag"])
    (value : Option Json) : Headed kind tag (Uri.insertSome key value object) := by
  obtain ⟨fields, rfl⟩ := h
  exact ⟨_, insertSome_base hkey value fields⟩

theorem Headed.insertQueryU64 {crates : Crates} {url : Url} {names : List String} {after : Json.Members}
    (h : Headed kind tag object) {key : String} (hkey : key ∉ ["type", "tag"])
    (hafter : Uri.insertQueryU64 crates object key url names = .ok after) : Headed kind tag after := by
  unfold Uri.insertQueryU64 at hafter
  split at hafter
  · obtain rfl := Except.ok.inj hafter
    exact h
  · split at hafter
    · cases hafter
    · obtain rfl := Except.ok.inj hafter
      exact h.set hkey _

theorem Headed.applyTransport {crates : Crates} {url : Url} {after : Json.Members} (h : Headed kind tag object)
    (hafter : Uri.applyTransport crates object url = .ok after) : Headed kind tag after := by
  unfold Uri.applyTransport at hafter
  split at hafter
  · obtain rfl := Except.ok.inj hafter
    exact h
  · split at hafter
    · cases hafter
    · obtain rfl := Except.ok.inj hafter
      exact h.set (by decide) _

theorem Headed.applyTls (h : Headed kind tag object) (crates : Crates) (url : Url) (defaultEnabled : Bool) :
    Headed kind tag (Uri.applyTls crates object url defaultEnabled) := by
  unfold Uri.applyTls
  simp only
  split_ifs
  · exact h.set (by decide) _
  · exact h

/-- No scheme touches them. -/
theorem Headed.schemeFields {crates : Crates} {scheme : String} {url : Url} {after : Json.Members}
    (h : Headed kind tag object) (hafter : Uri.schemeFields crates scheme object url = .ok after) :
    Headed kind tag after := by
  have hauth : Headed kind tag (Uri.parseProxyAuth crates object url) :=
    (h.insertSome (by decide) _).insertSome (by decide) _
  unfold Uri.schemeFields at hafter
  split_ifs at hafter
  · unfold Uri.parseVlessFields at hafter
    split_ifs at hafter
    obtain ⟨uuid, -, hafter⟩ := bind_ok.mp hafter
    obtain ⟨middle, hmiddle, hafter⟩ := bind_ok.mp hafter
    obtain rfl := Except.ok.inj hafter
    refine Headed.applyTls (Headed.applyTransport ?_ hmiddle) _ _ _
    exact ((h.set (by decide) _).insertSome (by decide) _).insertSome (by decide) _
  · obtain ⟨password, -, hafter⟩ := bind_ok.mp hafter
    obtain ⟨middle, hmiddle, hafter⟩ := bind_ok.mp hafter
    obtain rfl := Except.ok.inj hafter
    exact ((h.set (by decide) _).applyTransport hmiddle).applyTls _ _ _
  · unfold Uri.parseHysteriaFields at hafter
    split at hafter
    · cases hafter
    · obtain ⟨up, hup, hafter⟩ := bind_ok.mp hafter
      obtain ⟨down, hdown, hafter⟩ := bind_ok.mp hafter
      obtain rfl := Except.ok.inj hafter
      have hrates := ((h.set (by decide) _).insertQueryU64 (by decide) hup).insertQueryU64 (by decide) hdown
      exact (hrates.insertSome (by decide) _).applyTls _ _ _
  · unfold Uri.parseHysteria2Fields at hafter
    split at hafter
    · cases hafter
    · split at hafter
      · cases hafter
      · obtain ⟨up, hup, hafter⟩ := bind_ok.mp hafter
        obtain ⟨down, hdown, hafter⟩ := bind_ok.mp hafter
        obtain rfl := Except.ok.inj hafter
        have hrates := ((h.set (by decide) _).insertQueryU64 (by decide) hup).insertQueryU64 (by decide) hdown
        exact (hrates.insertSome (by decide) _).applyTls _ _ _
  · unfold Uri.parseTuicFields at hafter
    obtain ⟨uuid, -, hafter⟩ := bind_ok.mp hafter
    split at hafter
    · cases hafter
    · obtain rfl := Except.ok.inj hafter
      refine Headed.applyTls ?_ _ _ _
      refine Headed.insertSome (Headed.insertSome (Headed.insertSome (Headed.insertSome ?_ ?_ _) ?_ _) ?_ _) ?_ _
      · exact (h.set (by decide) _).set (by decide) _
      all_goals decide
  · obtain rfl := Except.ok.inj hafter
    exact hauth
  · obtain rfl := Except.ok.inj hafter
    exact hauth

theorem headed_vmess {source after : Json.Members} (h : Uri.vmessOutbound source = .ok after) :
    Headed "vmess" ((Uri.nonEmpty (jsonString source "ps")).getD "VMess") after := by
  unfold Uri.vmessOutbound at h
  obtain ⟨server, -, h⟩ := bind_ok.mp h
  obtain ⟨port, -, h⟩ := bind_ok.mp h
  obtain ⟨uuid, -, h⟩ := bind_ok.mp h
  obtain ⟨transport, -, h⟩ := bind_ok.mp h
  obtain rfl := Except.ok.inj h
  have hbase : Headed "vmess" ((Uri.nonEmpty (jsonString source "ps")).getD "VMess")
      (Uri.vmessBase source server port uuid) := by
    unfold Uri.vmessBase
    exact (((headed_base _ _ server port).set (by decide) _).insertSome (by decide) _).set (by decide) _
  exact (hbase.insertSome (by decide) _).insertSome (by decide) _

end Headed

/-! ### The libraries behind the crates -/

namespace Crates

variable (crates : Crates)

/-- The fields behind the type and the tag. -/
def fields (outbound : Except String Json.Members) : Except String Json.Members := outbound.map (List.drop 2)

/-- What the sources ask of the libraries, as the parser of links answers it; the JSON of a response is another call. -/
def libraries (fromSlice : List U8 → Except String Json)
    (hform : ∀ raw, raw ≠ "" → Uri.decodeUrlComponent crates raw ≠ "") : Libraries where
  fromSlice := fromSlice
  base64Standard := crates.base64 .standard
  base64StandardNoPad := crates.base64 .standardNoPad
  base64UrlSafe := crates.base64 .urlSafe
  base64UrlSafeNoPad := crates.base64 .urlSafeNoPad
  decodeUrlComponent := Uri.decodeUrlComponent crates
  decode_nonempty := hform
  url line scheme :=
    match crates.urlParse line with
    | .error error => .error ("invalid " ++ scheme ++ " URI: " ++ error)
    | .ok url => (fields (Uri.parseUrlOutbound crates line scheme)).map fun rest => (url.fragment, rest)
  vmess encoded :=
    match Uri.vmessPayload crates ("vmess://" ++ encoded) with
    | .error error => .error error
    | .ok source => (fields (Uri.vmessOutbound source)).map fun rest => (source, rest)
  shadowsocks text :=
    Uri.credentialsOf crates text.toList >>= fun parts => fields (Uri.shadowsocksOutbound crates "" parts.1 parts.2)

variable {crates} {fromSlice : List U8 → Except String Json}
  {hform : ∀ raw, raw ≠ "" → Uri.decodeUrlComponent crates raw ≠ ""}

/-- Both make the same of a response in base64. -/
theorem decodeBase64_libraries (input : List U8) :
    decodeBase64 (crates.libraries fromSlice hform) input = Uri.decodeBase64 crates input :=
  rfl

theorem parseUrlOutbound_libraries (line scheme : String) :
    parseUrlOutbound (crates.libraries fromSlice hform) line scheme = Uri.parseUrlOutbound crates line scheme := by
  unfold parseUrlOutbound libraries
  simp only
  cases hurl : crates.urlParse line with
  | error error =>
    unfold Uri.parseUrlOutbound
    rw [hurl]
  | ok url =>
    cases hout : Uri.parseUrlOutbound crates line scheme with
    | error error => rfl
    | ok outbound =>
      have hheaded : Headed (if scheme = "ss" then "shadowsocks" else scheme) (Uri.uriTag crates url scheme) outbound := by
        unfold Uri.parseUrlOutbound at hout
        rw [hurl] at hout
        simp only at hout
        split at hout
        · cases hout
        · exact (headed_base _ _ _ _).schemeFields hout
      exact congrArg Except.ok hheaded.drop

/-- The payload is what stands behind the scheme, whatever the scheme. -/
theorem vmessPayload_behind {line : String} {scheme encoded : List Char}
    (h : splitOnce "://".toList line.toList = some (scheme, encoded)) :
    Uri.vmessPayload crates ("vmess://" ++ String.ofList encoded) = Uri.vmessPayload crates line := by
  have hsplit : splitOnce "://".toList ("vmess://" ++ String.ofList encoded).toList = some ("vmess".toList, encoded) := by
    have hback : (String.ofList encoded).toList = encoded := String.toList_ofList
    rw [String.toList_append, hback]
    rfl
  unfold Uri.vmessPayload
  rw [h, hsplit]

theorem parseVmess_libraries {line : String} {scheme encoded : List Char}
    (h : splitOnce "://".toList line.toList = some (scheme, encoded)) :
    parseVmess (crates.libraries fromSlice hform) (String.ofList encoded) = Uri.parseVmess crates line := by
  unfold parseVmess libraries Uri.parseVmess
  simp only
  rw [vmessPayload_behind h]
  cases Uri.vmessPayload crates line with
  | error error => rfl
  | ok source =>
    show _ = Uri.vmessOutbound source
    dsimp only
    cases hout : Uri.vmessOutbound source with
    | error error => rfl
    | ok outbound => exact congrArg Except.ok (headed_vmess hout).drop

/-- The tag of a shadowsocks outbound is nowhere but in its place. -/
theorem shadowsocksOutbound_tag (tag credentials : String) (endpointText : List Char) :
    (fields (Uri.shadowsocksOutbound crates "" credentials endpointText)).map (baseOutbound "shadowsocks" tag) =
      Uri.shadowsocksOutbound crates tag credentials endpointText := by
  unfold Uri.shadowsocksOutbound
  split
  · rfl
  · split_ifs
    · rfl
    · split
      · rfl
      · split
        · rfl
        · rename_i server port _
          have hbase : ∀ tag, Uri.baseOutbound "shadowsocks" tag server port =
              baseOutbound "shadowsocks" tag [("server", .str server), ("server_port", .number (toString port))] :=
            fun _ => rfl
          simp only [hbase]
          rw [set_base (by decide), set_base (by decide), insertPlugin_base, set_base (by decide),
            set_base (by decide), insertPlugin_base]
          rfl

theorem parseShadowsocks_libraries {line : String} {scheme raw : List Char}
    (h : splitOnce "://".toList line.toList = some (scheme, raw)) :
    parseShadowsocks (crates.libraries fromSlice hform) (String.ofList raw) = Uri.parseShadowsocks crates line := by
  unfold parseShadowsocks libraries Uri.parseShadowsocks
  rw [h]
  simp only [String.toList_ofList]
  cases Uri.credentialsOf crates ((splitOnce ['#'] raw).getD (raw, [])).1 with
  | error error => rfl
  | ok parts =>
    refine Eq.trans ?_ (shadowsocksOutbound_tag _ parts.1 parts.2)
    show (match fields _ with | .error error => _ | .ok rest => _) = _
    cases fields (Uri.shadowsocksOutbound crates "" parts.1 parts.2) with
    | error error => rfl
    | ok rest => rfl

/-- **The sources read a link as the parser of links does.**  What is proved of the nodes of a source for every
library holds with the outbounds that the link parser builds. -/
theorem parseUri_libraries (line : String) :
    parseUri (crates.libraries fromSlice hform) line = Uri.parseUri crates line := by
  unfold parseUri Uri.parseUri Uri.schemeOf
  cases hsplit : splitOnce "://".toList line.toList with
  | none => rfl
  | some parts =>
    simp only [Option.map_some]
    rw [parseVmess_libraries hsplit, parseShadowsocks_libraries hsplit]
    simp only [parseUrlOutbound_libraries]

end Crates

end FluxRs.Nodes
