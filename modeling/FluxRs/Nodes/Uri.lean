import FluxRs.Lib.Percent
import FluxRs.Nodes.Sources
import FluxRs.Net.Text

/-!
# FluxRs.Nodes.Uri — node links of every scheme

`parse_uri` of `crates/flux-core/src/subscription.rs` with every field of the outbound it builds.  The
crates for base64, JSON, forms and URLs are parameters; what is read out of a parsed URL and what is put
into an outbound is the code's own.
-/

namespace FluxRs.Nodes

open FluxRs.Lib FluxRs.Net

/-! ### Libraries -/

/-- `url::Host`. -/
inductive Host where
  | domain (name : String)
  | ipv4 (addr : Ipv4Addr)
  | ipv6 (addr : Ipv6Addr)

/-- A parsed URL as its accessors show it, every part still encoded. -/
structure Url where
  username : String
  password : Option String
  host : Option Host
  portOrKnownDefault : Option ℕ
  query : Option String
  fragment : Option String

/-- The engines of `decode_base64`. -/
inductive Engine where
  | standard | standardNoPad | urlSafe | urlSafeNoPad
  deriving DecidableEq

structure Crates where
  /-- `serde_json::from_str`. -/
  fromStr : String → Except String Json
  /-- The text of a number starts with a digit or a sign. -/
  number_text : ∀ text members key number, fromStr text = .ok (.obj members) →
    Assoc.get key members = some (.number number) → ∃ c ∈ number.toList.head?, c = '-' ∨ isAsciiDigit c = true
  base64 : Engine → List U8 → Except String (List U8)
  /-- `Url::parse`. -/
  urlParse : String → Except String Url
  /-- `form_urlencoded::parse`. -/
  formParse : String → List (String × String)

/-- Of a document that is not accepted nothing is read. -/
theorem number_text_error (error : String) : ∀ (_ : String) (members : Json.Members) (key number : String),
    Except.error error = Except.ok (Json.obj members) → Assoc.get key members = some (.number number) →
      ∃ c ∈ number.toList.head?, c = '-' ∨ isAsciiDigit c = true := by
  intro _ members key number h
  cases h

namespace Uri

variable (crates : Crates)

/-! ### Decoding -/

/-- `str::as_bytes`. -/
def asBytes (text : String) : List U8 := utf8 text.toList

def decodeBase64 (input : List U8) : Except String (List U8) :=
  let compact := input.filter fun byte => !isAsciiWhitespace byte
  match crates.base64 .standard compact with
  | .ok bytes => .ok bytes
  | .error _ =>
    match crates.base64 .standardNoPad compact with
    | .ok bytes => .ok bytes
    | .error _ =>
      match crates.base64 .urlSafe compact with
      | .ok bytes => .ok bytes
      | .error _ => crates.base64 .urlSafeNoPad compact

def decodeBase64Text (input what : String) : Except String String :=
  match decodeBase64 crates (asBytes input) with
  | .error error => .error ("invalid " ++ what ++ ": " ++ error)
  | .ok bytes =>
    match fromUtf8 bytes with
    | none => .error ("decoded " ++ what ++ " is not UTF-8")
    | some text => .ok text

/-- `str::replace` of one character. -/
def replace (c : Char) (by_ : String) (text : List Char) : List Char :=
  text.flatMap fun x => if x = c then by_.toList else [x]

/-- The delimiters and literal plus signs of a component, protected from the form decoder. -/
def protect (raw : List Char) : List Char := replace '=' "%3D" (replace '&' "%26" (replace '+' "%2B" raw))

def decodeUrlComponent (raw : String) : String :=
  match crates.formParse ("value=" ++ String.ofList (protect raw.toList)) with
  | [] => ""
  | (_, value) :: _ => value

/-- `str::parse::<u64>`. -/
def parseU64 (text : String) : Option ℕ :=
  let digits := match text.toList with
    | '+' :: rest => rest
    | chars => chars
  if digits = [] ∨ digits.any (fun c => (toDigit 10 c).isNone) then none
  else some (digits.foldl (fun acc c => acc * 10 + (toDigit 10 c).getD 0) 0) |>.filter (· < 2 ^ 64)

/-- `eq_ignore_ascii_case`. -/
def eqIgnoreAsciiCase (left right : String) : Bool := left.toList.map Char.toLower == right.toList.map Char.toLower

/-! ### Parts of a URL -/

def queryPairs (url : Url) : List (String × String) := crates.formParse (url.query.getD "")

def queryValue (url : Url) (names : List String) : Option String :=
  ((queryPairs crates url).find? fun pair => names.any fun name => eqIgnoreAsciiCase pair.1 name).map Prod.snd

/-- A value that is there and not empty. -/
def nonEmpty (value : Option String) : Option String := value.filter (· ≠ "")

def Host.text : Host → String
  | .domain name => name
  | .ipv4 addr => String.ofList (showIpv4Addr addr)
  | .ipv6 addr => String.ofList (showIpv6Addr addr)

def defaultPort (scheme : String) : ℕ := if scheme = "http" then 80 else if scheme = "socks" then 1080 else 443

def endpoint (url : Url) (scheme : String) : Except String (String × ℕ) :=
  match url.host with
  | none | some (.domain "") => .error (scheme ++ " URI has no server")
  | some server => .ok (Host.text server, url.portOrKnownDefault.getD (defaultPort scheme))

def uriTag (url : Url) (fallback : String) : String :=
  (nonEmpty (url.fragment.map (decodeUrlComponent crates))).getD fallback

def requiredUsername (url : Url) (what : String) : Except String String :=
  let username := decodeUrlComponent crates url.username
  if username = "" then .error ("URI has no " ++ what) else .ok username

def userinfo (url : Url) : Option String :=
  let username := decodeUrlComponent crates url.username
  match url.password with
  | none => if username = "" then none else some username
  | some password => some (username ++ ":" ++ decodeUrlComponent crates password)

def requiredUserinfo (url : Url) (what : String) : Except String String :=
  match userinfo crates url with
  | none => .error ("URI has no " ++ what)
  | some info => .ok info

/-! ### Fields of an outbound -/

/-- An optional field, put in when it is there. -/
def insertSome (field : String) (value : Option Json) (object : Json.Members) : Json.Members :=
  match value with
  | none => object
  | some value => Assoc.set field value object

def insertQueryString (object : Json.Members) (field : String) (url : Url) (names : List String) : Json.Members :=
  insertSome field ((nonEmpty (queryValue crates url names)).map .str) object

def insertQueryU64 (object : Json.Members) (field : String) (url : Url) (names : List String) :
    Except String Json.Members :=
  match queryValue crates url names with
  | none => .ok object
  | some value =>
    match parseU64 value with
    | none => .error ("query parameter '" ++ field ++ "' is not an unsigned integer")
    | some number => .ok (Assoc.set field (.number (toString number)) object)

def insertQueryU64Lossless (object : Json.Members) (field : String) (url : Url) (names : List String) : Json.Members :=
  insertSome field (((queryValue crates url names).bind parseU64).map fun number => .number (toString number)) object

def queryBool (value : String) : Bool :=
  ["1", "true", "yes", "on"].contains (String.ofList (value.toList.map Char.toLower))

def insertQueryBool (object : Json.Members) (field : String) (url : Url) (names : List String) : Json.Members :=
  insertSome field ((queryValue crates url names).map fun value => .bool (queryBool value)) object

def baseOutbound (kind tag server : String) (port : ℕ) : Json.Members :=
  [("type", .str kind), ("tag", .str tag), ("server", .str server), ("server_port", .number (toString port))]

def utls (fingerprint : String) : Json := .obj [("enabled", .bool true), ("fingerprint", .str fingerprint)]

theorem get_insertSome_ne {key field : String} (h : field ≠ key) (value : Option Json) (object : Json.Members) :
    Assoc.get key (insertSome field value object) = Assoc.get key object := by
  cases value with
  | none => rfl
  | some value => exact Assoc.get_set_ne h.symm value object

theorem get_insertSome_self (field : String) (value : Option Json) {object : Json.Members}
    (h : Assoc.get field object = none) : Assoc.get field (insertSome field value object) = value := by
  cases value with
  | none => exact h
  | some value => exact Assoc.get_set_self field value object

/-- What a fresh outbound does not have. -/
theorem baseOutbound_none {key : String} (h : key ∉ ["type", "tag", "server", "server_port"]) (kind tag server : String)
    (port : ℕ) : Assoc.get key (baseOutbound kind tag server port) = none := by
  simp only [List.mem_cons, List.not_mem_nil, or_false, not_or] at h
  obtain ⟨h1, h2, h3, h4⟩ := h
  rw [baseOutbound, Assoc.get_cons_ne (Ne.symm h1), Assoc.get_cons_ne (Ne.symm h2), Assoc.get_cons_ne (Ne.symm h3),
    Assoc.get_cons_ne (Ne.symm h4)]
  rfl

/-! ### Transport and TLS of a URL -/

/-- The object of one kind of transport. -/
def transportOf (url : Url) (kind : String) : Except String Json.Members :=
  if kind = "ws" then
    let transport := insertQueryString crates [("type", .str "ws")] "path" url ["path"]
    let transport := insertSome "headers"
      ((nonEmpty (queryValue crates url ["host"])).map fun host => .obj [("Host", .str host)]) transport
    let transport := insertQueryU64Lossless crates transport "max_early_data" url ["ed", "max_early_data"]
    .ok (insertQueryString crates transport "early_data_header_name" url ["eh", "early_data_header_name"])
  else if kind = "grpc" then
    .ok (insertQueryString crates [("type", .str "grpc")] "service_name" url ["serviceName", "service_name"])
  else if kind = "http" ∨ kind = "h2" then
    let transport := insertQueryString crates [("type", .str "http")] "path" url ["path"]
    .ok (insertSome "host" ((nonEmpty (queryValue crates url ["host"])).map fun host => .arr [.str host]) transport)
  else if kind = "httpupgrade" then
    let transport := insertQueryString crates [("type", .str "httpupgrade")] "path" url ["path"]
    .ok (insertQueryString crates transport "host" url ["host"])
  else if kind = "quic" then .ok [("type", .str "quic")]
  else .error "unsupported URI transport"

/-- The values that ask for no transport. -/
def plainKinds : List String := ["", "tcp", "none"]

def applyTransport (outbound : Json.Members) (url : Url) : Except String Json.Members :=
  match (queryValue crates url ["type", "network", "net"]).filter fun kind => !plainKinds.contains kind with
  | none => .ok outbound
  | some kind =>
    match transportOf crates url kind with
    | .error error => .error error
    | .ok transport => .ok (Assoc.set "transport" (.obj transport) outbound)

/-- The items of a list with commas between them. -/
def alpnItems (alpn : String) : List Json :=
  ((alpn.toList.splitOn ',').filter (· ≠ [])).map fun item => .str (String.ofList item)

def tlsOf (url : Url) : Json.Members :=
  let tls := insertQueryString crates [("enabled", .bool true)] "server_name" url ["sni", "peer", "server_name"]
  let tls := insertQueryBool crates tls "insecure" url ["allowInsecure", "allow_insecure", "insecure"]
  let tls := insertSome "alpn" ((nonEmpty (queryValue crates url ["alpn"])).map fun alpn => .arr (alpnItems alpn)) tls
  let tls := insertSome "utls" ((nonEmpty (queryValue crates url ["fp", "fingerprint"])).map utls) tls
  if queryValue crates url ["security"] = some "reality" then
    let reality := insertQueryString crates [("enabled", .bool true)] "public_key" url ["pbk", "public_key"]
    Assoc.set "reality" (.obj (insertQueryString crates reality "short_id" url ["sid", "short_id"])) tls
  else tls

def applyTls (outbound : Json.Members) (url : Url) (defaultEnabled : Bool) : Json.Members :=
  let security := queryValue crates url ["security"]
  if defaultEnabled = true ∨ security = some "tls" ∨ security = some "reality" then
    Assoc.set "tls" (.obj (tlsOf crates url)) outbound
  else outbound

/-! ### Schemes of a URL -/

def parseVlessFields (outbound : Json.Members) (url : Url) : Except String Json.Members :=
  if ((nonEmpty (queryValue crates url ["encryption"])).filter (· ≠ "none")).isSome then
    .error "unsupported vless encryption"
  else do
    let uuid ← requiredUsername crates url "vless UUID"
    let outbound := Assoc.set "uuid" (.str uuid) outbound
    let outbound := insertQueryString crates outbound "flow" url ["flow"]
    let outbound := insertQueryString crates outbound "packet_encoding" url ["packetEncoding", "packet_encoding"]
    let outbound ← applyTransport crates outbound url
    return applyTls crates outbound url false

def parseTrojanFields (outbound : Json.Members) (url : Url) : Except String Json.Members := do
  let password ← requiredUserinfo crates url "trojan password"
  let outbound ← applyTransport crates (Assoc.set "password" (.str password) outbound) url
  return applyTls crates outbound url true

def parseHysteriaFields (outbound : Json.Members) (url : Url) : Except String Json.Members :=
  match nonEmpty ((queryValue crates url ["auth", "auth_str"]).or (userinfo crates url)) with
  | none => .error "hysteria URI has no authentication value"
  | some auth => do
    let outbound := Assoc.set "auth_str" (.str auth) outbound
    let outbound ← insertQueryU64 crates outbound "up_mbps" url ["upmbps", "up_mbps", "up"]
    let outbound ← insertQueryU64 crates outbound "down_mbps" url ["downmbps", "down_mbps", "down"]
    let outbound := insertQueryString crates outbound "obfs" url ["obfs", "obfsParam", "obfs_param"]
    return applyTls crates outbound url true

def parseHysteria2Fields (outbound : Json.Members) (url : Url) : Except String Json.Members :=
  match ["pinSHA256", "mport"].find? fun field => (queryValue crates url [field]).isSome with
  | some field => .error ("unsupported hysteria2 query parameter '" ++ field ++ "'")
  | none =>
    match nonEmpty ((userinfo crates url).or (queryValue crates url ["password", "auth"])) with
    | none => .error "hysteria2 URI has no password"
    | some password => do
      let outbound := Assoc.set "password" (.str password) outbound
      let outbound ← insertQueryU64 crates outbound "up_mbps" url ["upmbps", "up_mbps", "up"]
      let outbound ← insertQueryU64 crates outbound "down_mbps" url ["downmbps", "down_mbps", "down"]
      let mask := (queryValue crates url ["obfs-password", "obfs_password", "obfsPassword"]).map .str
      let outbound := insertSome "obfs" ((nonEmpty (queryValue crates url ["obfs"])).map fun kind =>
        .obj (insertSome "password" mask [("type", .str kind)])) outbound
      return applyTls crates outbound url true

def parseTuicFields (outbound : Json.Members) (url : Url) : Except String Json.Members := do
  let uuid ← requiredUsername crates url "tuic UUID"
  match nonEmpty ((url.password.map (decodeUrlComponent crates)).or (queryValue crates url ["password"])) with
  | none => .error "tuic URI has no password"
  | some password =>
    let outbound := Assoc.set "password" (.str password) (Assoc.set "uuid" (.str uuid) outbound)
    let outbound := insertQueryString crates outbound "congestion_control" url
      ["congestion_control", "congestion-controller"]
    let outbound := insertQueryString crates outbound "udp_relay_mode" url ["udp_relay_mode", "udp-relay-mode"]
    let outbound := insertQueryBool crates outbound "zero_rtt_handshake" url
      ["zero_rtt_handshake", "zero-rtt-handshake"]
    let outbound := insertQueryString crates outbound "heartbeat" url ["heartbeat"]
    return applyTls crates outbound url true

def parseProxyAuth (outbound : Json.Members) (url : Url) : Json.Members :=
  let username := decodeUrlComponent crates url.username
  let outbound := insertSome "username" ((nonEmpty (some username)).map .str) outbound
  insertSome "password" (url.password.map fun password => .str (decodeUrlComponent crates password)) outbound

def schemeFields (scheme : String) (outbound : Json.Members) (url : Url) : Except String Json.Members :=
  if scheme = "vless" then parseVlessFields crates outbound url
  else if scheme = "trojan" then parseTrojanFields crates outbound url
  else if scheme = "hysteria" then parseHysteriaFields crates outbound url
  else if scheme = "hysteria2" then parseHysteria2Fields crates outbound url
  else if scheme = "tuic" then parseTuicFields crates outbound url
  else if scheme = "socks" then .ok (parseProxyAuth crates outbound url)
  else if scheme = "http" then .ok (parseProxyAuth crates outbound url)
  else .error ("unsupported URI scheme '" ++ scheme ++ "'")

def parseUrlOutbound (line scheme : String) : Except String Json.Members :=
  match crates.urlParse line with
  | .error error => .error ("invalid " ++ scheme ++ " URI: " ++ error)
  | .ok url =>
    match endpoint url scheme with
    | .error error => .error error
    | .ok (server, port) =>
      let kind := if scheme = "ss" then "shadowsocks" else scheme
      schemeFields crates scheme (baseOutbound kind (uriTag crates url scheme) server port) url

/-! ### vmess -/

def requiredJsonString (object : Json.Members) (key what : String) : Except String String :=
  match nonEmpty (jsonString object key) with
  | none => .error ("vmess payload has no " ++ what)
  | some value => .ok value

/-- `json_u64`. -/
def jsonU64 (object : Json.Members) (key : String) : Option ℕ :=
  match Assoc.get key object with
  | some (.number text) => parseU64 text
  | some (.str text) => parseU64 text
  | _ => none

def requiredJsonPort (object : Json.Members) (key : String) : Except String ℕ :=
  match jsonU64 object key with
  | none => .error "vmess payload has no valid port"
  | some port => if port < 65536 ∧ port ≠ 0 then .ok port else .error "vmess port is outside 1..=65535"

def insertJsonString (destination : Json.Members) (destinationKey : String) (source : Json.Members)
    (sourceKey : String) : Json.Members :=
  insertSome destinationKey ((nonEmpty (jsonString source sourceKey)).map .str) destination

def vmessTransport (source : Json.Members) (network : String) : Except String (Option Json.Members) :=
  let host := nonEmpty (jsonString source "host")
  if network = "ws" then
    let transport := insertJsonString [("type", .str "ws")] "path" source "path"
    .ok (some (insertSome "headers" (host.map fun host => .obj [("Host", .str host)]) transport))
  else if network = "grpc" then
    .ok (some (insertSome "service_name" ((nonEmpty (jsonString source "path")).map .str) [("type", .str "grpc")]))
  else if network = "h2" ∨ network = "http" then
    let transport := insertJsonString [("type", .str "http")] "path" source "path"
    .ok (some (insertSome "host" (host.map fun host => .arr [.str host]) transport))
  else if network = "quic" then .ok (some [("type", .str "quic")])
  else if plainKinds.contains network then .ok none
  else .error "unsupported vmess transport"

def vmessTls (source : Json.Members) : Json.Members :=
  let serverName := (nonEmpty (jsonString source "sni")).or (nonEmpty (jsonString source "host"))
  let tls := insertSome "server_name" (serverName.map .str) [("enabled", .bool true)]
  insertSome "utls" ((nonEmpty (jsonString source "fp")).map utls) tls

/-- The JSON object in the payload of a vmess link. -/
def vmessPayload (line : String) : Except String Json.Members :=
  match splitOnce "://".toList line.toList with
  | none => .error "invalid vmess scheme"
  | some (_, encoded) =>
    match decodeBase64Text crates (String.ofList (trim encoded)) "vmess payload" with
    | .error error => .error error
    | .ok text =>
      match crates.fromStr text with
      | .error error => .error ("invalid vmess JSON: " ++ error)
      | .ok source =>
        match source.asObject with
        | none => .error "vmess payload must be a JSON object"
        | some source => .ok source

/-- The outbound of a payload before its transport. -/
def vmessBase (source : Json.Members) (server : String) (port : ℕ) (uuid : String) : Json.Members :=
  let tag := (nonEmpty (jsonString source "ps")).getD "VMess"
  let outbound := Assoc.set "uuid" (.str uuid) (baseOutbound "vmess" tag server port)
  let alterId := (jsonU64 source "aid").getD 0
  let alterId := if alterId ≠ 0 then some (.number (toString alterId)) else none
  let security := (nonEmpty (jsonString source "scy")).getD "auto"
  Assoc.set "security" (.str security) (insertSome "alter_id" alterId outbound)

def vmessOutbound (source : Json.Members) : Except String Json.Members := do
  let server ← requiredJsonString source "add" "vmess server"
  let port ← requiredJsonPort source "port"
  let uuid ← requiredJsonString source "id" "vmess UUID"
  let transport ← vmessTransport source ((jsonString source "net").getD "")
  let outbound := insertSome "transport" (transport.map .obj) (vmessBase source server port uuid)
  let enabled := (jsonString source "tls").any fun tls => eqIgnoreAsciiCase tls "tls"
  return insertSome "tls" (if enabled then some (.obj (vmessTls source)) else none) outbound

def parseVmess (line : String) : Except String Json.Members := do
  let source ← vmessPayload crates line
  vmessOutbound source

/-! ### Shadowsocks -/

/-- `rsplit_once('@')`: the text before the last one, and the text behind it. -/
def rsplitAt (text : List Char) : Option (List Char × List Char) :=
  if '@' ∈ text then
    let tail := (text.reverse.takeWhile (· ≠ '@')).reverse
    some (text.take (text.length - tail.length - 1), tail)
  else none

/-- The credentials of a link without its fragment, and the endpoint behind them. -/
def credentialsOf (text : List Char) : Except String (String × List Char) :=
  match rsplitAt text with
  | some (before, endpointText) =>
    let info := decodeUrlComponent crates (String.ofList before)
    if ':' ∈ info.toList then .ok (info, endpointText)
    else match decodeBase64Text crates info "shadowsocks userinfo" with
      | .error error => .error error
      | .ok credentials => .ok (credentials, endpointText)
  | none =>
    let (encoded, suffix) := (splitOnce ['?'] text).getD (text, [])
    match decodeBase64Text crates (String.ofList encoded) "legacy shadowsocks payload" with
    | .error error => .error error
    | .ok legacy =>
      match rsplitAt legacy.toList with
      | none => .error "legacy shadowsocks payload has no endpoint"
      | some (credentials, endpointText) =>
        .ok (String.ofList credentials, if suffix = [] then endpointText else endpointText ++ '?' :: suffix)

/-- The plugin and its options, split at the first semicolon. -/
def insertPlugin (spec : Option String) (outbound : Json.Members) : Json.Members :=
  match spec with
  | none => outbound
  | some spec =>
    let (plugin, options) := (splitOnce [';'] spec.toList).getD (spec.toList, [])
    let outbound := insertSome "plugin" ((nonEmpty (some (String.ofList plugin))).map .str) outbound
    insertSome "plugin_opts" ((nonEmpty (some (String.ofList options))).map .str) outbound

def shadowsocksOutbound (tag : String) (credentials : String) (endpointText : List Char) :
    Except String Json.Members :=
  match splitOnce [':'] credentials.toList with
  | none => .error "shadowsocks credentials have no method separator"
  | some (method, password) =>
    if method = [] ∨ password = [] then .error "shadowsocks method and password must be non-empty"
    else match crates.urlParse ("ss://placeholder@" ++ String.ofList endpointText) with
      | .error error => .error ("invalid shadowsocks endpoint: " ++ error)
      | .ok url =>
        match endpoint url "ss" with
        | .error error => .error error
        | .ok (server, port) =>
          let outbound := baseOutbound "shadowsocks" tag server port
          let outbound := Assoc.set "method" (.str (String.ofList method)) outbound
          let outbound := Assoc.set "password" (.str (String.ofList password)) outbound
          .ok (insertPlugin (queryValue crates url ["plugin"]) outbound)

def parseShadowsocks (line : String) : Except String Json.Members :=
  match splitOnce "://".toList line.toList with
  | none => .error "invalid ss scheme"
  | some (_, raw) =>
    let (withoutFragment, fragment) := (splitOnce ['#'] raw).getD (raw, [])
    let tag := if fragment = [] then "shadowsocks" else decodeUrlComponent crates (String.ofList fragment)
    credentialsOf crates withoutFragment >>= fun parts => shadowsocksOutbound crates tag parts.1 parts.2

/-! ### Links -/

/-- The scheme of a link, in lower case. -/
def schemeOf (line : String) : Option String :=
  (splitOnce "://".toList line.toList).map fun parts => String.ofList (parts.1.map Char.toLower)

def parseUri (line : String) : Except String Json.Members :=
  match schemeOf line with
  | none => .error "URI has no scheme separator"
  | some scheme =>
    if scheme = "vmess" then parseVmess crates line
    else if scheme = "ss" then parseShadowsocks crates line
    else if scheme = "hy2" then parseUrlOutbound crates line "hysteria2"
    else if scheme ∈ urlSchemes then parseUrlOutbound crates line scheme
    else .error ("unsupported URI scheme '" ++ scheme ++ "'")

end Uri

end FluxRs.Nodes
