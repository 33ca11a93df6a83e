import FluxRs.Nodes.Uri
import FluxRs.Lib.Checked

/-!
# FluxRs.Nodes.Downgrade — what a link asks for and what its outbound has

The transport and the security layer of an accepted link.  A transport that the code does not know is an
error; a security value that it does not know is passed over, and then the outbound has no TLS.
-/

namespace FluxRs.Nodes

open FluxRs.Lib

namespace Uri

variable (crates : Crates) {url : Url} {outbound after : Json.Members}

theorem get_insertQueryString_ne {key field : String} (h : field ≠ key) (names : List String) :
    Assoc.get key (insertQueryString crates outbound field url names) = Assoc.get key outbound :=
  get_insertSome_ne h _ outbound

/-! ### The transport -/

/-- The type of the transport of a kind. -/
def transportType (kind : String) : String := if kind = "h2" then "http" else kind

/-- The outbound has no transport exactly for a plain value, and else one of the type that is asked for. -/
def TransportFollows (value : Option String) (outbound : Json.Members) : Prop :=
  (Assoc.get "transport" outbound = none ↔ ∀ kind, value = some kind → kind ∈ plainKinds) ∧
  ∀ kind, value = some kind → kind ∉ plainKinds →
    ∃ transport, Assoc.get "transport" outbound = some (.obj transport) ∧
      Assoc.get "type" transport = some (.str (transportType kind))

theorem TransportFollows.plain {value : Option String} (h : Assoc.get "transport" outbound = none)
    (hplain : ∀ kind, value = some kind → kind ∈ plainKinds) : TransportFollows value outbound :=
  ⟨iff_of_true h hplain, fun kind hkind hnot => absurd (hplain kind hkind) hnot⟩

theorem TransportFollows.kind {kind : String} {transport : Json.Members} (hnot : kind ∉ plainKinds)
    (h : Assoc.get "transport" outbound = some (.obj transport))
    (htype : Assoc.get "type" transport = some (.str (transportType kind))) :
    TransportFollows (some kind) outbound := by
  refine ⟨?_, ?_⟩
  · rw [h]
    exact iff_of_false (by simp) fun hplain => hnot (hplain kind rfl)
  · intro other hother _
    obtain rfl := Option.some.inj hother
    exact ⟨transport, h, htype⟩

theorem TransportFollows.congr {value : Option String} (h : TransportFollows value outbound)
    (hget : Assoc.get "transport" after = Assoc.get "transport" outbound) : TransportFollows value after := by
  unfold TransportFollows
  rw [hget]
  exact h

/-- The object of a kind carries its type. -/
theorem transportOf_type {kind : String} {transport : Json.Members} (h : transportOf crates url kind = .ok transport) :
    Assoc.get "type" transport = some (.str (transportType kind)) := by
  unfold transportOf at h
  split_ifs at h with hws hgrpc hhttp hupgrade hquic
  · subst hws
    obtain rfl := Except.ok.inj h
    rw [get_insertQueryString_ne crates (by decide), insertQueryU64Lossless, get_insertSome_ne (by decide),
      get_insertSome_ne (by decide), get_insertQueryString_ne crates (by decide)]
    rfl
  · subst hgrpc
    obtain rfl := Except.ok.inj h
    rw [get_insertQueryString_ne crates (by decide)]
    rfl
  · obtain rfl := Except.ok.inj h
    have htype : transportType kind = "http" := by
      rcases hhttp with rfl | rfl <;> rfl
    rw [get_insertSome_ne (by decide), get_insertQueryString_ne crates (by decide), htype]
    rfl
  · subst hupgrade
    obtain rfl := Except.ok.inj h
    rw [get_insertQueryString_ne crates (by decide), get_insertQueryString_ne crates (by decide)]
    rfl
  · subst hquic
    obtain rfl := Except.ok.inj h
    rfl

/-- What `apply_transport` can do: nothing for a plain value, else one transport object. -/
theorem applyTransport_cases (h : applyTransport crates outbound url = .ok after) :
    ((∀ kind, queryValue crates url ["type", "network", "net"] = some kind → kind ∈ plainKinds) ∧ after = outbound) ∨
    ∃ kind transport, queryValue crates url ["type", "network", "net"] = some kind ∧ kind ∉ plainKinds ∧
      Assoc.get "type" transport = some (.str (transportType kind)) ∧
      after = Assoc.set "transport" (.obj transport) outbound := by
  unfold applyTransport at h
  split at h
  · rename_i hnone
    refine .inl ⟨fun kind hkind => ?_, (Except.ok.inj h).symm⟩
    have hplain := Option.filter_eq_none_iff.mp hnone kind hkind
    simpa using hplain
  · rename_i kind hsome
    obtain ⟨hkind, hnot⟩ := Option.filter_eq_some_iff.mp hsome
    split at h
    · cases h
    · rename_i transport htransport
      exact .inr ⟨kind, transport, hkind, by simpa using hnot, transportOf_type crates htransport,
        (Except.ok.inj h).symm⟩

theorem applyTransport_follows (h : applyTransport crates outbound url = .ok after)
    (hnone : Assoc.get "transport" outbound = none) :
    TransportFollows (queryValue crates url ["type", "network", "net"]) after := by
  obtain ⟨hplain, rfl⟩ | ⟨kind, transport, hkind, hnot, htype, rfl⟩ := applyTransport_cases crates h
  · exact .plain hnone hplain
  · rw [hkind]
    exact .kind hnot (Assoc.get_set_self _ _ _) htype

theorem applyTransport_get_ne {key : String} (hne : "transport" ≠ key) (h : applyTransport crates outbound url = .ok after) :
    Assoc.get key after = Assoc.get key outbound := by
  obtain ⟨-, rfl⟩ | ⟨kind, transport, -, -, -, rfl⟩ := applyTransport_cases crates h
  · rfl
  · exact Assoc.get_set_ne hne.symm _ _

/-- `vmess_transport` answers for the network as `apply_transport` does. -/
theorem vmessTransport_cases {source : Json.Members} {network : String} {transport : Option Json.Members}
    (h : vmessTransport source network = .ok transport) :
    (network ∈ plainKinds ∧ transport = none) ∨
    (network ∉ plainKinds ∧
      ∃ object, transport = some object ∧ Assoc.get "type" object = some (.str (transportType network))) := by
  unfold vmessTransport at h
  simp only at h
  split_ifs at h with hws hgrpc hhttp hquic hplain
  · subst hws
    obtain rfl := Except.ok.inj h
    refine .inr ⟨by decide, _, rfl, ?_⟩
    rw [get_insertSome_ne (by decide), insertJsonString, get_insertSome_ne (by decide)]
    rfl
  · subst hgrpc
    obtain rfl := Except.ok.inj h
    refine .inr ⟨by decide, _, rfl, ?_⟩
    rw [get_insertSome_ne (by decide)]
    rfl
  · obtain rfl := Except.ok.inj h
    have htype : transportType network = "http" := by
      rcases hhttp with rfl | rfl <;> rfl
    refine .inr ⟨?_, _, rfl, ?_⟩
    · rcases hhttp with rfl | rfl <;> decide
    · rw [get_insertSome_ne (by decide), insertJsonString, get_insertSome_ne (by decide), htype]
      rfl
  · subst hquic
    obtain rfl := Except.ok.inj h
    exact .inr ⟨by decide, _, rfl, rfl⟩
  · exact .inl ⟨by simpa using hplain, (Except.ok.inj h).symm⟩

/-! ### The security layer -/

def TlsEnabled (outbound : Json.Members) : Prop :=
  ∃ tls, Assoc.get "tls" outbound = some (.obj tls) ∧ Assoc.get "enabled" tls = some (.bool true)

def HasReality (outbound : Json.Members) : Prop :=
  ∃ tls reality, Assoc.get "tls" outbound = some (.obj tls) ∧ Assoc.get "reality" tls = some (.obj reality)

/-- A value that asks for a security layer. -/
def AsksSecurity (value : Option String) : Prop := ∃ security, value = some security ∧ security ≠ "" ∧ security ≠ "none"

theorem not_tlsEnabled (h : Assoc.get "tls" outbound = none) : ¬TlsEnabled outbound := by
  rintro ⟨tls, htls, -⟩
  rw [h] at htls
  cases htls

theorem not_hasReality (h : Assoc.get "tls" outbound = none) : ¬HasReality outbound := by
  rintro ⟨tls, reality, htls, -⟩
  rw [h] at htls
  cases htls

/-- The members of `tls` that come before `reality`. -/
theorem tlsOf_get (url : Url) :
    Assoc.get "enabled" (tlsOf crates url) = some (.bool true) ∧
    ((∃ reality, Assoc.get "reality" (tlsOf crates url) = some (.obj reality)) ↔
      queryValue crates url ["security"] = some "reality") := by
  unfold tlsOf
  simp only [insertQueryBool, insertQueryString]
  split_ifs with hreality
  · refine ⟨?_, iff_of_true ⟨_, Assoc.get_set_self _ _ _⟩ hreality⟩
    rw [Assoc.get_set_ne (by decide), get_insertSome_ne (by decide), get_insertSome_ne (by decide),
      get_insertSome_ne (by decide), get_insertSome_ne (by decide)]
    rfl
  · refine ⟨?_, iff_of_false ?_ hreality⟩
    · rw [get_insertSome_ne (by decide), get_insertSome_ne (by decide), get_insertSome_ne (by decide),
        get_insertSome_ne (by decide)]
      rfl
    · rintro ⟨reality, h⟩
      rw [get_insertSome_ne (by decide), get_insertSome_ne (by decide), get_insertSome_ne (by decide),
        get_insertSome_ne (by decide)] at h
      cases h

theorem applyTls_get_ne {key : String} (hne : "tls" ≠ key) (defaultEnabled : Bool) :
    Assoc.get key (applyTls crates outbound url defaultEnabled) = Assoc.get key outbound := by
  unfold applyTls
  simp only
  split_ifs
  · exact Assoc.get_set_ne hne.symm _ _
  · rfl

/-- Without a default, TLS is enabled for `tls` and `reality` alone. -/
theorem applyTls_false (hnone : Assoc.get "tls" outbound = none) :
    (TlsEnabled (applyTls crates outbound url false) ↔
      queryValue crates url ["security"] = some "tls" ∨ queryValue crates url ["security"] = some "reality") ∧
    (HasReality (applyTls crates outbound url false) ↔ queryValue crates url ["security"] = some "reality") := by
  obtain ⟨henabled, hreality⟩ := tlsOf_get crates url
  unfold applyTls
  simp only [Bool.false_eq_true, false_or]
  split_ifs with h
  · refine ⟨iff_of_true ⟨_, Assoc.get_set_self _ _ _, henabled⟩ h, ?_⟩
    rw [← hreality]
    constructor
    · rintro ⟨tls, reality, htls, hget⟩
      rw [Assoc.get_set_self] at htls
      obtain rfl := Json.obj.inj (Option.some.inj htls)
      exact ⟨reality, hget⟩
    · rintro ⟨reality, hget⟩
      exact ⟨_, reality, Assoc.get_set_self _ _ _, hget⟩
  · exact ⟨iff_of_false (not_tlsEnabled hnone) h, iff_of_false (not_hasReality hnone) fun hr => h (.inr hr)⟩

/-! ### Outbounds of each scheme -/

theorem parseVlessFields_follows (h : parseVlessFields crates outbound url = .ok after)
    (htransport : Assoc.get "transport" outbound = none) (htls : Assoc.get "tls" outbound = none) :
    TransportFollows (queryValue crates url ["type", "network", "net"]) after ∧
    (TlsEnabled after ↔
      queryValue crates url ["security"] = some "tls" ∨ queryValue crates url ["security"] = some "reality") ∧
    (HasReality after ↔ queryValue crates url ["security"] = some "reality") := by
  unfold parseVlessFields at h
  split_ifs at h
  obtain ⟨uuid, -, h⟩ := bind_ok.mp h
  obtain ⟨middle, hmiddle, h⟩ := bind_ok.mp h
  obtain rfl := Except.ok.inj h
  refine ⟨?_, applyTls_false crates ?_⟩
  · refine (applyTransport_follows crates hmiddle ?_).congr (applyTls_get_ne crates (by decide) false)
    rw [get_insertQueryString_ne crates (by decide), get_insertQueryString_ne crates (by decide),
      Assoc.get_set_ne (by decide), htransport]
  · rw [applyTransport_get_ne crates (by decide) hmiddle, get_insertQueryString_ne crates (by decide),
      get_insertQueryString_ne crates (by decide), Assoc.get_set_ne (by decide), htls]

theorem parseTrojanFields_follows (h : parseTrojanFields crates outbound url = .ok after)
    (htransport : Assoc.get "transport" outbound = none) :
    TransportFollows (queryValue crates url ["type", "network", "net"]) after := by
  unfold parseTrojanFields at h
  obtain ⟨password, -, h⟩ := bind_ok.mp h
  obtain ⟨middle, hmiddle, h⟩ := bind_ok.mp h
  obtain rfl := Except.ok.inj h
  refine (applyTransport_follows crates hmiddle ?_).congr (applyTls_get_ne crates (by decide) true)
  rw [Assoc.get_set_ne (by decide), htransport]

theorem vmessTls_enabled (source : Json.Members) : Assoc.get "enabled" (vmessTls source) = some (.bool true) := by
  unfold vmessTls
  simp only
  rw [get_insertSome_ne (by decide), get_insertSome_ne (by decide)]
  rfl

theorem vmessBase_none {key : String} (h : key = "transport" ∨ key = "tls") (source : Json.Members) (server : String)
    (port : ℕ) (uuid : String) : Assoc.get key (vmessBase source server port uuid) = none := by
  have hne : key ≠ "security" ∧ "alter_id" ≠ key ∧ key ≠ "uuid" ∧ key ∉ ["type", "tag", "server", "server_port"] := by
    rcases h with rfl | rfl <;> decide
  unfold vmessBase
  simp only
  rw [Assoc.get_set_ne hne.1, get_insertSome_ne hne.2.1, Assoc.get_set_ne hne.2.2.1, baseOutbound_none hne.2.2.2]

theorem vmessOutbound_follows {source : Json.Members} (h : vmessOutbound source = .ok after) :
    TransportFollows (jsonString source "net") after ∧
    (TlsEnabled after ↔ ∃ tls, jsonString source "tls" = some tls ∧ eqIgnoreAsciiCase tls "tls" = true) := by
  unfold vmessOutbound at h
  obtain ⟨server, -, h⟩ := bind_ok.mp h
  obtain ⟨port, -, h⟩ := bind_ok.mp h
  obtain ⟨uuid, -, h⟩ := bind_ok.mp h
  obtain ⟨transport, htransport, h⟩ := bind_ok.mp h
  obtain rfl := Except.ok.inj h
  have hbase := vmessBase_none (.inl rfl) source server port uuid
  refine ⟨?_, ?_⟩
  · refine TransportFollows.congr ?_ (get_insertSome_ne (by decide) _ _)
    obtain ⟨hplain, rfl⟩ | ⟨hnot, object, rfl, htype⟩ := vmessTransport_cases htransport
    · refine .plain hbase fun kind hkind => ?_
      rwa [hkind] at hplain
    · cases hnet : jsonString source "net" with
      | none =>
        rw [hnet] at hnot
        exact absurd (by decide) hnot
      | some kind =>
        rw [hnet] at hnot htype
        exact .kind hnot (get_insertSome_self _ _ hbase) htype
  · have hnone : Assoc.get "tls" (insertSome "transport" (transport.map .obj) (vmessBase source server port uuid)) = none := by
      rw [get_insertSome_ne (by decide), vmessBase_none (.inr rfl)]
    have hget := get_insertSome_self "tls"
      (if (jsonString source "tls").any (fun tls => eqIgnoreAsciiCase tls "tls") then some (.obj (vmessTls source)) else none)
      hnone
    rw [← Option.any_eq_true]
    split_ifs at hget ⊢ with henabled
    · exact iff_of_true ⟨_, hget, vmessTls_enabled source⟩ henabled
    · exact iff_of_false (not_tlsEnabled hget) henabled

/-! ### Links -/

/-- **Nothing that a link asks for is dropped**: the outbound has the transport and the security layer that the
values of the link name. -/
structure NotDowngraded (line : String) (outbound : Json.Members) : Prop where
  transport : ∀ scheme url, schemeOf line = some scheme → scheme = "vless" ∨ scheme = "trojan" →
    crates.urlParse line = .ok url → TransportFollows (queryValue crates url ["type", "network", "net"]) outbound
  security : ∀ url, schemeOf line = some "vless" → crates.urlParse line = .ok url →
    (TlsEnabled outbound ↔ AsksSecurity (queryValue crates url ["security"])) ∧
    (HasReality outbound ↔ queryValue crates url ["security"] = some "reality")
  vmess : ∀ source, schemeOf line = some "vmess" → vmessPayload crates line = .ok source →
    TransportFollows (jsonString source "net") outbound ∧
    (TlsEnabled outbound ↔ AsksSecurity ((Assoc.get "tls" source).bind Json.asStr))

/-- The security values that the code knows: of a vless link none, `tls` or `reality`, of a vmess payload none or
`tls` in any case. -/
structure KnownSecurity (line : String) : Prop where
  vless : ∀ url security, schemeOf line = some "vless" → crates.urlParse line = .ok url →
    queryValue crates url ["security"] = some security → security ∈ ["", "none", "tls", "reality"]
  vmess : ∀ source tls, schemeOf line = some "vmess" → vmessPayload crates line = .ok source →
    Assoc.get "tls" source = some (.str tls) → tls ∈ ["", "none"] ∨ eqIgnoreAsciiCase tls "tls" = true

section Link

variable {crates} {line scheme : String}

theorem parseUrlOutbound_ok (h : parseUrlOutbound crates line scheme = .ok outbound)
    (hurl : crates.urlParse line = .ok url) :
    ∃ kind tag server port, schemeFields crates scheme (baseOutbound kind tag server port) url = .ok outbound := by
  unfold parseUrlOutbound at h
  rw [hurl] at h
  simp only at h
  split at h
  · cases h
  · exact ⟨_, _, _, _, h⟩

theorem parseUri_vless (h : parseUri crates line = .ok outbound) (hscheme : schemeOf line = some "vless")
    (hurl : crates.urlParse line = .ok url) :
    TransportFollows (queryValue crates url ["type", "network", "net"]) outbound ∧
    (TlsEnabled outbound ↔
      queryValue crates url ["security"] = some "tls" ∨ queryValue crates url ["security"] = some "reality") ∧
    (HasReality outbound ↔ queryValue crates url ["security"] = some "reality") := by
  unfold parseUri at h
  rw [hscheme] at h
  obtain ⟨kind, tag, server, port, hfields⟩ := parseUrlOutbound_ok h hurl
  exact parseVlessFields_follows crates hfields (baseOutbound_none (by decide) _ _ _ _)
    (baseOutbound_none (by decide) _ _ _ _)

theorem parseUri_trojan (h : parseUri crates line = .ok outbound) (hscheme : schemeOf line = some "trojan")
    (hurl : crates.urlParse line = .ok url) :
    TransportFollows (queryValue crates url ["type", "network", "net"]) outbound := by
  unfold parseUri at h
  rw [hscheme] at h
  obtain ⟨kind, tag, server, port, hfields⟩ := parseUrlOutbound_ok h hurl
  exact parseTrojanFields_follows crates hfields (baseOutbound_none (by decide) _ _ _ _)

theorem parseUri_vmess {source : Json.Members} (h : parseUri crates line = .ok outbound)
    (hscheme : schemeOf line = some "vmess") (hsource : vmessPayload crates line = .ok source) :
    TransportFollows (jsonString source "net") outbound ∧
    (TlsEnabled outbound ↔ ∃ tls, jsonString source "tls" = some tls ∧ eqIgnoreAsciiCase tls "tls" = true) := by
  unfold parseUri at h
  rw [hscheme] at h
  obtain ⟨other, hother, hout⟩ := bind_ok.mp h
  rw [hsource] at hother
  obtain rfl := Except.ok.inj hother
  exact vmessOutbound_follows hout

theorem vmessPayload_ok {source : Json.Members} (h : vmessPayload crates line = .ok source) :
    ∃ text, crates.fromStr text = .ok (.obj source) := by
  unfold vmessPayload at h
  split at h
  · cases h
  · split at h
    · cases h
    · rename_i text _
      split at h
      · cases h
      · rename_i value hvalue
        cases value with
        | obj members =>
          obtain rfl := Except.ok.inj h
          exact ⟨text, hvalue⟩
        | _ => cases h

/-- A text that reads as `tls` is a string: a number does not start with a letter. -/
theorem vmess_tls_string {source : Json.Members} (h : vmessPayload crates line = .ok source)
    {tls : String} (htls : jsonString source "tls" = some tls) (heq : eqIgnoreAsciiCase tls "tls" = true) :
    Assoc.get "tls" source = some (.str tls) := by
  obtain ⟨text, htext⟩ := vmessPayload_ok h
  unfold jsonString at htls
  split at htls
  · rename_i value hvalue
    rw [hvalue, Option.some.inj htls]
  · rename_i number hnumber
    obtain rfl := Option.some.inj htls
    obtain ⟨c, hc, hdigit⟩ := crates.number_text text source "tls" number htext hnumber
    have hlow : c.toLower = 't' := by
      have hlist : number.toList.map Char.toLower = ['t', 'l', 's'] := eq_of_beq heq
      have hhead := congrArg List.head? hlist
      rw [List.head?_map, Option.mem_def.mp hc] at hhead
      exact Option.some.inj hhead
    exfalso
    rcases hdigit with rfl | hdigit
    · exact absurd hlow (by decide)
    · have hrange : '0' ≤ c ∧ c ≤ '9' := of_decide_eq_true hdigit
      have hsame : c.toLower = c := by
        unfold Char.toLower
        rw [dif_neg]
        rintro ⟨hupper, -⟩
        have hdigit : c.val ≤ 57 := hrange.2
        exact absurd (UInt32.le_trans hupper hdigit) (by decide)
      rw [hsame] at hlow
      subst hlow
      exact absurd hrange (by decide)
  · cases htls

/-- **A link is not downgraded exactly when its security value is known.** -/
theorem notDowngraded_iff (h : parseUri crates line = .ok outbound) :
    NotDowngraded crates line outbound ↔ KnownSecurity crates line := by
  constructor
  · intro hkept
    refine ⟨?_, ?_⟩
    · intro url security hscheme hurl hsecurity
      obtain ⟨-, htls, -⟩ := parseUri_vless h hscheme hurl
      obtain ⟨hasks, -⟩ := hkept.security url hscheme hurl
      by_contra hunknown
      simp only [List.mem_cons, List.not_mem_nil, or_false, not_or] at hunknown
      obtain ⟨hempty, hnone, hnotTls, hnotReality⟩ := hunknown
      have henabled := hasks.mpr ⟨security, hsecurity, hempty, hnone⟩
      rw [htls, hsecurity] at henabled
      rcases henabled with heq | heq
      · exact hnotTls (Option.some.inj heq)
      · exact hnotReality (Option.some.inj heq)
    · intro source tls hscheme hsource htls
      obtain ⟨-, henabled⟩ := parseUri_vmess h hscheme hsource
      obtain ⟨-, hasks⟩ := hkept.vmess source hscheme hsource
      by_cases hplain : tls ∈ ["", "none"]
      · exact .inl hplain
      · rw [List.mem_pair, not_or] at hplain
        have hstr : jsonString source "tls" = some tls := by
          rw [jsonString, htls]
        obtain ⟨other, hother, heq⟩ := henabled.mp (hasks.mpr ⟨tls, by rw [htls]; rfl, hplain⟩)
        rw [hstr] at hother
        obtain rfl := Option.some.inj hother
        exact .inr heq
  · intro hknown
    refine ⟨?_, ?_, ?_⟩
    · intro scheme url hscheme hvlessOrTrojan hurl
      rcases hvlessOrTrojan with rfl | rfl
      · exact (parseUri_vless h hscheme hurl).1
      · exact parseUri_trojan h hscheme hurl
    · intro url hscheme hurl
      obtain ⟨-, htls, hreality⟩ := parseUri_vless h hscheme hurl
      refine ⟨?_, hreality⟩
      rw [htls]
      constructor
      · rintro (heq | heq)
        · exact ⟨_, heq, by decide, by decide⟩
        · exact ⟨_, heq, by decide, by decide⟩
      · rintro ⟨security, hsecurity, hempty, hnone⟩
        have hmem := hknown.vless url security hscheme hurl hsecurity
        simp only [List.mem_cons, List.not_mem_nil, or_false] at hmem
        rw [hsecurity]
        rcases hmem with rfl | rfl | rfl | rfl
        · exact absurd rfl hempty
        · exact absurd rfl hnone
        · exact .inl rfl
        · exact .inr rfl
    · intro source hscheme hsource
      obtain ⟨htransport, henabled⟩ := parseUri_vmess h hscheme hsource
      refine ⟨htransport, ?_⟩
      rw [henabled]
      constructor
      · rintro ⟨tls, htls, heq⟩
        refine ⟨tls, by rw [vmess_tls_string hsource htls heq]; rfl, ?_, ?_⟩
        · rintro rfl
          exact absurd heq (by decide)
        · rintro rfl
          exact absurd heq (by decide)
      · rintro ⟨tls, htls, hempty, hnone⟩
        obtain ⟨value, hvalue, hstr⟩ := Option.bind_eq_some_iff.mp htls
        cases value with
        | str text =>
          obtain rfl := Option.some.inj hstr
          rcases hknown.vmess source text hscheme hsource hvalue with hplain | heq
          · rcases List.mem_pair.mp hplain with rfl | rfl
            · exact absurd rfl hempty
            · exact absurd rfl hnone
          · exact ⟨text, by rw [jsonString, hvalue], heq⟩
        | _ => cases hstr

end Link

/-! ### Two links -/

/-- A form without escapes. -/
def plainForm (query : String) : List (String × String) :=
  ((query.toList.splitOn '&').filter (· ≠ [])).map fun segment =>
    (String.ofList (segment.takeWhile (· ≠ '=')), String.ofList ((segment.dropWhile (· ≠ '=')).drop 1))

/-- A URL with the query of the link. -/
def linkUrl (line : String) : Url where
  username := "id"
  password := none
  host := some (.domain "h.example")
  portOrKnownDefault := some 443
  query := some (String.ofList ((line.toList.dropWhile (· ≠ '?')).drop 1))
  fragment := none

def linkCrates : Crates where
  fromStr _ := .error ""
  number_text := number_text_error ""
  base64 _ _ := .error ""
  urlParse line := .ok (linkUrl line)
  formParse := plainForm

/-- A link whose two values the code knows. -/
def realityLink : String := "vless://id@h.example:443?type=ws&security=reality"

def realityOutbound : Json.Members :=
  baseOutbound "vless" "vless" "h.example" 443 ++ [("uuid", .str "id"), ("transport", .obj [("type", .str "ws")]),
    ("tls", .obj [("enabled", .bool true), ("reality", .obj [("enabled", .bool true)])])]

theorem realityLink_parsed : parseUri linkCrates realityLink = .ok realityOutbound := by
  rfl

theorem notDowngraded_iff_reality : NotDowngraded linkCrates realityLink realityOutbound := by
  refine (notDowngraded_iff realityLink_parsed).mpr ⟨?_, ?_⟩
  · intro url security _ hurl hsecurity
    obtain rfl := Except.ok.inj hurl
    have hvalue : queryValue linkCrates (linkUrl realityLink) ["security"] = some "reality" := by
      rfl
    rw [hvalue] at hsecurity
    obtain rfl := Option.some.inj hsecurity
    decide
  · intro source tls hscheme
    exact absurd hscheme (by decide)

/-- The older spelling of TLS. -/
def xtlsLink : String := "vless://id@h.example:443?security=xtls"

def xtlsOutbound : Json.Members := baseOutbound "vless" "vless" "h.example" 443 ++ [("uuid", .str "id")]

theorem xtlsLink_parsed : parseUri linkCrates xtlsLink = .ok xtlsOutbound := by
  rfl

/-- A value that the code does not know leaves the outbound without TLS. -/
theorem security_downgraded : ¬∀ (crates : Crates) (line : String) (outbound : Json.Members),
    parseUri crates line = .ok outbound → NotDowngraded crates line outbound := by
  intro h
  obtain ⟨hasks, -⟩ := (h linkCrates xtlsLink xtlsOutbound xtlsLink_parsed).security (linkUrl xtlsLink) (by decide) rfl
  have henabled : TlsEnabled xtlsOutbound := hasks.mpr ⟨"xtls", by rfl, by decide, by decide⟩
  exact not_tlsEnabled (by decide) henabled

end Uri

end FluxRs.Nodes
