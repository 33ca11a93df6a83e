import FluxRs.Lib.Keyed
import FluxRs.Netlink.Objects
import FluxRs.Nodes.Sources

/-!
# FluxRs.Netlink.Dumped — the readers of rules, routes and filters

`parse_rule`, `parse_route` and `parse_filter` of `crates/fluxd/src/netlink/route.rs`.  Each runs once
over the attributes of a message; an attribute seen before, or one it does not know, is marked.  The kinds of the
extra attributes are left out.
-/

namespace FluxRs.Netlink

open FluxRs.Lib Checked

/-! ### Values -/

section Values

variable (e : Endian)

def attrU32 (attr : Attr) : Checked IoError U32 :=
  if attr.payload.length ≠ 4 then fail (.invalidData "netlink u32 attribute has the wrong size")
  else .ok (e.word 32 attr.payload)

def attrCstr (attr : Attr) : Checked IoError String :=
  match attr.payload.getLast? with
  | some 0 =>
    let text := attr.payload.dropLast
    if text.contains 0 then fail (.invalidData "netlink string attribute contains an embedded NUL")
    else
      match Nodes.fromUtf8 text with
      | some text => .ok text
      | none => fail (.invalidData "netlink string is not UTF-8")
  | _ => fail (.invalidData "netlink string attribute is not NUL-terminated")

/-- An attribute of one byte. -/
def attrByte (error : String) (attr : Attr) : Checked IoError U8 :=
  match attr.payload with
  | [value] => .ok value
  | _ => fail (.invalidData error)

/-- The payload that `attr_cstr` of the builder writes. -/
def cstrBytes (text : String) : List U8 := utf8 text.toList ++ [0]

variable {e} {attr : Attr}

theorem attrU32_ok {value : U32} : attrU32 e attr = .ok value ↔ attr.payload = e.ofWord value := by
  unfold attrU32
  constructor
  · intro h
    split at h
    · cases h
    · rename_i hlen
      obtain rfl := Except.ok.inj h
      exact (Endian.ofWord_word (k := 4) e (not_not.mp hlen)).symm
  · intro h
    rw [h, if_neg (not_not.mpr (e.length_ofWord value)), e.word32_ofWord]

theorem attrCstr_ok {text : String} : attrCstr attr = .ok text ↔ attr.payload = cstrBytes text ∧ 0 ∉ utf8 text.toList := by
  unfold attrCstr cstrBytes
  constructor
  · intro h
    split at h
    · rename_i hlast
      have hpayload := List.dropLast_append_getLast? 0 hlast
      dsimp only at h
      split at h
      · cases h
      · rename_i hzero
        split at h
        · rename_i text' htext
          obtain rfl := Except.ok.inj h
          have hbytes := Nodes.fromUtf8_eq_some htext
          rw [hbytes] at hpayload
          refine ⟨hpayload.symm, ?_⟩
          intro hmem
          rw [← hbytes] at hmem
          exact hzero (List.contains_iff_mem.mpr hmem)
        · cases h
    · cases h
  · rintro ⟨hpayload, hzero⟩
    have hcontains : ¬ (utf8 text.toList).contains 0 = true := fun h => hzero (List.contains_iff_mem.mp h)
    rw [hpayload, List.getLast?_concat]
    dsimp only
    rw [List.dropLast_concat, if_neg hcontains, Nodes.fromUtf8_utf8, String.ofList_toList]
    rfl

theorem attrByte_ok {error : String} {value : U8} : attrByte error attr = .ok value ↔ attr.payload = [value] := by
  unfold attrByte
  constructor
  · intro h
    split at h
    · rename_i hpayload
      obtain rfl := Except.ok.inj h
      exact hpayload
    · cases h
  · intro h
    rw [h]

end Values

section Parsers

variable (e : Endian)

/-- The loop over the attributes behind a header of `size` bytes. -/
def readBody {σ : Type} (read : Attr → σ → Checked IoError σ) (duplicate : σ → σ) (size : ℕ) (payload : List U8) (s : σ) :
    Checked IoError σ := do
  let body ← slice payload size payload.length
  let out ← attrs e body
  foldKeyed Attr.kind read duplicate [] s out

/-- `read_struct`. -/
def readStruct (size : ℕ) (payload : List U8) : Checked IoError Unit :=
  if payload.length < size then fail (.invalidData "short netlink payload") else .ok ()

def headerByte (payload : List U8) (i : ℕ) : U8 := payload.getD i 0

def headerWord (payload : List U8) (i : ℕ) : U32 := e.word 32 ((payload.drop i).take 4)

/-! ### Rules -/

def FRA_IIFNAME : U16 := 3

def FRA_PRIORITY : U16 := 6

def FRA_SUPPRESS_PREFIXLEN : U16 := 14

def FRA_TABLE : U16 := 15

def FRA_PROTOCOL : U16 := 21

def Rule.extra (rule : Rule) : Rule := { rule with extraAttrs := true }

def ruleAttr (attr : Attr) (rule : Rule) : Checked IoError Rule :=
  if attr.kind = FRA_TABLE then (attrU32 e attr).map fun value => { rule with table := value }
  else if attr.kind = FRA_PRIORITY then (attrU32 e attr).map fun value => { rule with priority := some value }
  else if attr.kind = FRA_IIFNAME then (attrCstr attr).map fun value => { rule with iifName := some value }
  else if attr.kind = FRA_SUPPRESS_PREFIXLEN then
    (attrU32 e attr).map fun value => { rule with suppressPrefixLen := some value }
  else if attr.kind = FRA_PROTOCOL then
    (attrByte "rule protocol attribute has the wrong size" attr).map fun value => { rule with protocol := some value }
  else .ok rule.extra

/-- What the header says, before any attribute. -/
def ruleHeader (payload : List U8) : Rule where
  family := headerByte payload 0
  dstLen := headerByte payload 1
  srcLen := headerByte payload 2
  table := (headerByte payload 4).setWidth 32
  action := headerByte payload 7
  priority := none
  iifName := none
  suppressPrefixLen := none
  protocol := none
  extraAttrs := headerByte payload 3 != 0 || headerWord e payload 8 != 0

def parseRule (payload : List U8) : Checked IoError Rule := do
  readStruct 12 payload
  readBody e (ruleAttr e) Rule.extra 12 payload (ruleHeader e payload)

/-! ### Routes -/

def RTA_DST : U16 := 1

def RTA_OIF : U16 := 4

def RTA_PRIORITY : U16 := 6

def RTA_CACHEINFO : U16 := 12

def RTA_TABLE : U16 := 15

def RTA_PREF : U16 := 20

def Route.extra (route : Route) : Route := { route with extraAttrs := true }

/-- A cacheinfo of its fixed size says nothing. -/
def routeAttr (attr : Attr) (route : Route) : Checked IoError Route :=
  if attr.kind = RTA_TABLE then (attrU32 e attr).map fun value => { route with table := value }
  else if attr.kind = RTA_OIF then (attrU32 e attr).map fun value => { route with oif := some value }
  else if attr.kind = RTA_DST then .ok { route with hasDst := true }
  else if attr.kind = RTA_PRIORITY then (attrU32 e attr).map fun value => { route with metric := some value }
  else if attr.kind = RTA_CACHEINFO ∧ attr.payload.length = 32 then .ok route
  else if attr.kind = RTA_PREF then
    (attrByte "route preference attribute has the wrong size" attr).map fun value =>
      { route with preference := some value }
  else .ok route.extra

def routeHeader (payload : List U8) : Route where
  family := headerByte payload 0
  dstLen := headerByte payload 1
  table := (headerByte payload 4).setWidth 32
  protocol := headerByte payload 5
  scope := headerByte payload 6
  kind := headerByte payload 7
  oif := none
  hasDst := false
  metric := none
  preference := none
  extraAttrs := headerByte payload 2 != 0 || headerByte payload 3 != 0 || headerWord e payload 8 != 0

def parseRoute (payload : List U8) : Checked IoError Route := do
  readStruct 12 payload
  readBody e (routeAttr e) Route.extra 12 payload (routeHeader e payload)

/-! ### Filters -/

def TCA_KIND : U16 := 1

def TCA_OPTIONS : U16 := 2

def TCA_CHAIN : U16 := 11

def TCA_BPF_NAME : U16 := 7

def TCA_BPF_FLAGS : U16 := 8

def TCA_BPF_FLAGS_GEN : U16 := 9

def TCA_BPF_TAG : U16 := 10

def TCA_BPF_ID : U16 := 11

/-- `tc_info`: `to_be` keeps the bytes of the protocol in network order. -/
def tcInfo (priority protocol : U16) : U32 :=
  priority.setWidth 32 <<< 16 ||| (e.word 16 (Endian.big.ofWord protocol)).setWidth 32

def infoPriority (info : U32) : U16 := (info >>> 16).setWidth 16

/-- `u16::from_be(info as u16)`. -/
def infoProtocol (info : U32) : U16 := Endian.big.word 16 (e.ofWord (info.setWidth 16 : U16))

def positiveIndex (index : U32) : Checked IoError U32 :=
  if 0 < index.toInt then .ok index else fail (.invalidData "invalid interface index")

def Filter.duplicate (filter : Filter) : Filter := { filter with duplicateAttrs := true }

def Filter.unknown (filter : Filter) : Filter := { filter with unknownAttrs := true }

def optionAttr (attr : Attr) (filter : Filter) : Checked IoError Filter :=
  if attr.kind = TCA_BPF_FLAGS then
    (attrU32 e attr).map fun flags =>
      { filter with directAction := flags &&& TCA_BPF_FLAG_ACT_DIRECT != 0, bpfFlags := some flags }
  else if attr.kind = TCA_BPF_FLAGS_GEN then (attrU32 e attr).map fun value => { filter with flagsGen := some value }
  else if attr.kind = TCA_BPF_TAG then
    .ok (if attr.payload.length = 8 then { filter with progTag := some attr.payload } else filter.unknown)
  else if attr.kind = TCA_BPF_ID then (attrU32 e attr).map fun value => { filter with progId := some value }
  else if attr.kind = TCA_BPF_NAME then (attrCstr attr).map fun value => { filter with progName := some value }
  else .ok filter.unknown

def filterAttr (attr : Attr) (filter : Filter) : Checked IoError Filter :=
  if attr.kind = TCA_KIND then (attrCstr attr).map fun value => { filter with kind := some value }
  else if attr.kind = TCA_CHAIN then (attrU32 e attr).map fun value => { filter with chain := value }
  else if attr.kind = TCA_OPTIONS then do
    let options ← attrs e attr.payload
    foldKeyed Attr.kind (optionAttr e) Filter.duplicate [] filter options
  else if (3 ≤ attr.kind ∧ attr.kind ≤ 10) ∨ attr.kind = 12 then .ok filter
  else .ok filter.unknown

def filterHeader (payload : List U8) : Filter where
  ifindex := headerWord e payload 4
  parent := headerWord e payload 12
  handle := headerWord e payload 8
  chain := 0
  priority := infoPriority (headerWord e payload 16)
  protocol := infoProtocol e (headerWord e payload 16)
  kind := none
  directAction := false
  bpfFlags := none
  progId := none
  progTag := none
  progName := none
  flagsGen := none
  unknownAttrs := false
  duplicateAttrs := false

def parseFilter (payload : List U8) : Checked IoError Filter := do
  readStruct 20 payload
  let filter ← readBody e (filterAttr e) Filter.duplicate 20 payload (filterHeader e payload)
  let ifindex ← positiveIndex filter.ifindex
  return { filter with ifindex }

end Parsers

end FluxRs.Netlink
