import FluxRs.Lib.Json
import FluxRs.Lib.Bytes

/-!
# FluxRs.Nodes.Refine — provider nodes and their tags

The refinement pipeline of `crates/flux-core/src/subscription.rs`: infrastructure and excluded entries
go, the tag is renamed, cleaned and cut, and the node is grouped under it.  A compiled expression is
the pair of functions its library gives it.
-/

namespace FluxRs.Nodes

open FluxRs.Lib

/-! ### Tags -/

/-- A compiled regular expression: whether it matches, and the text with every match replaced. -/
structure Regex where
  isMatch : String → Bool
  replaceAll : String → String → String

/-- `strip_emoji`: the code points that go. -/
def isEmoji (c : Char) : Bool :=
  let n := c.toNat
  decide ((0x1F1E6 ≤ n ∧ n ≤ 0x1F1FF) ∨ (0x1F300 ≤ n ∧ n ≤ 0x1F5FF) ∨ (0x1F600 ≤ n ∧ n ≤ 0x1F64F) ∨
    (0x1F680 ≤ n ∧ n ≤ 0x1F6FF) ∨ (0x1F700 ≤ n ∧ n ≤ 0x1FAFF) ∨ n = 0x20E3 ∨
    (0x2600 ≤ n ∧ n ≤ 0x27BF) ∨ (0x2E80 ≤ n ∧ n ≤ 0x2EFF) ∨ n = 0xFE0F ∨ n = 0x200D)

def stripEmoji (tag : String) : String := String.ofList (tag.toList.filter fun c => !isEmoji c)

/-- `char::is_whitespace`. -/
def isWhitespace (c : Char) : Bool :=
  let n := c.toNat
  decide ((9 ≤ n ∧ n ≤ 13) ∨ n = 0x20 ∨ n = 0x85 ∨ n = 0xA0 ∨ n = 0x1680 ∨ (0x2000 ≤ n ∧ n ≤ 0x200A) ∨
    n = 0x2028 ∨ n = 0x2029 ∨ n = 0x202F ∨ n = 0x205F ∨ n = 0x3000)

def isAsciiDigit (c : Char) : Bool := decide ('0' ≤ c ∧ c ≤ '9')

/-- `[0-9]+(\.[0-9]+)?` at the start of the text: what it takes, and what it leaves. -/
def matchNumber (text : List Char) : Option (List Char × List Char) :=
  let (whole, rest) := text.span isAsciiDigit
  if whole = [] then none
  else match rest with
    | '.' :: tail =>
      let (fraction, rest') := tail.span isAsciiDigit
      if fraction = [] then some (whole, rest) else some (whole ++ '.' :: fraction, rest')
    | _ => some (whole, rest)

/-- `[xX]|倍率?` at the start of the text. -/
def matchUnit : List Char → Option (List Char)
  | 'x' :: rest => some rest
  | 'X' :: rest => some rest
  | '倍' :: '率' :: rest => some rest
  | '倍' :: rest => some rest
  | _ => none

def skipBlanks (text : List Char) : List Char := text.dropWhile fun c => c == ' ' || c == '\t'

/-- The expression `currency`, as its first group and what it leaves. -/
def matchCurrency : List Char → Option (List Char × List Char)
  | c :: text =>
    if c = '$' ∨ c = '¥' then
      (matchNumber text).map fun (number, rest) =>
        (number, (matchUnit (skipBlanks rest)).getD (skipBlanks rest))
    else none
  | [] => none

/-- The expression `suffix`. -/
def matchSuffix (text : List Char) : Option (List Char × List Char) :=
  (matchNumber text).bind fun (number, rest) => (matchUnit (skipBlanks rest)).map fun rest => (number, rest)

/-- `replace_all(.., "${1}x")`, with as many rounds as there are characters. -/
def replaceMultipliers (matchAt : List Char → Option (List Char × List Char)) : ℕ → List Char → List Char
  | 0, text => text
  | _ + 1, [] => []
  | n + 1, c :: text =>
    match matchAt (c :: text) with
    | some (number, rest) => number ++ 'x' :: replaceMultipliers matchAt n rest
    | none => c :: replaceMultipliers matchAt n text

/-- `split_whitespace`. -/
def splitWhitespace (text : List Char) : List (List Char) := (text.splitOnP isWhitespace).filter (· ≠ [])

def joinWords : List (List Char) → List Char
  | [] => []
  | [word] => word
  | word :: rest => word ++ ' ' :: joinWords rest

def normaliseTag (tag : String) : String :=
  let tag := replaceMultipliers matchCurrency tag.length tag.toList
  let tag := replaceMultipliers matchSuffix tag.length tag
  String.ofList (joinWords (splitWhitespace tag))

def truncateTag (tag : String) (maxLength : ℕ) : String :=
  if tag.length ≤ maxLength then tag
  else if maxLength ≤ 3 then String.ofList (List.replicate maxLength '.')
  else String.ofList (tag.toList.take (maxLength - 3) ++ ['.', '.', '.'])

/-! ### One outbound -/

/-- Why subscription bytes could not become refined nodes. -/
inductive SubscriptionError where
  | jsonSyntax (reason : String)
  | jsonNotObject
  | jsonOutboundsMissing
  | jsonOutboundsNotArray
  | invalidBase64 (reason : String)
  | decodedListNotUtf8
  | invalidUri (line : ℕ) (reason : String)
  | invalidOutbound (index : ℕ) (reason : String)
  | duplicateTag (first second : String)
  | source (position : String) (error : SubscriptionError)
  | zeroNodes
  deriving DecidableEq

structure RefinedNode where
  outbound : Json
  groups : List String

/-- `NodePolicy`, with what `refine` reads of its configuration; a length of zero is not parsed. -/
structure NodePolicy where
  stripEmoji : Bool
  maxTagLength : ℕ
  maxTagLength_pos : 0 < maxTagLength
  exclude : Option Regex
  renames : List (Regex × String)
  groups : List (String × Regex)

/-- `INFRASTRUCTURE_TYPES`. -/
def infrastructureTypes : List String := ["selector", "urltest", "direct", "block", "dns"]

namespace NodePolicy

variable (policy : NodePolicy)

/-- `groups` of the policy. -/
def groupsOf (tag : String) : List String :=
  (policy.groups.filter fun group => group.2.isMatch tag).map Prod.fst

/-- Exclusion observes the provider's original tag. -/
def excludes (tag : String) : Bool := policy.exclude.any fun pattern => pattern.isMatch tag

/-- Steps 3 to 5, up to the fallback. -/
def cleanedTag (original : String) : String :=
  let tag := policy.renames.foldl (fun tag rule => rule.1.replaceAll tag rule.2) original
  normaliseTag (if policy.stripEmoji then Nodes.stripEmoji tag else tag)

/-- Steps 3 to 6. -/
def finalTag (kind original : String) : String :=
  let tag := policy.cleanedTag original
  truncateTag (if tag = "" then kind else tag) policy.maxTagLength

/-- One round of the loop of `refine`; `none` is an entry that is left out. -/
def refineOne (index : ℕ) (outbound : Json) : Except SubscriptionError (Option RefinedNode) :=
  match outbound.asObject with
  | none => .error (.invalidOutbound index "entry is not an object")
  | some object =>
    match Json.getStr "type" object with
    | none => .error (.invalidOutbound index "type is missing or is not a string")
    | some kind =>
      if kind ∈ infrastructureTypes then .ok none
      else match Json.getStr "tag" object with
        | none => .error (.invalidOutbound index "tag is missing or is not a string")
        | some originalTag =>
          if policy.excludes originalTag then .ok none
          else
            let tag := policy.finalTag kind originalTag
            .ok (some ⟨.obj (Assoc.set "tag" (.str tag) object), policy.groupsOf tag⟩)

/-- The loop of `refine`. -/
def refineFrom : ℕ → List Json → Except SubscriptionError (List RefinedNode)
  | _, [] => .ok []
  | index, outbound :: rest =>
    match policy.refineOne index outbound with
    | .error error => .error error
    | .ok node =>
      match refineFrom (index + 1) rest with
      | .error error => .error error
      | .ok nodes => .ok (node.toList ++ nodes)

/-- `NodePolicy::refine`. -/
def refine (outbounds : List Json) : Except SubscriptionError (List RefinedNode) :=
  match policy.refineFrom 0 outbounds with
  | .error error => .error error
  | .ok [] => .error .zeroNodes
  | .ok nodes => .ok nodes

end NodePolicy

/-! ### Tags that come out empty -/

/-- The tag of a node. -/
def RefinedNode.tag (node : RefinedNode) : Option String := node.outbound.asObject.bind (Json.getStr "tag")

theorem truncateTag_eq_empty_iff {tag : String} {maxLength : ℕ} (hpos : 0 < maxLength) :
    truncateTag tag maxLength = "" ↔ tag = "" := by
  unfold truncateTag
  by_cases hle : tag.length ≤ maxLength
  · rw [if_pos hle]
  · rw [if_neg hle]
    have htag : tag ≠ "" := by
      rintro rfl
      exact hle (Nat.zero_le _)
    refine ⟨fun h => ?_, fun h => absurd h htag⟩
    have hlist := congrArg String.toList h
    split at hlist
    · rw [String.toList_ofList] at hlist
      have hlen := congrArg List.length hlist
      rw [List.length_replicate] at hlen
      exact absurd hlen (by simpa using hpos.ne')
    · rw [String.toList_ofList] at hlist
      have hlen := congrArg List.length hlist
      rw [List.length_append] at hlen
      exact absurd hlen (by simp)

section Tags

variable (policy : NodePolicy)

/-- A refined tag is empty exactly if the cleaned tag and the fallback both are. -/
theorem finalTag_eq_empty_iff (kind original : String) :
    policy.finalTag kind original = "" ↔ kind = "" ∧ policy.cleanedTag original = "" := by
  unfold NodePolicy.finalTag
  rw [truncateTag_eq_empty_iff policy.maxTagLength_pos]
  by_cases h : policy.cleanedTag original = ""
  · rw [if_pos h]
    exact ⟨fun hk => ⟨hk, h⟩, fun hk => hk.1⟩
  · rw [if_neg h]
    exact ⟨fun ht => absurd ht h, fun hk => hk.2⟩

/-- An outbound that refinement keeps and leaves without a name: its type is the empty string, the
exclusion does not match its tag, and nothing of the tag survives the cleanup. -/
def Nameless (outbound : Json) : Prop :=
  ∃ object tag, outbound = .obj object ∧ Json.getStr "type" object = some "" ∧
    Json.getStr "tag" object = some tag ∧ policy.excludes tag = false ∧ policy.cleanedTag tag = ""

variable {policy}

/-- What one round keeps has a tag, and an empty one only of a nameless outbound. -/
theorem refineOne_tag {index : ℕ} {outbound : Json} {node : RefinedNode}
    (h : policy.refineOne index outbound = .ok (some node)) :
    ∃ tag, node.tag = some tag ∧ (tag = "" ↔ Nameless policy outbound) := by
  unfold NodePolicy.refineOne at h
  cases outbound with
  | obj object =>
    simp only [Json.asObject] at h
    cases hkind : Json.getStr "type" object with
    | none =>
      rw [hkind] at h
      cases h
    | some kind =>
      cases htag : Json.getStr "tag" object with
      | none =>
        rw [hkind, htag] at h
        simp only at h
        split at h <;> cases h
      | some original =>
        rw [hkind, htag] at h
        simp only at h
        split_ifs at h with hinfra hexcl
        · cases h
        · cases h
        · obtain rfl := Option.some.inj (Except.ok.inj h)
          refine ⟨policy.finalTag kind original, ?_, ?_⟩
          · show (Assoc.get "tag" (Assoc.set "tag" _ object)).bind Json.asStr = _
            rw [Assoc.get_set_self]
            rfl
          · rw [finalTag_eq_empty_iff]
            constructor
            · rintro ⟨rfl, hclean⟩
              exact ⟨object, original, rfl, hkind, htag, Bool.eq_false_iff.mpr hexcl, hclean⟩
            · rintro ⟨object', tag, heq, hk, ht, -, hclean⟩
              obtain rfl := Json.obj.inj heq
              obtain rfl := Option.some.inj (htag.symm.trans ht)
              exact ⟨Option.some.inj (hkind.symm.trans hk), hclean⟩
  | _ => cases h

/-- A nameless outbound is kept. -/
theorem refineOne_nameless (index : ℕ) {outbound : Json} (hno : Nameless policy outbound) :
    ∃ node, policy.refineOne index outbound = .ok (some node) := by
  obtain ⟨object, tag, rfl, hkind, htag, hexcl, -⟩ := hno
  have hinfra : ("" : String) ∉ infrastructureTypes := by decide
  simp only [NodePolicy.refineOne, Json.asObject, hkind, htag, hinfra, hexcl, if_false, Bool.false_eq_true]
  exact ⟨_, rfl⟩

/-- The nodes of an accepted list: each has a tag, and one is empty exactly if an outbound is nameless. -/
theorem refineFrom_tags : ∀ {outbounds : List Json} {index : ℕ} {nodes : List RefinedNode},
    policy.refineFrom index outbounds = .ok nodes →
      (∀ node ∈ nodes, ∃ tag, node.tag = some tag) ∧
        ((∃ node ∈ nodes, node.tag = some "") ↔ ∃ outbound ∈ outbounds, Nameless policy outbound)
  | [], _, nodes, h => by
    obtain rfl := Except.ok.inj h
    simp
  | outbound :: rest, index, nodes, h => by
    unfold NodePolicy.refineFrom at h
    cases hone : policy.refineOne index outbound with
    | error error =>
      rw [hone] at h
      cases h
    | ok node =>
      cases hrest : policy.refineFrom (index + 1) rest with
      | error error =>
        rw [hone, hrest] at h
        cases h
      | ok tail =>
        rw [hone, hrest] at h
        obtain rfl := Except.ok.inj h
        obtain ⟨htags, hempty⟩ := refineFrom_tags hrest
        have hhead : (∀ n ∈ node.toList, ∃ tag, n.tag = some tag) ∧
            ((∃ n ∈ node.toList, n.tag = some "") ↔ Nameless policy outbound) := by
          cases node with
          | none =>
            refine ⟨fun n hn => (by cases hn), ⟨fun ⟨n, hn, _⟩ => (by cases hn), fun hno => ?_⟩⟩
            obtain ⟨node, hnode⟩ := refineOne_nameless index hno
            rw [hone] at hnode
            cases hnode
          | some node =>
            obtain ⟨tag, htag, hiff⟩ := refineOne_tag hone
            simp only [Option.toList_some, List.mem_singleton, forall_eq, exists_eq_left]
            refine ⟨⟨tag, htag⟩, ?_⟩
            rw [htag, Option.some_inj, hiff]
        refine ⟨fun n hn => ?_, ?_⟩
        · rcases List.mem_append.mp hn with hn | hn
          · exact hhead.1 n hn
          · exact htags n hn
        · simp only [List.mem_append, or_and_right, exists_or, hhead.2, hempty, List.mem_cons,
            exists_eq_left]

/-- **An accepted provider list has a nameless node exactly if it has a nameless outbound.** -/
theorem refine_tags {outbounds : List Json} {nodes : List RefinedNode}
    (h : policy.refine outbounds = .ok nodes) :
    (∀ node ∈ nodes, ∃ tag, node.tag = some tag) ∧
      ((∃ node ∈ nodes, node.tag = some "") ↔ ∃ outbound ∈ outbounds, Nameless policy outbound) := by
  unfold NodePolicy.refine at h
  split at h
  · cases h
  · cases h
  · rename_i hfrom
    obtain rfl := Except.ok.inj h
    exact refineFrom_tags hfrom

end Tags

end FluxRs.Nodes
