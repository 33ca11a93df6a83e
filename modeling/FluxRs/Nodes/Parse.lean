import FluxRs.Nodes.Sources
import FluxRs.Lib.Toml
import Mathlib.Data.List.Nodup

/-!
# FluxRs.Nodes.Parse — node sources from the main document

`parse_nodes` of `crates/flux-core/src/config.rs`: inline entries, list files of one level, and remote
subscriptions, each of them once.
-/

namespace FluxRs.Nodes

open FluxRs.Lib

/-- The errors of `ConfigError` that concern the sources. -/
inductive ConfigError where
  | unknownKey (key : String) (closest : Option String)
  | wrongType (detail : String)
  | invalidValue (detail : String)
  | invalidListPath (path : String)
  | listFileUnreadable (path detail : String)
  | listFileTooLarge (path : String) (size : ℕ)
  | listFileNotUtf8 (path : String)
  | recursiveListReference (path : String) (line : ℕ)
  deriving DecidableEq, Repr

/-- `MAX_CONFIG_BYTES`. -/
def maxListBytes : ℕ := 256 * 1024

/-! ### Keys -/

/-- One row of the edit distances: `corner` and `left` are the cells above and beside the next one. -/
def levenshteinRow (c : Char) : (corner left : ℕ) → List Char → List ℕ → List ℕ
  | corner, left, d :: right, above :: previous =>
    let cell := min (min (above + 1) (left + 1)) (corner + if c = d then 0 else 1)
    cell :: levenshteinRow c above cell right previous
  | _, _, _, _ => []

def levenshtein (left right : String) : ℕ :=
  let rows := left.toList.foldl (fun (row : List ℕ × ℕ) c =>
    let first := row.2 + 1
    (first :: levenshteinRow c (row.1.headD 0) first right.toList row.1.tail, first))
    (List.range (right.toList.length + 1), 0)
  rows.1.getLastD 0

/-- `closest_key`: the first of the nearest keys. -/
def closestKey (key : String) (known : List String) : Option String :=
  (known.foldl (fun (best : Option (ℕ × String)) candidate =>
    let distance := levenshtein key candidate
    match best with
    | some (least, _) => if distance < least then some (distance, candidate) else best
    | none => some (distance, candidate)) none).map Prod.snd

def rejectUnknownKeys (table : List (String × TomlValue)) (path : String) (known : List String) :
    Except ConfigError Unit :=
  match table.find? fun m => decide (m.1 ∉ known) with
  | some (key, _) => .error (.unknownKey (if path = "" then key else path ++ "." ++ key) (closestKey key known))
  | none => .ok ()

/-! ### Remote sources -/

/-- What the source takes from the URL parser and from the digest. -/
structure UrlLibrary where
  /-- `url::Url::parse`: the scheme, and whether there is a host. -/
  parse : String → Option (String × Bool)
  /-- `sha256::hex(&sha256::digest(..))`. -/
  digest : String → String

namespace RemoteSource

variable (urls : UrlLibrary)

def parse (url : String) : Except String RemoteSource :=
  match urls.parse url with
  | none => .error "invalid subscription URL"
  | some (scheme, host) =>
    if scheme ∈ ["http", "https"] ∧ host = true then .ok ⟨url, urls.digest url⟩
    else .error "subscription URL must use HTTP(S) and have a host"

theorem parse_ok {url : String} {source : RemoteSource} (h : parse urls url = .ok source) :
    source = ⟨url, urls.digest url⟩ := by
  unfold parse at h
  split at h
  · cases h
  · split_ifs at h
    exact (Except.ok.inj h).symm

end RemoteSource

/-! ### Entries -/

section Parse

variable (lib : Libraries) (urls : UrlLibrary) (readFile : String → Except String (List U8)) (policy : NodePolicy)

/-- `validate_list_path`. -/
def validateListPath (path : List Char) : Except ConfigError Unit :=
  if path = [] ∨ path = ['.'] ∨ path = ['.', '.'] ∨ path.contains '/' ∨ path.contains '\\' ∨ path.contains '\x00' then
    .error (.invalidListPath (String.ofList path))
  else .ok ()

def manualSource (uri position : String) : Except ConfigError NodeSource :=
  match policy.manual lib uri with
  | .error reason => .error (.invalidValue (position ++ ": " ++ reason))
  | .ok node => .ok (.manual node position)

/-- The loop over the lines of a list file. -/
def listSources (path position : String) : ℕ → List (List Char) → Except ConfigError (List NodeSource)
  | _, [] => .ok []
  | line, raw :: rest =>
    let uri := trim raw
    if uri = [] ∨ uri.head? = some '#' then listSources path position (line + 1) rest
    else if uri.head? = some '@' then .error (.recursiveListReference path line)
    else
      match manualSource lib policy (String.ofList uri) (position ++ ", line " ++ toString line) with
      | .error error => .error error
      | .ok source =>
        match listSources path position (line + 1) rest with
        | .error error => .error error
        | .ok sources => .ok (source :: sources)

/-- An `@file` entry. -/
def fileSources (path : List Char) (position : String) : Except ConfigError (List NodeSource) :=
  match validateListPath path with
  | .error error => .error error
  | .ok () =>
    let path := String.ofList path
    match readFile path with
    | .error detail => .error (.listFileUnreadable path detail)
    | .ok bytes =>
      if maxListBytes < bytes.length then .error (.listFileTooLarge path bytes.length)
      else
        match fromUtf8 bytes with
        | none => .error (.listFileNotUtf8 path)
        | some text => listSources lib policy path position 1 (text.toList.splitOn '\n')

/-- The URI of an entry, and whether it is explicitly a node. -/
def entryUri (position : String) : TomlValue → Except ConfigError (String × Bool)
  | .scalar (.str uri) => .ok (uri, false)
  | .table table =>
    match rejectUnknownKeys table position ["node"] with
    | .error error => .error error
    | .ok () =>
      match Assoc.get "node" table with
      | some (.scalar (.str uri)) => .ok (uri, true)
      | _ => .error (.wrongType (position ++ ".node must be a string"))
  | _ => .error (.wrongType (position ++ " must be a URI, @file, or node table"))

/-- The scheme before the first colon is that of a subscription. -/
def isSubscription (uri : String) : Bool :=
  match splitOnce [':'] uri.toList with
  | none => false
  | some (scheme, _) => scheme.map Char.toLower == "http".toList || scheme.map Char.toLower == "https".toList

/-- One round of `parse_nodes`: what is pushed, and the remote sources seen afterwards. -/
def entrySources (position : String) (seen : List RemoteSource) (entry : TomlValue) :
    Except ConfigError (List NodeSource × List RemoteSource) :=
  match entryUri position entry with
  | .error error => .error error
  | .ok (uri, explicit) =>
    let manual :=
      match manualSource lib policy uri position with
      | .error error => .error error
      | .ok source => .ok ([source], seen)
    if explicit then manual
    else if uri.toList.head? = some '@' then
      match fileSources lib readFile policy uri.toList.tail position with
      | .error error => .error error
      | .ok sources => .ok (sources, seen)
    else if isSubscription uri then
      match RemoteSource.parse urls uri with
      | .error reason => .error (.invalidValue (position ++ ": " ++ reason))
      | .ok source =>
        if source ∈ seen then .ok ([], seen) else .ok ([.remote source position], source :: seen)
    else manual

def parseEntries : ℕ → List RemoteSource → List TomlValue → Except ConfigError (List NodeSource)
  | _, _, [] => .ok []
  | index, seen, entry :: rest =>
    match entrySources lib urls readFile policy ("nodes.sources entry " ++ toString (index + 1)) seen entry with
    | .error error => .error error
    | .ok (sources, seen) =>
      match parseEntries (index + 1) seen rest with
      | .error error => .error error
      | .ok more => .ok (sources ++ more)

/-- `parse_nodes`. -/
def parseNodes (top : List (String × TomlValue)) : Except ConfigError (List NodeSource) :=
  match Assoc.get "nodes" top with
  | none => .ok []
  | some (.table table) =>
    match rejectUnknownKeys table "nodes" ["sources"] with
    | .error error => .error error
    | .ok () =>
      match Assoc.get "sources" table with
      | none => .ok []
      | some (.array entries) => parseEntries lib urls readFile policy 0 [] entries
      | some _ => .error (.wrongType "nodes.sources must be an array")
  | some _ => .error (.wrongType "nodes must be a table")

end Parse

/-! ### What is parsed -/

/-- The remote sources, in their order. -/
def remotes : List NodeSource → List RemoteSource
  | [] => []
  | .manual _ _ :: rest => remotes rest
  | .remote source _ :: rest => source :: remotes rest

theorem remotes_append (sources more : List NodeSource) : remotes (sources ++ more) = remotes sources ++ remotes more := by
  induction sources with
  | nil => rfl
  | cons first rest ih =>
    cases first with
    | manual node position => exact ih
    | remote source position => exact congrArg (source :: ·) ih

theorem mem_remotes {source : RemoteSource} {sources : List NodeSource} :
    source ∈ remotes sources ↔ ∃ position, .remote source position ∈ sources := by
  induction sources with
  | nil => simp [remotes]
  | cons first rest ih =>
    cases first with
    | manual node position => simp [remotes, ih]
    | remote other position =>
      rw [remotes, List.mem_cons, ih]
      simp only [List.mem_cons, NodeSource.remote.injEq, exists_or]
      constructor
      · rintro (rfl | h)
        · exact .inl ⟨position, rfl, rfl⟩
        · exact .inr h
      · rintro (⟨_, rfl, -⟩ | h)
        · exact .inl rfl
        · exact .inr h

section Parsed

variable {lib : Libraries} {urls : UrlLibrary} {readFile : String → Except String (List U8)} {policy : NodePolicy}

/-- Every manual node is the node of some URI. -/
def ManualParsed (lib : Libraries) (policy : NodePolicy) (sources : List NodeSource) : Prop :=
  ∀ node position, .manual node position ∈ sources → ∃ uri, policy.manual lib uri = .ok node

theorem manualSource_ok {uri position : String} {source : NodeSource}
    (h : manualSource lib policy uri position = .ok source) :
    ManualParsed lib policy [source] ∧ remotes [source] = [] := by
  unfold manualSource at h
  split at h
  · cases h
  · rename_i node hnode
    obtain rfl := Except.ok.inj h
    refine ⟨?_, rfl⟩
    intro other position hin
    obtain ⟨rfl, -⟩ := NodeSource.manual.inj (List.mem_singleton.mp hin)
    exact ⟨uri, hnode⟩

theorem ManualParsed.append {sources more : List NodeSource} (h : ManualParsed lib policy sources)
    (hmore : ManualParsed lib policy more) : ManualParsed lib policy (sources ++ more) := by
  intro node position hin
  rcases List.mem_append.mp hin with hin | hin
  · exact h node position hin
  · exact hmore node position hin

theorem ManualParsed.nil : ManualParsed lib policy [] := by
  intro node position hin
  cases hin

theorem listSources_ok {path position : String} :
    ∀ {lines : List (List Char)} {line : ℕ} {sources : List NodeSource},
      listSources lib policy path position line lines = .ok sources →
        ManualParsed lib policy sources ∧ remotes sources = []
  | [], _, sources, h => by
    obtain rfl := Except.ok.inj h
    exact ⟨.nil, rfl⟩
  | raw :: rest, line, sources, h => by
    unfold listSources at h
    simp only at h
    split_ifs at h
    · exact listSources_ok h
    · split at h
      · cases h
      · rename_i source hsource
        split at h
        · cases h
        · rename_i more hmore
          obtain rfl := Except.ok.inj h
          obtain ⟨hone, hnone⟩ := manualSource_ok hsource
          obtain ⟨hrest, hrests⟩ := listSources_ok hmore
          refine ⟨hone.append hrest, ?_⟩
          show remotes ([source] ++ more) = []
          rw [remotes_append, hnone, hrests, List.append_nil]

theorem fileSources_ok {path : List Char} {position : String} {sources : List NodeSource}
    (h : fileSources lib readFile policy path position = .ok sources) :
    ManualParsed lib policy sources ∧ remotes sources = [] := by
  unfold fileSources at h
  split at h
  · cases h
  · simp only at h
    split at h
    · cases h
    · split_ifs at h
      split at h
      · cases h
      · exact listSources_ok h

/-- The identity of a source is that of its URL. -/
def Identified (urls : UrlLibrary) (sources : List RemoteSource) : Prop :=
  ∀ source ∈ sources, source = ⟨source.url, urls.digest source.url⟩

/-- One entry: at most one remote source, and not one seen before. -/
theorem entrySources_ok {position : String} {seen seen' : List RemoteSource} {entry : TomlValue}
    {sources : List NodeSource}
    (h : entrySources lib urls readFile policy position seen entry = .ok (sources, seen')) :
    ManualParsed lib policy sources ∧ seen' = remotes sources ++ seen ∧ Identified urls (remotes sources) ∧
      (seen.Nodup → seen'.Nodup) := by
  have hmanual : ∀ {uri : String}, (match manualSource lib policy uri position with
      | .error error => Except.error error
      | .ok source => .ok ([source], seen)) = .ok (sources, seen') →
      ManualParsed lib policy sources ∧ seen' = remotes sources ++ seen ∧ Identified urls (remotes sources) ∧
        (seen.Nodup → seen'.Nodup) := by
    intro uri h
    split at h
    · cases h
    · rename_i source hsource
      obtain ⟨rfl, rfl⟩ := Prod.mk.inj (Except.ok.inj h)
      obtain ⟨hparsed, hnone⟩ := manualSource_ok hsource
      rw [hnone]
      exact ⟨hparsed, rfl, fun _ hin => (by cases hin), id⟩
  unfold entrySources at h
  split at h
  · cases h
  · rename_i uri explicit _
    simp only at h
    split_ifs at h with hexplicit hfile hsub
    · exact hmanual h
    · split at h
      · cases h
      · rename_i listed hlisted
        obtain ⟨rfl, rfl⟩ := Prod.mk.inj (Except.ok.inj h)
        obtain ⟨hparsed, hnone⟩ := fileSources_ok hlisted
        rw [hnone]
        exact ⟨hparsed, rfl, fun _ hin => (by cases hin), id⟩
    · split at h
      · cases h
      · rename_i source hsource
        split_ifs at h with hseen
        · obtain ⟨rfl, rfl⟩ := Prod.mk.inj (Except.ok.inj h)
          exact ⟨.nil, rfl, fun _ hin => (by cases hin), id⟩
        · obtain ⟨rfl, rfl⟩ := Prod.mk.inj (Except.ok.inj h)
          refine ⟨?_, rfl, ?_, List.nodup_cons.mpr ∘ And.intro hseen⟩
          · intro node p hin
            cases List.mem_singleton.mp hin
          · intro other hin
            obtain rfl := List.mem_singleton.mp hin
            rw [RemoteSource.parse_ok urls hsource]
    · exact hmanual h

theorem parseEntries_ok : ∀ {entries : List TomlValue} {index : ℕ} {seen : List RemoteSource}
    {sources : List NodeSource}, parseEntries lib urls readFile policy index seen entries = .ok sources →
      seen.Nodup → ManualParsed lib policy sources ∧ Identified urls (remotes sources) ∧
        (remotes sources).Nodup ∧ List.Disjoint seen (remotes sources)
  | [], _, _, sources, h, _ => by
    obtain rfl := Except.ok.inj h
    exact ⟨.nil, fun _ hin => (by cases hin), List.nodup_nil, List.disjoint_nil_right _⟩
  | entry :: rest, index, seen, sources, h, hseen => by
    unfold parseEntries at h
    split at h
    · cases h
    · rename_i first seen' hfirst
      split at h
      · cases h
      · rename_i more hmore
        obtain rfl := Except.ok.inj h
        obtain ⟨hparsed, rfl, hident, hnodup⟩ := entrySources_ok hfirst
        have hboth := hnodup hseen
        obtain ⟨hparsed', hident', hnodup', hdisjoint⟩ := parseEntries_ok hmore hboth
        rw [remotes_append]
        have hfirst' := List.nodup_append'.mp hboth
        rw [List.disjoint_append_left] at hdisjoint
        refine ⟨hparsed.append hparsed', ?_, ?_, ?_⟩
        · intro source hin
          rcases List.mem_append.mp hin with hin | hin
          · exact hident source hin
          · exact hident' source hin
        · exact List.nodup_append'.mpr ⟨hfirst'.1, hnodup', hdisjoint.1⟩
        · exact List.disjoint_append_right.mpr ⟨List.disjoint_symm hfirst'.2.2, hdisjoint.2⟩

theorem parseNodes_ok {top : List (String × TomlValue)} {sources : List NodeSource}
    (h : parseNodes lib urls readFile policy top = .ok sources) :
    ManualParsed lib policy sources ∧ Identified urls (remotes sources) ∧ (remotes sources).Nodup := by
  have hnone : Except.ok (ε := ConfigError) ([] : List NodeSource) = .ok sources →
      ManualParsed lib policy sources ∧ Identified urls (remotes sources) ∧ (remotes sources).Nodup := by
    intro h
    obtain rfl := Except.ok.inj h
    exact ⟨.nil, fun _ hin => (by cases hin), List.nodup_nil⟩
  unfold parseNodes at h
  split at h
  · exact hnone h
  · split at h
    · cases h
    · split at h
      · exact hnone h
      · obtain ⟨hparsed, hident, hnodup, -⟩ := parseEntries_ok h List.nodup_nil
        exact ⟨hparsed, hident, hnodup⟩
      · cases h
  · cases h

/-- No two remote sources have one URL. -/
theorem parseNodes_urls {top : List (String × TomlValue)} {sources : List NodeSource}
    (h : parseNodes lib urls readFile policy top = .ok sources) :
    ((remotes sources).map RemoteSource.url).Nodup := by
  obtain ⟨-, hident, hnodup⟩ := parseNodes_ok h
  refine List.Nodup.map_on ?_ hnodup
  intro source hin other hother heq
  rw [hident source hin, hident other hother, heq]

end Parsed

end FluxRs.Nodes
