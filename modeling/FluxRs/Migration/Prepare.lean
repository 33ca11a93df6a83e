import FluxRs.Lib.Toml

/-!
# FluxRs.Migration.Prepare — the structural migration of a configuration

`crates/flux-core/src/migration.rs`: legacy keys of `flux.toml` move to their places in the two current
files.  `toml_edit` and `toml` are libraries; what the migration relies on is that they read back what
`toml_edit` prints.
-/

namespace FluxRs.Migration

open FluxRs.Lib

/-- `DocumentMut`. -/
structure TomlDocument (α : Type) where
  decor : α
  members : TomlMembers α
  deriving DecidableEq

namespace TomlDocument

variable {α : Type}

def value (d : TomlDocument α) : TomlValue := .table (Toml.valueMembers d.members)

end TomlDocument

/-- Why bytes are no document. -/
inductive TomlFault where
  | invalidUtf8
  | invalidToml
  deriving DecidableEq, Repr

/-- The two libraries, over what they keep as formatting and over the bytes of a file. -/
structure TomlEdit (α Bytes : Type) where
  /-- The formatting of new nodes, of a value under a new key, and of the members of an inline table that
  becomes a table. -/
  plain : α
  rekey : α → α
  intoTable : α → α
  /-- The scalars of the libraries: integers of 64 bits, floats of 64 bits, valid dates. -/
  ok : TomlScalar → Bool
  parse : Bytes → Except TomlFault (TomlDocument α)
  print : TomlDocument α → Bytes
  /-- `toml::from_str`. -/
  fromStr : Bytes → Except TomlFault TomlValue
  size : Bytes → ℕ
  ok_str : ∀ s, ok (.str s) = true
  parse_wf : ∀ {bytes d}, parse bytes = .ok d → Toml.wfMembers ok d.members = true
  /-- What is printed is parsed back, up to its formatting, which prints the same once more. -/
  parse_print : ∀ d, Toml.wfMembers ok d.members = true → ∃ d', parse (print d) = .ok d' ∧
    Toml.bareMembers d'.members = Toml.bareMembers d.members ∧ print d' = print d
  fromStr_print : ∀ d, Toml.wfMembers ok d.members = true → fromStr (print d) = .ok d.value

section Prepare

variable {α Bytes : Type} (lib : TomlEdit α Bytes)

def parse (bytes : Bytes) (name : String) : Except String (TomlDocument α) :=
  match lib.parse bytes with
  | .ok d => .ok d
  | .error .invalidUtf8 => .error (name ++ ": invalid UTF-8")
  | .error .invalidToml => .error (name ++ ": invalid TOML")

/-- `table`, and what is then done in the table. -/
def inTable (parent : TomlMembers α) (key path : String)
    (f : TomlMembers α → Except String (TomlMembers α)) : Except String (TomlMembers α) :=
  let parent : TomlMembers α := match Assoc.get key parent with
    | none => parent ++ [(key, .table lib.plain [])]
    | some _ => parent
  match Assoc.get key parent with
  | some (.inline _ members) =>
    (f (Toml.redecorateMembers lib.intoTable members)).map fun members =>
      Assoc.remove key parent ++ [(key, .table lib.plain members)]
  | some (.table decor members) =>
    (f members).map fun members => Assoc.set key (.table decor members) parent
  | _ => .error (path ++ ": expected a table")

/-- `semantic`: the item printed under a key of its own, and read back. -/
def semantic (item : Toml α) : Except String TomlValue :=
  match lib.fromStr (lib.print ⟨lib.plain, [("value", Toml.redecorate lib.rekey item)]⟩) with
  | .ok (.table members) =>
    match Assoc.get "value" members with
    | some value => .ok value
    | none => .error "cannot compare migrated value"
  | _ => .error "cannot compare migrated value"

/-- `merge`: an explicit value in place is kept if it is the same. -/
def merge (dest : TomlMembers α) (key : String) (value : Toml α) (path : String) :
    Except String (TomlMembers α) :=
  match Assoc.get key dest with
  | some existing => do
    let left ← semantic lib existing
    let right ← semantic lib value
    if left.eqv right then return dest else throw (path ++ ": conflicting explicit values")
  | none => return dest ++ [(key, Toml.redecorate lib.rekey value)]

/-- A key in a table of the document. -/
def containsIn (members : TomlMembers α) (key inner : String) : Bool :=
  ((Assoc.get key members).bind Toml.asTableLike).any fun table => (Assoc.get inner table).isSome

/-- The legacy table, removed from the document. -/
def legacySubscription (main : TomlMembers α) : Except String (TomlMembers α) :=
  match Assoc.get "subscription" main with
  | none => .ok []
  | some (.table _ members) => .ok members
  | some (.inline _ members) => .ok (Toml.redecorateMembers lib.intoTable members)
  | some _ => .error "subscription: expected a table"

/-- The legacy list, with its formatting. -/
def legacyList (nodes : TomlMembers α) : Except String (α × List (Toml α)) :=
  match Assoc.get "list" nodes with
  | none => .ok (lib.plain, [])
  | some (.array decor items) =>
    if items.any fun item => item.asStr.isNone then .error "nodes.list: expected strings"
    else .ok (decor, items)
  | some _ => .error "nodes.list: expected an array"

/-- The list, followed by a non-empty URL it does not have. -/
def legacySources (subscription : TomlMembers α) (items : List (Toml α)) : Except String (List (Toml α)) :=
  match Assoc.get "url" subscription with
  | none => .ok items
  | some url =>
    match url.asStr with
    | none => .error "subscription.url: expected a string"
    | some url =>
      if url ≠ "" ∧ (items.any fun item => item.asStr == some url) = false then
        .ok (items ++ [.scalar lib.plain (.str url)])
      else .ok items

/-- What is done to `nodes` of the main document. -/
def prepareNodes (subscription nodes : TomlMembers α) : Except String (TomlMembers α) := do
  let (decor, items) ← legacyList lib nodes
  let sources ← legacySources lib subscription items
  merge lib (Assoc.remove "list" nodes) "sources" (.array decor sources) "nodes.sources"

/-- What is done to `apps` of the main document. -/
def prepareApps (apps : TomlMembers α) : Except String (TomlMembers α) :=
  match Assoc.get "mode" apps with
  | some _ => .ok apps
  | none => .ok (apps ++ [("mode", .scalar lib.plain (.str "whitelist"))])

/-- A value on its way to a section of the advanced document. -/
structure Move (α : Type) where
  sect : String
  key : String
  value : Toml α

/-- The keys that stand directly in the legacy table, with their sections. -/
def movedKeys : List (String × String) :=
  [("fetch", "interval"), ("fetch", "timeout"), ("fetch", "retries"), ("refine", "exclude_pattern"),
    ("refine", "rename"), ("refine", "strip_emoji"), ("refine", "max_tag_length")]

/-- The first loop: a removed key is not looked at again. -/
def directMoves (subscription : TomlMembers α) : List (Move α) :=
  movedKeys.filterMap fun sk => (Assoc.get sk.2 subscription).map fun value => ⟨sk.1, sk.2, value⟩

/-- The second loop. -/
def refineMoves (subscription : TomlMembers α) : Except String (List (Move α)) :=
  match Assoc.get "refine" subscription with
  | none => .ok []
  | some refine =>
    match refine.asTableLike with
    | none => .error "subscription.refine: expected a table"
    | some members => .ok (members.map fun m => ⟨"refine", m.1, m.2⟩)

def mergeMove (advanced : TomlMembers α) (move : Move α) : Except String (TomlMembers α) :=
  inTable lib advanced "nodes" "nodes" fun nodes =>
    inTable lib nodes move.sect ("nodes." ++ move.sect) fun dest =>
      merge lib dest move.key move.value ("nodes." ++ move.sect ++ "." ++ move.key)

def mergeMoves : List (Move α) → TomlMembers α → Except String (TomlMembers α)
  | [], advanced => .ok advanced
  | move :: rest, advanced => do
    let advanced ← mergeMove lib advanced move
    mergeMoves rest advanced

/-- What no step has taken from the legacy table. -/
def leftover (subscription : TomlMembers α) : TomlMembers α :=
  subscription.filter fun m => decide (m.1 ∉ "url" :: "refine" :: movedKeys.map Prod.snd)

/-- The two loops and the check behind them: the advanced document, and whether anything moved. -/
def moveSettings (subscription advanced : TomlMembers α) : Except String (TomlMembers α × Bool) := do
  let advanced ← mergeMoves lib (directMoves subscription) advanced
  let refine ← refineMoves subscription
  let advanced ← mergeMoves lib refine advanced
  match leftover subscription with
  | [] => return (advanced, !(directMoves subscription ++ refine).isEmpty)
  | (key, _) :: _ => throw ("subscription." ++ key ++ ": unsupported legacy field")

/-- `PreparedMigration`. -/
structure PreparedMigration (Bytes : Type) where
  main : Bytes
  advanced : Option Bytes

/-- The main document is of the legacy schema. -/
def isLegacy (main : TomlMembers α) (legacyAppDefault : Bool) : Bool :=
  (legacyAppDefault && !containsIn main "nodes" "sources") || (Assoc.get "subscription" main).isSome ||
    containsIn main "nodes" "list"

/-- The advanced document, empty if there is no file. -/
def advancedDocument (advanced : Option Bytes) : Except String (TomlDocument α) :=
  match advanced with
  | none => .ok ⟨lib.plain, []⟩
  | some bytes => parse lib bytes "advanced.toml"

/-- The migration of parsed documents. -/
def migrate (mainDoc advancedDoc : TomlDocument α) (advanced : Option Bytes) :
    Except String (PreparedMigration Bytes) := do
  let subscription ← legacySubscription lib mainDoc.members
  let members ← inTable lib (Assoc.remove "subscription" mainDoc.members) "nodes" "nodes"
    (prepareNodes lib subscription)
  let (moved, any) ← moveSettings lib subscription advancedDoc.members
  let members ← inTable lib members "apps" "apps" (prepareApps lib)
  return {
    main := lib.print ⟨mainDoc.decor, members⟩
    advanced := if any then some (lib.print ⟨advancedDoc.decor, moved⟩) else advanced }

def prepare (main : Bytes) (advanced : Option Bytes) (legacyAppDefault : Bool) :
    Except String (Option (PreparedMigration Bytes)) := do
  let mainDoc ← parse lib main "flux.toml"
  let advancedDoc ← advancedDocument lib advanced
  if isLegacy mainDoc.members legacyAppDefault then
    return some (← migrate lib mainDoc advancedDoc advanced)
  else return none

end Prepare

end FluxRs.Migration
