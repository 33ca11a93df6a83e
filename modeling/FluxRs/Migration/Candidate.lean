import FluxRs.Migration.Prepare

/-!
# FluxRs.Migration.Candidate — the checks a candidate passes before it is published

The types `config.rs` demands of what a migration can move: `nodes.fetch` and `nodes.refine` of the
advanced document.  The checks of everything else are a parameter.
-/

namespace FluxRs.Migration

open FluxRs.Lib

inductive ConfigError where
  | tooLarge (size : ℕ)
  | syntaxError (detail : String)
  | unknownKey (key : String)
  | wrongType (detail : String)
  | invalidValue (detail : String)
  deriving DecidableEq, Repr

/-- The members of a parsed table. -/
abbrev TomlTable := List (String × TomlValue)

/-! ### Typed values -/

def rejectUnknownKeys (table : TomlTable) (path : String) (known : List String) : Except ConfigError Unit :=
  match table.find? fun m => decide (m.1 ∉ known) with
  | some (key, _) => .error (.unknownKey (if path = "" then key else path ++ "." ++ key))
  | none => .ok ()

def optionalTable (top : TomlTable) (name path : String) : Except ConfigError (Option TomlTable) :=
  match Assoc.get name top with
  | none => .ok none
  | some (.table table) => .ok (some table)
  | some _ => .error (.wrongType (path ++ name ++ " must be a table"))

def optionalString (table : TomlTable) (key default path : String) : Except ConfigError String :=
  match Assoc.get key table with
  | none => .ok default
  | some (.scalar (.str value)) => .ok value
  | some _ => .error (.wrongType (path ++ "." ++ key ++ " must be a string"))

def requiredString (table : TomlTable) (key path : String) : Except ConfigError String :=
  match Assoc.get key table with
  | some (.scalar (.str value)) => .ok value
  | some _ => .error (.wrongType (path ++ "." ++ key ++ " must be a string"))
  | none => .error (.invalidValue (path ++ "." ++ key ++ " is required"))

def optionalU64 (table : TomlTable) (key : String) (default : ℕ) (path : String) : Except ConfigError ℕ :=
  match Assoc.get key table with
  | none => .ok default
  | some (.scalar (.int value)) =>
    if 0 ≤ value then .ok value.toNat
    else .error (.invalidValue (path ++ "." ++ key ++ " must be non-negative"))
  | some _ => .error (.wrongType (path ++ "." ++ key ++ " must be an integer"))

def optionalBool (table : TomlTable) (key : String) (default : Bool) (path : String) :
    Except ConfigError Bool :=
  match Assoc.get key table with
  | none => .ok default
  | some (.scalar (.bool value)) => .ok value
  | some _ => .error (.wrongType (path ++ "." ++ key ++ " must be a boolean"))

/-! ### `nodes.fetch` and `nodes.refine` -/

structure FetchConfig where
  interval : ℕ := 86400
  timeout : ℕ := 10
  retries : ℕ := 2
  userAgent : String := ""
  deriving DecidableEq, Repr

structure RenameRule where
  matchPattern : String
  replace : String
  deriving DecidableEq, Repr

structure RefinementConfig where
  excludePattern : String :=
    "(expire|traffic|官网|到期|流量|剩余|套餐|重置|联系|群组|通知|平台|网站|时间|建议|反馈|版本|更新)"
  rename : List RenameRule := [⟨"【(亚洲|北美洲|欧洲|南美洲|非洲|大洋洲|南极洲)】", ""⟩]
  stripEmoji : Bool := true
  maxTagLength : ℕ := 32
  deriving DecidableEq, Repr

def fetchKeys : List String := ["interval", "timeout", "retries", "user_agent"]

def refinementKeys : List String := ["exclude_pattern", "rename", "strip_emoji", "max_tag_length"]

def renameKeys : List String := ["match", "replace"]

def parseFetch (fetch : TomlTable) : Except ConfigError FetchConfig := do
  rejectUnknownKeys fetch "nodes.fetch" fetchKeys
  let default : FetchConfig := {}
  let interval ← optionalU64 fetch "interval" default.interval "nodes.fetch"
  let timeout ← optionalU64 fetch "timeout" default.timeout "nodes.fetch"
  if timeout = 0 then throw (.invalidValue "nodes.fetch.timeout must be positive")
  let retries ← optionalU64 fetch "retries" default.retries "nodes.fetch"
  if 2 ^ 32 ≤ retries then throw (.invalidValue "nodes.fetch.retries exceeds u32")
  let userAgent ← optionalString fetch "user_agent" "" "nodes.fetch"
  -- Bytes of characters outside ASCII are never control characters.
  if userAgent.toList.any fun c => decide (c.toNat < 0x20 ∨ c.toNat = 0x7f) then
    throw (.invalidValue "nodes.fetch.user_agent contains a control character")
  return ⟨interval, timeout, retries, userAgent⟩

def parseRenameRule (value : TomlValue) (index : ℕ) : Except ConfigError RenameRule :=
  let path : String := "nodes.refine.rename[" ++ toString index ++ "]"
  match value with
  | .table table => do
    rejectUnknownKeys table path renameKeys
    let matchPattern ← requiredString table "match" path
    let replace ← requiredString table "replace" path
    return ⟨matchPattern, replace⟩
  | _ => .error (.wrongType (path ++ " must be a table"))

def parseRenameRules : List TomlValue → ℕ → Except ConfigError (List RenameRule)
  | [], _ => .ok []
  | value :: rest, index => do
    let rule ← parseRenameRule value index
    let rules ← parseRenameRules rest (index + 1)
    return rule :: rules

/-- The rules in a table of refinements. -/
def parseRename (table : TomlTable) (default : List RenameRule) : Except ConfigError (List RenameRule) :=
  match Assoc.get "rename" table with
  | none => .ok default
  | some (.array rules) => parseRenameRules rules 0
  | some _ => .error (.wrongType "nodes.refine.rename must be an array of tables")

/-- `parse_refinement`, of the table under `nodes`; a `usize` has 64 bits. -/
def parseRefinement (nodes : TomlTable) : Except ConfigError RefinementConfig :=
  let default : RefinementConfig := {}
  match Assoc.get "refine" nodes with
  | none => .ok default
  | some (.table table) => do
    rejectUnknownKeys table "nodes.refine" refinementKeys
    let maxTagLength ← optionalU64 table "max_tag_length" default.maxTagLength "nodes.refine"
    if maxTagLength = 0 then
      throw (.invalidValue "nodes.refine.max_tag_length must be greater than zero")
    let rename ← parseRename table default.rename
    let excludePattern ← optionalString table "exclude_pattern" default.excludePattern "nodes.refine"
    let stripEmoji ← optionalBool table "strip_emoji" default.stripEmoji "nodes.refine"
    return ⟨excludePattern, rename, stripEmoji, maxTagLength⟩
  | some _ => .error (.wrongType "nodes.refine must be a table")

def parseNodesTable (table : TomlTable) : Except ConfigError (FetchConfig × RefinementConfig) := do
  rejectUnknownKeys table "nodes" ["fetch", "refine", "groups"]
  let fetch ← optionalTable table "fetch" "nodes."
  let fetchConfig ← fetch.elim (.ok {}) parseFetch
  let refinement ← parseRefinement table
  return (fetchConfig, refinement)

/-- `parse_advanced`, without `nodes.groups`, `log` and the expressions. -/
def parseAdvancedTable (top : TomlTable) : Except ConfigError (FetchConfig × RefinementConfig) := do
  rejectUnknownKeys top "advanced" ["nodes", "log"]
  let nodes ← optionalTable top "nodes" "advanced."
  nodes.elim (.ok ({}, {})) parseNodesTable

section Candidate

variable {α Bytes : Type} (lib : TomlEdit α Bytes)

def maxConfigBytes : ℕ := 256 * 1024

def parseDocument (bytes : Bytes) : Except ConfigError TomlValue :=
  if maxConfigBytes < lib.size bytes then .error (.tooLarge (lib.size bytes))
  else match lib.fromStr bytes with
    | .ok value => .ok value
    | .error .invalidUtf8 => .error (.syntaxError "configuration is not valid UTF-8")
    | .error .invalidToml => .error (.syntaxError "invalid TOML syntax")

def ConfigError.debug : ConfigError → String
  | .tooLarge size => "TooLarge(" ++ toString size ++ ")"
  | .syntaxError detail => "Syntax(\"" ++ detail ++ "\")"
  | .unknownKey key => "UnknownKey(\"" ++ key ++ "\")"
  | .wrongType detail => "WrongType(\"" ++ detail ++ "\")"
  | .invalidValue detail => "InvalidValue(\"" ++ detail ++ "\")"

def parseAdvanced (advanced : Option Bytes) : Except ConfigError (FetchConfig × RefinementConfig) :=
  match advanced with
  | none => parseAdvancedTable []
  | some bytes =>
    match parseDocument lib bytes with
    | .ok (.table top) => parseAdvancedTable top
    | .ok _ => .error (.syntaxError "TOML document is a table")
    | .error e => .error (.invalidValue ("advanced.toml: " ++ e.debug))

/-- `configuration::parse`: `others` are the checks of the main document, the list files it names and the
rest of the advanced one. -/
def parseFiles (others : TomlValue → Option Bytes → Except ConfigError Unit) (main : Bytes)
    (advanced : Option Bytes) : Except ConfigError Unit := do
  let value ← parseDocument lib main
  let _ ← parseAdvanced lib advanced
  others value advanced

end Candidate

end FluxRs.Migration
