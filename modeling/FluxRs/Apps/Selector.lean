import Mathlib.Data.Finset.Image
import Mathlib.Data.Set.Card
import FluxRs.Lib.Decimal
import FluxRs.Lib.Split
import FluxRs.Nodes.Refine

/-!
# FluxRs.Apps.Selector — app selectors and the UIDs they select

`crates/flux-core/src/selector.rs` and `FluxConfig::resolve_selected_uids` of `config.rs`.  The package
database is read line by line; of several lines of one package the last one counts, and every app id of a line
is known.
-/

namespace FluxRs.Apps

open FluxRs.Lib FluxRs.Nodes

/-- `USER_ID_STRIDE`. -/
def userIdStride : ℕ := 100000

/-- `USER_ID_MAX`. -/
def userIdMax : ℕ := 999

/-- `APP_ID_MIN` and `APP_ID_MAX`. -/
def appIdMin : ℕ := 10000

def appIdMax : ℕ := 19999

/-- `UID_SELECTED_MAX`. -/
def uidSelectedMax : ℕ := 1024

inductive SelectorError where
  | malformed (text : String)
  | userIdOutOfRange (userId : ℕ)
  | appIdOutOfRange (appId : ℕ)
  | unknownPackage (package : String)
  deriving DecidableEq, Repr

/-- A parsed selector; the parser bounds the user. -/
structure AppSelector where
  userId : ℕ
  package : String
  userId_le : userId ≤ userIdMax
  deriving DecidableEq

structure Selection where
  userId : ℕ
  package : String
  uid : ℕ

/-! ### UIDs -/

def composeUid (userId appId : ℕ) : Except SelectorError ℕ :=
  if userIdMax < userId then .error (.userIdOutOfRange userId)
  else if appId = 0 ∨ userIdStride ≤ appId then .error (.appIdOutOfRange appId)
  else .ok (userId * userIdStride + appId)

def decomposeUid (uid : ℕ) : ℕ × ℕ := (uid / userIdStride, uid % userIdStride)

theorem decomposeUid_compose {userId appId : ℕ} (h : appId < userIdStride) :
    decomposeUid (userId * userIdStride + appId) = (userId, appId) := by
  unfold userIdStride at h
  unfold decomposeUid userIdStride
  ext
  · show (userId * 100000 + appId) / 100000 = userId
    omega
  · show (userId * 100000 + appId) % 100000 = appId
    omega

theorem composeUid_ok_iff {userId appId uid : ℕ} (huser : userId ≤ userIdMax) (happ : appId < userIdStride) :
    composeUid userId appId = .ok uid ↔ appId ≠ 0 ∧ uid = userId * userIdStride + appId := by
  unfold composeUid
  rw [if_neg (Nat.not_lt.mpr huser)]
  by_cases hzero : appId = 0
  · rw [if_pos (.inl hzero)]
    simp [hzero]
  · rw [if_neg (by omega)]
    simp [hzero, eq_comm]

/-! ### The package database -/

/-- A line without the carriage return of its ending. -/
def stripCr (line : List Char) : List Char := if line.getLast? = some '\r' then line.dropLast else line

/-- `str::lines`: a last line without a line break ends where the text ends, and is none if it is empty. -/
def lines (text : List Char) : List (List Char) :=
  let parts := text.splitOn '\n'
  parts.dropLast.map stripCr ++ parts.getLast?.toList.filter (· ≠ [])

theorem newline_not_mem_lines {text line : List Char} (h : line ∈ lines text) : '\n' ∉ line := by
  unfold lines at h
  simp only at h
  obtain h | h := List.mem_append.mp h
  · obtain ⟨part, hmem, rfl⟩ := List.mem_map.mp h
    have hpart := (part_of_mem_splitOn (List.mem_of_mem_dropLast hmem)).1
    unfold stripCr
    split
    · exact fun hin => hpart (List.mem_of_mem_dropLast hin)
    · exact hpart
  · exact (part_of_mem_splitOn (List.mem_of_getLast? (Option.mem_toList.mp (List.mem_of_mem_filter h)))).1

/-- `str::parse::<u32>`. -/
def parseU32 (text : List Char) : Option ℕ :=
  let digits := match text with
    | '+' :: rest => rest
    | _ => text
  if digits = [] ∨ digits.any (fun c => !isAsciiDigit c) then none
  else
    let value := digits.foldl (fun acc c => acc * 10 + (c.toNat - '0'.toNat)) 0
    if value < 2 ^ 32 then some value else none

theorem isAsciiDigit_eq (c : Char) : isAsciiDigit c = c.isDigit := by
  unfold isAsciiDigit Char.isDigit
  rw [Bool.decide_and]
  rfl

theorem parseU32_of_head {text : List Char} (h : text.head? ≠ some '+') :
    parseU32 text =
      if text = [] ∨ text.any (fun c => !isAsciiDigit c) then none
      else if decimalValue text < 2 ^ 32 then some (decimalValue text) else none := by
  have hvalue : text.foldl (fun acc c => acc * 10 + (c.toNat - '0'.toNat)) 0 = decimalValue text := by
    rw [decimalValue, Nat.ofDigitChars_eq_foldl]
    refine congrArg (fun f => text.foldl f 0) (funext fun acc => funext fun c => ?_)
    rw [Nat.mul_comm]
  rw [← hvalue]
  unfold parseU32
  split
  · exact absurd rfl h
  · rfl

/-- Digits are read as the number they spell, if it fits. -/
theorem parseU32_of_isDecimal {text : List Char} (h : IsDecimal text) :
    parseU32 text = if decimalValue text < 2 ^ 32 then some (decimalValue text) else none := by
  have hplus : text.head? ≠ some '+' := by
    intro hhead
    exact absurd (h.digit '+' (List.mem_of_mem_head? hhead)) (by decide)
  rw [parseU32_of_head hplus, if_neg]
  rintro (hnil | hany)
  · exact h.ne_nil hnil
  · obtain ⟨c, hc, hnot⟩ := List.any_eq_true.mp hany
    rw [isAsciiDigit_eq, h.digit c hc] at hnot
    cases hnot

/-- The package and the UID of a line that has both. -/
def packageLine (line : List Char) : Option (String × ℕ) :=
  match splitWhitespace line with
  | package :: uid :: _ => (parseU32 uid).map fun n => (String.ofList package, n)
  | _ => none

structure PackageIndex where
  byPackage : List (String × ℕ)
  byAppId : List (ℕ × List String)

namespace PackageIndex

/-- `by_app_id.entry(..).or_default()`, and the package at the end of the bucket if it is new. -/
def addToBucket (appId : ℕ) (package : String) : List (ℕ × List String) → List (ℕ × List String)
  | [] => [(appId, [package])]
  | (id, bucket) :: rest =>
    if id = appId then (id, if package ∈ bucket then bucket else bucket ++ [package]) :: rest
    else (id, bucket) :: addToBucket appId package rest

/-- One round of the loop over the lines. -/
def addLine (index : PackageIndex) (line : List Char) : PackageIndex :=
  match packageLine line with
  | none => index
  | some (package, uid) =>
    let appId := uid % userIdStride
    ⟨Assoc.set package appId index.byPackage, addToBucket appId package index.byAppId⟩

def parse (text : String) : PackageIndex :=
  let index := (lines text.toList).foldl addLine ⟨[], []⟩
  ⟨index.byPackage, index.byAppId.map fun entry => (entry.1, entry.2.mergeSort (· ≤ ·))⟩

def appId (index : PackageIndex) (package : String) : Option ℕ := Assoc.get package index.byPackage

def applicationIds (index : PackageIndex) : List ℕ :=
  (index.byAppId.map Prod.fst).filter fun appId => appIdMin ≤ appId && appId ≤ appIdMax

def resolve (index : PackageIndex) (selector : AppSelector) : Except SelectorError Selection :=
  match index.appId selector.package with
  | none => .error (.unknownPackage selector.package)
  | some appId =>
    match composeUid selector.userId appId with
    | .error error => .error error
    | .ok uid => .ok ⟨selector.userId, selector.package, uid⟩

end PackageIndex

/-! ### The selected UIDs -/

inductive ListMode where
  | blacklist
  | whitelist
  deriving DecidableEq, Repr

/-- The errors of `ConfigError` that resolution gives. -/
inductive ResolveError where
  | selector (error : SelectorError)
  | tooManyApps (size : ℕ)
  deriving DecidableEq, Repr

/-- `collect` over the selectors: the first failure, or all UIDs. -/
def listedUids (index : PackageIndex) : List AppSelector → Except SelectorError (Finset ℕ)
  | [] => .ok ∅
  | selector :: rest =>
    match index.resolve selector with
    | .error error => .error error
    | .ok selection =>
      match listedUids index rest with
      | .error error => .error error
      | .ok uids => .ok (insert selection.uid uids)

/-- The loop over users and app ids of blacklist mode. -/
def expandUids (listed : Finset ℕ) : List (ℕ × ℕ) → Except SelectorError (Finset ℕ)
  | [] => .ok ∅
  | (userId, appId) :: rest =>
    match composeUid userId appId with
    | .error error => .error error
    | .ok uid =>
      match expandUids listed rest with
      | .error error => .error error
      | .ok uids => .ok (if uid ∈ listed then uids else insert uid uids)

def resolveSelectedUids (mode : ListMode) (apps : List AppSelector) (index : PackageIndex) :
    Except ResolveError (Finset ℕ) :=
  match listedUids index apps with
  | .error error => .error (.selector error)
  | .ok listed =>
    let selected : Except SelectorError (Finset ℕ) :=
      match mode with
      | .whitelist => .ok listed
      | .blacklist =>
        let users := (0 :: apps.map AppSelector.userId).dedup
        expandUids listed (users.flatMap fun userId => index.applicationIds.map fun appId => (userId, appId))
    match selected with
    | .error error => .error (.selector error)
    | .ok selected => if uidSelectedMax < selected.card then .error (.tooManyApps selected.card) else .ok selected

/-! ### The index -/

/-- The lines that have a package and a UID, in their order. -/
def packageLines (text : String) : List (String × ℕ) := (lines text.toList).filterMap packageLine

/-- The app id of a package: that of its last line. -/
def lastAppId (parsed : List (String × ℕ)) (package : String) : Option ℕ :=
  ((parsed.filter fun line => line.1 = package).getLast?).map fun line => line.2 % userIdStride

theorem addLine_foldl (text : List (List Char)) (index : PackageIndex) :
    text.foldl PackageIndex.addLine index =
      (text.filterMap packageLine).foldl (fun index line =>
        ⟨Assoc.set line.1 (line.2 % userIdStride) index.byPackage,
          PackageIndex.addToBucket (line.2 % userIdStride) line.1 index.byAppId⟩) index := by
  induction text generalizing index with
  | nil => rfl
  | cons line rest ih =>
    rw [List.foldl_cons, ih]
    cases h : packageLine line with
    | none => simp [PackageIndex.addLine, h]
    | some parsed => simp [PackageIndex.addLine, h]

theorem mem_addToBucket_keys {appId id : ℕ} {package : String} {buckets : List (ℕ × List String)} :
    id ∈ (PackageIndex.addToBucket appId package buckets).map Prod.fst ↔ id = appId ∨ id ∈ buckets.map Prod.fst := by
  induction buckets with
  | nil => simp [PackageIndex.addToBucket]
  | cons first rest ih =>
    obtain ⟨k, bucket⟩ := first
    by_cases hk : k = appId
    · rw [PackageIndex.addToBucket, if_pos hk]
      simp only [List.map_cons, List.mem_cons]
      rw [hk]
      tauto
    · rw [PackageIndex.addToBucket, if_neg hk, List.map_cons, List.mem_cons, ih, List.map_cons, List.mem_cons]
      tauto

/-- The last line of a package gives its app id. -/
theorem appId_parse (text : String) (package : String) :
    (PackageIndex.parse text).appId package = lastAppId (packageLines text) package := by
  unfold PackageIndex.parse PackageIndex.appId packageLines
  simp only [addLine_foldl]
  generalize (lines text.toList).filterMap packageLine = parsed
  induction parsed using List.reverseRecOn with
  | nil => rfl
  | append_singleton parsed line ih =>
    rw [List.foldl_append, List.foldl_cons, List.foldl_nil, lastAppId, List.filter_append]
    by_cases hline : line.1 = package
    · subst hline
      rw [Assoc.get_set_self]
      simp
    · rw [Assoc.get_set_ne (Ne.symm hline), ih]
      simp [hline, lastAppId]

/-- Every app id of a line is known. -/
theorem mem_appIds_parse (text : String) (id : ℕ) :
    id ∈ (PackageIndex.parse text).byAppId.map Prod.fst ↔
      ∃ line ∈ packageLines text, line.2 % userIdStride = id := by
  unfold PackageIndex.parse packageLines
  simp only [addLine_foldl, List.map_map]
  have hkeys : ∀ buckets : List (ℕ × List String),
      buckets.map (Prod.fst ∘ fun entry => (entry.1, entry.2.mergeSort (· ≤ ·))) = buckets.map Prod.fst :=
    fun _ => List.map_congr_left fun _ _ => rfl
  rw [hkeys]
  generalize (lines text.toList).filterMap packageLine = parsed
  induction parsed using List.reverseRecOn with
  | nil => simp
  | append_singleton parsed line ih =>
    rw [List.foldl_append, List.foldl_cons, List.foldl_nil, mem_addToBucket_keys]
    refine (or_congr_right ih).trans ?_
    simp only [List.mem_append, List.mem_singleton, or_and_right, exists_or, exists_eq_left]
    exact or_comm.trans (or_congr_right eq_comm)

theorem lastAppId_lt {parsed : List (String × ℕ)} {package : String} {appId : ℕ}
    (h : lastAppId parsed package = some appId) : appId < userIdStride := by
  obtain ⟨line, -, rfl⟩ := Option.map_eq_some_iff.mp h
  exact Nat.mod_lt _ (by decide)

theorem lastAppId_eq_none_iff {parsed : List (String × ℕ)} {package : String} :
    lastAppId parsed package = none ↔ ∀ line ∈ parsed, line.1 ≠ package := by
  simp [lastAppId]

/-! ### Resolution -/

section Resolution

variable {index : PackageIndex} (hlt : ∀ package appId, index.appId package = some appId → appId < userIdStride)

include hlt

theorem resolve_ok_iff {selector : AppSelector} {uid : ℕ} :
    (∃ selection, index.resolve selector = .ok selection ∧ selection.uid = uid) ↔
      ∃ appId, index.appId selector.package = some appId ∧ appId ≠ 0 ∧ uid = selector.userId * userIdStride + appId := by
  unfold PackageIndex.resolve
  cases happ : index.appId selector.package with
  | none => simp
  | some appId =>
    have hcompose := fun uid => @composeUid_ok_iff _ _ uid selector.userId_le (hlt _ _ happ)
    simp only [Option.some.injEq, exists_eq_left', ← hcompose]
    cases composeUid selector.userId appId <;> simp

theorem listedUids_ok {apps : List AppSelector} {uids : Finset ℕ} (h : listedUids index apps = .ok uids) :
    (∀ selector ∈ apps, ∃ appId, index.appId selector.package = some appId ∧ appId ≠ 0) ∧
      ∀ uid, uid ∈ uids ↔ ∃ selector ∈ apps, ∃ appId, index.appId selector.package = some appId ∧
        uid = selector.userId * userIdStride + appId := by
  induction apps generalizing uids with
  | nil =>
    obtain rfl := Except.ok.inj h
    simp
  | cons selector rest ih =>
    unfold listedUids at h
    split at h
    · cases h
    · rename_i selection hsel
      split at h
      · cases h
      · rename_i others hrest
        obtain rfl := Except.ok.inj h
        obtain ⟨hall, hmem⟩ := ih hrest
        obtain ⟨appId, happ, hne, huid⟩ := (resolve_ok_iff hlt).mp ⟨selection, hsel, rfl⟩
        refine ⟨List.forall_mem_cons.mpr ⟨⟨appId, happ, hne⟩, hall⟩, ?_⟩
        intro uid
        rw [Finset.mem_insert, hmem, huid]
        simp only [List.mem_cons, or_and_right, exists_or, exists_eq_left, happ, Option.some.injEq, exists_eq_left']

theorem listedUids_exists {apps : List AppSelector}
    (h : ∀ selector ∈ apps, ∃ appId, index.appId selector.package = some appId ∧ appId ≠ 0) :
    ∃ uids, listedUids index apps = .ok uids := by
  induction apps with
  | nil => exact ⟨∅, rfl⟩
  | cons selector rest ih =>
    obtain ⟨⟨appId, happ, hne⟩, hrest⟩ := List.forall_mem_cons.mp h
    obtain ⟨uids, huids⟩ := ih hrest
    obtain ⟨selection, hsel, -⟩ := (resolve_ok_iff hlt).mpr ⟨appId, happ, hne, rfl⟩
    exact ⟨insert selection.uid uids, by simp only [listedUids, hsel, huids]⟩

end Resolution

/-- In the range of applications every pair composes. -/
theorem expandUids_ok {listed : Finset ℕ} {pairs : List (ℕ × ℕ)}
    (h : ∀ pair ∈ pairs, pair.1 ≤ userIdMax ∧ pair.2 ≠ 0 ∧ pair.2 < userIdStride) :
    ∃ uids, expandUids listed pairs = .ok uids ∧
      ∀ uid, uid ∈ uids ↔ ∃ pair ∈ pairs, uid = pair.1 * userIdStride + pair.2 ∧ uid ∉ listed := by
  induction pairs with
  | nil => exact ⟨∅, rfl, by simp⟩
  | cons pair rest ih =>
    obtain ⟨⟨huser, hne, hltp⟩, hrest⟩ := List.forall_mem_cons.mp h
    obtain ⟨uids, huids, hmem⟩ := ih hrest
    have hcompose := (composeUid_ok_iff huser hltp).mpr ⟨hne, rfl⟩
    refine ⟨if pair.1 * userIdStride + pair.2 ∈ listed then uids else insert (pair.1 * userIdStride + pair.2) uids,
      by simp only [expandUids, hcompose, huids], ?_⟩
    intro uid
    by_cases hin : pair.1 * userIdStride + pair.2 ∈ listed
    · rw [if_pos hin, hmem]
      simp only [List.mem_cons, or_and_right, exists_or, exists_eq_left]
      refine ⟨.inr, ?_⟩
      rintro (⟨rfl, hnot⟩ | h)
      · exact absurd hin hnot
      · exact h
    · rw [if_neg hin, Finset.mem_insert, hmem]
      simp only [List.mem_cons, or_and_right, exists_or, exists_eq_left]
      refine or_congr_left ⟨?_, fun h => h.1⟩
      rintro rfl
      exact ⟨rfl, hin⟩

/-! ### The exact set -/

/-- The UID of a listed selector. -/
def Listed (parsed : List (String × ℕ)) (apps : List AppSelector) (uid : ℕ) : Prop :=
  ∃ selector ∈ apps, ∃ appId, lastAppId parsed selector.package = some appId ∧
    uid = selector.userId * userIdStride + appId

/-- A user that blacklist mode expands. -/
def Mentioned (apps : List AppSelector) (userId : ℕ) : Prop := userId = 0 ∨ ∃ selector ∈ apps, selector.userId = userId

/-- The UIDs that a mode selects. -/
def Selected (mode : ListMode) (parsed : List (String × ℕ)) (apps : List AppSelector) (uid : ℕ) : Prop :=
  match mode with
  | .whitelist => Listed parsed apps uid
  | .blacklist =>
    (∃ userId appId, Mentioned apps userId ∧ (10000 ≤ appId ∧ appId ≤ 19999) ∧
      (∃ line ∈ parsed, line.2 % userIdStride = appId) ∧ uid = userId * userIdStride + appId) ∧ ¬ Listed parsed apps uid

theorem applicationIds_parse (text : String) (appId : ℕ) :
    appId ∈ (PackageIndex.parse text).applicationIds ↔
      (10000 ≤ appId ∧ appId ≤ 19999) ∧ ∃ line ∈ packageLines text, line.2 % userIdStride = appId := by
  rw [PackageIndex.applicationIds, List.mem_filter, mem_appIds_parse, Bool.and_eq_true, decide_eq_true_iff,
    decide_eq_true_iff]
  exact and_comm

theorem Mentioned.le {apps : List AppSelector} {userId : ℕ} (h : Mentioned apps userId) : userId ≤ userIdMax := by
  rcases h with rfl | ⟨selector, -, rfl⟩
  · exact Nat.zero_le _
  · exact selector.userId_le

/-- Where every selector resolves, what is selected before the count. -/
theorem resolveSelectedUids_eq (text : String) (mode : ListMode) (apps : List AppSelector)
    (h : ∀ selector ∈ apps, ∃ appId, lastAppId (packageLines text) selector.package = some appId ∧ appId ≠ 0) :
    ∃ selected : Finset ℕ, (∀ uid, uid ∈ selected ↔ Selected mode (packageLines text) apps uid) ∧
      resolveSelectedUids mode apps (PackageIndex.parse text) =
        if uidSelectedMax < selected.card then .error (.tooManyApps selected.card) else .ok selected := by
  have hlt : ∀ package appId, (PackageIndex.parse text).appId package = some appId → appId < userIdStride := by
    intro package appId happ
    rw [appId_parse] at happ
    exact lastAppId_lt happ
  obtain ⟨listed, hlisted⟩ := listedUids_exists hlt (by simpa only [appId_parse] using h)
  have hmem : ∀ uid, uid ∈ listed ↔ Listed (packageLines text) apps uid := by
    intro uid
    rw [(listedUids_ok hlt hlisted).2 uid]
    simp only [appId_parse, Listed]
  unfold resolveSelectedUids
  simp only [hlisted]
  cases mode with
  | whitelist => exact ⟨listed, hmem, rfl⟩
  | blacklist =>
    have hpair : ∀ pair : ℕ × ℕ, pair ∈ ((0 :: apps.map AppSelector.userId).dedup.flatMap fun userId =>
        (PackageIndex.parse text).applicationIds.map fun appId => (userId, appId)) ↔
          Mentioned apps pair.1 ∧ (10000 ≤ pair.2 ∧ pair.2 ≤ 19999) ∧
            ∃ line ∈ packageLines text, line.2 % userIdStride = pair.2 := by
      rintro ⟨userId, appId⟩
      simp only [List.mem_flatMap, List.mem_dedup, List.mem_cons, List.mem_map, Prod.mk.injEq, Mentioned,
        ← applicationIds_parse]
      constructor
      · rintro ⟨u, hu, a, ha, rfl, rfl⟩
        exact ⟨hu, ha⟩
      · rintro ⟨hu, ha⟩
        exact ⟨userId, hu, appId, ha, rfl, rfl⟩
    obtain ⟨selected, hselected, hexpand⟩ := @expandUids_ok listed _ fun pair hin => by
      obtain ⟨hmentioned, hrange, -⟩ := (hpair pair).mp hin
      refine ⟨hmentioned.le, by omega, ?_⟩
      unfold userIdStride
      omega
    refine ⟨selected, ?_, by simp only [hselected]⟩
    intro uid
    rw [hexpand, Selected]
    simp only [hpair, hmem, Prod.exists]
    constructor
    · rintro ⟨userId, appId, ⟨hmentioned, hrange, hline⟩, huid, hnot⟩
      exact ⟨⟨userId, appId, hmentioned, hrange, hline, huid⟩, hnot⟩
    · rintro ⟨⟨userId, appId, hmentioned, hrange, hline, huid⟩, hnot⟩
      exact ⟨userId, appId, ⟨hmentioned, hrange, hline⟩, huid, hnot⟩

/-- **Resolution is exact.**  It fails on a package without a line, on an app id of zero and on more than 1024
UIDs; else the result is the set its mode describes, and each UID of it is that of one user and one app. -/
theorem resolveSelectedUids_exact (text : String) (mode : ListMode) (apps : List AppSelector) :
    ((∃ error, resolveSelectedUids mode apps (PackageIndex.parse text) = .error error) ↔
      (∃ selector ∈ apps, ∀ line ∈ packageLines text, line.1 ≠ selector.package) ∨
        (∃ selector ∈ apps, lastAppId (packageLines text) selector.package = some 0) ∨
        1024 < Set.ncard {uid | Selected mode (packageLines text) apps uid}) ∧
      ∀ selected, resolveSelectedUids mode apps (PackageIndex.parse text) = .ok selected →
        (∀ uid, uid ∈ selected ↔ Selected mode (packageLines text) apps uid) ∧
          ∀ uid ∈ selected,
            (∃ userId appId, decomposeUid uid = (userId, appId) ∧ uid = userId * 100000 + appId ∧ appId ≠ 0 ∧
              Mentioned apps userId) ∧
            (mode = .blacklist → ∀ selector ∈ apps, ∀ appId,
              lastAppId (packageLines text) selector.package = some appId →
                uid ≠ selector.userId * 100000 + appId) := by
  by_cases hall : ∀ selector ∈ apps, ∃ appId, lastAppId (packageLines text) selector.package = some appId ∧ appId ≠ 0
  · obtain ⟨selected, hmem, heq⟩ := resolveSelectedUids_eq text mode apps hall
    have hset : {uid | Selected mode (packageLines text) apps uid} = (selected : Set ℕ) := by
      ext uid
      exact (hmem uid).symm
    rw [heq, hset, Set.ncard_coe_finset]
    constructor
    · constructor
      · rintro ⟨error, herror⟩
        split_ifs at herror with hcard
        exact .inr (.inr hcard)
      · rintro (⟨selector, hin, hnone⟩ | ⟨selector, hin, hzero⟩ | hcard)
        · obtain ⟨appId, happ, -⟩ := hall selector hin
          rw [lastAppId_eq_none_iff.mpr hnone] at happ
          cases happ
        · obtain ⟨appId, happ, hne⟩ := hall selector hin
          exact absurd (Option.some.inj (hzero.symm.trans happ)).symm hne
        · exact ⟨_, if_pos hcard⟩
    · intro result hresult
      split_ifs at hresult
      obtain rfl := Except.ok.inj hresult
      refine ⟨hmem, fun uid hin => ?_⟩
      have hsel := (hmem uid).mp hin
      cases mode with
      | whitelist =>
        obtain ⟨selector, hselector, appId, happ, huid⟩ := hsel
        obtain ⟨appId', happ', hne⟩ := hall selector hselector
        obtain rfl := Option.some.inj (happ.symm.trans happ')
        exact ⟨⟨selector.userId, appId, huid ▸ decomposeUid_compose (lastAppId_lt happ), huid, hne,
          .inr ⟨selector, hselector, rfl⟩⟩, fun hmode => (by cases hmode)⟩
      | blacklist =>
        obtain ⟨⟨userId, appId, hmentioned, hrange, -, huid⟩, hnot⟩ := hsel
        have hstride : appId < userIdStride := by
          unfold userIdStride
          omega
        refine ⟨⟨userId, appId, huid ▸ decomposeUid_compose hstride, huid, by omega, hmentioned⟩, ?_⟩
        intro _ selector hselector appId' happ heq'
        exact hnot ⟨selector, hselector, appId', happ, heq'⟩
  · -- some selector does not resolve
    have hfails : ∃ error, resolveSelectedUids mode apps (PackageIndex.parse text) = .error error := by
      unfold resolveSelectedUids
      cases hlisted : listedUids (PackageIndex.parse text) apps with
      | error error => exact ⟨_, rfl⟩
      | ok listed =>
        have hlt : ∀ package appId, (PackageIndex.parse text).appId package = some appId → appId < userIdStride := by
          intro package appId happ
          rw [appId_parse] at happ
          exact lastAppId_lt happ
        exact absurd (by simpa only [appId_parse] using (listedUids_ok hlt hlisted).1) hall
    obtain ⟨error, herror⟩ := hfails
    refine ⟨iff_of_true ⟨error, herror⟩ ?_, fun selected hok => ?_⟩
    · obtain ⟨selector, hin, hno⟩ := not_forall₂.mp hall
      cases happ : lastAppId (packageLines text) selector.package with
      | none => exact .inl ⟨selector, hin, lastAppId_eq_none_iff.mp happ⟩
      | some appId =>
        by_cases hzero : appId = 0
        · exact .inr (.inl ⟨selector, hin, hzero ▸ happ⟩)
        · exact absurd ⟨appId, happ, hzero⟩ hno
    · rw [herror] at hok
      cases hok

end FluxRs.Apps
