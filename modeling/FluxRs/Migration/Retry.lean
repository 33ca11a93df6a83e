import FluxRs.Migration.Candidate
import FluxRs.Migration.Migrated

/-!
# FluxRs.Migration.Retry — a second migration of what the first one wrote

The checks of a candidate leave no NaN in what can move, so that every moved value compares equal to
itself when the advanced file is already the migrated one.
-/

namespace FluxRs.Migration

open FluxRs.Lib Toml

/-! ### Checked values equal themselves -/

section Typed

variable {table : TomlTable} {key path : String} {v : TomlValue}

theorem rejectUnknownKeys_ok {known : List String} (h : rejectUnknownKeys table path known = .ok ())
    (hget : Assoc.get key table = some v) : key ∈ known := by
  unfold rejectUnknownKeys at h
  cases hfind : table.find? fun m => decide (m.1 ∉ known) with
  | some m =>
    simp only [hfind, reduceCtorEq] at h
  | none =>
    by_contra hkey
    exact List.find?_eq_none.mp hfind _ (Assoc.mem_of_get hget) (decide_eq_true hkey)

theorem eqv_str (s : String) : (TomlValue.scalar (.str s)).eqv (.scalar (.str s)) = true :=
  decide_eq_true ⟨rfl, TomlScalar.noConfusion⟩

theorem optionalString_ok {default s : String} (h : optionalString table key default path = .ok s)
    (hget : Assoc.get key table = some v) : v.eqv v = true := by
  rw [optionalString, hget] at h
  split at h
  · next heq => cases heq
  · next heq =>
    cases heq
    exact eqv_str _
  · cases h

theorem requiredString_ok {s : String} (h : requiredString table key path = .ok s)
    (hget : Assoc.get key table = some v) : v.eqv v = true := by
  rw [requiredString, hget] at h
  split at h
  · next heq =>
    cases heq
    exact eqv_str _
  · cases h
  · next heq => cases heq

theorem optionalU64_ok {default n : ℕ} (h : optionalU64 table key default path = .ok n)
    (hget : Assoc.get key table = some v) : v.eqv v = true := by
  rw [optionalU64, hget] at h
  split at h
  · next heq => cases heq
  · next heq =>
    cases heq
    exact decide_eq_true ⟨rfl, TomlScalar.noConfusion⟩
  · cases h

theorem optionalBool_ok {default b : Bool} (h : optionalBool table key default path = .ok b)
    (hget : Assoc.get key table = some v) : v.eqv v = true := by
  rw [optionalBool, hget] at h
  split at h
  · next heq => cases heq
  · next heq =>
    cases heq
    exact decide_eq_true ⟨rfl, TomlScalar.noConfusion⟩
  · cases h

theorem parseFetch_ok {config : FetchConfig} (h : parseFetch table = .ok config)
    (hget : Assoc.get key table = some v) : v.eqv v = true := by
  obtain ⟨⟨⟩, hknown, h⟩ := bind_ok.mp h
  obtain ⟨interval, hinterval, h⟩ := bind_ok.mp h
  obtain ⟨timeout, htimeout, h⟩ := bind_ok.mp h
  by_cases hzero : timeout = 0
  · simp only [if_pos hzero] at h
    cases h
  simp only [if_neg hzero] at h
  obtain ⟨retries, hretries, h⟩ := bind_ok.mp h
  by_cases hbig : 2 ^ 32 ≤ retries
  · simp only [if_pos hbig] at h
    cases h
  simp only [if_neg hbig] at h
  obtain ⟨userAgent, huser, -⟩ := bind_ok.mp h
  have hkey := rejectUnknownKeys_ok hknown hget
  simp only [fetchKeys, List.mem_cons, List.not_mem_nil, or_false] at hkey
  rcases hkey with rfl | rfl | rfl | rfl
  · exact optionalU64_ok hinterval hget
  · exact optionalU64_ok htimeout hget
  · exact optionalU64_ok hretries hget
  · exact optionalString_ok huser hget

section Refinement

variable {α : Type} {ok : TomlScalar → Bool}

theorem parseRenameTable_ok {members : TomlMembers α} (hwf : wfMembers ok members = true) {r : RenameRule}
    {index : ℕ} (h : parseRenameRule (.table (valueMembers members)) index = .ok r) :
    (TomlValue.table (valueMembers members)).eqv (.table (valueMembers members)) = true := by
  obtain ⟨⟨⟩, hknown, h⟩ := bind_ok.mp h
  obtain ⟨matchPattern, hmatch, h⟩ := bind_ok.mp h
  obtain ⟨replace, hreplace, -⟩ := bind_ok.mp h
  refine eqv_table hwf fun key v hv => ?_
  have hget : Assoc.get key (valueMembers members) = some v.value := by rw [get_valueMembers, hv, Option.map_some]
  have hkey := rejectUnknownKeys_ok hknown hget
  simp only [renameKeys, List.mem_cons, List.not_mem_nil, or_false] at hkey
  rcases hkey with rfl | rfl
  · exact requiredString_ok hmatch hget
  · exact requiredString_ok hreplace hget

theorem parseRenameRule_ok {rule : Toml α} (hwf : wf ok rule = true) {r : RenameRule} {index : ℕ}
    (h : parseRenameRule rule.value index = .ok r) : rule.value.eqv rule.value = true := by
  cases rule with
  | inline d members => exact parseRenameTable_ok (Bool.and_eq_true_iff.mp hwf).2 h
  | table d members => exact parseRenameTable_ok hwf h
  | _ => cases h

theorem parseRenameRules_ok {rules : List (Toml α)} (hwf : wfItems ok rules = true) :
    ∀ {rs : List RenameRule} {index : ℕ}, parseRenameRules (valueItems rules) index = .ok rs →
      TomlValue.eqvItems (valueItems rules) (valueItems rules) = true := by
  induction rules with
  | nil => exact fun _ => rfl
  | cons rule rest ih =>
    intro rs index h
    obtain ⟨hrule, hrest⟩ := Bool.and_eq_true_iff.mp hwf
    obtain ⟨r, hr, h⟩ := bind_ok.mp h
    obtain ⟨rs', hrs, -⟩ := bind_ok.mp h
    exact Bool.and_eq_true_iff.mpr ⟨parseRenameRule_ok hrule hr, ih hrest hrs⟩

theorem parseRefinement_ok {nodes : TomlTable} {config : RefinementConfig}
    (h : parseRefinement nodes = .ok config) (hrefine : Assoc.get "refine" nodes = some (.table table))
    {item : Toml α} (hwf : wf ok item = true) (hget : Assoc.get key table = some item.value) :
    item.value.eqv item.value = true := by
  simp only [parseRefinement, hrefine] at h
  obtain ⟨⟨⟩, hknown, h⟩ := bind_ok.mp h
  obtain ⟨maxTagLength, hmax, h⟩ := bind_ok.mp h
  by_cases hzero : maxTagLength = 0
  · simp only [if_pos hzero] at h
    cases h
  simp only [if_neg hzero] at h
  obtain ⟨rename, hrename, h⟩ := bind_ok.mp h
  obtain ⟨excludePattern, hexclude, h⟩ := bind_ok.mp h
  obtain ⟨stripEmoji, hstrip, -⟩ := bind_ok.mp h
  have hkey := rejectUnknownKeys_ok hknown hget
  simp only [refinementKeys, List.mem_cons, List.not_mem_nil, or_false] at hkey
  rcases hkey with rfl | rfl | rfl | rfl
  · exact optionalString_ok hexclude hget
  · rw [parseRename, hget] at hrename
    cases item with
    | array d items => exact parseRenameRules_ok (Bool.and_eq_true_iff.mp hwf).2 hrename
    | tables d items => exact parseRenameRules_ok (Bool.and_eq_true_iff.mp hwf).2 hrename
    | _ => cases hrename
  · exact optionalBool_ok hstrip hget
  · exact optionalU64_ok hmax hget

/-- Whatever the checks let pass in a section of the advanced document equals itself. -/
theorem parseAdvancedTable_ok {members : TomlMembers α} {config : FetchConfig × RefinementConfig}
    (h : parseAdvancedTable (valueMembers members) = .ok config) {sect : String}
    (hsect : sect = "fetch" ∨ sect = "refine") {item : Toml α} (hwf : wf ok item = true)
    (hlookup : lookupIn members ["nodes", sect, key] = some item.value) :
    item.value.eqv item.value = true := by
  obtain ⟨⟨⟩, -, h⟩ := bind_ok.mp h
  obtain ⟨nodes, hnodes, h⟩ := bind_ok.mp h
  obtain ⟨top, table, htop, htable, hlookup⟩ := TomlValue.lookup_cons_some hlookup
  obtain ⟨inner, sectionTable, rfl, hinner, hlookup⟩ := TomlValue.lookup_cons_some hlookup
  obtain ⟨values, v, rfl, hget, hv⟩ := TomlValue.lookup_cons_some hlookup
  obtain rfl := Option.some.inj hv
  cases htop
  rw [optionalTable, htable] at hnodes
  obtain rfl := Except.ok.inj hnodes
  obtain ⟨⟨⟩, -, h⟩ := bind_ok.mp h
  obtain ⟨fetch, hfetch, h⟩ := bind_ok.mp h
  obtain ⟨fetchConfig, hconfig, h⟩ := bind_ok.mp h
  obtain ⟨refinement, hrefinement, -⟩ := bind_ok.mp h
  rcases hsect with rfl | rfl
  · rw [optionalTable, hinner] at hfetch
    obtain rfl := Except.ok.inj hfetch
    exact parseFetch_ok hconfig hget
  · exact parseRefinement_ok hrefinement hinner hwf hget

end Refinement

end Typed

/-! ### The second migration -/

section Again

variable {α Bytes : Type} {lib : TomlEdit α Bytes}

section Stays

variable {advanced advanced' : TomlMembers α} {move : Move α}

theorem Landed.of_bare (hbare : bareMembers advanced' = bareMembers advanced) (h : Landed advanced move) :
    Landed advanced' move := by
  obtain ⟨d, nodes, d', dest, e, hnodes, hdest, he, hval⟩ := h
  obtain ⟨d₁, nodes₁, hnodes₁, hbare₁⟩ := table_of_bare hbare hnodes
  obtain ⟨d₂, dest₂, hdest₂, hbare₂⟩ := table_of_bare hbare₁ hdest
  have hmap := get_of_bare hbare₂ move.key
  rw [he] at hmap
  obtain ⟨e₂, he₂, heq⟩ := Option.map_eq_some_iff.mp hmap
  refine ⟨d₁, nodes₁, d₂, dest₂, e₂, hnodes₁, hdest₂, he₂, ?_⟩
  rw [← value_bare e₂, heq, value_bare, hval]

/-- A value that is in place and equals itself is not moved again. -/
theorem mergeMove_stays (h : Landed advanced move) (hadv : wfMembers lib.ok advanced = true)
    (hmove : wf lib.ok move.value = true) (heqv : move.value.value.eqv move.value.value = true) :
    mergeMove lib advanced move = .ok advanced := by
  obtain ⟨d, nodes, d', dest, e, hnodes, hdest, he, hval⟩ := h
  have hwf : wf lib.ok e = true := wf_of_get (wf_of_get (wf_of_get hadv hnodes) hdest) he
  refine inTable_stays hnodes (inTable_stays hdest (merge_stays he hwf hmove ?_))
  rw [hval, heqv]

theorem mergeMoves_stays {moves : List (Move α)} (hadv : wfMembers lib.ok advanced = true)
    (h : ∀ move ∈ moves, Landed advanced move ∧ wf lib.ok move.value = true ∧
      move.value.value.eqv move.value.value = true) :
    mergeMoves lib moves advanced = .ok advanced := by
  induction moves with
  | nil => rfl
  | cons move rest ih =>
    obtain ⟨hlanded, hwf, heqv⟩ := h move List.mem_cons_self
    exact bind_ok.mpr ⟨advanced, mergeMove_stays hlanded hadv hwf heqv,
      ih fun m hm => h m (List.mem_cons_of_mem _ hm)⟩

end Stays

variable {others : TomlValue → Option Bytes → Except ConfigError Unit}
variable {main : Bytes} {advanced : Option Bytes} {l : Bool} {o : PreparedMigration Bytes}
variable {mainDoc advancedDoc : TomlDocument α} {subscription withNodes withApps moved : TomlMembers α}
variable {moves : List (Move α)}

/-- What the checks read in a printed document. -/
theorem parseAdvanced_print {d : TomlDocument α} (hwf : wfMembers lib.ok d.members = true)
    {config : FetchConfig × RefinementConfig} (h : parseAdvanced lib (some (lib.print d)) = .ok config) :
    parseAdvancedTable (valueMembers d.members) = .ok config := by
  unfold parseAdvanced parseDocument at h
  by_cases hsize : maxConfigBytes < lib.size (lib.print d)
  · simp only [if_pos hsize, reduceCtorEq] at h
  · simp only [if_neg hsize, lib.fromStr_print d hwf, TomlDocument.value] at h
    exact h

theorem moves_sect (h : MigrationSteps lib mainDoc advancedDoc subscription withNodes withApps moved moves)
    (hwf : wfMembers lib.ok mainDoc.members = true) (move : Move α) (hm : move ∈ moves) :
    move.sect = "fetch" ∨ move.sect = "refine" := by
  rcases (moves_iff h hwf _ _ _).mp ⟨move, hm, rfl, rfl, rfl⟩ with ⟨hk, -⟩ | ⟨hk, -⟩
  · have hsects : ∀ sk ∈ movedKeys, sk.1 = "fetch" ∨ sk.1 = "refine" := by decide
    exact hsects _ hk
  · exact Or.inr hk

/-- The main document that a migration prints is no legacy one. -/
theorem isLegacy_completed
    (h : MigrationSteps lib mainDoc advancedDoc subscription withNodes withApps moved moves)
    (hwf : wfMembers lib.ok mainDoc.members = true) {members : TomlMembers α}
    (hbare : bareMembers members = bareMembers withApps) (l' : Bool) : isLegacy members l' = false := by
  have hm := mainSteps h hwf
  obtain ⟨d, nodes, htable, hlist, hsources⟩ := hm.table
  have hsub : Assoc.get "subscription" members = none := by
    have hmap := get_of_bare hbare "subscription"
    rw [hm.subscription] at hmap
    exact Option.map_eq_none_iff.mp hmap
  have hmarker : containsIn members "nodes" "sources" = true := by
    rw [containsIn_eq, lookupIn_of_bare hbare, lookupIn_of_table htable, lookupIn_single, hsources]
    rfl
  have hnolist : containsIn members "nodes" "list" = false := by
    rw [containsIn_eq, lookupIn_of_bare hbare, lookupIn_of_table htable, lookupIn_single, hlist]
    rfl
  rw [isLegacy, hsub, hmarker, hnolist, Bool.not_true, Bool.and_false]
  rfl

/-- What a migration has written is not migrated again, whatever the flag. -/
theorem prepare_completed (h : prepare lib main advanced l = .ok (some o)) (l' : Bool) :
    prepare lib o.main o.advanced l' = .ok none := by
  obtain ⟨mainDoc, advancedDoc, hmain, hadvanced⟩ := parsed_of_prepare h
  obtain ⟨-, subscription, withNodes, withApps, moved, moves, hsteps, rfl⟩ :=
    steps_of_prepare hmain hadvanced h
  have hwf := lib.parse_wf hmain
  obtain ⟨mainDoc', hmain', hbare, -⟩ := lib.parse_print ⟨mainDoc.decor, withApps⟩ (mainSteps hsteps hwf).wf_main
  have hadvanced' : ∃ d, advancedDocument lib
      (printed lib advanced mainDoc advancedDoc withApps moved moves).advanced = .ok d := by
    obtain ⟨d, hd, -⟩ := map_ok.mp (advancedValue_printed hsteps hwf (wf_advancedDocument hadvanced) hadvanced)
    exact ⟨d, hd⟩
  obtain ⟨advancedDoc', hadvanced'⟩ := hadvanced'
  refine (prepare_of_parse hmain' hadvanced').trans ?_
  rw [isLegacy_completed hsteps hwf hbare l']
  rfl

/-- The main document is migrated the same way once more when the advanced one is written already. -/
theorem prepare_again (h : prepare lib main advanced l = .ok (some o))
    (hvalid : parseFiles lib others o.main o.advanced = .ok ()) :
    prepare lib main o.advanced l = .ok (some o) := by
  obtain ⟨mainDoc, advancedDoc, hmain, hadvanced⟩ := parsed_of_prepare h
  obtain ⟨hlegacy, subscription, withNodes, withApps, moved, moves, hsteps, rfl⟩ :=
    steps_of_prepare hmain hadvanced h
  have hwf := lib.parse_wf hmain
  cases hmoves : moves with
  | nil =>
    subst hmoves
    exact h
  | cons move rest =>
    have hplaced := placedAll hsteps hwf (wf_advancedDocument hadvanced)
    obtain ⟨d', hparse, hbare, hprint⟩ := lib.parse_print ⟨advancedDoc.decor, moved⟩ hplaced.wf_placed
    -- The checks have read the document that was printed.
    obtain ⟨value, -, hvalid⟩ := bind_ok.mp hvalid
    obtain ⟨config, hconfig, -⟩ := bind_ok.mp hvalid
    have hchecked : parseAdvancedTable (valueMembers moved) = .ok config := by
      rw [hmoves] at hconfig
      exact parseAdvanced_print (d := ⟨advancedDoc.decor, moved⟩) hplaced.wf_placed hconfig
    have hstays : mergeMoves lib moves d'.members = .ok d'.members := by
      refine mergeMoves_stays (lib.parse_wf hparse) fun move hm => ?_
      have hwfMove := wf_moves hsteps hwf move hm
      exact ⟨(hplaced.landed move hm).of_bare hbare, hwfMove,
        parseAdvancedTable_ok hchecked (moves_sect hsteps hwf move hm) hwfMove
          (hplaced.landed move hm).lookup⟩
    have hsteps' : MigrationSteps lib mainDoc d' subscription withNodes withApps d'.members moves :=
      { hsteps with merged := hstays }
    have hadvanced' : advancedDocument lib (some (lib.print ⟨advancedDoc.decor, moved⟩)) = .ok d' :=
      parse_ok.mpr hparse
    rw [hmoves] at hsteps'
    show prepare lib main (some (lib.print ⟨advancedDoc.decor, moved⟩)) l = _
    rw [prepare_of_parse hmain hadvanced', if_pos hlegacy]
    refine congrArg (Except.map some) (migrate_ok.mpr ⟨_, _, _, _, _, hsteps', ?_⟩)
    rw [printed, printed, ← hprint]
    rfl

end Again

end FluxRs.Migration
