import FluxRs.Migration.Moves

/-!
# FluxRs.Migration.Migrated — a migration loses and invents nothing

What `prepare` makes of two documents, in terms of the values they mean: every key of either document is
where it was or at the place the current files have for it.
-/

namespace FluxRs.Migration

open FluxRs.Lib Toml

/-! ### The migration of values -/

section Values

variable (main advanced main' advanced' : TomlValue)

/-- A value of the legacy table that belongs in a section of the advanced document. -/
def Moved (sect key : String) (v : TomlValue) : Prop :=
  (sect, key) ∈ movedKeys ∧ main.lookup ["subscription", key] = some v ∨
    sect = "refine" ∧ main.lookup ["subscription", "refine", key] = some v

/-- The old list, and the URL behind it. -/
def migratedSources : List TomlValue :=
  let list : List TomlValue := match main.lookup ["nodes", "list"] with
    | some (.array items) => items
    | _ => []
  match main.lookup ["subscription", "url"] with
  | some (.scalar (.str url)) =>
    if url ≠ "" ∧ (list.any fun v => v.eqv (.str url)) = false then list ++ [.str url] else list
  | _ => list

/-- The legacy keys have the types they are read with. -/
structure LegacyShape : Prop where
  subscription : ∀ v, main.lookup ["subscription"] = some v → ∃ members, v = .table members
  refine : ∀ v, main.lookup ["subscription", "refine"] = some v → ∃ members, v = .table members
  url : ∀ v, main.lookup ["subscription", "url"] = some v → ∃ s, v = .str s
  list : ∀ v, main.lookup ["nodes", "list"] = some v → ∃ items : List String, v = .array (items.map .str)

/-- The documents before and after a migration. -/
structure Migrated : Prop where
  shape : LegacyShape main
  top : ∀ key rest, key ∉ ["subscription", "nodes", "apps"] →
    main'.lookup (key :: rest) = main.lookup (key :: rest)
  nodes : ∀ key rest, key ∉ ["list", "sources"] →
    main'.lookup ("nodes" :: key :: rest) = main.lookup ("nodes" :: key :: rest)
  apps : ∀ key rest, key ≠ "mode" →
    main'.lookup ("apps" :: key :: rest) = main.lookup ("apps" :: key :: rest)
  subscription : main'.lookup ["subscription"] = none
  list : main'.lookup ["nodes", "list"] = none
  sources : main'.lookup ["nodes", "sources"] = some (.array (migratedSources main))
  mode : main'.lookup ["apps", "mode"] =
    some ((main.lookup ["apps", "mode"]).getD (.str "whitelist"))
  /-- No key of the legacy table is dropped. -/
  known : ∀ key v, main.lookup ["subscription", key] = some v →
    key ∈ "url" :: "refine" :: movedKeys.map Prod.snd
  moved : ∀ sect key v, Moved main sect key v → advanced'.lookup ["nodes", sect, key] = some v
  kept : ∀ sect key v, advanced.lookup ["nodes", sect, key] = some v →
    advanced'.lookup ["nodes", sect, key] = some v
  kept_section : ∀ sect rest, (∀ key v, ¬ Moved main sect key v) →
    advanced'.lookup ("nodes" :: sect :: rest) = advanced.lookup ("nodes" :: sect :: rest)
  kept_top : ∀ key rest, key ≠ "nodes" → advanced'.lookup (key :: rest) = advanced.lookup (key :: rest)
  /-- No key is added but for a value that moved. -/
  added : ∀ sect key v, advanced'.lookup ["nodes", sect, key] = some v →
    advanced.lookup ["nodes", sect, key] = some v ∨ Moved main sect key v
  untouched : (∀ sect key v, ¬ Moved main sect key v) → advanced' = advanced

/-- What a migration cannot place: a legacy key of another type or without a destination, a destination
with another value, two values for one destination, or sources that differ from the legacy ones. -/
inductive Stuck : Prop where
  | misshapen (h : ¬ LegacyShape main)
  | unknown {key : String} {v : TomlValue} (hv : main.lookup ["subscription", key] = some v)
      (hkey : key ∉ "url" :: "refine" :: movedKeys.map Prod.snd)
  | occupied {sect key : String} {v w : TomlValue} (hv : Moved main sect key v)
      (hw : advanced.lookup ["nodes", sect, key] = some w) (hne : w ≠ v)
  | both {sect key : String} {v w : TomlValue} (hv : Moved main sect key v)
      (hw : Moved main sect key w) (hne : w ≠ v)
  | sources {w : TomlValue}
      (hlegacy : main.lookup ["subscription"] ≠ none ∨ main.lookup ["nodes", "list"] ≠ none)
      (hw : main.lookup ["nodes", "sources"] = some w) (hne : w ≠ .array (migratedSources main))

end Values

section Steps

variable {α Bytes : Type} {lib : TomlEdit α Bytes}

/-! ### The main document -/

theorem legacySubscription_ok {main subscription : TomlMembers α}
    (h : legacySubscription lib main = .ok subscription) :
    (∀ key rest, lookupIn subscription (key :: rest) = lookupIn main ("subscription" :: key :: rest)) ∧
      (wfMembers lib.ok main = true → wfMembers lib.ok subscription = true) := by
  unfold legacySubscription at h
  cases hget : Assoc.get "subscription" main with
  | none =>
    rw [hget] at h
    obtain rfl := Except.ok.inj h
    refine ⟨fun key rest => ?_, fun _ => rfl⟩
    rw [lookupIn_cons main, hget]
    rfl
  | some item =>
    rw [hget] at h
    cases item with
    | table d members =>
      obtain rfl := Except.ok.inj h
      exact ⟨fun key rest => (lookupIn_of_table hget _).symm, fun hmain => wf_of_get hmain hget⟩
    | inline d members =>
      obtain rfl := Except.ok.inj h
      refine ⟨fun key rest => ?_, fun hmain =>
        wfMembers_redecorate _ (Bool.and_eq_true_iff.mp (wf_of_get hmain hget)).2⟩
      rw [lookupIn_redecorateMembers, lookupIn_cons main, hget]
      rfl
    | _ => cases h

theorem legacySubscription_table {main subscription : TomlMembers α}
    (h : legacySubscription lib main = .ok subscription) (v : TomlValue)
    (hv : lookupIn main ["subscription"] = some v) : ∃ members, v = .table members := by
  unfold legacySubscription at h
  rw [lookupIn_single] at hv
  obtain ⟨item, hget, rfl⟩ := Option.map_eq_some_iff.mp hv
  rw [hget] at h
  cases item with
  | table | inline => exact ⟨_, rfl⟩
  | _ => cases h

theorem value_of_asStr {item : Toml α} {s : String} (h : item.asStr = some s) : item.value = .str s := by
  cases item with
  | scalar d t =>
    cases t with
    | str t => rw [value, ← Option.some.inj h, TomlValue.str]
    | _ => cases h
  | _ => cases h

theorem strings_of_asStr {items : List (Toml α)} (h : ∀ item ∈ items, item.asStr ≠ none) :
    ∃ texts : List String, valueItems items = texts.map .str := by
  induction items with
  | nil => exact ⟨[], rfl⟩
  | cons item rest ih =>
    obtain ⟨texts, htexts⟩ := ih fun i hi => h i (List.mem_cons_of_mem _ hi)
    obtain ⟨s, hs⟩ := Option.ne_none_iff_exists'.mp (h item List.mem_cons_self)
    exact ⟨s :: texts, by rw [valueItems, htexts, value_of_asStr hs, List.map_cons]⟩

theorem legacyList_ok {nodes : TomlMembers α} {d : α} {items : List (Toml α)}
    (h : legacyList lib nodes = .ok (d, items)) (hnodes : wfMembers lib.ok nodes = true) :
    (items.all isValue && wfItems lib.ok items) = true ∧
      (∀ v, lookupIn nodes ["list"] = some v → ∃ items : List String, v = .array (items.map .str)) ∧
        valueItems items = (match lookupIn nodes ["list"] with
          | some (.array items) => items
          | _ => []) := by
  unfold legacyList at h
  rw [lookupIn_single]
  cases hget : Assoc.get "list" nodes with
  | none =>
    rw [hget] at h
    cases h
    refine ⟨rfl, fun v hv => ?_, rfl⟩
    cases hv
  | some item =>
    rw [hget] at h
    cases item with
    | array d' items' =>
      by_cases hstr : (items'.any fun item => item.asStr.isNone) = true
      · simp only [if_pos hstr, reduceCtorEq] at h
      · simp only [if_neg hstr, Except.ok.injEq, Prod.mk.injEq] at h
        obtain ⟨rfl, rfl⟩ := h
        refine ⟨wf_of_get hnodes hget, fun v hv => ?_, rfl⟩
        have hall : ∀ item ∈ items', item.asStr ≠ none := fun item hi hnone =>
          hstr (List.any_eq_true.mpr ⟨item, hi, Option.isNone_iff_eq_none.mpr hnone⟩)
        obtain ⟨texts, htexts⟩ := strings_of_asStr hall
        exact ⟨texts, by rw [← Option.some.inj hv, value, htexts]⟩
    | _ => cases h

/-- A text in a document is the text it means. -/
theorem asStr_beq (item : Toml α) (s : String) : (item.asStr == some s) = item.value.eqv (.str s) := by
  cases item with
  | scalar d t =>
    cases t with
    | str t =>
      show (some t == some s) = decide (TomlScalar.str t = .str s ∧ TomlScalar.str t ≠ .float .nan)
      rw [Bool.eq_iff_iff, beq_iff_eq, decide_eq_true_eq]
      constructor
      · intro h
        exact ⟨by rw [Option.some.inj h], TomlScalar.noConfusion⟩
      · rintro ⟨h, -⟩
        rw [TomlScalar.str.inj h]
    | _ =>
      simp only [asStr, value, TomlValue.str, TomlValue.eqv, reduceCtorEq, false_and, decide_false]
      rfl
  | _ => rfl

theorem any_asStr (items : List (Toml α)) (s : String) :
    (items.any fun item => item.asStr == some s) = (valueItems items).any fun v => v.eqv (.str s) := by
  induction items with
  | nil => rfl
  | cons item rest ih => rw [List.any_cons, valueItems, List.any_cons, ih, asStr_beq]

theorem valueItems_append (items items' : List (Toml α)) :
    valueItems (items ++ items') = valueItems items ++ valueItems items' := by
  induction items with
  | nil => rfl
  | cons item rest ih => rw [List.cons_append, valueItems, valueItems, ih, List.cons_append]

theorem legacySources_ok {subscription : TomlMembers α} {items sources : List (Toml α)}
    (h : legacySources lib subscription items = .ok sources)
    (hitems : (items.all isValue && wfItems lib.ok items) = true) :
    (sources.all isValue && wfItems lib.ok sources) = true ∧
      valueItems sources = (match lookupIn subscription ["url"] with
        | some (.scalar (.str url)) =>
          if url ≠ "" ∧ ((valueItems items).any fun v => v.eqv (.str url)) = false then
            valueItems items ++ [.str url]
          else valueItems items
        | _ => valueItems items) := by
  unfold legacySources at h
  rw [lookupIn_single]
  cases hget : Assoc.get "url" subscription with
  | none =>
    rw [hget] at h
    obtain rfl := Except.ok.inj h
    exact ⟨hitems, rfl⟩
  | some url =>
    simp only [hget] at h
    cases hstr : url.asStr with
    | none =>
      simp only [hstr, reduceCtorEq] at h
    | some s =>
      simp only [hstr, any_asStr] at h
      have hval := value_of_asStr hstr
      rw [Option.map_some, hval]
      show _ ∧ _ = if s ≠ "" ∧ ((valueItems items).any fun v => v.eqv (.str s)) = false then
          valueItems items ++ [.str s]
        else valueItems items
      by_cases hnew : s ≠ "" ∧ ((valueItems items).any fun v => v.eqv (.str s)) = false
      · rw [if_pos hnew] at h
        obtain rfl := Except.ok.inj h
        obtain ⟨hvalues, hwf⟩ := Bool.and_eq_true_iff.mp hitems
        refine ⟨Bool.and_eq_true_iff.mpr ⟨?_, wfItems_append hwf (lib.ok_str s)⟩, ?_⟩
        · rw [List.all_append, hvalues]
          rfl
        · rw [if_pos hnew, valueItems_append]
          rfl
      · rw [if_neg hnew] at h
        obtain rfl := Except.ok.inj h
        exact ⟨hitems, (if_neg hnew).symm⟩

theorem legacySources_url {subscription : TomlMembers α} {items sources : List (Toml α)}
    (h : legacySources lib subscription items = .ok sources) (v : TomlValue)
    (hv : lookupIn subscription ["url"] = some v) : ∃ s, v = .str s := by
  unfold legacySources at h
  rw [lookupIn_single] at hv
  obtain ⟨url, hget, rfl⟩ := Option.map_eq_some_iff.mp hv
  simp only [hget] at h
  cases hstr : url.asStr with
  | none => simp only [hstr, reduceCtorEq] at h
  | some s => exact ⟨s, value_of_asStr hstr⟩

/-- What is done to `nodes` of the main document. -/
theorem prepareNodes_ok {main subscription nodes nodes' : TomlMembers α}
    (hsub : ∀ key rest, lookupIn subscription (key :: rest) = lookupIn main ("subscription" :: key :: rest))
    (hopen : ∀ key rest, lookupIn main ("nodes" :: key :: rest) = lookupIn nodes (key :: rest))
    (hnodes : wfMembers lib.ok nodes = true) (h : prepareNodes lib subscription nodes = .ok nodes') :
    Merged lib.ok (Assoc.remove "list" nodes) "sources"
      (.array (migratedSources (.table (valueMembers main)))) nodes' := by
  obtain ⟨⟨d, items⟩, hlist, h⟩ := bind_ok.mp h
  obtain ⟨sources, hsources, h⟩ := bind_ok.mp h
  obtain ⟨hitems, -, hval⟩ := legacyList_ok hlist hnodes
  obtain ⟨hwf, hval'⟩ := legacySources_ok hsources hitems
  have hmerged := merge_ok (wfMembers_remove hnodes) (v := .array d sources) hwf h
  rw [value, hval', hsub, hval, ← hopen] at hmerged
  exact hmerged

theorem prepareApps_ok {apps apps' : TomlMembers α} (happs : wfMembers lib.ok apps = true)
    (h : prepareApps lib apps = .ok apps') :
    (Assoc.get "mode" apps').map value =
        some (((Assoc.get "mode" apps).map value).getD (.str "whitelist")) ∧
      (∀ k, k ≠ "mode" → Assoc.get k apps' = Assoc.get k apps) ∧ wfMembers lib.ok apps' = true := by
  unfold prepareApps at h
  cases hget : Assoc.get "mode" apps with
  | some mode =>
    rw [hget] at h
    obtain rfl := Except.ok.inj h
    exact ⟨by rw [hget]; rfl, fun _ _ => rfl, happs⟩
  | none =>
    rw [hget] at h
    obtain rfl := Except.ok.inj h
    refine ⟨?_, fun k hk => Assoc.get_append_ne hk _ _, wfMembers_append happs hget (lib.ok_str _)⟩
    rw [Assoc.get_append_self hget]
    rfl

/-! ### The moves of a legacy table -/

section MovesOf

variable {main subscription : TomlMembers α}

theorem mem_directMoves (hsub : ∀ key rest,
      lookupIn subscription (key :: rest) = lookupIn main ("subscription" :: key :: rest))
    {sect key : String} {v : TomlValue} :
    (∃ move ∈ directMoves subscription, move.sect = sect ∧ move.key = key ∧ move.value.value = v) ↔
      (sect, key) ∈ movedKeys ∧ lookupIn main ["subscription", key] = some v := by
  rw [← hsub, lookupIn_single]
  constructor
  · rintro ⟨move, hm, rfl, rfl, rfl⟩
    obtain ⟨⟨s, k⟩, hk, hmap⟩ := List.mem_filterMap.mp hm
    obtain ⟨item, hitem, rfl⟩ := Option.map_eq_some_iff.mp hmap
    exact ⟨hk, by rw [hitem, Option.map_some]⟩
  · rintro ⟨hk, hv⟩
    obtain ⟨item, hitem, rfl⟩ := Option.map_eq_some_iff.mp hv
    exact ⟨⟨sect, key, item⟩, List.mem_filterMap.mpr ⟨(sect, key), hk, by rw [hitem]; rfl⟩, rfl, rfl, rfl⟩

/-- The second loop goes through the members of a table. -/
theorem refineMoves_ok (hwf : wfMembers lib.ok subscription = true) {refine : List (Move α)}
    (h : refineMoves subscription = .ok refine) :
    ∃ members, refine = (members.map fun m => ⟨"refine", m.1, m.2⟩) ∧
      wfMembers lib.ok members = true ∧
        (∀ v, lookupIn subscription ["refine"] = some v → ∃ ms, v = .table ms) ∧
          ∀ key, lookupIn subscription ["refine", key] = (Assoc.get key members).map value := by
  unfold refineMoves at h
  cases hget : Assoc.get "refine" subscription with
  | none =>
    rw [hget] at h
    obtain rfl := Except.ok.inj h
    refine ⟨[], rfl, rfl, fun v hv => ?_, fun key => ?_⟩
    · rw [lookupIn_single, hget] at hv
      cases hv
    · rw [lookupIn_cons, hget]
      rfl
  | some item =>
    simp only [hget] at h
    cases htable : item.asTableLike with
    | none => simp only [htable, reduceCtorEq] at h
    | some members =>
      simp only [htable] at h
      obtain rfl := Except.ok.inj h
      have hlookup : ∀ path, lookupIn subscription ("refine" :: path) = lookupIn members path := by
        intro path
        rw [lookupIn_cons, hget, Option.bind_some, lookup_of_asTableLike htable]
      refine ⟨members, rfl, ?_, fun v hv => ?_, fun key => by rw [hlookup, lookupIn_single]⟩
      · have hitem := wf_of_get hwf hget
        cases item with
        | inline d ms =>
          obtain rfl := Option.some.inj htable
          exact (Bool.and_eq_true_iff.mp hitem).2
        | table d ms =>
          obtain rfl := Option.some.inj htable
          exact hitem
        | _ => cases htable
      · rw [hlookup] at hv
        exact ⟨_, (Option.some.inj hv).symm⟩

theorem mem_refineMoves (hsub : ∀ key rest,
      lookupIn subscription (key :: rest) = lookupIn main ("subscription" :: key :: rest))
    (hwf : wfMembers lib.ok subscription = true) {refine : List (Move α)}
    (h : refineMoves subscription = .ok refine) {sect key : String} {v : TomlValue} :
    (∃ move ∈ refine, move.sect = sect ∧ move.key = key ∧ move.value.value = v) ↔
      sect = "refine" ∧ lookupIn main ["subscription", "refine", key] = some v := by
  obtain ⟨members, rfl, hmembers, -, hlookup⟩ := refineMoves_ok hwf h
  rw [← hsub, hlookup]
  constructor
  · rintro ⟨move, hm, rfl, rfl, rfl⟩
    obtain ⟨⟨k, w⟩, hk, rfl⟩ := List.mem_map.mp hm
    exact ⟨rfl, by rw [get_of_mem hmembers hk, Option.map_some]⟩
  · rintro ⟨rfl, hv⟩
    obtain ⟨w, hw, rfl⟩ := Option.map_eq_some_iff.mp hv
    exact ⟨_, List.mem_map.mpr ⟨(key, w), Assoc.mem_of_get hw, rfl⟩, rfl, rfl, rfl⟩

theorem wf_directMoves (hwf : wfMembers lib.ok subscription = true) :
    ∀ move ∈ directMoves subscription, wf lib.ok move.value = true := by
  intro move hm
  obtain ⟨⟨s, k⟩, -, hmap⟩ := List.mem_filterMap.mp hm
  obtain ⟨item, hitem, rfl⟩ := Option.map_eq_some_iff.mp hmap
  exact wf_of_get hwf hitem

theorem wf_refineMoves (hwf : wfMembers lib.ok subscription = true) {refine : List (Move α)}
    (h : refineMoves subscription = .ok refine) : ∀ move ∈ refine, wf lib.ok move.value = true := by
  obtain ⟨members, rfl, hmembers, -⟩ := refineMoves_ok hwf h
  intro move hm
  obtain ⟨⟨k, w⟩, hk, rfl⟩ := List.mem_map.mp hm
  exact wf_of_get hmembers (get_of_mem hmembers hk)

theorem mem_leftover {key : String} {v : Toml α} (h : leftover subscription = [])
    (hget : Assoc.get key subscription = some v) : key ∈ "url" :: "refine" :: movedKeys.map Prod.snd := by
  by_contra hkey
  have hmem : (key, v) ∈ leftover subscription :=
    List.mem_filter.mpr ⟨Assoc.mem_of_get hget, decide_eq_true hkey⟩
  rw [h] at hmem
  cases hmem

/-- Both loops as one run of moves. -/
theorem moveSettings_ok {advanced advanced' : TomlMembers α} {any : Bool} :
    moveSettings lib subscription advanced = .ok (advanced', any) ↔
      ∃ refine, refineMoves subscription = .ok refine ∧
        mergeMoves lib (directMoves subscription ++ refine) advanced = .ok advanced' ∧
          leftover subscription = [] ∧ any = !(directMoves subscription ++ refine).isEmpty := by
  constructor
  · intro h
    obtain ⟨mid, hmid, h⟩ := bind_ok.mp h
    obtain ⟨refine, hrefine, h⟩ := bind_ok.mp h
    obtain ⟨last, hlast, h⟩ := bind_ok.mp h
    cases hleft : leftover subscription with
    | nil =>
      simp only [hleft] at h
      cases h
      refine ⟨refine, hrefine, ?_, rfl, rfl⟩
      rw [mergeMoves_append, hmid]
      exact hlast
    | cons first rest =>
      simp only [hleft] at h
      cases h
  · rintro ⟨refine, hrefine, hmerged, hleft, rfl⟩
    rw [mergeMoves_append] at hmerged
    obtain ⟨mid, hmid, hlast⟩ := bind_ok.mp hmerged
    refine bind_ok.mpr ⟨mid, hmid, bind_ok.mpr ⟨refine, hrefine, bind_ok.mpr ⟨advanced', hlast, ?_⟩⟩⟩
    simp only [hleft]
    rfl

end MovesOf

/-! ### The migration as a whole -/

section Whole

variable {main : Bytes} {advanced : Option Bytes} {l : Bool} {mainDoc advancedDoc : TomlDocument α}

/-- What a migration goes through, from parsed documents on. -/
structure MigrationSteps (lib : TomlEdit α Bytes) (mainDoc advancedDoc : TomlDocument α)
    (subscription withNodes withApps moved : TomlMembers α) (moves : List (Move α)) : Prop where
  legacy : legacySubscription lib mainDoc.members = .ok subscription
  nodes : inTable lib (Assoc.remove "subscription" mainDoc.members) "nodes" "nodes"
    (prepareNodes lib subscription) = .ok withNodes
  apps : inTable lib withNodes "apps" "apps" (prepareApps lib) = .ok withApps
  moves_eq : ∃ refine, refineMoves subscription = .ok refine ∧ moves = directMoves subscription ++ refine
  merged : mergeMoves lib moves advancedDoc.members = .ok moved
  all : leftover subscription = []

/-- The documents a migration prints. -/
def printed (lib : TomlEdit α Bytes) (advanced : Option Bytes) (mainDoc advancedDoc : TomlDocument α)
    (withApps moved : TomlMembers α) (moves : List (Move α)) : PreparedMigration Bytes :=
  ⟨lib.print ⟨mainDoc.decor, withApps⟩,
    if !moves.isEmpty then some (lib.print ⟨advancedDoc.decor, moved⟩) else advanced⟩

theorem migrate_ok {o : PreparedMigration Bytes} :
    migrate lib mainDoc advancedDoc advanced = .ok o ↔ ∃ subscription withNodes withApps moved moves,
      MigrationSteps lib mainDoc advancedDoc subscription withNodes withApps moved moves ∧
        o = printed lib advanced mainDoc advancedDoc withApps moved moves := by
  constructor
  · intro h
    obtain ⟨subscription, hsub, h⟩ := bind_ok.mp h
    obtain ⟨withNodes, hnodes, h⟩ := bind_ok.mp h
    obtain ⟨⟨moved, any⟩, hmoved, h⟩ := bind_ok.mp h
    obtain ⟨withApps, happs, h⟩ := bind_ok.mp h
    obtain ⟨refine, hrefine, hmerged, hall, rfl⟩ := moveSettings_ok.mp hmoved
    exact ⟨subscription, withNodes, withApps, moved, _,
      ⟨hsub, hnodes, happs, ⟨refine, hrefine, rfl⟩, hmerged, hall⟩, (Except.ok.inj h).symm⟩
  · rintro ⟨subscription, withNodes, withApps, moved, moves, h, rfl⟩
    obtain ⟨refine, hrefine, rfl⟩ := h.moves_eq
    refine bind_ok.mpr ⟨subscription, h.legacy, bind_ok.mpr ⟨withNodes, h.nodes, bind_ok.mpr
      ⟨(moved, _), moveSettings_ok.mpr ⟨refine, hrefine, h.merged, h.all, rfl⟩,
        bind_ok.mpr ⟨withApps, h.apps, rfl⟩⟩⟩⟩

theorem parse_ok {bytes : Bytes} {name : String} {d : TomlDocument α} :
    parse lib bytes name = .ok d ↔ lib.parse bytes = .ok d := by
  unfold parse
  cases lib.parse bytes with
  | ok d' => simp only [Except.ok.injEq]
  | error e => cases e <;> simp only [reduceCtorEq]

theorem prepare_of_parse (hmain : lib.parse main = .ok mainDoc)
    (hadvanced : advancedDocument lib advanced = .ok advancedDoc) :
    prepare lib main advanced l = if isLegacy mainDoc.members l then
      (migrate lib mainDoc advancedDoc advanced).map some else .ok none := by
  show (parse lib main "flux.toml" >>= fun mainDoc => advancedDocument lib advanced >>= fun advancedDoc =>
    if isLegacy mainDoc.members l then migrate lib mainDoc advancedDoc advanced >>= fun o => .ok (some o)
    else .ok none) = _
  rw [parse_ok.mpr hmain, hadvanced]
  show (if isLegacy mainDoc.members l then migrate lib mainDoc advancedDoc advanced >>= fun o => .ok (some o)
    else .ok none) = _
  congr 1

theorem parsed_of_prepare {r : Option (PreparedMigration Bytes)} (h : prepare lib main advanced l = .ok r) :
    ∃ mainDoc advancedDoc, lib.parse main = .ok mainDoc ∧ advancedDocument lib advanced = .ok advancedDoc := by
  obtain ⟨mainDoc, hmain, h⟩ := bind_ok.mp h
  obtain ⟨advancedDoc, hadvanced, -⟩ := bind_ok.mp h
  exact ⟨mainDoc, advancedDoc, parse_ok.mp hmain, hadvanced⟩

section Means

variable {subscription withNodes withApps moved : TomlMembers α} {moves : List (Move α)}

/-- What the three steps of a migration do to the main document. -/
structure MainSteps (ok : TomlScalar → Bool) (main withApps : TomlMembers α) : Prop where
  top : ∀ key rest, key ∉ ["subscription", "nodes", "apps"] →
    lookupIn withApps (key :: rest) = lookupIn main (key :: rest)
  nodes : ∀ key rest, key ∉ ["list", "sources"] →
    lookupIn withApps ("nodes" :: key :: rest) = lookupIn main ("nodes" :: key :: rest)
  apps : ∀ key rest, key ≠ "mode" →
    lookupIn withApps ("apps" :: key :: rest) = lookupIn main ("apps" :: key :: rest)
  subscription : Assoc.get "subscription" withApps = none
  table : ∃ d members, Assoc.get "nodes" withApps = some (.table d members) ∧
    Assoc.get "list" members = none ∧ (Assoc.get "sources" members).map value =
      some (.array (migratedSources (.table (valueMembers main))))
  same : ∀ w, lookupIn main ["nodes", "sources"] = some w →
    w = .array (migratedSources (.table (valueMembers main)))
  mode : lookupIn withApps ["apps", "mode"] =
    some ((lookupIn main ["apps", "mode"]).getD (.str "whitelist"))
  wf_main : wfMembers ok withApps = true

theorem mainSteps (h : MigrationSteps lib mainDoc advancedDoc subscription withNodes withApps moved moves)
    (hwf : wfMembers lib.ok mainDoc.members = true) : MainSteps lib.ok mainDoc.members withApps := by
  obtain ⟨hsub, -⟩ := legacySubscription_ok h.legacy
  have hremoved : wfMembers lib.ok (Assoc.remove "subscription" mainDoc.members) = true :=
    wfMembers_remove hwf
  obtain ⟨nodes, nodes', hnodes, hin⟩ := inTable_ok h.nodes
  have hopen : ∀ key rest, lookupIn mainDoc.members ("nodes" :: key :: rest) = lookupIn nodes (key :: rest) := by
    intro key rest
    rw [← hin.opened]
    exact (lookupIn_congr (Assoc.get_remove_ne (by decide) _) _).symm
  have hm := prepareNodes_ok hsub hopen (hin.wf_opened hremoved) hnodes
  have hwithNodes := hin.wf_closed hremoved hm.wf_merged
  obtain ⟨apps, apps', happs, hin'⟩ := inTable_ok h.apps
  obtain ⟨hmode, hframe, happs'⟩ := prepareApps_ok (hin'.wf_opened hwithNodes) happs
  have hother : ∀ key rest, key ≠ "subscription" → key ≠ "nodes" →
      lookupIn withNodes (key :: rest) = lookupIn mainDoc.members (key :: rest) := by
    intro key rest hs hn
    rw [hin.outside hn]
    exact lookupIn_congr (Assoc.get_remove_ne hs _) _
  have happsOpen : ∀ key rest, lookupIn apps (key :: rest) = lookupIn mainDoc.members ("apps" :: key :: rest) := by
    intro key rest
    rw [← hin'.opened, hother "apps" _ (by decide) (by decide)]
  refine ⟨fun key rest hkey => ?_, fun key rest hkey => ?_, fun key rest hkey => ?_, ?_, ?_, fun w hw => ?_, ?_,
    hin'.wf_closed hwithNodes happs'⟩
  · simp only [List.mem_cons, List.not_mem_nil, or_false, not_or] at hkey
    rw [hin'.outside hkey.2.2, hother key rest hkey.1 hkey.2.1]
  · simp only [List.mem_cons, List.not_mem_nil, or_false, not_or] at hkey
    rw [hin'.outside (by decide), hin.inside, hopen]
    refine lookupIn_congr ?_ rest
    rw [hm.frame key hkey.2, Assoc.get_remove_ne hkey.1]
  · rw [hin'.inside, ← happsOpen]
    exact lookupIn_congr (hframe key hkey) rest
  · rw [hin'.frame _ (by decide), hin.frame _ (by decide), Assoc.get_remove_self]
  · obtain ⟨d, hd⟩ := hin.table
    refine ⟨d, nodes', by rw [hin'.frame _ (by decide), hd], ?_, hm.placed⟩
    rw [hm.frame _ (by decide), Assoc.get_remove_self]
  · rw [hopen, lookupIn_single] at hw
    obtain ⟨e, he, rfl⟩ := Option.map_eq_some_iff.mp hw
    exact hm.same e (by rw [Assoc.get_remove_ne (by decide), he])
  · rw [hin'.inside, lookupIn_single, hmode, ← lookupIn_single, happsOpen]

theorem moves_iff (h : MigrationSteps lib mainDoc advancedDoc subscription withNodes withApps moved moves)
    (hwf : wfMembers lib.ok mainDoc.members = true) (sect key : String) (v : TomlValue) :
    (∃ move ∈ moves, move.sect = sect ∧ move.key = key ∧ move.value.value = v) ↔
      Moved mainDoc.value sect key v := by
  obtain ⟨hsub, hwfSub⟩ := legacySubscription_ok h.legacy
  obtain ⟨refine, hrefine, rfl⟩ := h.moves_eq
  show _ ↔ _ ∧ lookupIn mainDoc.members _ = _ ∨ _ ∧ lookupIn mainDoc.members _ = _
  rw [← mem_directMoves hsub, ← mem_refineMoves hsub (hwfSub hwf) hrefine]
  constructor
  · rintro ⟨move, hm, hmove⟩
    rcases List.mem_append.mp hm with hm | hm
    · exact Or.inl ⟨move, hm, hmove⟩
    · exact Or.inr ⟨move, hm, hmove⟩
  · rintro (⟨move, hm, hmove⟩ | ⟨move, hm, hmove⟩)
    · exact ⟨move, List.mem_append_left _ hm, hmove⟩
    · exact ⟨move, List.mem_append_right _ hm, hmove⟩

theorem wf_moves (h : MigrationSteps lib mainDoc advancedDoc subscription withNodes withApps moved moves)
    (hwf : wfMembers lib.ok mainDoc.members = true) (move : Move α) (hm : move ∈ moves) :
    wf lib.ok move.value = true := by
  obtain ⟨-, hwfSub⟩ := legacySubscription_ok h.legacy
  obtain ⟨refine, hrefine, rfl⟩ := h.moves_eq
  rcases List.mem_append.mp hm with hm | hm
  · exact wf_directMoves (hwfSub hwf) move hm
  · exact wf_refineMoves (hwfSub hwf) hrefine move hm

/-- What the moves do to the advanced document. -/
theorem placedAll (h : MigrationSteps lib mainDoc advancedDoc subscription withNodes withApps moved moves)
    (hwf : wfMembers lib.ok mainDoc.members = true) (hadv : wfMembers lib.ok advancedDoc.members = true) :
    PlacedAll lib.ok advancedDoc.members moves moved :=
  mergeMoves_placed (wf_moves h hwf) hadv h.merged

end Means

/-! ### What the documents mean -/

/-- What a main document means. -/
def mainValue (lib : TomlEdit α Bytes) (main : Bytes) : Except String TomlValue :=
  (parse lib main "flux.toml").map TomlDocument.value

/-- What an advanced document means; without a file, the empty table. -/
def advancedValue (lib : TomlEdit α Bytes) (advanced : Option Bytes) : Except String TomlValue :=
  (advancedDocument lib advanced).map TomlDocument.value

theorem mainValue_ok {v : TomlValue} :
    mainValue lib main = .ok v ↔ ∃ d, lib.parse main = .ok d ∧ d.value = v := by
  rw [mainValue, map_ok]
  simp only [parse_ok]

theorem mainValue_print {d : TomlDocument α} (hwf : wfMembers lib.ok d.members = true) :
    mainValue lib (lib.print d) = .ok d.value := by
  obtain ⟨d', hparse, hbare, -⟩ := lib.parse_print d hwf
  exact mainValue_ok.mpr ⟨d', hparse, congrArg TomlValue.table (valueMembers_of_bare hbare)⟩

theorem wf_advancedDocument (h : advancedDocument lib advanced = .ok advancedDoc) :
    wfMembers lib.ok advancedDoc.members = true := by
  cases advanced with
  | none =>
    obtain rfl := Except.ok.inj h
    rfl
  | some bytes => exact lib.parse_wf (parse_ok.mp h)

theorem containsIn_eq (members : TomlMembers α) (key inner : String) :
    containsIn members key inner = (lookupIn members [key, inner]).isSome := by
  rw [containsIn, lookupIn_cons]
  cases Assoc.get key members with
  | none => rfl
  | some item =>
    rw [Option.bind_some, Option.bind_some]
    cases htable : item.asTableLike with
    | some inside =>
      rw [lookup_of_asTableLike htable, lookupIn_single, Option.isSome_map]
      rfl
    | none =>
      cases item with
      | inline | table => cases htable
      | _ => rfl

section Means

variable {subscription withNodes withApps moved : TomlMembers α} {moves : List (Move α)}

theorem legacyShape_of_steps
    (h : MigrationSteps lib mainDoc advancedDoc subscription withNodes withApps moved moves)
    (hwf : wfMembers lib.ok mainDoc.members = true) : LegacyShape mainDoc.value := by
  obtain ⟨hsub, hwfSub⟩ := legacySubscription_ok h.legacy
  obtain ⟨refine, hrefine, -⟩ := h.moves_eq
  obtain ⟨-, -, -, htable, -⟩ := refineMoves_ok (hwfSub hwf) hrefine
  obtain ⟨nodes, nodes', hnodes, hin⟩ := inTable_ok h.nodes
  obtain ⟨⟨d, items⟩, hlist, hnodes⟩ := bind_ok.mp hnodes
  obtain ⟨sources, hsources, -⟩ := bind_ok.mp hnodes
  obtain ⟨-, hstrings, -⟩ := legacyList_ok hlist (hin.wf_opened (wfMembers_remove hwf))
  refine ⟨legacySubscription_table h.legacy, fun v hv => htable v ?_,
    fun v hv => legacySources_url hsources v ?_, fun v hv => hstrings v ?_⟩
  · rw [hsub]
    exact hv
  · rw [hsub]
    exact hv
  · rw [← hin.opened, lookupIn_congr (Assoc.get_remove_ne (by decide) _)]
    exact hv

theorem migrated_of_steps
    (h : MigrationSteps lib mainDoc advancedDoc subscription withNodes withApps moved moves)
    (hwf : wfMembers lib.ok mainDoc.members = true) (hadv : wfMembers lib.ok advancedDoc.members = true) :
    Migrated mainDoc.value advancedDoc.value (.table (valueMembers withApps))
      (.table (valueMembers moved)) := by
  have hmain := mainSteps h hwf
  have hplaced := placedAll h hwf hadv
  have hmoves := moves_iff h hwf
  obtain ⟨d, members, htable, hlist, hsources⟩ := hmain.table
  have hnone : (∀ sect key v, ¬ Moved mainDoc.value sect key v) → moves = [] := by
    intro hno
    refine List.eq_nil_iff_forall_not_mem.mpr fun move hm => ?_
    exact hno _ _ _ ((hmoves _ _ _).mp ⟨move, hm, rfl, rfl, rfl⟩)
  refine ⟨legacyShape_of_steps h hwf, hmain.top, hmain.nodes, hmain.apps, ?_, ?_, ?_, hmain.mode, fun key v hv => ?_,
    fun sect key v hv => ?_, hplaced.kept, fun sect rest hno => ?_, hplaced.kept_top,
    fun sect key v hv => ?_, fun hno => ?_⟩
  · show lookupIn withApps ["subscription"] = none
    rw [lookupIn_single, hmain.subscription]
    rfl
  · show lookupIn withApps ["nodes", "list"] = none
    rw [lookupIn_of_table htable, lookupIn_single, hlist]
    rfl
  · show lookupIn withApps ["nodes", "sources"] = _
    rw [lookupIn_of_table htable, lookupIn_single, hsources]
    rfl
  · obtain ⟨hsub, -⟩ := legacySubscription_ok h.legacy
    change lookupIn mainDoc.members ["subscription", key] = some v at hv
    have hv' := hv
    rw [← hsub, lookupIn_single] at hv'
    obtain ⟨item, hitem, -⟩ := Option.map_eq_some_iff.mp hv'
    exact mem_leftover h.all hitem
  · obtain ⟨move, hm, rfl, rfl, rfl⟩ := (hmoves sect key v).mpr hv
    exact (hplaced.landed move hm).lookup
  · refine hplaced.kept_section sect rest fun move hm hs => ?_
    exact hno _ _ ((hmoves _ _ _).mp ⟨move, hm, hs, rfl, rfl⟩)
  · by_cases hfree : ∀ move ∈ moves, ¬ (move.sect = sect ∧ move.key = key)
    · left
      show lookupIn advancedDoc.members _ = some v
      rw [← hplaced.kept_key sect key [] hfree]
      exact hv
    · right
      push Not at hfree
      obtain ⟨move, hm, rfl, rfl⟩ := hfree
      refine (hmoves _ _ v).mp ⟨move, hm, rfl, rfl, ?_⟩
      exact Option.some.inj ((hplaced.landed move hm).lookup.symm.trans hv)
  · have hmerged := h.merged
    rw [hnone hno] at hmerged
    obtain rfl := Except.ok.inj hmerged
    rfl

end Means

theorem steps_of_prepare (hmain : lib.parse main = .ok mainDoc)
    (hadvanced : advancedDocument lib advanced = .ok advancedDoc) {o : PreparedMigration Bytes}
    (h : prepare lib main advanced l = .ok (some o)) : isLegacy mainDoc.members l = true ∧
      ∃ subscription withNodes withApps moved moves,
        MigrationSteps lib mainDoc advancedDoc subscription withNodes withApps moved moves ∧
          o = printed lib advanced mainDoc advancedDoc withApps moved moves := by
  rw [prepare_of_parse hmain hadvanced] at h
  by_cases hlegacy : isLegacy mainDoc.members l = true
  · rw [if_pos hlegacy] at h
    obtain ⟨o', ho', heq⟩ := map_ok.mp h
    cases heq
    exact ⟨hlegacy, migrate_ok.mp ho'⟩
  · rw [if_neg hlegacy] at h
    cases h

theorem current_of_prepare (hmain : lib.parse main = .ok mainDoc)
    (hadvanced : advancedDocument lib advanced = .ok advancedDoc)
    (h : prepare lib main advanced l = .ok none) : isLegacy mainDoc.members l = false := by
  rw [prepare_of_parse hmain hadvanced] at h
  by_cases hlegacy : isLegacy mainDoc.members l = true
  · rw [if_pos hlegacy] at h
    obtain ⟨o, -, heq⟩ := map_ok.mp h
    cases heq
  · exact Bool.eq_false_iff.mpr hlegacy

/-- Current files have none of the legacy keys. -/
theorem isLegacy_false (h : isLegacy mainDoc.members l = false) :
    mainDoc.value.lookup ["subscription"] = none ∧ mainDoc.value.lookup ["nodes", "list"] = none := by
  obtain ⟨hsub, hlist⟩ := Bool.or_eq_false_iff.mp h
  obtain ⟨-, hsub⟩ := Bool.or_eq_false_iff.mp hsub
  constructor
  · show lookupIn mainDoc.members ["subscription"] = none
    rw [lookupIn_single, Option.map_eq_none_iff]
    exact Option.isNone_iff_eq_none.mp (Option.isSome_eq_false_iff.mp hsub)
  · rw [containsIn_eq] at hlist
    exact Option.isNone_iff_eq_none.mp (Option.isSome_eq_false_iff.mp hlist)

theorem lookup_none_below {v : TomlValue} {key : String} (h : v.lookup [key] = none) (rest : List String) :
    v.lookup (key :: rest) = none := by
  cases v with
  | table members =>
    rw [TomlValue.lookup] at h ⊢
    cases hget : Assoc.get key members with
    | none => rfl
    | some w =>
      rw [hget] at h
      cases h
  | _ => rfl

theorem not_stuck_of_current {a : TomlValue} (h : isLegacy mainDoc.members l = false) :
    ¬ Stuck mainDoc.value a := by
  obtain ⟨hsub, hlist⟩ := isLegacy_false h
  have hnone : ∀ rest v, mainDoc.value.lookup ("subscription" :: rest) ≠ some v := by
    intro rest v hv
    rw [lookup_none_below hsub] at hv
    cases hv
  have hno : ∀ sect key v, ¬ Moved mainDoc.value sect key v := by
    rintro sect key v (⟨-, hv⟩ | ⟨-, hv⟩)
    · exact hnone _ _ hv
    · exact hnone _ _ hv
  intro hstuck
  cases hstuck with
  | misshapen hshape =>
    refine hshape ⟨fun v hv => absurd hv (hnone _ v), fun v hv => absurd hv (hnone _ v),
      fun v hv => absurd hv (hnone _ v), fun v hv => ?_⟩
    rw [hlist] at hv
    cases hv
  | unknown hv => exact hnone _ _ hv
  | occupied hv => exact hno _ _ _ hv
  | both hv => exact hno _ _ _ hv
  | sources hlegacy =>
    rcases hlegacy with hne | hne
    · exact hne hsub
    · exact hne hlist

theorem not_stuck_of_steps {subscription withNodes withApps moved : TomlMembers α} {moves : List (Move α)}
    (h : MigrationSteps lib mainDoc advancedDoc subscription withNodes withApps moved moves)
    (hwf : wfMembers lib.ok mainDoc.members = true) (hadv : wfMembers lib.ok advancedDoc.members = true) :
    ¬ Stuck mainDoc.value advancedDoc.value := by
  have hm := migrated_of_steps h hwf hadv
  intro hstuck
  cases hstuck with
  | misshapen hshape => exact hshape hm.shape
  | unknown hv hkey => exact hkey (hm.known _ _ hv)
  | occupied hv hw hne => exact hne (Option.some.inj ((hm.kept _ _ _ hw).symm.trans (hm.moved _ _ _ hv)))
  | both hv hw hne => exact hne (Option.some.inj ((hm.moved _ _ _ hw).symm.trans (hm.moved _ _ _ hv)))
  | sources hlegacy hw hne => exact hne ((mainSteps h hwf).same _ hw)

/-- The advanced document that is published means what the moves left. -/
theorem advancedValue_printed {subscription withNodes withApps moved : TomlMembers α} {moves : List (Move α)}
    (h : MigrationSteps lib mainDoc advancedDoc subscription withNodes withApps moved moves)
    (hwf : wfMembers lib.ok mainDoc.members = true) (hadv : wfMembers lib.ok advancedDoc.members = true)
    (hadvanced : advancedDocument lib advanced = .ok advancedDoc) :
    advancedValue lib (printed lib advanced mainDoc advancedDoc withApps moved moves).advanced =
      .ok (.table (valueMembers moved)) := by
  cases hmoves : moves with
  | nil =>
    have hmerged := h.merged
    rw [hmoves] at hmerged
    obtain rfl := Except.ok.inj hmerged
    show advancedValue lib advanced = _
    rw [advancedValue, hadvanced]
    rfl
  | cons move rest =>
    obtain ⟨d', hparse, hbare, -⟩ := lib.parse_print ⟨advancedDoc.decor, moved⟩ (placedAll h hwf hadv).wf_placed
    show (parse lib (lib.print ⟨advancedDoc.decor, moved⟩) "advanced.toml").map TomlDocument.value = _
    rw [parse_ok.mpr hparse]
    exact congrArg (fun members => Except.ok (TomlValue.table members)) (valueMembers_of_bare hbare)

/-- **A migration loses and invents nothing.**  What cannot be placed is an error. -/
theorem prepare_migrates (lib : TomlEdit α Bytes) (main : Bytes) (advanced : Option Bytes) (l : Bool) :
    (∀ o, prepare lib main advanced l = .ok (some o) → ∃ m a m' a', mainValue lib main = .ok m ∧
      advancedValue lib advanced = .ok a ∧ mainValue lib o.main = .ok m' ∧
        advancedValue lib o.advanced = .ok a' ∧ Migrated m a m' a') ∧
      ∀ m a, mainValue lib main = .ok m → advancedValue lib advanced = .ok a → Stuck m a →
        ∃ e, prepare lib main advanced l = .error e := by
  constructor
  · intro o h
    obtain ⟨mainDoc, advancedDoc, hmain, hadvanced⟩ := parsed_of_prepare h
    obtain ⟨hmigrate, subscription, withNodes, withApps, moved, moves, hsteps, rfl⟩ :=
      steps_of_prepare hmain hadvanced h
    have hwf := lib.parse_wf hmain
    have hadv := wf_advancedDocument hadvanced
    refine ⟨_, _, _, _, mainValue_ok.mpr ⟨mainDoc, hmain, rfl⟩, by rw [advancedValue, hadvanced]; rfl,
      mainValue_print (mainSteps hsteps hwf).wf_main, ?_, migrated_of_steps hsteps hwf hadv⟩
    exact advancedValue_printed hsteps hwf hadv hadvanced
  · intro m a hm ha hstuck
    obtain ⟨mainDoc, hmain, rfl⟩ := mainValue_ok.mp hm
    obtain ⟨advancedDoc, hadvanced, rfl⟩ := map_ok.mp ha
    cases h : prepare lib main advanced l with
    | error e => exact ⟨e, rfl⟩
    | ok r =>
      exfalso
      cases r with
      | none => exact not_stuck_of_current (current_of_prepare hmain hadvanced h) hstuck
      | some o =>
        obtain ⟨-, subscription, withNodes, withApps, moved, moves, hsteps, -⟩ :=
          steps_of_prepare hmain hadvanced h
        exact not_stuck_of_steps hsteps (lib.parse_wf hmain) (wf_advancedDocument hadvanced) hstuck

end Whole

end Steps

/-! ### A migration -/

/-- Files that are kept as the documents they hold. -/
def parsedFiles : TomlEdit Unit (TomlDocument Unit) where
  plain := ()
  rekey := id
  intoTable := id
  ok _ := true
  parse d := if wfMembers (fun _ => true) d.members then .ok d else .error .invalidToml
  print d := d
  fromStr d := if wfMembers (fun _ => true) d.members then .ok d.value else .error .invalidToml
  size d := d.members.length
  ok_str _ := rfl
  parse_wf := by
    intro bytes d h
    by_cases hwf : wfMembers (fun _ => true) bytes.members = true
    · rw [if_pos hwf] at h
      rwa [← Except.ok.inj h]
    · rw [if_neg hwf] at h
      cases h
  parse_print d hwf := ⟨d, if_pos hwf, rfl, rfl⟩
  fromStr_print d hwf := if_pos hwf

/-- `subscription = { url = "u", interval = 0, refine = { strip_emoji = false } }`, and a list. -/
def legacyMain : TomlDocument Unit :=
  ⟨(), [("apps", .table () [("list", .array () [.scalar () (.str "org.example")])]),
    ("nodes", .inline () [("list", .array () [.scalar () (.str "@nodes.txt")])]),
    ("subscription", .inline () [("url", .scalar () (.str "u")), ("interval", .scalar () (.int 0)),
      ("refine", .inline () [("strip_emoji", .scalar () (.bool false))])])]⟩

def migratedMain : TomlDocument Unit :=
  ⟨(), [("apps", .table () [("list", .array () [.scalar () (.str "org.example")]),
      ("mode", .scalar () (.str "whitelist"))]),
    ("nodes", .table () [("sources", .array () [.scalar () (.str "@nodes.txt"), .scalar () (.str "u")])])]⟩

def migratedAdvanced : TomlDocument Unit :=
  ⟨(), [("nodes", .table () [("fetch", .table () [("interval", .scalar () (.int 0))]),
    ("refine", .table () [("strip_emoji", .scalar () (.bool false))])])]⟩

theorem prepare_legacyMain :
    prepare parsedFiles legacyMain none false = .ok (some ⟨migratedMain, some migratedAdvanced⟩) := by
  rfl

theorem prepare_migrates_legacyMain : ∃ m a m' a', mainValue parsedFiles legacyMain = .ok m ∧
    advancedValue parsedFiles none = .ok a ∧ mainValue parsedFiles migratedMain = .ok m' ∧
      advancedValue parsedFiles (some migratedAdvanced) = .ok a' ∧ Migrated m a m' a' :=
  (prepare_migrates parsedFiles legacyMain none false).1 _ prepare_legacyMain

end FluxRs.Migration
