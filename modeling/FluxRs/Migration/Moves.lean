import FluxRs.Lib.Checked
import FluxRs.Migration.Prepare

/-!
# FluxRs.Migration.Moves — what a prepared migration contains

One lemma for each step of `prepare`, in terms of the values at paths of keys, and what follows for the
two documents as a whole: nothing is lost and nothing is invented.
-/

namespace FluxRs.Migration

open FluxRs.Lib Toml

section Steps

variable {α Bytes : Type} {lib : TomlEdit α Bytes}

/-- The members `ms` are those of the table under `key`, which `ms'` replace. -/
structure InTable (ok : TomlScalar → Bool) (parent : TomlMembers α) (key : String)
    (ms ms' parent' : TomlMembers α) : Prop where
  opened : ∀ k rest, lookupIn parent (key :: k :: rest) = lookupIn ms (k :: rest)
  opened_table : ∀ d inner, Assoc.get key parent = some (.table d inner) → ms = inner
  table : ∃ d, Assoc.get key parent' = some (.table d ms')
  frame : ∀ k, k ≠ key → Assoc.get k parent' = Assoc.get k parent
  wf_opened : wfMembers ok parent = true → wfMembers ok ms = true
  wf_closed : wfMembers ok parent = true → wfMembers ok ms' = true → wfMembers ok parent' = true

namespace InTable

variable {ok : TomlScalar → Bool} {parent ms ms' parent' : TomlMembers α} {key : String}

theorem inside (h : InTable ok parent key ms ms' parent') (path : List String) :
    lookupIn parent' (key :: path) = lookupIn ms' path := by
  obtain ⟨d, hd⟩ := h.table
  exact lookupIn_of_table hd path

theorem outside (h : InTable ok parent key ms ms' parent') {k : String} (hk : k ≠ key)
    (path : List String) : lookupIn parent' (k :: path) = lookupIn parent (k :: path) :=
  lookupIn_congr (h.frame k hk) path

end InTable

theorem inTable_ok {parent parent' : TomlMembers α} {key path : String}
    {f : TomlMembers α → Except String (TomlMembers α)} (h : inTable lib parent key path f = .ok parent') :
    ∃ ms ms', f ms = .ok ms' ∧ InTable lib.ok parent key ms ms' parent' := by
  unfold inTable at h
  cases hget : Assoc.get key parent with
  | none =>
    simp only [hget, Assoc.get_append_self hget] at h
    obtain ⟨ms', hf, rfl⟩ := map_ok.mp h
    refine ⟨[], ms', hf, fun k rest => ?_, fun d inner hd => ?_, ⟨lib.plain, Assoc.get_set_self _ _ _⟩,
      fun k hk => ?_, fun _ => rfl, fun hp hms => wfMembers_set (wfMembers_append hp hget rfl) hms⟩
    · rw [lookupIn_cons, hget]
      rfl
    · rw [hget] at hd
      cases hd
    · rw [Assoc.get_set_ne hk, Assoc.get_append_ne hk]
  | some item =>
    cases item with
    | inline d ms =>
      simp only [hget] at h
      obtain ⟨ms', hf, rfl⟩ := map_ok.mp h
      refine ⟨_, ms', hf, fun k rest => ?_, fun d inner hd => ?_,
        ⟨lib.plain, Assoc.get_append_self (Assoc.get_remove_self _ _) _⟩, fun k hk => ?_,
        fun hp => wfMembers_redecorate _ (Bool.and_eq_true_iff.mp (wf_of_get hp hget)).2,
        fun hp hms => wfMembers_append (wfMembers_remove hp) (Assoc.get_remove_self _ _) hms⟩
      · rw [lookupIn_redecorateMembers, lookupIn_cons, hget]
        rfl
      · rw [hget] at hd
        cases hd
      · rw [Assoc.get_append_ne hk, Assoc.get_remove_ne hk]
    | table d ms =>
      simp only [hget] at h
      obtain ⟨ms', hf, rfl⟩ := map_ok.mp h
      refine ⟨ms, ms', hf, fun k rest => lookupIn_of_table hget _, fun d' inner hd => ?_, ⟨d, Assoc.get_set_self _ _ _⟩,
        fun k hk => Assoc.get_set_ne hk _ _, fun hp => wf_of_get hp hget,
        fun hp hms => wfMembers_set hp hms⟩
      rw [hget] at hd
      cases hd
      rfl
    | _ =>
      simp only [hget] at h
      cases h

/-- A table in place that is left alone stays as it is. -/
theorem inTable_stays {parent ms : TomlMembers α} {key path : String} {d : α}
    (hget : Assoc.get key parent = some (.table d ms)) {f : TomlMembers α → Except String (TomlMembers α)}
    (hf : f ms = .ok ms) : inTable lib parent key path f = .ok parent := by
  simp only [inTable, hget, hf]
  exact congrArg Except.ok (Assoc.set_of_get hget)

/-- What `semantic` returns is the value of the item. -/
theorem semantic_eq {item : Toml α} (hwf : wf lib.ok item = true) : semantic lib item = .ok item.value := by
  have hdoc : wfMembers lib.ok [("value", redecorate lib.rekey item)] = true :=
    wfMembers_cons.mpr ⟨rfl, (wf_redecorate _ _).trans hwf, rfl⟩
  have hval : TomlDocument.value ⟨lib.plain, [("value", redecorate lib.rekey item)]⟩ =
      .table [("value", item.value)] := by
    rw [TomlDocument.value, valueMembers, valueMembers, value_redecorate]
    rfl
  simp only [semantic, lib.fromStr_print ⟨lib.plain, _⟩ hdoc, hval, Assoc.get_cons_self]

section Merge

variable {dest dest' : TomlMembers α} {key path : String} {v e : Toml α}

theorem merge_new (hget : Assoc.get key dest = none) :
    merge lib dest key v path = .ok (dest ++ [(key, redecorate lib.rekey v)]) := by
  rw [merge, hget]
  rfl

theorem merge_present (hget : Assoc.get key dest = some e) (he : wf lib.ok e = true)
    (hv : wf lib.ok v = true) : merge lib dest key v path =
      if e.value.eqv v.value then .ok dest else .error (path ++ ": conflicting explicit values") := by
  rw [merge, hget]
  show (semantic lib e >>= fun left => semantic lib v >>= fun right => _) = _
  rw [semantic_eq he, semantic_eq hv]
  rfl

/-- What a merge leaves: the value under its key, which was there before if anything was. -/
structure Merged (ok : TomlScalar → Bool) (dest : TomlMembers α) (key : String) (v : TomlValue)
    (dest' : TomlMembers α) : Prop where
  placed : (Assoc.get key dest').map value = some v
  frame : ∀ k, k ≠ key → Assoc.get k dest' = Assoc.get k dest
  same : ∀ w, Assoc.get key dest = some w → w.value = v
  wf_merged : wfMembers ok dest' = true

theorem merge_ok (hdest : wfMembers lib.ok dest = true) (hv : wf lib.ok v = true)
    (h : merge lib dest key v path = .ok dest') : Merged lib.ok dest key v.value dest' := by
  cases hget : Assoc.get key dest with
  | none =>
    rw [merge_new hget] at h
    obtain rfl := Except.ok.inj h
    refine ⟨?_, fun k hk => Assoc.get_append_ne hk _ _, fun w hw => ?_,
      wfMembers_append hdest hget ((wf_redecorate _ _).trans hv)⟩
    · rw [Assoc.get_append_self hget, Option.map_some, value_redecorate]
    · rw [hget] at hw
      cases hw
  | some e =>
    rw [merge_present hget (wf_of_get hdest hget) hv] at h
    by_cases heqv : e.value.eqv v.value = true
    · rw [if_pos heqv] at h
      obtain rfl := Except.ok.inj h
      have hval := TomlValue.eq_of_eqv heqv
      refine ⟨by rw [hget, Option.map_some, hval], fun _ _ => rfl, fun w hw => ?_, hdest⟩
      rw [hget] at hw
      rwa [← Option.some.inj hw]
    · rw [if_neg heqv] at h
      cases h

/-- An equal value in place stops the merge. -/
theorem merge_stays (hget : Assoc.get key dest = some e) (he : wf lib.ok e = true)
    (hv : wf lib.ok v = true) (heqv : e.value.eqv v.value = true) :
    merge lib dest key v path = .ok dest := by
  rw [merge_present hget he hv, if_pos heqv]

end Merge

/-! ### The advanced document -/

section Moved

variable {advanced advanced' : TomlMembers α} {move : Move α}

/-- What one move finds and what it leaves. -/
theorem mergeMove_ok (hadv : wfMembers lib.ok advanced = true) (hmove : wf lib.ok move.value = true)
    (h : mergeMove lib advanced move = .ok advanced') : ∃ nodes nodes' dest dest',
      InTable lib.ok advanced "nodes" nodes nodes' advanced' ∧
        InTable lib.ok nodes move.sect dest dest' nodes' ∧
          Merged lib.ok dest move.key move.value.value dest' := by
  obtain ⟨nodes, nodes', hnodes, hin⟩ := inTable_ok h
  obtain ⟨dest, dest', hdest, hin'⟩ := inTable_ok hnodes
  have hmerged := merge_ok (hin'.wf_opened (hin.wf_opened hadv)) hmove hdest
  exact ⟨nodes, nodes', dest, dest', hin, hin', hmerged⟩

/-- The move has its value in place, and a table is a table. -/
def Landed (advanced : TomlMembers α) (move : Move α) : Prop :=
  ∃ d nodes d' dest e, Assoc.get "nodes" advanced = some (.table d nodes) ∧
    Assoc.get move.sect nodes = some (.table d' dest) ∧ Assoc.get move.key dest = some e ∧
      e.value = move.value.value

theorem Landed.lookup (h : Landed advanced move) :
    lookupIn advanced ["nodes", move.sect, move.key] = some move.value.value := by
  obtain ⟨d, nodes, d', dest, e, hnodes, hdest, he, hval⟩ := h
  rw [lookupIn_of_table hnodes, lookupIn_of_table hdest, lookupIn_single, he, Option.map_some, hval]

/-- What one move leaves, in terms of values. -/
structure Placed (ok : TomlScalar → Bool) (advanced : TomlMembers α) (move : Move α)
    (advanced' : TomlMembers α) : Prop where
  landed : Landed advanced' move
  same : ∀ w, lookupIn advanced ["nodes", move.sect, move.key] = some w → w = move.value.value
  kept_key : ∀ key rest, key ≠ move.key → lookupIn advanced' ("nodes" :: move.sect :: key :: rest) =
    lookupIn advanced ("nodes" :: move.sect :: key :: rest)
  kept_section : ∀ sect rest, sect ≠ move.sect → lookupIn advanced' ("nodes" :: sect :: rest) =
    lookupIn advanced ("nodes" :: sect :: rest)
  kept_top : ∀ key rest, key ≠ "nodes" → lookupIn advanced' (key :: rest) = lookupIn advanced (key :: rest)
  landed_stays : ∀ other, Landed advanced other → Landed advanced' other
  wf_placed : wfMembers ok advanced' = true

theorem mergeMove_placed (hadv : wfMembers lib.ok advanced = true) (hmove : wf lib.ok move.value = true)
    (h : mergeMove lib advanced move = .ok advanced') : Placed lib.ok advanced move advanced' := by
  obtain ⟨nodes, nodes', dest, dest', hin, hin', hm⟩ := mergeMove_ok hadv hmove h
  obtain ⟨d, hd⟩ := hin.table
  obtain ⟨d', hd'⟩ := hin'.table
  refine ⟨?_, fun w hw => ?_, fun key rest hk => ?_, fun sect rest hs => ?_,
    fun key rest hk => hin.outside hk rest, fun other hother => ?_,
    hin.wf_closed hadv (hin'.wf_closed (hin.wf_opened hadv) hm.wf_merged)⟩
  · obtain ⟨e, he, hval⟩ := Option.map_eq_some_iff.mp hm.placed
    exact ⟨d, nodes', d', dest', e, hd, hd', he, hval⟩
  · rw [hin.opened, hin'.opened, lookupIn_single] at hw
    obtain ⟨e, he, rfl⟩ := Option.map_eq_some_iff.mp hw
    exact hm.same e he
  · rw [hin.inside, hin'.inside, hin.opened, hin'.opened]
    exact lookupIn_congr (hm.frame key hk) rest
  · rw [hin.inside, hin'.outside hs, hin.opened]
  · obtain ⟨d₁, nodes₁, d₂, dest₂, e, hnodes, hdest, he, hval⟩ := hother
    obtain rfl := hin.opened_table d₁ nodes₁ hnodes
    by_cases hs : other.sect = move.sect
    · rw [hs] at hdest
      obtain rfl := hin'.opened_table d₂ dest₂ hdest
      by_cases hk : other.key = move.key
      · rw [hk] at he
        obtain ⟨e', he', hval'⟩ := Option.map_eq_some_iff.mp hm.placed
        have hsame := hm.same e he
        exact ⟨d, nodes', d', dest', e', hd, by rw [hs, hd'], by rw [hk, he'],
          by rw [hval', ← hsame, hval]⟩
      · exact ⟨d, nodes', d', dest', e, hd, by rw [hs, hd'], by rw [hm.frame _ hk, he], hval⟩
    · exact ⟨d, nodes', d₂, dest₂, e, hd, by rw [hin'.frame _ hs, hdest], he, hval⟩

/-- What a run of moves leaves. -/
structure PlacedAll (ok : TomlScalar → Bool) (advanced : TomlMembers α) (moves : List (Move α))
    (advanced' : TomlMembers α) : Prop where
  landed : ∀ move ∈ moves, Landed advanced' move
  kept : ∀ sect key w, lookupIn advanced ["nodes", sect, key] = some w →
    lookupIn advanced' ["nodes", sect, key] = some w
  kept_key : ∀ sect key rest, (∀ move ∈ moves, ¬ (move.sect = sect ∧ move.key = key)) →
    lookupIn advanced' ("nodes" :: sect :: key :: rest) = lookupIn advanced ("nodes" :: sect :: key :: rest)
  kept_section : ∀ sect rest, (∀ move ∈ moves, move.sect ≠ sect) →
    lookupIn advanced' ("nodes" :: sect :: rest) = lookupIn advanced ("nodes" :: sect :: rest)
  kept_top : ∀ key rest, key ≠ "nodes" → lookupIn advanced' (key :: rest) = lookupIn advanced (key :: rest)
  landed_stays : ∀ other, Landed advanced other → Landed advanced' other
  wf_placed : wfMembers ok advanced' = true

theorem mergeMoves_placed {moves : List (Move α)} (hmoves : ∀ move ∈ moves, wf lib.ok move.value = true) :
    ∀ {advanced : TomlMembers α}, wfMembers lib.ok advanced = true →
      mergeMoves lib moves advanced = .ok advanced' → PlacedAll lib.ok advanced moves advanced' := by
  induction moves with
  | nil =>
    intro advanced hadv h
    obtain rfl := Except.ok.inj h
    exact ⟨fun move hm => absurd hm List.not_mem_nil, fun _ _ _ hw => hw, fun _ _ _ _ => rfl,
      fun _ _ _ => rfl, fun _ _ _ => rfl, fun _ ho => ho, hadv⟩
  | cons move rest ih =>
    intro advanced hadv h
    obtain ⟨mid, hmid, hrest⟩ := bind_ok.mp h
    have hp := mergeMove_placed hadv (hmoves move List.mem_cons_self) hmid
    have hr := ih (fun m hm => hmoves m (List.mem_cons_of_mem _ hm)) hp.wf_placed hrest
    refine ⟨fun m hm => ?_, fun sect key w hw => ?_, fun sect key path hfree => ?_,
      fun sect path hfree => ?_, fun key path hk => ?_, fun other ho => ?_, hr.wf_placed⟩
    · rcases List.mem_cons.mp hm with rfl | hm
      · exact hr.landed_stays _ hp.landed
      · exact hr.landed m hm
    · refine hr.kept sect key w ?_
      by_cases hs : sect = move.sect
      · subst hs
        by_cases hk : key = move.key
        · subst hk
          rw [hp.same w hw]
          exact hp.landed.lookup
        · rw [hp.kept_key key [] hk, hw]
      · rw [hp.kept_section sect [key] hs, hw]
    · rw [hr.kept_key sect key path fun m hm => hfree m (List.mem_cons_of_mem _ hm)]
      by_cases hs : sect = move.sect
      · subst hs
        exact hp.kept_key key path fun hk => hfree move List.mem_cons_self ⟨rfl, hk.symm⟩
      · exact hp.kept_section sect (key :: path) hs
    · rw [hr.kept_section sect path fun m hm => hfree m (List.mem_cons_of_mem _ hm)]
      exact hp.kept_section sect path fun hs => hfree move List.mem_cons_self hs.symm
    · rw [hr.kept_top key path hk, hp.kept_top key path hk]
    · exact hr.landed_stays other (hp.landed_stays other ho)

theorem mergeMoves_append {moves moves' : List (Move α)} (advanced : TomlMembers α) :
    mergeMoves lib (moves ++ moves') advanced =
      mergeMoves lib moves advanced >>= mergeMoves lib moves' := by
  induction moves generalizing advanced with
  | nil => rfl
  | cons move rest ih =>
    show (mergeMove lib advanced move >>= _) = (mergeMove lib advanced move >>= _) >>= _
    cases mergeMove lib advanced move with
    | error e => rfl
    | ok mid => exact ih mid

end Moved

end Steps

end FluxRs.Migration
