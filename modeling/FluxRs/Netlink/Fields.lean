import FluxRs.Netlink.Dumped

/-!
# FluxRs.Netlink.Fields — what an unmarked record says of its message

For each reader of `FluxRs.Netlink.Dumped`: what one attribute does, spelled once, and from it which attributes a
message has whose record ends unmarked.
-/

namespace FluxRs.Netlink

open FluxRs.Lib Checked

variable {e : Endian} {attr : Attr}

/-! ### Values and bodies -/

theorem ofWord_injective {value value' : U32} (h : e.ofWord value = e.ofWord value') : value = value' := by
  have hword := congrArg (e.word 32) h
  rwa [e.word32_ofWord, e.word32_ofWord] at hword

theorem cstrBytes_injective {text text' : String} (h : cstrBytes text = cstrBytes text') : text = text' :=
  String.toList_injective (utf8_injective (List.append_cancel_right h))

theorem some_ofWord_eq {value x : U32} : some (e.ofWord value) = some (e.ofWord x) ↔ value = x := by
  rw [Option.some_inj]
  exact ⟨ofWord_injective, fun h => by rw [h]⟩

theorem map_ofWord_eq {value : Option U32} {x : U32} : value.map e.ofWord = some (e.ofWord x) ↔ value = some x :=
  (Option.map_injective fun _ _ => ofWord_injective).eq_iff (b := some x)

theorem map_cstr_eq {value : Option String} {x : String} : value.map cstrBytes = some (cstrBytes x) ↔ value = some x :=
  (Option.map_injective fun _ _ => cstrBytes_injective).eq_iff (b := some x)

theorem map_byte_eq {value : Option U8} {x : U8} : (value.map fun value => [value]) = some [x] ↔ value = some x :=
  (Option.map_injective fun _ _ => List.singleton_injective.eq_iff.mp).eq_iff (b := some x)

section Values

variable {σ : Type} {t : σ}

theorem mapU32_ok {f : U32 → σ} : (attrU32 e attr).map f = .ok t ↔ ∃ value, attr.payload = e.ofWord value ∧ f value = t := by
  simp only [map_ok, attrU32_ok]

theorem mapCstr_ok {f : String → σ} : (attrCstr attr).map f = .ok t ↔
    ∃ value, (attr.payload = cstrBytes value ∧ 0 ∉ utf8 value.toList) ∧ f value = t := by
  simp only [map_ok, attrCstr_ok]

theorem mapByte_ok {error : String} {f : U8 → σ} : (attrByte error attr).map f = .ok t ↔
    ∃ value, attr.payload = [value] ∧ f value = t := by
  simp only [map_ok, attrByte_ok]

theorem kind_ne {kind kind' k : U16} (h : k = kind') (hk : k ≠ kind) : ¬ kind = kind' := fun heq =>
  hk (h.trans heq.symm)

end Values

section Body

variable {σ : Type} {read : Attr → σ → Checked IoError σ} {duplicate : σ → σ} {size : ℕ} {payload : List U8} {s t : σ}

theorem readBody_ok : (readStruct size payload >>= fun _ => readBody e read duplicate size payload s) = .ok t ↔
    size ≤ payload.length ∧ ∃ out, attrs e (payload.drop size) = .ok out ∧
      foldKeyed Attr.kind read duplicate [] s out = .ok t := by
  unfold readStruct readBody
  constructor
  · intro h
    obtain ⟨u, hstruct, h⟩ := bind_ok.mp h
    split at hstruct
    · cases hstruct
    · rename_i hsize
      have hle := Nat.not_lt.mp hsize
      rw [slice_eq hle (Nat.le_refl _), List.take_length] at h
      exact ⟨hle, bind_ok.mp h⟩
  · rintro ⟨hle, hbody⟩
    rw [if_neg (Nat.not_lt.mpr hle), slice_eq hle (Nat.le_refl _), List.take_length]
    exact bind_ok.mpr ⟨(), rfl, bind_ok.mpr ⟨_, rfl, bind_ok.mpr hbody⟩⟩

end Body

/-! ### Rules -/

section Rules

def RULE_KINDS : List U16 := [FRA_TABLE, FRA_PRIORITY, FRA_IIFNAME, FRA_SUPPRESS_PREFIXLEN, FRA_PROTOCOL]

/-- The attribute of a kind that says what the rule says. -/
def ruleField (e : Endian) (kind : U16) (rule : Rule) : Option (List U8) :=
  if kind = FRA_TABLE then some (e.ofWord rule.table)
  else if kind = FRA_PRIORITY then rule.priority.map e.ofWord
  else if kind = FRA_IIFNAME then rule.iifName.map cstrBytes
  else if kind = FRA_SUPPRESS_PREFIXLEN then rule.suppressPrefixLen.map e.ofWord
  else if kind = FRA_PROTOCOL then rule.protocol.map fun value => [value]
  else none

/-- An attribute that the reader knows and can read. -/
def RuleKnown (e : Endian) (attr : Attr) : Prop :=
  (attr.kind ∈ [FRA_TABLE, FRA_PRIORITY, FRA_SUPPRESS_PREFIXLEN] ∧ ∃ value : U32, attr.payload = e.ofWord value) ∨
    (attr.kind = FRA_IIFNAME ∧ ∃ text : String, attr.payload = cstrBytes text ∧ 0 ∉ utf8 text.toList) ∨
    (attr.kind = FRA_PROTOCOL ∧ ∃ value, attr.payload = [value])

variable {rule t : Rule}

theorem ruleAttr_ok : ruleAttr e attr rule = .ok t ↔
    (attr.kind = FRA_TABLE ∧ ∃ value, attr.payload = e.ofWord value ∧ { rule with table := value } = t) ∨
    (attr.kind = FRA_PRIORITY ∧ ∃ value, attr.payload = e.ofWord value ∧ { rule with priority := some value } = t) ∨
    (attr.kind = FRA_IIFNAME ∧ ∃ value, (attr.payload = cstrBytes value ∧ 0 ∉ utf8 value.toList) ∧
      { rule with iifName := some value } = t) ∨
    (attr.kind = FRA_SUPPRESS_PREFIXLEN ∧ ∃ value, attr.payload = e.ofWord value ∧
      { rule with suppressPrefixLen := some value } = t) ∨
    (attr.kind = FRA_PROTOCOL ∧ ∃ value, attr.payload = [value] ∧ { rule with protocol := some value } = t) ∨
    (attr.kind ∉ RULE_KINDS ∧ rule.extra = t) := by
  constructor
  · intro h
    unfold ruleAttr at h
    by_cases htable : attr.kind = FRA_TABLE
    · rw [if_pos htable] at h
      exact Or.inl ⟨htable, mapU32_ok.mp h⟩
    by_cases hpriority : attr.kind = FRA_PRIORITY
    · rw [if_neg htable, if_pos hpriority] at h
      exact Or.inr (Or.inl ⟨hpriority, mapU32_ok.mp h⟩)
    by_cases hname : attr.kind = FRA_IIFNAME
    · rw [if_neg htable, if_neg hpriority, if_pos hname] at h
      exact Or.inr (Or.inr (Or.inl ⟨hname, mapCstr_ok.mp h⟩))
    by_cases hlen : attr.kind = FRA_SUPPRESS_PREFIXLEN
    · rw [if_neg htable, if_neg hpriority, if_neg hname, if_pos hlen] at h
      exact Or.inr (Or.inr (Or.inr (Or.inl ⟨hlen, mapU32_ok.mp h⟩)))
    rw [if_neg htable, if_neg hpriority, if_neg hname, if_neg hlen] at h
    by_cases hprotocol : attr.kind = FRA_PROTOCOL
    · rw [if_pos hprotocol] at h
      exact Or.inr (Or.inr (Or.inr (Or.inr (Or.inl ⟨hprotocol, mapByte_ok.mp h⟩))))
    · rw [if_neg hprotocol] at h
      refine Or.inr (Or.inr (Or.inr (Or.inr (Or.inr ⟨?_, Except.ok.inj h⟩))))
      simp only [RULE_KINDS, List.mem_cons, List.not_mem_nil, not_or]
      exact ⟨htable, hpriority, hname, hlen, hprotocol, not_false⟩
  · -- a kind that is given decides every test before its own
    rintro (⟨h', h⟩ | ⟨h', h⟩ | ⟨h', h⟩ | ⟨h', h⟩ | ⟨h', h⟩ | ⟨h', rfl⟩)
    · rw [ruleAttr, h']
      exact mapU32_ok.mpr h
    · rw [ruleAttr, h']
      exact mapU32_ok.mpr h
    · rw [ruleAttr, h']
      exact mapCstr_ok.mpr h
    · rw [ruleAttr, h']
      exact mapU32_ok.mpr h
    · rw [ruleAttr, h']
      exact mapByte_ok.mpr h
    · simp only [RULE_KINDS, List.mem_cons, List.not_mem_nil, not_or] at h'
      obtain ⟨htable, hpriority, hname, hlen, hprotocol, -⟩ := h'
      rw [ruleAttr, if_neg htable, if_neg hpriority, if_neg hname, if_neg hlen, if_neg hprotocol]

theorem rule_field (kind : U16) : FieldOf Attr.kind (ruleAttr e) Rule.extra kind (ruleField e kind)
    fun attr _ value => attr.kind ∈ RULE_KINDS → value = some attr.payload where
  duplicate _ := rfl
  own attr rule t hk h hkind := by
    subst hk
    rcases ruleAttr_ok.mp h with ⟨h', value, hv, rfl⟩ | ⟨h', value, hv, rfl⟩ | ⟨h', value, hv, rfl⟩ |
      ⟨h', value, hv, rfl⟩ | ⟨h', value, hv, rfl⟩ | ⟨h', rfl⟩
    · rw [h', hv]
      rfl
    · rw [h', hv]
      rfl
    · rw [h', hv.1]
      rfl
    · rw [h', hv]
      rfl
    · rw [h', hv]
      rfl
    · exact absurd hkind h'
  other attr rule t hk h := by
    rcases ruleAttr_ok.mp h with ⟨h', value, -, rfl⟩ | ⟨h', value, -, rfl⟩ | ⟨h', value, -, rfl⟩ |
      ⟨h', value, -, rfl⟩ | ⟨h', value, -, rfl⟩ | ⟨-, rfl⟩
    · simp only [ruleField, if_neg (kind_ne h' hk)]
    · simp only [ruleField, if_neg (kind_ne h' hk)]
    · simp only [ruleField, if_neg (kind_ne h' hk)]
    · simp only [ruleField, if_neg (kind_ne h' hk)]
    · simp only [ruleField, if_neg (kind_ne h' hk)]
    · rfl

theorem rule_marking : Marking (ruleAttr e) Rule.extra (fun rule => rule.extraAttrs = false) (RuleKnown e) where
  duplicate rule := Bool.noConfusion
  back attr rule t h hclean := by
    rcases ruleAttr_ok.mp h with ⟨h', value, hv, rfl⟩ | ⟨h', value, hv, rfl⟩ | ⟨h', value, hv, rfl⟩ |
      ⟨h', value, hv, rfl⟩ | ⟨h', value, hv, rfl⟩ | ⟨h', rfl⟩
    · exact ⟨hclean, Or.inl ⟨by rw [h']; decide, value, hv⟩⟩
    · exact ⟨hclean, Or.inl ⟨by rw [h']; decide, value, hv⟩⟩
    · exact ⟨hclean, Or.inr (Or.inl ⟨h', value, hv⟩)⟩
    · exact ⟨hclean, Or.inl ⟨by rw [h']; decide, value, hv⟩⟩
    · exact ⟨hclean, Or.inr (Or.inr ⟨h', value, hv⟩)⟩
    · cases hclean
  forth attr rule hknown hclean := by
    rcases hknown with ⟨h', value, hv⟩ | ⟨h', text, hv⟩ | ⟨h', value, hv⟩
    · simp only [List.mem_cons, List.not_mem_nil, or_false] at h'
      rcases h' with h' | h' | h'
      · exact ⟨_, ruleAttr_ok.mpr (Or.inl ⟨h', value, hv, rfl⟩), hclean⟩
      · exact ⟨_, ruleAttr_ok.mpr (Or.inr (Or.inl ⟨h', value, hv, rfl⟩)), hclean⟩
      · exact ⟨_, ruleAttr_ok.mpr (Or.inr (Or.inr (Or.inr (Or.inl ⟨h', value, hv, rfl⟩)))), hclean⟩
    · exact ⟨_, ruleAttr_ok.mpr (Or.inr (Or.inr (Or.inl ⟨h', text, hv, rfl⟩))), hclean⟩
    · exact ⟨_, ruleAttr_ok.mpr (Or.inr (Or.inr (Or.inr (Or.inr (Or.inl ⟨h', value, hv, rfl⟩))))), hclean⟩

theorem RuleKnown.kind (h : RuleKnown e attr) : attr.kind ∈ RULE_KINDS := by
  rcases h with ⟨h', -⟩ | ⟨h', -⟩ | ⟨h', -⟩
  · simp only [List.mem_cons, List.not_mem_nil, or_false] at h'
    rcases h' with h' | h' | h' <;> rw [h'] <;> decide
  · rw [h']
    decide
  · rw [h']
    decide

end Rules

/-! ### Routes -/

section Routes

/-- The kinds whose value is kept. -/
def ROUTE_KINDS : List U16 := [RTA_TABLE, RTA_OIF, RTA_PRIORITY, RTA_PREF]

def routeField (e : Endian) (kind : U16) (route : Route) : Option (List U8) :=
  if kind = RTA_TABLE then some (e.ofWord route.table)
  else if kind = RTA_OIF then route.oif.map e.ofWord
  else if kind = RTA_PRIORITY then route.metric.map e.ofWord
  else if kind = RTA_PREF then route.preference.map fun value => [value]
  else none

def RouteKnown (e : Endian) (attr : Attr) : Prop :=
  (attr.kind ∈ [RTA_TABLE, RTA_OIF, RTA_PRIORITY] ∧ ∃ value : U32, attr.payload = e.ofWord value) ∨
    (attr.kind = RTA_PREF ∧ ∃ value, attr.payload = [value]) ∨ attr.kind = RTA_DST ∨
    (attr.kind = RTA_CACHEINFO ∧ attr.payload.length = 32)

variable {route t : Route}

theorem routeAttr_ok : routeAttr e attr route = .ok t ↔
    (attr.kind = RTA_TABLE ∧ ∃ value, attr.payload = e.ofWord value ∧ { route with table := value } = t) ∨
    (attr.kind = RTA_OIF ∧ ∃ value, attr.payload = e.ofWord value ∧ { route with oif := some value } = t) ∨
    (attr.kind = RTA_PRIORITY ∧ ∃ value, attr.payload = e.ofWord value ∧ { route with metric := some value } = t) ∨
    (attr.kind = RTA_PREF ∧ ∃ value, attr.payload = [value] ∧ { route with preference := some value } = t) ∨
    (attr.kind = RTA_DST ∧ { route with hasDst := true } = t) ∨
    ((attr.kind = RTA_CACHEINFO ∧ attr.payload.length = 32) ∧ route = t) ∨
    (attr.kind ∉ RTA_DST :: ROUTE_KINDS ∧ ¬ (attr.kind = RTA_CACHEINFO ∧ attr.payload.length = 32) ∧ route.extra = t) := by
  constructor
  · intro h
    unfold routeAttr at h
    by_cases htable : attr.kind = RTA_TABLE
    · rw [if_pos htable] at h
      exact Or.inl ⟨htable, mapU32_ok.mp h⟩
    by_cases hoif : attr.kind = RTA_OIF
    · rw [if_neg htable, if_pos hoif] at h
      exact Or.inr (Or.inl ⟨hoif, mapU32_ok.mp h⟩)
    by_cases hdst : attr.kind = RTA_DST
    · rw [if_neg htable, if_neg hoif, if_pos hdst] at h
      exact Or.inr (Or.inr (Or.inr (Or.inr (Or.inl ⟨hdst, Except.ok.inj h⟩))))
    rw [if_neg htable, if_neg hoif, if_neg hdst] at h
    by_cases hpriority : attr.kind = RTA_PRIORITY
    · rw [if_pos hpriority] at h
      exact Or.inr (Or.inr (Or.inl ⟨hpriority, mapU32_ok.mp h⟩))
    by_cases hcache : attr.kind = RTA_CACHEINFO ∧ attr.payload.length = 32
    · rw [if_neg hpriority, if_pos hcache] at h
      exact Or.inr (Or.inr (Or.inr (Or.inr (Or.inr (Or.inl ⟨hcache, Except.ok.inj h⟩)))))
    rw [if_neg hpriority, if_neg hcache] at h
    by_cases hpref : attr.kind = RTA_PREF
    · rw [if_pos hpref] at h
      exact Or.inr (Or.inr (Or.inr (Or.inl ⟨hpref, mapByte_ok.mp h⟩)))
    · rw [if_neg hpref] at h
      refine Or.inr (Or.inr (Or.inr (Or.inr (Or.inr (Or.inr ⟨?_, hcache, Except.ok.inj h⟩)))))
      simp only [ROUTE_KINDS, List.mem_cons, List.not_mem_nil, not_or]
      exact ⟨hdst, htable, hoif, hpriority, hpref, not_false⟩
  · rintro (⟨h', h⟩ | ⟨h', h⟩ | ⟨h', h⟩ | ⟨h', h⟩ | ⟨h', rfl⟩ | ⟨h', rfl⟩ | ⟨h', hcache, rfl⟩)
    · rw [routeAttr, h']
      exact mapU32_ok.mpr h
    · rw [routeAttr, h']
      exact mapU32_ok.mpr h
    · rw [routeAttr, h']
      exact mapU32_ok.mpr h
    · rw [routeAttr, h', if_neg fun hcache : RTA_PREF = RTA_CACHEINFO ∧ _ => absurd hcache.1 (by decide)]
      exact mapByte_ok.mpr h
    · rw [routeAttr, h']
      rfl
    · rw [routeAttr, if_pos h', h'.1]
      rfl
    · simp only [ROUTE_KINDS, List.mem_cons, List.not_mem_nil, not_or] at h'
      obtain ⟨hdst, htable, hoif, hpriority, hpref, -⟩ := h'
      rw [routeAttr, if_neg htable, if_neg hoif, if_neg hdst, if_neg hpriority, if_neg hcache, if_neg hpref]

theorem route_field (kind : U16) : FieldOf Attr.kind (routeAttr e) Route.extra kind (routeField e kind)
    fun attr _ value => attr.kind ∈ ROUTE_KINDS → value = some attr.payload where
  duplicate _ := rfl
  own attr route t hk h hkind := by
    subst hk
    rcases routeAttr_ok.mp h with ⟨h', value, hv, rfl⟩ | ⟨h', value, hv, rfl⟩ | ⟨h', value, hv, rfl⟩ |
      ⟨h', value, hv, rfl⟩ | ⟨h', rfl⟩ | ⟨⟨h', -⟩, rfl⟩ | ⟨h', -, rfl⟩
    · rw [h', hv]
      rfl
    · rw [h', hv]
      rfl
    · rw [h', hv]
      rfl
    · rw [h', hv]
      rfl
    · rw [h'] at hkind
      exact absurd hkind (by decide)
    · rw [h'] at hkind
      exact absurd hkind (by decide)
    · exact absurd (List.mem_cons_of_mem _ hkind) h'
  other attr route t hk h := by
    rcases routeAttr_ok.mp h with ⟨h', value, -, rfl⟩ | ⟨h', value, -, rfl⟩ | ⟨h', value, -, rfl⟩ |
      ⟨h', value, -, rfl⟩ | ⟨-, rfl⟩ | ⟨-, rfl⟩ | ⟨-, -, rfl⟩
    · simp only [routeField, if_neg (kind_ne h' hk)]
    · simp only [routeField, if_neg (kind_ne h' hk)]
    · simp only [routeField, if_neg (kind_ne h' hk)]
    · simp only [routeField, if_neg (kind_ne h' hk)]
    · rfl
    · rfl
    · rfl

theorem route_dst : FieldOf Attr.kind (routeAttr e) Route.extra RTA_DST Route.hasDst fun _ _ value => value = true where
  duplicate _ := rfl
  own attr route t hk h := by
    rcases routeAttr_ok.mp h with ⟨h', -⟩ | ⟨h', -⟩ | ⟨h', -⟩ | ⟨h', -⟩ | ⟨-, rfl⟩ | ⟨⟨h', -⟩, -⟩ | ⟨h', -⟩
    · exact absurd (hk.symm.trans h') (by decide)
    · exact absurd (hk.symm.trans h') (by decide)
    · exact absurd (hk.symm.trans h') (by decide)
    · exact absurd (hk.symm.trans h') (by decide)
    · rfl
    · exact absurd (hk.symm.trans h') (by decide)
    · exact absurd (hk ▸ List.mem_cons_self) h'
  other attr route t hk h := by
    rcases routeAttr_ok.mp h with ⟨-, value, -, rfl⟩ | ⟨-, value, -, rfl⟩ | ⟨-, value, -, rfl⟩ | ⟨-, value, -, rfl⟩ |
      ⟨h', -⟩ | ⟨-, rfl⟩ | ⟨-, -, rfl⟩
    all_goals first | rfl | exact absurd h' hk

theorem route_marking : Marking (routeAttr e) Route.extra (fun route => route.extraAttrs = false) (RouteKnown e) where
  duplicate route := Bool.noConfusion
  back attr route t h hclean := by
    rcases routeAttr_ok.mp h with ⟨h', value, hv, rfl⟩ | ⟨h', value, hv, rfl⟩ | ⟨h', value, hv, rfl⟩ |
      ⟨h', value, hv, rfl⟩ | ⟨h', rfl⟩ | ⟨h', rfl⟩ | ⟨-, -, rfl⟩
    · exact ⟨hclean, Or.inl ⟨by rw [h']; decide, value, hv⟩⟩
    · exact ⟨hclean, Or.inl ⟨by rw [h']; decide, value, hv⟩⟩
    · exact ⟨hclean, Or.inl ⟨by rw [h']; decide, value, hv⟩⟩
    · exact ⟨hclean, Or.inr (Or.inl ⟨h', value, hv⟩)⟩
    · exact ⟨hclean, Or.inr (Or.inr (Or.inl h'))⟩
    · exact ⟨hclean, Or.inr (Or.inr (Or.inr h'))⟩
    · cases hclean
  forth attr route hknown hclean := by
    rcases hknown with ⟨h', value, hv⟩ | ⟨h', value, hv⟩ | h' | h'
    · simp only [List.mem_cons, List.not_mem_nil, or_false] at h'
      rcases h' with h' | h' | h'
      · exact ⟨_, routeAttr_ok.mpr (Or.inl ⟨h', value, hv, rfl⟩), hclean⟩
      · exact ⟨_, routeAttr_ok.mpr (Or.inr (Or.inl ⟨h', value, hv, rfl⟩)), hclean⟩
      · exact ⟨_, routeAttr_ok.mpr (Or.inr (Or.inr (Or.inl ⟨h', value, hv, rfl⟩))), hclean⟩
    · exact ⟨_, routeAttr_ok.mpr (Or.inr (Or.inr (Or.inr (Or.inl ⟨h', value, hv, rfl⟩)))), hclean⟩
    · exact ⟨_, routeAttr_ok.mpr (Or.inr (Or.inr (Or.inr (Or.inr (Or.inl ⟨h', rfl⟩))))), hclean⟩
    · exact ⟨_, routeAttr_ok.mpr (Or.inr (Or.inr (Or.inr (Or.inr (Or.inr (Or.inl ⟨h', rfl⟩)))))), hclean⟩

end Routes

/-! ### Filters -/

section Filters

def OPTION_KINDS : List U16 := [TCA_BPF_FLAGS, TCA_BPF_FLAGS_GEN, TCA_BPF_TAG, TCA_BPF_ID, TCA_BPF_NAME]

def optionField (e : Endian) (kind : U16) (filter : Filter) : Option (List U8) :=
  if kind = TCA_BPF_FLAGS then filter.bpfFlags.map e.ofWord
  else if kind = TCA_BPF_FLAGS_GEN then filter.flagsGen.map e.ofWord
  else if kind = TCA_BPF_TAG then filter.progTag
  else if kind = TCA_BPF_ID then filter.progId.map e.ofWord
  else if kind = TCA_BPF_NAME then filter.progName.map cstrBytes
  else none

def OptionKnown (e : Endian) (attr : Attr) : Prop :=
  (attr.kind ∈ [TCA_BPF_FLAGS, TCA_BPF_FLAGS_GEN, TCA_BPF_ID] ∧ ∃ value : U32, attr.payload = e.ofWord value) ∨
    (attr.kind = TCA_BPF_TAG ∧ attr.payload.length = 8) ∨
    (attr.kind = TCA_BPF_NAME ∧ ∃ text : String, attr.payload = cstrBytes text ∧ 0 ∉ utf8 text.toList)

def Filter.Clean (filter : Filter) : Prop := filter.unknownAttrs = false ∧ filter.duplicateAttrs = false

variable {filter t : Filter}

theorem optionAttr_ok : optionAttr e attr filter = .ok t ↔
    (attr.kind = TCA_BPF_FLAGS ∧ ∃ flags, attr.payload = e.ofWord flags ∧
      { filter with directAction := flags &&& TCA_BPF_FLAG_ACT_DIRECT != 0, bpfFlags := some flags } = t) ∨
    (attr.kind = TCA_BPF_FLAGS_GEN ∧ ∃ value, attr.payload = e.ofWord value ∧
      { filter with flagsGen := some value } = t) ∨
    ((attr.kind = TCA_BPF_TAG ∧ attr.payload.length = 8) ∧ { filter with progTag := some attr.payload } = t) ∨
    (attr.kind = TCA_BPF_ID ∧ ∃ value, attr.payload = e.ofWord value ∧ { filter with progId := some value } = t) ∨
    (attr.kind = TCA_BPF_NAME ∧ ∃ value, (attr.payload = cstrBytes value ∧ 0 ∉ utf8 value.toList) ∧
      { filter with progName := some value } = t) ∨
    ((attr.kind = TCA_BPF_TAG ∧ attr.payload.length ≠ 8 ∨ attr.kind ∉ OPTION_KINDS) ∧ filter.unknown = t) := by
  constructor
  · intro h
    unfold optionAttr at h
    by_cases hflags : attr.kind = TCA_BPF_FLAGS
    · rw [if_pos hflags] at h
      exact Or.inl ⟨hflags, mapU32_ok.mp h⟩
    by_cases hgen : attr.kind = TCA_BPF_FLAGS_GEN
    · rw [if_neg hflags, if_pos hgen] at h
      exact Or.inr (Or.inl ⟨hgen, mapU32_ok.mp h⟩)
    by_cases htag : attr.kind = TCA_BPF_TAG
    · rw [if_neg hflags, if_neg hgen, if_pos htag] at h
      have h := Except.ok.inj h
      by_cases hlen : attr.payload.length = 8
      · rw [if_pos hlen] at h
        exact Or.inr (Or.inr (Or.inl ⟨⟨htag, hlen⟩, h⟩))
      · rw [if_neg hlen] at h
        exact Or.inr (Or.inr (Or.inr (Or.inr (Or.inr ⟨Or.inl ⟨htag, hlen⟩, h⟩))))
    rw [if_neg hflags, if_neg hgen, if_neg htag] at h
    by_cases hid : attr.kind = TCA_BPF_ID
    · rw [if_pos hid] at h
      exact Or.inr (Or.inr (Or.inr (Or.inl ⟨hid, mapU32_ok.mp h⟩)))
    by_cases hname : attr.kind = TCA_BPF_NAME
    · rw [if_neg hid, if_pos hname] at h
      exact Or.inr (Or.inr (Or.inr (Or.inr (Or.inl ⟨hname, mapCstr_ok.mp h⟩))))
    · rw [if_neg hid, if_neg hname] at h
      refine Or.inr (Or.inr (Or.inr (Or.inr (Or.inr ⟨Or.inr ?_, Except.ok.inj h⟩))))
      simp only [OPTION_KINDS, List.mem_cons, List.not_mem_nil, not_or]
      exact ⟨hflags, hgen, htag, hid, hname, not_false⟩
  · rintro (⟨h', h⟩ | ⟨h', h⟩ | ⟨⟨h', hlen⟩, rfl⟩ | ⟨h', h⟩ | ⟨h', h⟩ | ⟨⟨h', hlen⟩ | h', rfl⟩)
    · rw [optionAttr, h']
      exact mapU32_ok.mpr h
    · rw [optionAttr, h']
      exact mapU32_ok.mpr h
    · rw [optionAttr, h', if_pos hlen]
      rfl
    · rw [optionAttr, h']
      exact mapU32_ok.mpr h
    · rw [optionAttr, h']
      exact mapCstr_ok.mpr h
    · rw [optionAttr, h', if_neg hlen]
      rfl
    · simp only [OPTION_KINDS, List.mem_cons, List.not_mem_nil, not_or] at h'
      obtain ⟨hflags, hgen, htag, hid, hname, -⟩ := h'
      rw [optionAttr, if_neg hflags, if_neg hgen, if_neg htag, if_neg hid, if_neg hname]

theorem OptionKnown.kind (h : OptionKnown e attr) : attr.kind ∈ OPTION_KINDS := by
  rcases h with ⟨h', -⟩ | ⟨h', -⟩ | ⟨h', -⟩
  · exact List.Sublist.subset (by decide) h'
  · rw [h']
    decide
  · rw [h']
    decide

theorem option_unknown (h : attr.kind = TCA_BPF_TAG ∧ attr.payload.length ≠ 8 ∨ attr.kind ∉ OPTION_KINDS) :
    ¬ OptionKnown e attr := by
  intro hknown
  rcases h with ⟨htag, hlen⟩ | hkind
  · rcases hknown with ⟨h', -⟩ | ⟨-, h'⟩ | ⟨h', -⟩
    · rw [htag] at h'
      exact absurd h' (by decide)
    · exact hlen h'
    · exact absurd (htag.symm.trans h') (by decide)
  · exact hkind hknown.kind

theorem option_field (kind : U16) : FieldOf Attr.kind (optionAttr e) Filter.duplicate kind (optionField e kind)
    fun attr _ value => OptionKnown e attr → value = some attr.payload where
  duplicate _ := rfl
  own attr filter t hk h hknown := by
    subst hk
    rcases optionAttr_ok.mp h with ⟨h', value, hv, rfl⟩ | ⟨h', value, hv, rfl⟩ | ⟨⟨h', -⟩, rfl⟩ |
      ⟨h', value, hv, rfl⟩ | ⟨h', value, hv, rfl⟩ | ⟨h', rfl⟩
    · rw [h', hv]
      rfl
    · rw [h', hv]
      rfl
    · rw [h']
      rfl
    · rw [h', hv]
      rfl
    · rw [h', hv.1]
      rfl
    · exact absurd hknown (option_unknown h')
  other attr filter t hk h := by
    rcases optionAttr_ok.mp h with ⟨h', value, -, rfl⟩ | ⟨h', value, -, rfl⟩ | ⟨⟨h', -⟩, rfl⟩ |
      ⟨h', value, -, rfl⟩ | ⟨h', value, -, rfl⟩ | ⟨-, rfl⟩
    · simp only [optionField, if_neg (kind_ne h' hk)]
    · simp only [optionField, if_neg (kind_ne h' hk)]
    · simp only [optionField, if_neg (kind_ne h' hk)]
    · simp only [optionField, if_neg (kind_ne h' hk)]
    · simp only [optionField, if_neg (kind_ne h' hk)]
    · rfl

theorem option_direct : FieldOf Attr.kind (optionAttr e) Filter.duplicate TCA_BPF_FLAGS Filter.directAction
    fun attr _ value => ∃ flags, attr.payload = e.ofWord flags ∧ value = (flags &&& TCA_BPF_FLAG_ACT_DIRECT != 0) where
  duplicate _ := rfl
  own attr filter t hk h := by
    rcases optionAttr_ok.mp h with ⟨-, value, hv, rfl⟩ | ⟨h', -⟩ | ⟨⟨h', -⟩, -⟩ | ⟨h', -⟩ | ⟨h', -⟩ | ⟨h', -⟩
    · exact ⟨value, hv, rfl⟩
    · exact absurd (hk.symm.trans h') (by decide)
    · exact absurd (hk.symm.trans h') (by decide)
    · exact absurd (hk.symm.trans h') (by decide)
    · exact absurd (hk.symm.trans h') (by decide)
    · rcases h' with ⟨h', -⟩ | h'
      · exact absurd (hk.symm.trans h') (by decide)
      · rw [hk] at h'
        exact absurd (by decide) h'
  other attr filter t hk h := by
    rcases optionAttr_ok.mp h with ⟨h', -⟩ | ⟨-, value, -, rfl⟩ | ⟨-, rfl⟩ | ⟨-, value, -, rfl⟩ |
      ⟨-, value, -, rfl⟩ | ⟨-, rfl⟩
    all_goals first | rfl | exact absurd h' hk

theorem option_marking : Marking (optionAttr e) Filter.duplicate Filter.Clean (OptionKnown e) where
  duplicate filter h := Bool.noConfusion h.2
  back attr filter t h hclean := by
    rcases optionAttr_ok.mp h with ⟨h', value, hv, rfl⟩ | ⟨h', value, hv, rfl⟩ | ⟨h', rfl⟩ |
      ⟨h', value, hv, rfl⟩ | ⟨h', value, hv, rfl⟩ | ⟨-, rfl⟩
    · exact ⟨hclean, Or.inl ⟨by rw [h']; decide, value, hv⟩⟩
    · exact ⟨hclean, Or.inl ⟨by rw [h']; decide, value, hv⟩⟩
    · exact ⟨hclean, Or.inr (Or.inl h')⟩
    · exact ⟨hclean, Or.inl ⟨by rw [h']; decide, value, hv⟩⟩
    · exact ⟨hclean, Or.inr (Or.inr ⟨h', value, hv⟩)⟩
    · exact Bool.noConfusion hclean.1
  forth attr filter hknown hclean := by
    rcases hknown with ⟨h', value, hv⟩ | h' | ⟨h', text, hv⟩
    · simp only [List.mem_cons, List.not_mem_nil, or_false] at h'
      rcases h' with h' | h' | h'
      · exact ⟨_, optionAttr_ok.mpr (Or.inl ⟨h', value, hv, rfl⟩), hclean⟩
      · exact ⟨_, optionAttr_ok.mpr (Or.inr (Or.inl ⟨h', value, hv, rfl⟩)), hclean⟩
      · exact ⟨_, optionAttr_ok.mpr (Or.inr (Or.inr (Or.inr (Or.inl ⟨h', value, hv, rfl⟩)))), hclean⟩
    · exact ⟨_, optionAttr_ok.mpr (Or.inr (Or.inr (Or.inl ⟨h', rfl⟩))), hclean⟩
    · exact ⟨_, optionAttr_ok.mpr (Or.inr (Or.inr (Or.inr (Or.inr (Or.inl ⟨h', text, hv, rfl⟩))))), hclean⟩

/-- What the options of a filter set. -/
def filterOptions (filter : Filter) :
    Bool × Option U32 × Option U32 × Option (List U8) × Option String × Option U32 :=
  (filter.directAction, filter.bpfFlags, filter.progId, filter.progTag, filter.progName, filter.flagsGen)

/-- What they leave alone. -/
def filterRest (filter : Filter) : (U32 × U32 × U32 × U16 × U16) × Option String × U32 :=
  ((filter.ifindex, filter.parent, filter.handle, filter.priority, filter.protocol), filter.kind, filter.chain)

theorem filterOptions_eq {s : Filter} (h : filterOptions t = filterOptions s) (kind : U16) :
    optionField e kind t = optionField e kind s ∧ t.directAction = s.directAction := by
  unfold filterOptions at h
  simp only [Prod.mk.injEq] at h
  obtain ⟨hdirect, hflags, hid, htag, hname, hgen⟩ := h
  unfold optionField
  rw [hflags, hid, htag, hname, hgen]
  exact ⟨rfl, hdirect⟩

theorem filterRest_options {options : List Attr}
    (h : foldKeyed Attr.kind (optionAttr e) Filter.duplicate [] filter options = .ok t) :
    filterRest t = filterRest filter := by
  have hduplicate : ∀ filter : Filter, filterRest filter.duplicate = filterRest filter := fun _ => rfl
  have hread : ∀ attr ∈ options, ∀ s t, optionAttr e attr s = .ok t → filterRest t = filterRest s := by
    intro attr _ s t h
    rcases optionAttr_ok.mp h with ⟨-, value, -, rfl⟩ | ⟨-, value, -, rfl⟩ | ⟨-, rfl⟩ | ⟨-, value, -, rfl⟩ |
      ⟨-, value, -, rfl⟩ | ⟨-, rfl⟩
    all_goals rfl
  exact foldKeyed_stays hduplicate hread h

/-- Statistics and diagnostics of the offload, which say nothing. -/
def Diagnostic (kind : U16) : Prop := (3 ≤ kind ∧ kind ≤ 10) ∨ kind = 12

instance (kind : U16) : Decidable (Diagnostic kind) := inferInstanceAs (Decidable (_ ∨ _))

def FilterKnown (e : Endian) (attr : Attr) : Prop :=
  (attr.kind = TCA_KIND ∧ ∃ text : String, attr.payload = cstrBytes text ∧ 0 ∉ utf8 text.toList) ∨
    (attr.kind = TCA_CHAIN ∧ ∃ value : U32, attr.payload = e.ofWord value) ∨
    (attr.kind = TCA_OPTIONS ∧ ∃ options, attrs e attr.payload = .ok options ∧ (options.map Attr.kind).Nodup ∧
      ∀ option ∈ options, OptionKnown e option) ∨
    Diagnostic attr.kind

theorem filterAttr_ok : filterAttr e attr filter = .ok t ↔
    (attr.kind = TCA_KIND ∧ ∃ value, (attr.payload = cstrBytes value ∧ 0 ∉ utf8 value.toList) ∧
      { filter with kind := some value } = t) ∨
    (attr.kind = TCA_CHAIN ∧ ∃ value, attr.payload = e.ofWord value ∧ { filter with chain := value } = t) ∨
    (attr.kind = TCA_OPTIONS ∧ ∃ options, attrs e attr.payload = .ok options ∧
      foldKeyed Attr.kind (optionAttr e) Filter.duplicate [] filter options = .ok t) ∨
    (Diagnostic attr.kind ∧ filter = t) ∨
    ((attr.kind ∉ [TCA_KIND, TCA_CHAIN, TCA_OPTIONS] ∧ ¬ Diagnostic attr.kind) ∧ filter.unknown = t) := by
  have hkind : ¬ Diagnostic TCA_KIND := by decide
  have hchain : ¬ Diagnostic TCA_CHAIN := by decide
  have hoptions : ¬ Diagnostic TCA_OPTIONS := by decide
  have hdistinct : TCA_KIND ≠ TCA_CHAIN ∧ TCA_KIND ≠ TCA_OPTIONS ∧ TCA_CHAIN ≠ TCA_OPTIONS := by decide
  unfold filterAttr
  by_cases h1 : attr.kind = TCA_KIND
  · simp [h1, map_ok, attrCstr_ok, hkind, hdistinct]
  by_cases h2 : attr.kind = TCA_CHAIN
  · simp [h2, map_ok, attrU32_ok, hchain, hdistinct, Ne.symm hdistinct.1]
  by_cases h3 : attr.kind = TCA_OPTIONS
  · simp [h3, bind_ok, hoptions, Ne.symm hdistinct.2.1, Ne.symm hdistinct.2.2]
  rw [if_neg h1, if_neg h2, if_neg h3]
  by_cases h4 : Diagnostic attr.kind
  · have hrange : (3 ≤ attr.kind ∧ attr.kind ≤ 10) ∨ attr.kind = 12 := h4
    rw [if_pos hrange]
    simp [h1, h2, h3, h4]
  · have hrange : ¬ ((3 ≤ attr.kind ∧ attr.kind ≤ 10) ∨ attr.kind = 12) := h4
    rw [if_neg hrange]
    simp [h1, h2, h3, h4]

theorem filter_marking : Marking (filterAttr e) Filter.duplicate Filter.Clean (FilterKnown e) where
  duplicate filter h := Bool.noConfusion h.2
  back attr filter t h hclean := by
    rcases filterAttr_ok.mp h with ⟨h', value, hv, rfl⟩ | ⟨h', value, hv, rfl⟩ | ⟨h', options, hoptions, hfold⟩ |
      ⟨h', rfl⟩ | ⟨-, rfl⟩
    · exact ⟨hclean, Or.inl ⟨h', value, hv⟩⟩
    · exact ⟨hclean, Or.inr (Or.inl ⟨h', value, hv⟩)⟩
    · obtain ⟨hbefore, hnodup, -, hknown⟩ := (foldKeyed_clean option_marking options [] filter).mp ⟨t, hfold, hclean⟩
      exact ⟨hbefore, Or.inr (Or.inr (Or.inl ⟨h', options, hoptions, hnodup, hknown⟩))⟩
    · exact ⟨hclean, Or.inr (Or.inr (Or.inr h'))⟩
    · exact Bool.noConfusion hclean.1
  forth attr filter hknown hclean := by
    rcases hknown with ⟨h', text, hv⟩ | ⟨h', value, hv⟩ | ⟨h', options, hoptions, hnodup, hknown⟩ | h'
    · exact ⟨_, filterAttr_ok.mpr (Or.inl ⟨h', text, hv, rfl⟩), hclean⟩
    · exact ⟨_, filterAttr_ok.mpr (Or.inr (Or.inl ⟨h', value, hv, rfl⟩)), hclean⟩
    · obtain ⟨t, hfold, ht⟩ := (foldKeyed_clean option_marking options [] filter).mpr
        ⟨hclean, hnodup, fun _ _ => List.not_mem_nil, hknown⟩
      exact ⟨t, filterAttr_ok.mpr (Or.inr (Or.inr (Or.inl ⟨h', options, hoptions, hfold⟩))), ht⟩
    · exact ⟨_, filterAttr_ok.mpr (Or.inr (Or.inr (Or.inr (Or.inl ⟨h', rfl⟩)))), hclean⟩

theorem filter_kind : FieldOf Attr.kind (filterAttr e) Filter.duplicate TCA_KIND
    (fun filter => filter.kind.map cstrBytes) fun attr _ value => True → value = some attr.payload where
  duplicate _ := rfl
  own attr filter t hk h _ := by
    rcases filterAttr_ok.mp h with ⟨-, value, hv, rfl⟩ | ⟨h', -⟩ | ⟨h', -⟩ | ⟨h', -⟩ | ⟨⟨h', -⟩, -⟩
    · rw [hv.1]
      rfl
    · exact absurd (hk.symm.trans h') (by decide)
    · exact absurd (hk.symm.trans h') (by decide)
    · rw [hk] at h'
      exact absurd h' (by decide)
    · exact absurd (hk ▸ List.mem_cons_self) h'
  other attr filter t hk h := by
    rcases filterAttr_ok.mp h with ⟨h', -⟩ | ⟨-, value, -, rfl⟩ | ⟨-, options, -, hfold⟩ | ⟨-, rfl⟩ | ⟨-, rfl⟩
    · exact absurd h' hk
    · rfl
    · exact congrArg (fun rest => rest.2.1.map cstrBytes) (filterRest_options hfold)
    · rfl
    · rfl

theorem filter_chain : FieldOf Attr.kind (filterAttr e) Filter.duplicate TCA_CHAIN Filter.chain
    fun attr _ value => attr.payload = e.ofWord value where
  duplicate _ := rfl
  own attr filter t hk h := by
    rcases filterAttr_ok.mp h with ⟨h', -⟩ | ⟨-, value, hv, rfl⟩ | ⟨h', -⟩ | ⟨h', -⟩ | ⟨⟨h', -⟩, -⟩
    · exact absurd (hk.symm.trans h') (by decide)
    · exact hv
    · exact absurd (hk.symm.trans h') (by decide)
    · rw [hk] at h'
      exact absurd h' (by decide)
    · rw [hk] at h'
      exact absurd (by decide) h'
  other attr filter t hk h := by
    rcases filterAttr_ok.mp h with ⟨-, value, -, rfl⟩ | ⟨h', -⟩ | ⟨-, options, -, hfold⟩ | ⟨-, rfl⟩ | ⟨-, rfl⟩
    · rfl
    · exact absurd h' hk
    · exact congrArg (fun rest => rest.2.2) (filterRest_options hfold)
    · rfl
    · rfl

/-- The options attribute runs the inner pass. -/
theorem filter_options : FieldOf Attr.kind (filterAttr e) Filter.duplicate TCA_OPTIONS filterOptions
    fun attr before after => ∃ options s t, attrs e attr.payload = .ok options ∧
      foldKeyed Attr.kind (optionAttr e) Filter.duplicate [] s options = .ok t ∧ filterOptions s = before ∧
        filterOptions t = after where
  duplicate _ := rfl
  own attr filter t hk h := by
    rcases filterAttr_ok.mp h with ⟨h', -⟩ | ⟨h', -⟩ | ⟨-, options, hoptions, hfold⟩ | ⟨h', -⟩ | ⟨⟨h', -⟩, -⟩
    · exact absurd (hk.symm.trans h') (by decide)
    · exact absurd (hk.symm.trans h') (by decide)
    · exact ⟨options, filter, t, hoptions, hfold, rfl, rfl⟩
    · rw [hk] at h'
      exact absurd h' (by decide)
    · rw [hk] at h'
      exact absurd (by decide) h'
  other attr filter t hk h := by
    rcases filterAttr_ok.mp h with ⟨-, value, -, rfl⟩ | ⟨-, value, -, rfl⟩ | ⟨h', -⟩ | ⟨-, rfl⟩ | ⟨-, rfl⟩
    · rfl
    · rfl
    · exact absurd h' hk
    · rfl
    · rfl

/-- The place of a filter is what the header says. -/
theorem filterRest_fold {out : List Attr}
    (h : foldKeyed Attr.kind (filterAttr e) Filter.duplicate [] filter out = .ok t) :
    (filterRest t).1 = (filterRest filter).1 := by
  have hduplicate : ∀ filter : Filter, (filterRest filter.duplicate).1 = (filterRest filter).1 := fun _ => rfl
  have hread : ∀ attr ∈ out, ∀ s t, filterAttr e attr s = .ok t → (filterRest t).1 = (filterRest s).1 := by
    intro attr _ s t h
    rcases filterAttr_ok.mp h with ⟨-, value, -, rfl⟩ | ⟨-, value, -, rfl⟩ | ⟨-, options, -, hfold⟩ | ⟨-, rfl⟩ | ⟨-, rfl⟩
    · rfl
    · rfl
    · exact congrArg Prod.fst (filterRest_options hfold)
    · rfl
    · rfl
  exact @foldKeyed_stays _ _ _ _ _ _ _ _ _ (fun filter => (filterRest filter).1) hduplicate out hread _ _ _ h

/-! ### The word of priority and protocol -/

theorem halves {info : U32} {high low : U16} : (info >>> 16).setWidth 16 = high ∧ info.setWidth 16 = low ↔
    info = high.setWidth 32 <<< 16 ||| low.setWidth 32 := by
  constructor
  · rintro ⟨rfl, rfl⟩
    ext i hi
    simp only [BitVec.getElem_or, BitVec.getElem_shiftLeft, BitVec.getElem_setWidth, BitVec.getLsbD_setWidth,
      BitVec.getLsbD_ushiftRight]
    by_cases h : i < 16
    · simp [h, BitVec.getLsbD_eq_getElem hi]
    · have hlow : i - 16 < 16 := by omega
      have heq : 16 + (i - 16) = i := by omega
      simp [h, hlow, heq, BitVec.getLsbD_eq_getElem hi]
  · rintro rfl
    constructor
    · ext i hi
      have hpast : ¬ 16 + i < 16 := by omega
      have hin : 16 + i < 32 := by omega
      have heq : 16 + i - 16 = i := by omega
      simp only [BitVec.getElem_setWidth, BitVec.getLsbD_ushiftRight, BitVec.getLsbD_or, BitVec.getLsbD_shiftLeft,
        BitVec.getLsbD_setWidth]
      simp [hpast, hin, heq, BitVec.getLsbD_eq_getElem hi]
      omega
    · ext i hi
      simp only [BitVec.getElem_setWidth, BitVec.getLsbD_or, BitVec.getLsbD_shiftLeft, BitVec.getLsbD_setWidth]
      simp [hi]
      omega

/-- `tc_info` is undone by the reader. -/
theorem tcInfo_iff {info : U32} {priority protocol : U16} :
    infoPriority info = priority ∧ infoProtocol e info = protocol ↔ info = tcInfo e priority protocol := by
  have hprotocol : ∀ low : U16, Endian.big.word 16 (e.ofWord low) = protocol ↔
      low = e.word 16 (Endian.big.ofWord protocol) := by
    intro low
    constructor
    · rintro rfl
      rw [Endian.ofWord_word (k := 2) Endian.big (e.length_ofWord low), e.word16_ofWord]
    · rintro rfl
      rw [Endian.ofWord_word (k := 2) e (Endian.big.length_ofWord protocol), Endian.big.word16_ofWord]
  unfold infoPriority infoProtocol tcInfo
  rw [hprotocol]
  exact halves

end Filters

end FluxRs.Netlink
