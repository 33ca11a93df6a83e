import FluxRs.Dataplane.Cleanup
import FluxRs.Netlink.Fields

/-!
# FluxRs.Dataplane.OwnedWire — ownership, on the bytes of a dump

The predicates of the cleanup look at records that the readers have made; here they are read off the message.
What is recognised are the attributes that Flux asks for with what the kernel adds to them, each once and in any
order, and nothing else.
-/

namespace FluxRs.Dataplane

open FluxRs.Lib

variable {e : Endian}

/-- The kinds of the attributes with their payloads. -/
def pairsOf (out : List Netlink.Attr) : List (U16 × List U8) := out.map fun attr => (attr.kind, attr.payload)

/-- A byte of a header never names the table of Flux. -/
theorem byte_ne_table (byte : U8) : byte.setWidth 32 ≠ ROUTE_TABLE := by
  intro heq
  have hbyte := byte.isLt
  have hnat := congrArg BitVec.toNat heq
  have hroute : ROUTE_TABLE.toNat = 20260 := rfl
  rw [BitVec.toNat_setWidth, Nat.mod_eq_of_lt (by omega)] at hnat
  omega

/-! ### Rules -/

section Rules

/-- The attributes of an own rule: table, priority and interface, and two that the kernel adds. -/
def ownedRuleAttrs (e : Endian) : List (U16 × List U8) :=
  [(Netlink.FRA_TABLE, e.ofWord ROUTE_TABLE), (Netlink.FRA_PRIORITY, e.ofWord RULE_PRIORITY),
    (Netlink.FRA_IIFNAME, Netlink.cstrBytes PEER_NAME),
    (Netlink.FRA_SUPPRESS_PREFIXLEN, e.ofWord (0xffffffff : U32)), (Netlink.FRA_PROTOCOL, [0])]

/-- Source and destination are unrestricted, the action looks a table up, and tos and flags are clear. -/
structure OwnedRuleHeader (e : Endian) (payload : List U8) : Prop where
  length : 12 ≤ payload.length
  family : Netlink.headerByte payload 0 = AF_INET ∨ Netlink.headerByte payload 0 = AF_INET6
  dstLen : Netlink.headerByte payload 1 = 0
  srcLen : Netlink.headerByte payload 2 = 0
  tos : Netlink.headerByte payload 3 = 0
  action : Netlink.headerByte payload 7 = 1
  flags : Netlink.headerWord e payload 8 = 0

variable {rule : Netlink.Rule} {payload : List U8}

theorem isOwnedRule_iff : isOwnedRule rule = true ↔
    ((rule.family = AF_INET ∨ rule.family = AF_INET6) ∧ rule.dstLen = 0 ∧ rule.srcLen = 0 ∧ rule.action = 1 ∧
      rule.extraAttrs = false) ∧ ∀ pair ∈ ownedRuleAttrs e, Netlink.ruleField e pair.1 rule = some pair.2 := by
  unfold ownedRuleAttrs
  simp only [List.forall_mem_cons, List.not_mem_nil, IsEmpty.forall_iff, implies_true, and_true]
  show _ ↔ _ ∧ some (e.ofWord rule.table) = _ ∧ rule.priority.map e.ofWord = _ ∧ rule.iifName.map Netlink.cstrBytes = _ ∧
    rule.suppressPrefixLen.map e.ofWord = _ ∧ (rule.protocol.map fun value => [value]) = _
  rw [Netlink.some_ofWord_eq, Netlink.map_ofWord_eq, Netlink.map_cstr_eq, Netlink.map_ofWord_eq, Netlink.map_byte_eq]
  unfold isOwnedRule
  simp only [Bool.and_eq_true, Bool.or_eq_true, beq_iff_eq, Bool.not_eq_true']
  tauto

theorem ownedRuleAttrs_nodup : ((ownedRuleAttrs e).map Prod.fst).Nodup := by
  show [Netlink.FRA_TABLE, Netlink.FRA_PRIORITY, Netlink.FRA_IIFNAME, Netlink.FRA_SUPPRESS_PREFIXLEN,
    Netlink.FRA_PROTOCOL].Nodup
  decide

theorem ownedRule_kind {pair : U16 × List U8} (h : pair ∈ ownedRuleAttrs e) : pair.1 ∈ Netlink.RULE_KINDS :=
  List.mem_map_of_mem h

/-- The header alone says nothing that an own rule says: its table is a byte. -/
theorem ruleField_header {pair : U16 × List U8} (h : pair ∈ ownedRuleAttrs e) :
    Netlink.ruleField e pair.1 (Netlink.ruleHeader e payload) ≠ some pair.2 := by
  unfold ownedRuleAttrs at h
  simp only [List.mem_cons, List.not_mem_nil, or_false] at h
  rcases h with rfl | rfl | rfl | rfl | rfl
  · show some (e.ofWord ((Netlink.headerByte payload 4).setWidth 32)) ≠ some (e.ofWord ROUTE_TABLE)
    exact fun heq => byte_ne_table _ (Netlink.some_ofWord_eq.mp heq)
  all_goals exact (Option.some_ne_none _).symm

theorem ruleKnown_of_owned {attr : Netlink.Attr} (h : (attr.kind, attr.payload) ∈ ownedRuleAttrs e) :
    Netlink.RuleKnown e attr := by
  unfold ownedRuleAttrs at h
  simp only [List.mem_cons, List.not_mem_nil, or_false, Prod.mk.injEq] at h
  rcases h with ⟨hk, hv⟩ | ⟨hk, hv⟩ | ⟨hk, hv⟩ | ⟨hk, hv⟩ | ⟨hk, hv⟩
  · exact Or.inl ⟨by rw [hk]; decide, _, hv⟩
  · exact Or.inl ⟨by rw [hk]; decide, _, hv⟩
  · exact Or.inr (Or.inl ⟨hk, PEER_NAME, hv, by decide⟩)
  · exact Or.inl ⟨by rw [hk]; decide, _, hv⟩
  · exact Or.inr (Or.inr ⟨hk, 0, hv⟩)

/-- The fields that no attribute sets. -/
def ruleFixed (rule : Netlink.Rule) : U8 × U8 × U8 × U8 := (rule.family, rule.dstLen, rule.srcLen, rule.action)

theorem ruleFixed_read {attr : Netlink.Attr} {rule t : Netlink.Rule} (h : Netlink.ruleAttr e attr rule = .ok t) :
    ruleFixed t = ruleFixed rule := by
  rcases Netlink.ruleAttr_ok.mp h with ⟨-, value, -, rfl⟩ | ⟨-, value, -, rfl⟩ | ⟨-, value, -, rfl⟩ |
    ⟨-, value, -, rfl⟩ | ⟨-, value, -, rfl⟩ | ⟨-, rfl⟩
  all_goals rfl

theorem ruleFixed_fold {out : List Netlink.Attr} {rule : Netlink.Rule}
    (h : foldKeyed Netlink.Attr.kind (Netlink.ruleAttr e) Netlink.Rule.extra [] (Netlink.ruleHeader e payload) out =
      .ok rule) :
    rule.family = Netlink.headerByte payload 0 ∧ rule.dstLen = Netlink.headerByte payload 1 ∧
      rule.srcLen = Netlink.headerByte payload 2 ∧ rule.action = Netlink.headerByte payload 7 := by
  have hextra : ∀ rule : Netlink.Rule, ruleFixed rule.extra = ruleFixed rule := fun _ => rfl
  have hread : ∀ attr ∈ out, ∀ rule t, Netlink.ruleAttr e attr rule = .ok t → ruleFixed t = ruleFixed rule :=
    fun _ _ _ _ h => ruleFixed_read h
  have hfixed := foldKeyed_stays hextra hread h
  unfold ruleFixed at hfixed
  simp only [Prod.mk.injEq] at hfixed
  exact hfixed

/-- **An own rule on the wire**: a dumped message is taken for one exactly if its header is that of an unrestricted
lookup and its attributes are those of an own rule, each once and in any order. -/
theorem owned_rule_wire (e : Endian) (payload : List U8) :
    (∃ rule, Netlink.parseRule e payload = .ok rule ∧ isOwnedRule rule = true) ↔
      OwnedRuleHeader e payload ∧
        ∃ out, Netlink.attrs e (payload.drop 12) = .ok out ∧ (pairsOf out).Perm (ownedRuleAttrs e) := by
  constructor
  · rintro ⟨rule, hparse, howned⟩
    obtain ⟨hlength, out, hout, hfold⟩ := Netlink.readBody_ok.mp hparse
    obtain ⟨⟨hfamily, hdst, hsrc, haction, hclean⟩, hfields⟩ := isOwnedRule_iff.mp howned
    obtain ⟨hheader, hnodup, -, hknown⟩ := (foldKeyed_clean Netlink.rule_marking out [] _).mp ⟨rule, hfold, hclean⟩
    obtain ⟨hfamily', hdst', hsrc', haction'⟩ := ruleFixed_fold hfold
    have hmarks : (Netlink.headerByte payload 3 != 0) = false ∧ (Netlink.headerWord e payload 8 != 0) = false :=
      Bool.or_eq_false_iff.mp hheader
    refine ⟨⟨hlength, hfamily' ▸ hfamily, hdst' ▸ hdst, hsrc' ▸ hsrc, bne_eq_false_iff_eq.mp hmarks.1,
      haction' ▸ haction, bne_eq_false_iff_eq.mp hmarks.2⟩, out, hout, ?_⟩
    refine perm_of_keyed hnodup ownedRuleAttrs_nodup (fun attr hattr => (hknown attr hattr).kind) ?_
    intro pair hpair
    exact foldKeyed_brings (Netlink.rule_field pair.1) (fun _ _ h => h ▸ ownedRule_kind hpair) hfold
      (ruleField_header hpair) (hfields pair hpair) hnodup
  · rintro ⟨hheader, out, hout, hperm⟩
    have hkinds : (out.map Netlink.Attr.kind).Perm ((ownedRuleAttrs e).map Prod.fst) := by
      have hmap := hperm.map Prod.fst
      rwa [pairsOf, List.map_map] at hmap
    have hnodup := hkinds.nodup_iff.mpr ownedRuleAttrs_nodup
    have hknown : ∀ attr ∈ out, Netlink.RuleKnown e attr := by
      intro attr hattr
      exact ruleKnown_of_owned (hperm.mem_iff.mp (List.mem_map.mpr ⟨attr, hattr, rfl⟩))
    have hclean : (Netlink.ruleHeader e payload).extraAttrs = false := by
      show (Netlink.headerByte payload 3 != 0 || Netlink.headerWord e payload 8 != 0) = false
      rw [hheader.tos, hheader.flags]
      rfl
    obtain ⟨rule, hfold, hrule⟩ := (foldKeyed_clean Netlink.rule_marking out [] _).mpr
      ⟨hclean, hnodup, fun _ _ => List.not_mem_nil, hknown⟩
    obtain ⟨hfamily, hdst, hsrc, haction⟩ := ruleFixed_fold hfold
    refine ⟨rule, Netlink.readBody_ok.mpr ⟨hheader.length, out, hout, hfold⟩, (@isOwnedRule_iff e rule).mpr
      ⟨⟨hfamily ▸ hheader.family, hdst.trans hheader.dstLen, hsrc.trans hheader.srcLen, haction.trans hheader.action,
        hrule⟩, ?_⟩⟩
    intro pair hpair
    obtain ⟨attr', hattr', heq⟩ := List.mem_map.mp (hperm.mem_iff.mpr hpair)
    obtain rfl : (attr'.kind, attr'.payload) = pair := heq
    exact foldKeyed_says (Netlink.rule_field _) hfold hnodup hattr' rfl (ownedRule_kind hpair)

end Rules

/-! ### Routes -/

section Routes

/-- The attributes of an own route; an IPv6 route shows the metric and the preference that the kernel gives it. -/
def ownedRouteAttrs (e : Endian) (family : U8) (loIfindex : U32) : List (U16 × List U8) :=
  if family = AF_INET then [(Netlink.RTA_TABLE, e.ofWord ROUTE_TABLE), (Netlink.RTA_OIF, e.ofWord loIfindex)]
  else [(Netlink.RTA_TABLE, e.ofWord ROUTE_TABLE), (Netlink.RTA_OIF, e.ofWord loIfindex),
    (Netlink.RTA_PRIORITY, e.ofWord (1024 : U32)), (Netlink.RTA_PREF, [0])]

/-- The scope under which the kernel dumps a local route. -/
def ownedScope (family : U8) : U8 := if family = AF_INET then 254 else 0

/-- A local route of Flux's protocol to everywhere, with source, tos and flags clear. -/
structure OwnedRouteHeader (e : Endian) (payload : List U8) : Prop where
  length : 12 ≤ payload.length
  family : Netlink.headerByte payload 0 = AF_INET ∨ Netlink.headerByte payload 0 = AF_INET6
  dstLen : Netlink.headerByte payload 1 = 0
  srcLen : Netlink.headerByte payload 2 = 0
  tos : Netlink.headerByte payload 3 = 0
  protocol : Netlink.headerByte payload 5 = ROUTE_PROTOCOL
  scope : Netlink.headerByte payload 6 = ownedScope (Netlink.headerByte payload 0)
  kind : Netlink.headerByte payload 7 = 2
  flags : Netlink.headerWord e payload 8 = 0

variable {route : Netlink.Route} {payload : List U8} {loIfindex : U32}

theorem isOwnedRoute_iff : isOwnedRoute route loIfindex = true ↔
    ((route.family = AF_INET ∨ route.family = AF_INET6) ∧ route.dstLen = 0 ∧ route.protocol = ROUTE_PROTOCOL ∧
      route.scope = ownedScope route.family ∧ route.kind = 2 ∧ route.hasDst = false ∧ route.extraAttrs = false) ∧
    ∀ kind ∈ Netlink.ROUTE_KINDS,
      Netlink.routeField e kind route = (ownedRouteAttrs e route.family loIfindex).lookup kind := by
  unfold Netlink.ROUTE_KINDS
  simp only [List.forall_mem_cons, List.not_mem_nil, IsEmpty.forall_iff, implies_true, and_true]
  show _ ↔ _ ∧ some (e.ofWord route.table) = _ ∧ route.oif.map e.ofWord = _ ∧ route.metric.map e.ofWord = _ ∧
    (route.preference.map fun value => [value]) = _
  unfold isOwnedRoute ownedScope
  by_cases hfamily : route.family = AF_INET
  · have hattrs : ownedRouteAttrs e route.family loIfindex =
        [(Netlink.RTA_TABLE, e.ofWord ROUTE_TABLE), (Netlink.RTA_OIF, e.ofWord loIfindex)] := if_pos hfamily
    rw [hattrs]
    show _ ↔ _ ∧ _ = some (e.ofWord ROUTE_TABLE) ∧ _ = some (e.ofWord loIfindex) ∧ _ = none ∧ _ = none
    rw [Netlink.some_ofWord_eq, Netlink.map_ofWord_eq, Option.map_eq_none_iff, Option.map_eq_none_iff]
    simp only [Bool.and_eq_true, Bool.or_eq_true, beq_iff_eq, Bool.not_eq_true', hfamily, if_true,
      Option.isNone_iff_eq_none]
    tauto
  · have hattrs : ownedRouteAttrs e route.family loIfindex =
        [(Netlink.RTA_TABLE, e.ofWord ROUTE_TABLE), (Netlink.RTA_OIF, e.ofWord loIfindex),
          (Netlink.RTA_PRIORITY, e.ofWord (1024 : U32)), (Netlink.RTA_PREF, [0])] := if_neg hfamily
    rw [hattrs]
    show _ ↔ _ ∧ _ = some (e.ofWord ROUTE_TABLE) ∧ _ = some (e.ofWord loIfindex) ∧ _ = some (e.ofWord (1024 : U32)) ∧
      _ = some [0]
    rw [Netlink.some_ofWord_eq, Netlink.map_ofWord_eq, Netlink.map_ofWord_eq, Netlink.map_byte_eq]
    simp only [Bool.and_eq_true, Bool.or_eq_true, beq_iff_eq, Bool.not_eq_true', hfamily, if_false, false_or]
    tauto

theorem ownedRouteAttrs_nodup (family : U8) : ((ownedRouteAttrs e family loIfindex).map Prod.fst).Nodup := by
  unfold ownedRouteAttrs
  split
  · show [Netlink.RTA_TABLE, Netlink.RTA_OIF].Nodup
    decide
  · show [Netlink.RTA_TABLE, Netlink.RTA_OIF, Netlink.RTA_PRIORITY, Netlink.RTA_PREF].Nodup
    decide

theorem ownedTable_mem (family : U8) :
    (Netlink.RTA_TABLE, e.ofWord ROUTE_TABLE) ∈ ownedRouteAttrs e family loIfindex := by
  unfold ownedRouteAttrs
  split <;> exact List.mem_cons_self

theorem ownedRoute_kind {family : U8} {pair : U16 × List U8} (h : pair ∈ ownedRouteAttrs e family loIfindex) :
    pair.1 ∈ Netlink.ROUTE_KINDS := by
  unfold ownedRouteAttrs at h
  split at h <;> simp only [List.mem_cons, List.not_mem_nil, or_false] at h
  · rcases h with rfl | rfl
    · exact List.mem_cons_self
    · exact List.mem_cons_of_mem _ List.mem_cons_self
  · rcases h with rfl | rfl | rfl | rfl
    · exact List.mem_cons_self
    · exact List.mem_cons_of_mem _ List.mem_cons_self
    · exact List.mem_cons_of_mem _ (List.mem_cons_of_mem _ List.mem_cons_self)
    · exact List.mem_cons_of_mem _ (List.mem_cons_of_mem _ (List.mem_cons_of_mem _ List.mem_cons_self))

/-- The header alone says nothing that an own route says. -/
theorem routeField_header {family : U8} {pair : U16 × List U8} (h : pair ∈ ownedRouteAttrs e family loIfindex) :
    Netlink.routeField e pair.1 (Netlink.routeHeader e payload) ≠ some pair.2 := by
  have htable : some (e.ofWord ((Netlink.headerByte payload 4).setWidth 32)) ≠ some (e.ofWord ROUTE_TABLE) :=
    fun heq => byte_ne_table _ (Netlink.some_ofWord_eq.mp heq)
  unfold ownedRouteAttrs at h
  split at h <;> simp only [List.mem_cons, List.not_mem_nil, or_false] at h
  · rcases h with rfl | rfl
    · exact htable
    · exact (Option.some_ne_none _).symm
  · rcases h with rfl | rfl | rfl | rfl
    · exact htable
    all_goals exact (Option.some_ne_none _).symm

theorem routeKnown_of_owned {family : U8} {attr : Netlink.Attr}
    (h : (attr.kind, attr.payload) ∈ ownedRouteAttrs e family loIfindex) : Netlink.RouteKnown e attr := by
  unfold ownedRouteAttrs at h
  split at h <;> simp only [List.mem_cons, List.not_mem_nil, or_false, Prod.mk.injEq] at h
  · rcases h with ⟨hk, hv⟩ | ⟨hk, hv⟩
    all_goals exact Or.inl ⟨by rw [hk]; decide, _, hv⟩
  · rcases h with ⟨hk, hv⟩ | ⟨hk, hv⟩ | ⟨hk, hv⟩ | ⟨hk, hv⟩
    · exact Or.inl ⟨by rw [hk]; decide, _, hv⟩
    · exact Or.inl ⟨by rw [hk]; decide, _, hv⟩
    · exact Or.inl ⟨by rw [hk]; decide, _, hv⟩
    · exact Or.inr (Or.inl ⟨hk, 0, hv⟩)

/-- The fields that no attribute sets. -/
def routeFixed (route : Netlink.Route) : U8 × U8 × U8 × U8 × U8 :=
  (route.family, route.dstLen, route.protocol, route.scope, route.kind)

theorem routeFixed_fold {out : List Netlink.Attr} {route : Netlink.Route}
    (h : foldKeyed Netlink.Attr.kind (Netlink.routeAttr e) Netlink.Route.extra [] (Netlink.routeHeader e payload) out =
      .ok route) :
    route.family = Netlink.headerByte payload 0 ∧ route.dstLen = Netlink.headerByte payload 1 ∧
      route.protocol = Netlink.headerByte payload 5 ∧ route.scope = Netlink.headerByte payload 6 ∧
      route.kind = Netlink.headerByte payload 7 := by
  have hextra : ∀ route : Netlink.Route, routeFixed route.extra = routeFixed route := fun _ => rfl
  have hread : ∀ attr ∈ out, ∀ route t, Netlink.routeAttr e attr route = .ok t → routeFixed t = routeFixed route := by
    intro attr _ route t h
    rcases Netlink.routeAttr_ok.mp h with ⟨-, value, -, rfl⟩ | ⟨-, value, -, rfl⟩ | ⟨-, value, -, rfl⟩ |
      ⟨-, value, -, rfl⟩ | ⟨-, rfl⟩ | ⟨-, rfl⟩ | ⟨-, -, rfl⟩
    all_goals rfl
  have hfixed := foldKeyed_stays hextra hread h
  unfold routeFixed at hfixed
  simp only [Prod.mk.injEq] at hfixed
  exact hfixed

/-- A cacheinfo of its fixed size, or none. -/
def CacheInfo (info : List (U16 × List U8)) : Prop :=
  info = [] ∨ ∃ bytes : List U8, bytes.length = 32 ∧ info = [(Netlink.RTA_CACHEINFO, bytes)]

theorem cacheInfo_nodup {info : List (U16 × List U8)} (h : CacheInfo info) (family : U8) :
    ((info ++ ownedRouteAttrs e family loIfindex).map Prod.fst).Nodup := by
  have hnodup := @ownedRouteAttrs_nodup e loIfindex family
  rcases h with rfl | ⟨bytes, -, rfl⟩
  · exact hnodup
  · refine List.nodup_cons.mpr ⟨?_, hnodup⟩
    intro hmem
    obtain ⟨pair, hpair, hkind⟩ := List.mem_map.mp hmem
    have hkinds := ownedRoute_kind hpair
    have hcache : Netlink.RTA_CACHEINFO ∉ Netlink.ROUTE_KINDS := by decide
    rw [hkind] at hkinds
    exact hcache hkinds

/-- What a clean pass says of the attributes, if the route is one's own. -/
theorem route_pairs {out : List Netlink.Attr} {route : Netlink.Route} {family : U8}
    (hfold : foldKeyed Netlink.Attr.kind (Netlink.routeAttr e) Netlink.Route.extra [] (Netlink.routeHeader e payload) out =
      .ok route) (hnodup : (out.map Netlink.Attr.kind).Nodup) (hknown : ∀ attr ∈ out, Netlink.RouteKnown e attr)
    (hdst : route.hasDst = false) (hfields : ∀ kind ∈ Netlink.ROUTE_KINDS,
      Netlink.routeField e kind route = (ownedRouteAttrs e family loIfindex).lookup kind) :
    ∃ info, CacheInfo info ∧ (pairsOf out).Perm (info ++ ownedRouteAttrs e family loIfindex) := by
  have hkinds : ∀ attr ∈ out, attr.kind = Netlink.RTA_CACHEINFO ∧ attr.payload.length = 32 ∨
      attr.kind ∈ (ownedRouteAttrs e family loIfindex).map Prod.fst := by
    intro attr hattr
    by_cases hkept : attr.kind ∈ Netlink.ROUTE_KINDS
    · have hsays := foldKeyed_says (Netlink.route_field attr.kind) hfold hnodup hattr rfl hkept
      rw [hfields _ hkept] at hsays
      exact Or.inr (List.mem_map_of_mem ((lookup_of_mem (ownedRouteAttrs_nodup family)).mp hsays))
    · rcases hknown attr hattr with ⟨h, -⟩ | ⟨h, -⟩ | h | h
      · exact absurd (List.Sublist.subset (by decide) h) hkept
      · exact absurd (h ▸ (by decide)) hkept
      · rcases foldKeyed_field Netlink.route_dst hfold hnodup with ⟨habsent, -⟩ | ⟨-, -, -, htrue⟩
        · exact absurd h (habsent attr hattr)
        · exact absurd (hdst.symm.trans htrue) Bool.false_ne_true
      · exact Or.inl h
  have hbrings : ∀ pair ∈ ownedRouteAttrs e family loIfindex, ∃ attr ∈ out, attr.kind = pair.1 ∧ attr.payload = pair.2 := by
    intro pair hpair
    have hlast := hfields _ (ownedRoute_kind hpair)
    rw [(lookup_of_mem (ownedRouteAttrs_nodup family)).mpr hpair] at hlast
    exact foldKeyed_brings (Netlink.route_field pair.1) (fun _ _ h => h ▸ ownedRoute_kind hpair) hfold
      (routeField_header hpair) hlast hnodup
  by_cases hinfo : ∃ attr ∈ out, attr.kind = Netlink.RTA_CACHEINFO ∧ attr.payload.length = 32
  · obtain ⟨cache, hcache, hkind, hbytes⟩ := hinfo
    have hcacheInfo : CacheInfo [(Netlink.RTA_CACHEINFO, cache.payload)] := Or.inr ⟨_, hbytes, rfl⟩
    refine ⟨_, hcacheInfo, perm_of_keyed hnodup (cacheInfo_nodup hcacheInfo family) ?_ ?_⟩
    · intro attr hattr
      rcases hkinds attr hattr with h | h
      · exact h.1 ▸ List.mem_cons_self
      · exact List.mem_cons_of_mem _ h
    · intro pair hpair
      rcases List.mem_cons.mp hpair with rfl | hpair
      · exact ⟨cache, hcache, hkind, rfl⟩
      · exact hbrings pair hpair
  · refine ⟨[], Or.inl rfl, perm_of_keyed hnodup (ownedRouteAttrs_nodup family) ?_ hbrings⟩
    exact fun attr hattr => (hkinds attr hattr).resolve_left fun h => hinfo ⟨attr, hattr, h⟩

/-- **An own route on the wire**: a dumped message is taken for one exactly if its header is that of a local route
to everywhere and its attributes are those of an own route, with a cacheinfo or without. -/
theorem owned_route_wire (e : Endian) (payload : List U8) (loIfindex : U32) :
    (∃ route, Netlink.parseRoute e payload = .ok route ∧ isOwnedRoute route loIfindex = true) ↔
      OwnedRouteHeader e payload ∧ ∃ out, Netlink.attrs e (payload.drop 12) = .ok out ∧ ∃ info, CacheInfo info ∧
        (pairsOf out).Perm (info ++ ownedRouteAttrs e (Netlink.headerByte payload 0) loIfindex) := by
  constructor
  · rintro ⟨route, hparse, howned⟩
    obtain ⟨hlength, out, hout, hfold⟩ := Netlink.readBody_ok.mp hparse
    obtain ⟨⟨hfamily, hdst, hprotocol, hscope, hkind, hnodst, hclean⟩, hfields⟩ := (@isOwnedRoute_iff e _ _).mp howned
    obtain ⟨hheader, hnodup, -, hknown⟩ := (foldKeyed_clean Netlink.route_marking out [] _).mp ⟨route, hfold, hclean⟩
    obtain ⟨hfamily', hdst', hprotocol', hscope', hkind'⟩ := routeFixed_fold hfold
    rw [hfamily'] at hfamily hscope hfields
    have hmarks := Bool.or_eq_false_iff.mp hheader
    have hmarks' := Bool.or_eq_false_iff.mp hmarks.1
    exact ⟨⟨hlength, hfamily, hdst' ▸ hdst, bne_eq_false_iff_eq.mp hmarks'.1, bne_eq_false_iff_eq.mp hmarks'.2,
      hprotocol' ▸ hprotocol, hscope' ▸ hscope, hkind' ▸ hkind, bne_eq_false_iff_eq.mp hmarks.2⟩, out, hout,
      route_pairs hfold hnodup hknown hnodst hfields⟩
  · rintro ⟨hheader, out, hout, info, hinfo, hperm⟩
    have hkinds : (out.map Netlink.Attr.kind).Perm
        ((info ++ ownedRouteAttrs e (Netlink.headerByte payload 0) loIfindex).map Prod.fst) := by
      have hmap := hperm.map Prod.fst
      rwa [pairsOf, List.map_map] at hmap
    have hnodup := hkinds.nodup_iff.mpr (cacheInfo_nodup hinfo _)
    have hcases : ∀ attr ∈ out, attr.kind = Netlink.RTA_CACHEINFO ∧ attr.payload.length = 32 ∨
        (attr.kind, attr.payload) ∈ ownedRouteAttrs e (Netlink.headerByte payload 0) loIfindex := by
      intro attr hattr
      have hmem := hperm.mem_iff.mp (List.mem_map.mpr ⟨attr, hattr, rfl⟩)
      rcases List.mem_append.mp hmem with h | h
      · rcases hinfo with rfl | ⟨bytes, hbytes, rfl⟩
        · exact absurd h List.not_mem_nil
        · obtain ⟨hkind, hpayload⟩ := Prod.mk.inj (List.mem_singleton.mp h)
          exact Or.inl ⟨hkind, hpayload ▸ hbytes⟩
      · exact Or.inr h
    have hknown : ∀ attr ∈ out, Netlink.RouteKnown e attr := by
      intro attr hattr
      rcases hcases attr hattr with h | h
      · exact Or.inr (Or.inr (Or.inr h))
      · exact routeKnown_of_owned h
    have hclean : (Netlink.routeHeader e payload).extraAttrs = false := by
      show (Netlink.headerByte payload 2 != 0 || Netlink.headerByte payload 3 != 0 || Netlink.headerWord e payload 8 != 0) =
        false
      rw [hheader.srcLen, hheader.tos, hheader.flags]
      rfl
    obtain ⟨route, hfold, hroute⟩ := (foldKeyed_clean Netlink.route_marking out [] _).mpr
      ⟨hclean, hnodup, fun _ _ => List.not_mem_nil, hknown⟩
    obtain ⟨hfamily, hdst, hprotocol, hscope, hkind⟩ := routeFixed_fold hfold
    have hnodst : route.hasDst = false := by
      refine foldKeyed_absent Netlink.route_dst hfold ?_
      intro attr hattr hdst
      rcases hcases attr hattr with ⟨h, -⟩ | h
      · exact absurd (h.symm.trans hdst) (by decide)
      · have hkept : attr.kind ∈ Netlink.ROUTE_KINDS := ownedRoute_kind h
        rw [hdst] at hkept
        exact absurd hkept (by decide)
    refine ⟨route, Netlink.readBody_ok.mpr ⟨hheader.length, out, hout, hfold⟩, (@isOwnedRoute_iff e route loIfindex).mpr
      ⟨⟨hfamily ▸ hheader.family, hdst.trans hheader.dstLen, hprotocol.trans hheader.protocol, ?_,
        hkind.trans hheader.kind, hnodst, hroute⟩, ?_⟩⟩
    · rw [hscope, hfamily]
      exact hheader.scope
    · intro kind hkind
      rw [hfamily]
      cases hlookup : (ownedRouteAttrs e (Netlink.headerByte payload 0) loIfindex).lookup kind with
      | some value =>
        have hmem := (lookup_of_mem (ownedRouteAttrs_nodup _)).mp hlookup
        obtain ⟨attr, hattr, heq⟩ := List.mem_map.mp (hperm.mem_iff.mpr (List.mem_append_right info hmem))
        obtain ⟨hattrKind, rfl⟩ := Prod.mk.inj heq
        exact foldKeyed_says (Netlink.route_field kind) hfold hnodup hattr hattrKind (hattrKind ▸ hkind)
      | none =>
        have hno := List.lookup_eq_none_iff.mp hlookup
        have habsent : ∀ attr ∈ out, attr.kind ≠ kind := by
          rintro attr hattr rfl
          rcases hcases attr hattr with ⟨h, -⟩ | h
          · rw [h] at hkind
            exact absurd hkind (by decide)
          · exact absurd rfl (bne_iff_ne.mp (hno _ h))
        have htable : kind ≠ Netlink.RTA_TABLE := bne_iff_ne.mp (hno _ (ownedTable_mem _))
        rw [foldKeyed_absent (Netlink.route_field kind) hfold habsent]
        unfold Netlink.routeField
        rw [if_neg htable]
        split_ifs <;> rfl

end Routes

/-! ### Filters -/

section Filters

/-- The options of the filter that an identity stands for. -/
def optionPairs (e : Endian) (identity : Netlink.FilterIdentity) : List (U16 × List U8) :=
  [(Netlink.TCA_BPF_FLAGS, e.ofWord Netlink.TCA_BPF_FLAG_ACT_DIRECT),
    (Netlink.TCA_BPF_FLAGS_GEN, e.ofWord identity.flagsGen), (Netlink.TCA_BPF_TAG, identity.progTag),
    (Netlink.TCA_BPF_ID, e.ofWord identity.progId), (Netlink.TCA_BPF_NAME, Netlink.cstrBytes identity.progName)]

/-- A place of its own: an interface, where it hangs, its handle, and the word of priority and protocol. -/
structure FilterPlace (e : Endian) (payload : List U8) (identity : Netlink.FilterIdentity) : Prop where
  length : 20 ≤ payload.length
  positive : 0 < identity.ifindex.toInt
  ifindex : Netlink.headerWord e payload 4 = identity.ifindex
  handle : Netlink.headerWord e payload 8 = identity.handle
  parent : Netlink.headerWord e payload 12 = identity.parent
  info : Netlink.headerWord e payload 16 = Netlink.tcInfo e identity.priority identity.protocol

/-- The attributes of such a filter: a chain other than 0 is spelled, and what says nothing may stand between. -/
structure FilterAttrs (e : Endian) (out : List Netlink.Attr) (identity : Netlink.FilterIdentity) : Prop where
  nodup : (out.map Netlink.Attr.kind).Nodup
  known : ∀ attr ∈ out, attr.kind ∈ [Netlink.TCA_KIND, Netlink.TCA_CHAIN, Netlink.TCA_OPTIONS] ∨
    Netlink.Diagnostic attr.kind
  kind : (Netlink.TCA_KIND, Netlink.cstrBytes "bpf") ∈ pairsOf out
  chain : (Netlink.TCA_CHAIN, e.ofWord identity.chain) ∈ pairsOf out ∨
    (∀ attr ∈ out, attr.kind ≠ Netlink.TCA_CHAIN) ∧ identity.chain = 0
  options : ∃ attr ∈ out, attr.kind = Netlink.TCA_OPTIONS ∧ ∃ options, Netlink.attrs e attr.payload = .ok options ∧
    (pairsOf options).Perm (optionPairs e identity)

/-- A tag of eight bytes and a name without a NUL. -/
structure Speakable (identity : Netlink.FilterIdentity) : Prop where
  tag : identity.progTag.length = 8
  name : 0 ∉ utf8 identity.progName.toList

variable {filter : Netlink.Filter} {identity : Netlink.FilterIdentity} {payload : List U8}

theorem matchesFilter_iff : identity.matchesFilter filter = true ↔
    (filter.Clean ∧ (filter.ifindex = identity.ifindex ∧ filter.parent = identity.parent ∧
      filter.handle = identity.handle ∧ filter.priority = identity.priority ∧ filter.protocol = identity.protocol) ∧
      filter.kind = some "bpf" ∧ filter.chain = identity.chain ∧ filter.directAction = true) ∧
    ∀ pair ∈ optionPairs e identity, Netlink.optionField e pair.1 filter = some pair.2 := by
  unfold optionPairs
  simp only [List.forall_mem_cons, List.not_mem_nil, IsEmpty.forall_iff, implies_true, and_true]
  show _ ↔ _ ∧ filter.bpfFlags.map e.ofWord = _ ∧ filter.flagsGen.map e.ofWord = _ ∧ filter.progTag = _ ∧
    filter.progId.map e.ofWord = _ ∧ filter.progName.map Netlink.cstrBytes = _
  rw [Netlink.map_ofWord_eq, Netlink.map_ofWord_eq, Netlink.map_ofWord_eq, Netlink.map_cstr_eq]
  unfold Netlink.FilterIdentity.matchesFilter Netlink.Filter.Clean
  simp only [Bool.and_eq_true, beq_iff_eq, Bool.not_eq_true']
  tauto

theorem optionPairs_nodup : ((optionPairs e identity).map Prod.fst).Nodup := by
  show Netlink.OPTION_KINDS.Nodup
  decide

theorem optionKnown_of_pair (hspeak : Speakable identity) {attr : Netlink.Attr}
    (h : (attr.kind, attr.payload) ∈ optionPairs e identity) : Netlink.OptionKnown e attr := by
  unfold optionPairs at h
  simp only [List.mem_cons, List.not_mem_nil, or_false, Prod.mk.injEq] at h
  rcases h with ⟨hk, hv⟩ | ⟨hk, hv⟩ | ⟨hk, hv⟩ | ⟨hk, hv⟩ | ⟨hk, hv⟩
  · exact Or.inl ⟨by rw [hk]; decide, _, hv⟩
  · exact Or.inl ⟨by rw [hk]; decide, _, hv⟩
  · exact Or.inr (Or.inl ⟨hk, hv ▸ hspeak.tag⟩)
  · exact Or.inl ⟨by rw [hk]; decide, _, hv⟩
  · exact Or.inr (Or.inr ⟨hk, identity.progName, hv, hspeak.name⟩)

/-- Before its options have come, a filter says nothing of a program. -/
theorem optionField_header (kind : U16) : Netlink.optionField e kind (Netlink.filterHeader e payload) = none := by
  unfold Netlink.optionField
  split_ifs <;> rfl

/-- The inner pass over the options of one's own filter, in both directions. -/
theorem options_iff {options : List Netlink.Attr} {s t : Netlink.Filter}
    (hfold : foldKeyed Netlink.Attr.kind (Netlink.optionAttr e) Netlink.Filter.duplicate [] s options = .ok t)
    (hfresh : ∀ kind, Netlink.optionField e kind s = none) (hnodup : (options.map Netlink.Attr.kind).Nodup)
    (hknown : ∀ option ∈ options, Netlink.OptionKnown e option) :
    (∀ pair ∈ optionPairs e identity, Netlink.optionField e pair.1 t = some pair.2) ↔
      (pairsOf options).Perm (optionPairs e identity) := by
  constructor
  · intro hfields
    refine perm_of_keyed hnodup optionPairs_nodup (fun option hoption => (hknown option hoption).kind) ?_
    intro pair hpair
    refine foldKeyed_brings (Netlink.option_field pair.1) (fun option hoption _ => hknown option hoption) hfold ?_
      (hfields pair hpair) hnodup
    rw [hfresh]
    exact (Option.some_ne_none _).symm
  · intro hperm pair hpair
    obtain ⟨option, hoption, rfl⟩ := List.mem_map.mp (hperm.mem_iff.mpr hpair)
    exact foldKeyed_says (Netlink.option_field option.kind) hfold hnodup hoption rfl (hknown option hoption)

/-- With the flags of a direct action among the options, the filter is one. -/
theorem options_direct {options : List Netlink.Attr} {s t : Netlink.Filter}
    (hfold : foldKeyed Netlink.Attr.kind (Netlink.optionAttr e) Netlink.Filter.duplicate [] s options = .ok t)
    (hnodup : (options.map Netlink.Attr.kind).Nodup) (hperm : (pairsOf options).Perm (optionPairs e identity)) :
    t.directAction = true := by
  have hflags : (Netlink.TCA_BPF_FLAGS, e.ofWord Netlink.TCA_BPF_FLAG_ACT_DIRECT) ∈ pairsOf options :=
    hperm.mem_iff.mpr List.mem_cons_self
  obtain ⟨option, hoption, heq⟩ := List.mem_map.mp hflags
  obtain ⟨hkind, hpayload⟩ := Prod.mk.inj heq
  rcases foldKeyed_field Netlink.option_direct hfold hnodup with ⟨habsent, -⟩ | ⟨other, hother, hkind', flags, hv, ht⟩
  · exact absurd hkind (habsent option hoption)
  · obtain rfl : other = option := List.inj_on_of_nodup_map hnodup hother hoption (hkind'.trans hkind.symm)
    obtain rfl := Netlink.ofWord_injective (hv.symm.trans hpayload)
    exact ht

theorem parseFilter_ok : Netlink.parseFilter e payload = .ok filter ↔
    20 ≤ payload.length ∧ 0 < filter.ifindex.toInt ∧ ∃ out, Netlink.attrs e (payload.drop 20) = .ok out ∧
      foldKeyed Netlink.Attr.kind (Netlink.filterAttr e) Netlink.Filter.duplicate [] (Netlink.filterHeader e payload) out =
        .ok filter := by
  have hparse : Netlink.parseFilter e payload = (Netlink.readStruct 20 payload >>= fun _ =>
      Netlink.readBody e (Netlink.filterAttr e) Netlink.Filter.duplicate 20 payload (Netlink.filterHeader e payload)) >>=
        fun filter => (Netlink.positiveIndex filter.ifindex).map fun ifindex => { filter with ifindex } := by
    unfold Netlink.parseFilter
    cases Netlink.readStruct 20 payload <;> rfl
  rw [hparse, Lib.bind_ok]
  constructor
  · rintro ⟨read, hread, hindex⟩
    obtain ⟨hlength, hout⟩ := Netlink.readBody_ok.mp hread
    obtain ⟨ifindex, hpositive, rfl⟩ := map_ok.mp hindex
    unfold Netlink.positiveIndex at hpositive
    split at hpositive
    · rename_i hpos
      obtain rfl := Except.ok.inj hpositive
      exact ⟨hlength, hpos, hout⟩
    · cases hpositive
  · rintro ⟨hlength, hpos, hout⟩
    refine ⟨filter, Netlink.readBody_ok.mpr ⟨hlength, hout⟩, ?_⟩
    rw [Netlink.positiveIndex, if_pos hpos]
    rfl

theorem mem_pairsOf {out : List Netlink.Attr} {kind : U16} {bytes : List U8} :
    (kind, bytes) ∈ pairsOf out ↔ ∃ attr ∈ out, attr.kind = kind ∧ attr.payload = bytes := by
  unfold pairsOf
  simp only [List.mem_map, Prod.mk.injEq]

theorem speakable_of_options {options : List Netlink.Attr} (hperm : (pairsOf options).Perm (optionPairs e identity))
    (hknown : ∀ option ∈ options, Netlink.OptionKnown e option) : Speakable identity := by
  have htag : (Netlink.TCA_BPF_TAG, identity.progTag) ∈ pairsOf options :=
    hperm.mem_iff.mpr (List.mem_cons_of_mem _ (List.mem_cons_of_mem _ List.mem_cons_self))
  have hname : (Netlink.TCA_BPF_NAME, Netlink.cstrBytes identity.progName) ∈ pairsOf options :=
    hperm.mem_iff.mpr (List.mem_of_getLast? rfl)
  constructor
  · obtain ⟨option, hoption, hkind, hpayload⟩ := mem_pairsOf.mp htag
    rcases hknown option hoption with ⟨h, -⟩ | ⟨-, h⟩ | ⟨h, -⟩
    · rw [hkind] at h
      exact absurd h (by decide)
    · exact hpayload ▸ h
    · exact absurd (hkind.symm.trans h) (by decide)
  · obtain ⟨option, hoption, hkind, hpayload⟩ := mem_pairsOf.mp hname
    rcases hknown option hoption with ⟨h, -⟩ | ⟨h, -⟩ | ⟨-, text, htext, hzero⟩
    · rw [hkind] at h
      exact absurd h (by decide)
    · exact absurd (hkind.symm.trans h) (by decide)
    · obtain rfl := Netlink.cstrBytes_injective (hpayload.symm.trans htext)
      exact hzero

/-- What the reader knows of one's own attributes. -/
theorem filterKnown_of_attrs {out : List Netlink.Attr} (hspeak : Speakable identity) (h : FilterAttrs e out identity) :
    ∀ attr ∈ out, Netlink.FilterKnown e attr := by
  intro attr hattr
  have hsame : ∀ other ∈ out, other.kind = attr.kind → other = attr :=
    fun other hother hkind => List.inj_on_of_nodup_map h.nodup hother hattr hkind
  rcases h.known attr hattr with hkind | hdiagnostic
  · simp only [List.mem_cons, List.not_mem_nil, or_false] at hkind
    rcases hkind with hkind | hkind | hkind
    · obtain ⟨other, hother, hkind', hpayload⟩ := mem_pairsOf.mp h.kind
      obtain rfl := hsame other hother (hkind'.trans hkind.symm)
      exact Or.inl ⟨hkind, "bpf", hpayload, by decide⟩
    · rcases h.chain with hchain | ⟨habsent, -⟩
      · obtain ⟨other, hother, hkind', hpayload⟩ := mem_pairsOf.mp hchain
        obtain rfl := hsame other hother (hkind'.trans hkind.symm)
        exact Or.inr (Or.inl ⟨hkind, _, hpayload⟩)
      · exact absurd hkind (habsent attr hattr)
    · obtain ⟨other, hother, hkind', options, hoptions, hperm⟩ := h.options
      obtain rfl := hsame other hother (hkind'.trans hkind.symm)
      have hkinds : (options.map Netlink.Attr.kind).Perm ((optionPairs e identity).map Prod.fst) := by
        have hmap := hperm.map Prod.fst
        rwa [pairsOf, List.map_map] at hmap
      refine Or.inr (Or.inr (Or.inl ⟨hkind, options, hoptions, hkinds.nodup_iff.mpr optionPairs_nodup, ?_⟩))
      exact fun option hoption => optionKnown_of_pair hspeak (hperm.mem_iff.mp (mem_pairsOf.mpr ⟨option, hoption, rfl, rfl⟩))
  · exact Or.inr (Or.inr (Or.inr hdiagnostic))

/-- The options attribute of a filter that the reader knows. -/
theorem options_of_known {attr : Netlink.Attr} {options : List Netlink.Attr} (hknown : Netlink.FilterKnown e attr)
    (hkind : attr.kind = Netlink.TCA_OPTIONS) (hoptions : Netlink.attrs e attr.payload = .ok options) :
    (options.map Netlink.Attr.kind).Nodup ∧ ∀ option ∈ options, Netlink.OptionKnown e option := by
  rcases hknown with ⟨h, -⟩ | ⟨h, -⟩ | ⟨-, options', hoptions', hknown⟩ | h
  · exact absurd (hkind.symm.trans h) (by decide)
  · exact absurd (hkind.symm.trans h) (by decide)
  · obtain rfl := Except.ok.inj (hoptions.symm.trans hoptions')
    exact hknown
  · rw [hkind] at h
    exact absurd h (by decide)

/-- The fields that the header sets. -/
theorem filterPlace_iff {out : List Netlink.Attr}
    (hfold : foldKeyed Netlink.Attr.kind (Netlink.filterAttr e) Netlink.Filter.duplicate []
      (Netlink.filterHeader e payload) out = .ok filter) :
    (filter.ifindex = identity.ifindex ∧ filter.parent = identity.parent ∧ filter.handle = identity.handle ∧
      filter.priority = identity.priority ∧ filter.protocol = identity.protocol) ↔
    Netlink.headerWord e payload 4 = identity.ifindex ∧ Netlink.headerWord e payload 8 = identity.handle ∧
      Netlink.headerWord e payload 12 = identity.parent ∧
      Netlink.headerWord e payload 16 = Netlink.tcInfo e identity.priority identity.protocol := by
  have hrest := Netlink.filterRest_fold hfold
  unfold Netlink.filterRest Netlink.filterHeader at hrest
  simp only [Prod.mk.injEq] at hrest
  obtain ⟨hifindex, hparent, hhandle, hpriority, hprotocol⟩ := hrest
  rw [hifindex, hparent, hhandle, hpriority, hprotocol, Netlink.tcInfo_iff]
  tauto

/-- **An identity on the wire**: a dumped filter matches it exactly if the header gives its place and the attributes
its kind, its chain and, inside the options, its program, each once and in any order. -/
theorem filter_wire (e : Endian) (payload : List U8) (identity : Netlink.FilterIdentity) :
    (∃ filter, Netlink.parseFilter e payload = .ok filter ∧ identity.matchesFilter filter = true) ↔
      Speakable identity ∧ FilterPlace e payload identity ∧
        ∃ out, Netlink.attrs e (payload.drop 20) = .ok out ∧ FilterAttrs e out identity := by
  constructor
  · rintro ⟨filter, hparse, hmatches⟩
    obtain ⟨hlength, hpositive, out, hout, hfold⟩ := parseFilter_ok.mp hparse
    obtain ⟨⟨hclean, hplace, hkind, hchain, -⟩, hfields⟩ := (@matchesFilter_iff e _ _).mp hmatches
    obtain ⟨-, hnodup, -, hknown⟩ := (foldKeyed_clean Netlink.filter_marking out [] _).mp ⟨filter, hfold, hclean⟩
    obtain ⟨hifindex, hhandle, hparent, hinfo⟩ := (filterPlace_iff hfold).mp hplace
    have hbpf : (Netlink.TCA_KIND, Netlink.cstrBytes "bpf") ∈ pairsOf out := by
      refine mem_pairsOf.mpr (foldKeyed_brings Netlink.filter_kind (fun _ _ _ => trivial) hfold ?_ ?_ hnodup)
      · exact (Option.some_ne_none _).symm
      · rw [hkind]
        rfl
    have hchains : (Netlink.TCA_CHAIN, e.ofWord identity.chain) ∈ pairsOf out ∨
        (∀ attr ∈ out, attr.kind ≠ Netlink.TCA_CHAIN) ∧ identity.chain = 0 := by
      rcases foldKeyed_field Netlink.filter_chain hfold hnodup with ⟨habsent, hstays⟩ | ⟨attr, hattr, hk, hpayload⟩
      · exact Or.inr ⟨habsent, hchain.symm.trans hstays⟩
      · exact Or.inl (mem_pairsOf.mpr ⟨attr, hattr, hk, hchain ▸ hpayload⟩)
    have hkinds : ∀ attr ∈ out, attr.kind ∈ [Netlink.TCA_KIND, Netlink.TCA_CHAIN, Netlink.TCA_OPTIONS] ∨
        Netlink.Diagnostic attr.kind := by
      intro attr hattr
      rcases hknown attr hattr with ⟨h, -⟩ | ⟨h, -⟩ | ⟨h, -⟩ | h
      · exact Or.inl (h ▸ List.mem_cons_self)
      · exact Or.inl (h ▸ List.mem_cons_of_mem _ List.mem_cons_self)
      · exact Or.inl (h ▸ List.mem_cons_of_mem _ (List.mem_cons_of_mem _ List.mem_cons_self))
      · exact Or.inr h
    rcases foldKeyed_field Netlink.filter_options hfold hnodup with ⟨-, hstays⟩ |
      ⟨attr, hattr, hk, options, s, t, hoptions, hinner, hs, ht⟩
    · have hflags := hfields _ List.mem_cons_self
      rw [(Netlink.filterOptions_eq hstays _).1, optionField_header] at hflags
      cases hflags
    · obtain ⟨hnodup', hknown'⟩ := options_of_known (hknown attr hattr) hk hoptions
      have hfresh : ∀ kind, Netlink.optionField e kind s = none := by
        intro kind
        rw [(Netlink.filterOptions_eq hs kind).1, optionField_header]
      have hperm := (@options_iff e identity _ _ _ hinner hfresh hnodup' hknown').mp (by
        intro pair hpair
        rw [(Netlink.filterOptions_eq ht pair.1).1]
        exact hfields pair hpair)
      exact ⟨speakable_of_options hperm hknown', ⟨hlength, hplace.1 ▸ hpositive, hifindex, hhandle, hparent, hinfo⟩,
        out, hout, hnodup, hkinds, hbpf, hchains, attr, hattr, hk, options, hoptions, hperm⟩
  · rintro ⟨hspeak, hplace, out, hout, hattrs⟩
    have hknown := filterKnown_of_attrs hspeak hattrs
    obtain ⟨filter, hfold, hclean⟩ := (foldKeyed_clean Netlink.filter_marking out [] (Netlink.filterHeader e payload)).mpr
      ⟨⟨rfl, rfl⟩, hattrs.nodup, fun _ _ => List.not_mem_nil, hknown⟩
    have hplace' := (@filterPlace_iff e filter identity payload _ hfold).mpr
      ⟨hplace.ifindex, hplace.handle, hplace.parent, hplace.info⟩
    have hsame : ∀ attr ∈ out, ∀ other ∈ out, attr.kind = other.kind → attr = other :=
      fun attr hattr other hother => List.inj_on_of_nodup_map hattrs.nodup hattr hother
    have hkind : filter.kind = some "bpf" := by
      obtain ⟨attr, hattr, hk, hpayload⟩ := mem_pairsOf.mp hattrs.kind
      have hsays := foldKeyed_says Netlink.filter_kind hfold hattrs.nodup hattr hk trivial
      rw [hpayload] at hsays
      exact Netlink.map_cstr_eq.mp hsays
    have hchain : filter.chain = identity.chain := by
      rcases foldKeyed_field Netlink.filter_chain hfold hattrs.nodup with ⟨habsent, hstays⟩ | ⟨attr, hattr, hk, hpayload⟩
      · rcases hattrs.chain with h | ⟨-, h⟩
        · obtain ⟨attr, hattr, hk, -⟩ := mem_pairsOf.mp h
          exact absurd hk (habsent attr hattr)
        · exact hstays.trans h.symm
      · rcases hattrs.chain with h | ⟨h, -⟩
        · obtain ⟨other, hother, hk', hpayload'⟩ := mem_pairsOf.mp h
          obtain rfl := hsame attr hattr other hother (hk.trans hk'.symm)
          exact Netlink.ofWord_injective (hpayload.symm.trans hpayload')
        · exact absurd hk (h attr hattr)
    refine ⟨filter, parseFilter_ok.mpr ⟨hplace.length, hplace'.1 ▸ hplace.positive, out, hout, hfold⟩, ?_⟩
    obtain ⟨attr, hattr, hk, options, hoptions, hperm⟩ := hattrs.options
    rcases foldKeyed_field Netlink.filter_options hfold hattrs.nodup with ⟨habsent, -⟩ |
      ⟨other, hother, hk', options', s, t, hoptions', hinner, hs, ht⟩
    · exact absurd hk (habsent attr hattr)
    · obtain rfl := hsame other hother attr hattr (hk'.trans hk.symm)
      obtain rfl := Except.ok.inj (hoptions.symm.trans hoptions')
      obtain ⟨hnodup', hknown'⟩ := options_of_known (hknown other hother) hk hoptions
      have hfresh : ∀ kind, Netlink.optionField e kind s = none := by
        intro kind
        rw [(Netlink.filterOptions_eq hs kind).1, optionField_header]
      refine (@matchesFilter_iff e _ _).mpr ⟨⟨hclean, hplace', hkind, hchain, ?_⟩, ?_⟩
      · rw [← (@Netlink.filterOptions_eq e _ _ ht 0).2]
        exact options_direct hinner hnodup' hperm
      · intro pair hpair
        rw [← (Netlink.filterOptions_eq ht pair.1).1]
        exact (options_iff hinner hfresh hnodup' hknown').mpr hperm pair hpair

end Filters

end FluxRs.Dataplane
