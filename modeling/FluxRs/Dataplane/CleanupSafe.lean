import FluxRs.Dataplane.Cleanup

/-!
# FluxRs.Dataplane.CleanupSafe — the cleanup deletes nothing of others

A plan exists only where every reserved slot that the cleanup looks at holds objects of Flux.  Its requests carry
values that only the objects of such slots have.
-/

namespace FluxRs.Dataplane

open FluxRs.Lib Fallible

/-! ### What is reserved and what is owned -/

/-- `attached_program_owned` where no call fails. -/
def programOwned (k : Netlink.Kernel) (id : U32) (name : String) (tag : List U8) : Bool :=
  PROG_NAMES.contains name
    && (k.programs.find? fun program => program.id == id).any fun program =>
      program.programType == BPF_PROG_TYPE_SCHED_CLS
        && program.id == id
        && program.name == name
        && program.tag == tag
        && programMaps program == expectedProgramMaps name

/-- The complete predicate of a filter that was found below a parent of the link. -/
def ownedAt (k : Netlink.Kernel) (peerIfindex : Option U32) (link : Netlink.Link) (qdiscOwned : Bool) (parent : U32)
    (f : Netlink.Filter) : Bool :=
  qdiscOwned
    && expectedStaleFilter link peerIfindex parent f (filterName f)
    && (identityOf link parent f).any fun identity =>
      identity.matchesFilter f && programOwned k identity.progId (filterName f) identity.progTag

def ownsFilter (k : Netlink.Kernel) (peerIfindex : Option U32) (link : Netlink.Link) (f : Netlink.Filter) : Bool :=
  ownedAt k peerIfindex link ((clsactOf k.snapshot link).any fun qdisc => exactClsact qdisc link.ifindex) f.parent f

/-- The filter hangs where the cleanup looks. -/
def InspectedAt (k : Netlink.Kernel) (peerIfindex : Option U32) (link : Netlink.Link) (f : Netlink.Filter) : Prop :=
  link.ifindex = f.ifindex ∧ (clsactOf k.snapshot link).isSome ∧ f.parent ∈ parentsOf link peerIfindex

/-- The peer of the exact pair. -/
def peerOf (k : Netlink.Kernel) : Option U32 :=
  match classifyPair k.snapshot with
  | .ok (some (_, peer)) => some peer.ifindex
  | _ => none

def Owns (k : Netlink.Kernel) : Netlink.Object → Prop
  | .link link => ∃ host peer, classifyPair k.snapshot = .ok (some (host, peer)) ∧ (link = host ∨ link = peer)
  | .rule rule => isOwnedRule rule = true
  | .route route => ∃ lo, linkNamed k.snapshot "lo" = some lo ∧ isOwnedRoute route lo.ifindex = true
  | .qdisc _ => False
  | .filter f => ∃ link ∈ k.links, link.ifindex = f.ifindex ∧ ownsFilter k (peerOf k) link f = true

def Reserved (k : Netlink.Kernel) : Netlink.Object → Prop
  | .link link => link.name = HOST_NAME ∨ link.name = PEER_NAME
  | .rule rule => rule.priority = some RULE_PRIORITY
  | .route route => route.table = ROUTE_TABLE
  | .qdisc _ => False
  | .filter f => reservedFilter f.parent f = true ∧ ∃ link ∈ k.links, InspectedAt k (peerOf k) link f

/-- The reserved slots hold nothing of others. -/
def Clean (k : Netlink.Kernel) : Prop := ∀ o, k.Has o → Reserved k o → Owns k o

/-- Whatever the request can mean is Flux's. -/
def Safe (k : Netlink.Kernel) (request : Netlink.Deletion) : Prop := ∀ o, k.Has o → request.Names k o → Owns k o

/-! ### Calls leave the kernel alone -/

def Still (k : Netlink.Kernel) (sent : List Netlink.Deletion) (s : Session) : Prop := s.kernel = k ∧ s.sent = sent

variable {answers : Answers} {k : Netlink.Kernel} {sent : List Netlink.Deletion} {s : Session}

theorem ends_call {α : Type} {f : Netlink.Kernel → α} (hs : Still k sent s) :
    Ends (call answers f) s (fun a s' => Still k sent s' ∧ ∀ x, a = .ok x → x = f k) (Still k sent) := by
  obtain ⟨rfl, rfl⟩ := hs
  unfold Ends call
  cases answers.fault s.calls with
  | some error => exact ⟨⟨rfl, rfl⟩, fun x hx => by cases hx⟩
  | none => exact ⟨⟨rfl, rfl⟩, fun x hx => (Except.ok.inj hx).symm⟩

theorem ends_mapErr {α : Type} {g : Netlink.IoError → CleanupError} {a : Except Netlink.IoError α}
    {Q : α → Session → Prop} {E : Session → Prop} (h : ∀ x, a = .ok x → Q x s) (hE : E s) :
    Ends (mapErr g a) s Q E := by
  cases a with
  | error error => exact ends_fail hE
  | ok x => exact ends_pure (h x rfl)

theorem ends_checked {α : Type} {a : Except CleanupError α} (hs : Still k sent s) :
    Ends (orFail a) s (fun x s' => Still k sent s' ∧ a = .ok x) (Still k sent) := by
  cases a with
  | error error => exact ends_fail hs
  | ok x => exact ends_pure ⟨hs, rfl⟩

/-- A call whose error ends the computation. -/
theorem ends_read {α β : Type} {f : Netlink.Kernel → α} {g : Netlink.IoError → CleanupError} {rest : α → Act β}
    {Q : β → Session → Prop} (hs : Still k sent s)
    (h : ∀ s', Still k sent s' → Ends (rest (f k)) s' Q (Still k sent)) :
    Ends (call answers f >>= fun a => mapErr g a >>= rest) s Q (Still k sent) := by
  refine Ends.bind (ends_call hs) fun a s₁ ha => ?_
  have hmap : Ends (mapErr g a) s₁ (fun x s' => Still k sent s' ∧ x = f k) (Still k sent) :=
    ends_mapErr (fun x hx => ⟨ha.1, ha.2 x hx⟩) ha.1
  refine Ends.bind hmap fun x s₂ hx => ?_
  obtain ⟨hs₂, rfl⟩ := hx
  exact h s₂ hs₂

theorem ends_programMatches {program : Netlink.Program} {id : U32} {name : String} {tag : List U8}
    (hs : Still k sent s) :
    Ends (programMatches answers program id name tag) s
      (fun b s' => Still k sent s' ∧ (b = true → (program.programType == BPF_PROG_TYPE_SCHED_CLS
        && program.id == id && program.name == name && program.tag == tag
        && programMaps program == expectedProgramMaps name) = true)) (Still k sent) := by
  unfold programMatches
  refine ends_read hs fun s₁ hs₁ => ?_
  by_cases hinfo : program.programType ≠ BPF_PROG_TYPE_SCHED_CLS ∨ program.id ≠ id ∨ program.name ≠ name ∨
      program.tag ≠ tag
  · rw [if_pos hinfo]
    exact ends_pure ⟨hs₁, fun h => by cases h⟩
  · rw [if_neg hinfo]
    refine ends_read hs₁ fun s₂ hs₂ => ends_pure ⟨hs₂, fun hnames => ?_⟩
    simp only [ne_eq, not_or, not_not] at hinfo
    obtain ⟨htype, hid, hname, htag⟩ := hinfo
    simp only [Bool.and_eq_true, beq_iff_eq]
    exact ⟨⟨⟨⟨htype, hid⟩, hname⟩, htag⟩, beq_iff_eq.mp hnames⟩

theorem ends_attachedProgramOwned {id : U32} {name : String} {tag : List U8} (hs : Still k sent s) :
    Ends (attachedProgramOwned answers id name tag) s
      (fun b s' => Still k sent s' ∧ (b = true → programOwned k id name tag = true)) (Still k sent) := by
  unfold attachedProgramOwned
  by_cases hname : name ∉ PROG_NAMES
  · rw [if_pos hname]
    exact ends_pure ⟨hs, fun h => by cases h⟩
  · rw [if_neg hname]
    refine Ends.bind (ends_call hs) fun found s₁ hfound => ?_
    obtain ⟨hs₁, hfound⟩ := hfound
    cases found with
    | error error =>
      show Ends (if error.rawOsError = some ENOENT then pure false else fail _) s₁ _ _
      by_cases habsent : error.rawOsError = some ENOENT
      · rw [if_pos habsent]
        exact ends_pure ⟨hs₁, fun h => by cases h⟩
      · rw [if_neg habsent]
        exact ends_fail hs₁
    | ok found =>
      have hk := hfound found rfl
      cases found with
      | none => exact ends_pure ⟨hs₁, fun h => by cases h⟩
      | some program =>
        refine Ends.mono (ends_programMatches hs₁) (fun b s' hb => ⟨hb.1, fun h => ?_⟩) fun _ h => h
        rw [programOwned, ← hk, Bool.and_eq_true]
        exact ⟨List.contains_iff_mem.mpr (not_not.mp hname), hb.2 h⟩

/-! ### The plan -/

variable {link : Netlink.Link} {peerIfindex : Option U32} {qdiscOwned : Bool} {parent : U32} {f : Netlink.Filter}

theorem ends_planReserved (hs : Still k sent s) :
    Ends (planReserved answers link peerIfindex qdiscOwned parent f) s
      (fun out s' => Still k sent s' ∧ ownedAt k peerIfindex link qdiscOwned parent f = true ∧
        ∀ o ∈ out, f.key = o.identity.key) (Still k sent) := by
  unfold planReserved ownedAt
  cases hidentity : identityOf link parent f with
  | none => exact ends_fail hs
  | some identity =>
    by_cases hwrong : (!(qdiscOwned && expectedStaleFilter link peerIfindex parent f (filterName f))
        || !identity.matchesFilter f) = true
    · show Ends (if _ then _ else _) s _ _
      rw [if_pos hwrong]
      exact ends_fail hs
    · show Ends (if _ then _ else _) s _ _
      rw [if_neg hwrong]
      simp only [Bool.or_eq_true, Bool.not_eq_true', not_or, Bool.not_eq_false] at hwrong
      obtain ⟨hexpected, hmatches⟩ := hwrong
      refine Ends.bind (ends_attachedProgramOwned hs) fun owned s₁ howned => ?_
      cases owned with
      | false => exact ends_fail howned.1
      | true =>
        refine ends_pure ⟨howned.1, ?_, ?_⟩
        · rw [hexpected, Bool.true_and, Option.any_some, hmatches, Bool.true_and]
          exact howned.2 rfl
        · intro o ho
          obtain rfl := List.mem_singleton.mp ho
          exact Netlink.FilterIdentity.key_of_matches hmatches

/-- A filter of a reserved slot is planned only if it is Flux's, and others are not planned. -/
def Settles (k : Netlink.Kernel) (peerIfindex : Option U32) (link : Netlink.Link) (qdiscOwned : Bool) (parent : U32)
    (f : Netlink.Filter) (out : List OwnedFilter) : Prop :=
  (reservedFilter parent f = true → ownedAt k peerIfindex link qdiscOwned parent f = true) ∧
    ∀ o ∈ out, reservedFilter parent f = true ∧ f.key = o.identity.key

theorem ends_planFilter (hs : Still k sent s) :
    Ends (planFilter answers link peerIfindex qdiscOwned parent f) s
      (fun out s' => Still k sent s' ∧ Settles k peerIfindex link qdiscOwned parent f out) (Still k sent) := by
  unfold planFilter
  by_cases hreserved : reservedFilter parent f = true
  · rw [if_pos hreserved]
    refine Ends.mono (ends_planReserved hs) (fun out s' hout => ?_) fun _ h => h
    exact ⟨hout.1, fun _ => hout.2.1, fun o ho => ⟨hreserved, hout.2.2 o ho⟩⟩
  · rw [if_neg hreserved]
    exact ends_pure ⟨hs, fun h => absurd h hreserved, fun o ho => absurd ho List.not_mem_nil⟩

theorem ends_planParent (hs : Still k sent s) :
    Ends (planParent answers link peerIfindex qdiscOwned parent) s
      (fun out s' => Still k sent s' ∧
        (∀ f ∈ k.dumpFilters link.ifindex parent, reservedFilter parent f = true →
          ownedAt k peerIfindex link qdiscOwned parent f = true) ∧
        ∀ o ∈ out, ∃ f ∈ k.dumpFilters link.ifindex parent, reservedFilter parent f = true ∧
          f.key = o.identity.key) (Still k sent) := by
  unfold planParent
  refine ends_read hs fun s₁ hs₁ => ?_
  refine Ends.mono (ends_collect hs₁ fun f _ s hs => ends_planFilter hs) (fun out s' hout => ?_) fun _ h => h
  obtain ⟨hs', hall, hfrom⟩ := hout
  refine ⟨hs', fun f hf hreserved => ?_, fun o ho => ?_⟩
  · obtain ⟨part, hpart⟩ := hall f hf
    exact hpart.1 hreserved
  · obtain ⟨f, hf, part, hpart, hmem⟩ := hfrom o ho
    exact ⟨f, hf, hpart.2 o hmem⟩

theorem ends_planLink (hs : Still k sent s) :
    Ends (planLink answers k.snapshot peerIfindex link) s
      (fun out s' => Still k sent s' ∧
        (∀ f ∈ k.filters, InspectedAt k peerIfindex link f → reservedFilter f.parent f = true →
          ownsFilter k peerIfindex link f = true) ∧
        ∀ o ∈ out, ∃ f ∈ k.filters, InspectedAt k peerIfindex link f ∧ reservedFilter f.parent f = true ∧
          f.key = o.identity.key) (Still k sent) := by
  unfold planLink
  cases hclsact : clsactOf k.snapshot link with
  | none =>
    refine ends_pure ⟨hs, fun f _ hat _ => ?_, fun o ho => absurd ho List.not_mem_nil⟩
    rw [InspectedAt, hclsact] at hat
    exact absurd hat.2.1 Bool.false_ne_true
  | some qdisc =>
    refine Ends.mono (ends_collect hs fun parent _ s hs => ends_planParent hs) (fun out s' hout => ?_) fun _ h => h
    obtain ⟨hs', hall, hfrom⟩ := hout
    refine ⟨hs', fun f hf hat hreserved => ?_, fun o ho => ?_⟩
    · obtain ⟨part, hpart⟩ := hall f.parent hat.2.2
      rw [ownsFilter, hclsact, Option.any_some]
      exact hpart.1 f (Netlink.Kernel.mem_dumpFilters.mpr ⟨hf, hat.1.symm, rfl⟩) hreserved
    · obtain ⟨parent, hparent, part, hpart, hmem⟩ := hfrom o ho
      obtain ⟨f, hf, hreserved, hkey⟩ := hpart.2 o hmem
      obtain ⟨hmem', hifindex, rfl⟩ := Netlink.Kernel.mem_dumpFilters.mp hf
      refine ⟨f, hmem', ⟨hifindex.symm, ?_, hparent⟩, hreserved, hkey⟩
      rw [hclsact]
      rfl

theorem ends_tcCleanupPlan (hs : Still k sent s) :
    Ends (tcCleanupPlan answers k.snapshot peerIfindex) s
      (fun out s' => Still k sent s' ∧
        (∀ link ∈ k.links, ∀ f ∈ k.filters, InspectedAt k peerIfindex link f → reservedFilter f.parent f = true →
          ownsFilter k peerIfindex link f = true) ∧
        ∀ o ∈ out, ∃ f ∈ k.filters, reservedFilter f.parent f = true ∧ f.key = o.identity.key ∧
          ∃ link ∈ k.links, InspectedAt k peerIfindex link f) (Still k sent) := by
  unfold tcCleanupPlan
  refine Ends.bind (ends_collect hs fun link _ s hs => ends_planLink hs) fun out s₁ hout => ?_
  obtain ⟨hs₁, hall, hfrom⟩ := hout
  refine ends_pure ⟨hs₁, fun link hlink => ?_, fun o ho => ?_⟩
  · obtain ⟨part, hpart⟩ := hall link hlink
    exact hpart.1
  · obtain ⟨link, hlink, part, hpart, hmem⟩ := hfrom o (List.mem_mergeSort.mp ho)
    obtain ⟨f, hf, hat, hreserved, hkey⟩ := hpart.2 o hmem
    exact ⟨f, hf, hreserved, hkey, link, hlink, hat⟩

theorem ownedFamilies_ok {α : Type} {owned : α → Bool} {family : α → U8} {conflict : CleanupError} :
    ∀ {objects : List α} {families : List U8}, ownedFamilies owned family conflict objects = .ok families →
      ∀ o ∈ objects, owned o = true
  | [], _, _ => List.forall_mem_nil _
  | object :: objects, families, h => by
    rw [ownedFamilies] at h
    by_cases howned : owned object = true
    · rw [if_pos howned] at h
      cases hrest : ownedFamilies owned family conflict objects with
      | error error =>
        rw [hrest] at h
        cases h
      | ok rest => exact List.forall_mem_cons.mpr ⟨howned, ownedFamilies_ok hrest⟩
    · rw [if_neg howned] at h
      cases h

theorem linkNamed_eq_some {name : String} : linkNamed k.snapshot name = some link ↔ link ∈ k.links ∧ link.name = name := by
  unfold linkNamed
  constructor
  · intro h
    have hname := @List.find?_some _ (fun l : Netlink.Link => l.name == name) _ _ h
    exact ⟨List.mem_of_find?_eq_some h, beq_iff_eq.mp hname⟩
  · rintro ⟨hmem, rfl⟩
    cases hfind : k.snapshot.links.find? fun l => l.name == link.name with
    | none => exact absurd (beq_self_eq_true link.name) (List.find?_eq_none.mp hfind link hmem)
    | some l =>
      have hname := @List.find?_some _ (fun l : Netlink.Link => l.name == link.name) _ _ hfind
      rw [Netlink.Kernel.link_of_name (List.mem_of_find?_eq_some hfind) hmem (beq_iff_eq.mp hname)]

/-- The pair is what the two names are, and it is exact. -/
theorem classifyPair_ok {pair : Option (Netlink.Link × Netlink.Link)} (h : classifyPair k.snapshot = .ok pair) :
    linkNamed k.snapshot HOST_NAME = pair.map Prod.fst ∧ linkNamed k.snapshot PEER_NAME = pair.map Prod.snd ∧
      ∀ host peer, pair = some (host, peer) → exactPair host peer = true := by
  unfold classifyPair at h
  split at h
  · next hhost hpeer =>
    obtain rfl := Except.ok.inj h
    exact ⟨hhost, hpeer, fun _ _ h => by cases h⟩
  · next host peer hhost hpeer =>
    by_cases hexact : exactPair host peer = true
    · rw [if_pos hexact] at h
      obtain rfl := Except.ok.inj h
      refine ⟨hhost, hpeer, fun host' peer' heq => ?_⟩
      obtain ⟨rfl, rfl⟩ := Prod.mk.inj (Option.some.inj heq)
      exact hexact
    · rw [if_neg hexact] at h
      split at h
      · cases h
      · split at h <;> cases h
  · split at h <;> cases h
  · split at h <;> cases h

structure Fits (k : Netlink.Kernel) (plan : CleanupPlan) : Prop where
  clean : Clean k
  filters : ∀ o ∈ plan.tcFilters, ∃ f, k.Has (.filter f) ∧ Reserved k (.filter f) ∧ f.key = o.identity.key
  host : ∀ ifindex, plan.hostIfindex = some ifindex →
    ∃ host peer, classifyPair k.snapshot = .ok (some (host, peer)) ∧ host.ifindex = ifindex

theorem ends_cleanupPlan (hs : Still k sent s) :
    Ends (cleanupPlan answers) s (fun plan s' => Still k sent s' ∧ Fits k plan) (Still k sent) := by
  unfold cleanupPlan
  refine ends_read hs fun s₁ hs₁ => ?_
  refine Ends.bind (ends_checked hs₁) fun lo s₂ hfound => ?_
  obtain ⟨hs₂, hfound⟩ := hfound
  have hlo : linkNamed k.snapshot "lo" = some lo := by
    cases hnamed : linkNamed k.snapshot "lo" with
    | none =>
      rw [hnamed] at hfound
      cases hfound
    | some lo' =>
      rw [hnamed] at hfound
      exact congrArg some (Except.ok.inj hfound)
  refine Ends.bind (ends_checked hs₂) fun pair s₃ hpair => ?_
  obtain ⟨hs₃, hpair⟩ := hpair
  refine Ends.bind (ends_tcCleanupPlan hs₃) fun tc s₄ htc => ?_
  obtain ⟨hs₄, hall, hfrom⟩ := htc
  refine Ends.bind (ends_checked hs₄) fun rules s₅ hrules => ?_
  obtain ⟨hs₅, hrules⟩ := hrules
  refine Ends.bind (ends_checked hs₅) fun routes s₆ hroutes => ?_
  obtain ⟨hs₆, hroutes⟩ := hroutes
  have hpeer : peerOf k = pair.map fun pair => pair.2.ifindex := by
    unfold peerOf
    rw [hpair]
    cases pair with
    | none => rfl
    | some pair => rfl
  rw [← hpeer] at hall hfrom
  obtain ⟨hhost, hpeerNamed, -⟩ := classifyPair_ok hpair
  refine ends_pure ⟨hs₆, ?_, ?_, ?_⟩
  · intro o ho hreserved
    cases o with
    | link link =>
      rcases hreserved with hname | hname
      · rw [linkNamed_eq_some.mpr ⟨ho, hname⟩] at hhost
        obtain ⟨⟨host, peer⟩, hsome, hlink⟩ := Option.map_eq_some_iff.mp hhost.symm
        exact ⟨host, peer, hsome ▸ hpair, .inl hlink.symm⟩
      · rw [linkNamed_eq_some.mpr ⟨ho, hname⟩] at hpeerNamed
        obtain ⟨⟨host, peer⟩, hsome, hlink⟩ := Option.map_eq_some_iff.mp hpeerNamed.symm
        exact ⟨host, peer, hsome ▸ hpair, .inr hlink.symm⟩
    | route route =>
      exact ⟨lo, hlo, ownedFamilies_ok hroutes route (List.mem_filter.mpr ⟨ho, beq_iff_eq.mpr hreserved⟩)⟩
    | rule rule => exact ownedFamilies_ok hrules rule (List.mem_filter.mpr ⟨ho, beq_iff_eq.mpr hreserved⟩)
    | qdisc qdisc => exact hreserved
    | filter f =>
      obtain ⟨hreserved, link, hlink, hat⟩ := hreserved
      exact ⟨link, hlink, hat.1, hall link hlink f ho hat hreserved⟩
  · intro o ho
    obtain ⟨f, hf, hreserved, hkey, hlinks⟩ := hfrom o ho
    exact ⟨f, hf, ⟨hreserved, hlinks⟩, hkey⟩
  · intro ifindex hifindex
    obtain ⟨⟨host, peer⟩, rfl, hindex⟩ := Option.map_eq_some_iff.mp hifindex
    exact ⟨host, peer, hpair, hindex⟩

/-! ### The requests of a plan -/

variable {plan : CleanupPlan}

theorem safe_deleteRule (h : Fits k plan) (family : U8) :
    Safe k (.rule family RULE_PRIORITY ROUTE_TABLE PEER_NAME) := by
  intro o ho hnames
  cases o with
  | rule rule => exact h.clean (.rule rule) ho hnames.2.1
  | link link => exact hnames.elim
  | route route => exact hnames.elim
  | qdisc qdisc => exact hnames.elim
  | filter f => exact hnames.elim

theorem safe_deleteRoute (h : Fits k plan) (family : U8) (loIfindex : U32) :
    Safe k (.route family ROUTE_TABLE ROUTE_PROTOCOL loIfindex) := by
  intro o ho hnames
  cases o with
  | route route => exact h.clean (.route route) ho hnames.2.1
  | link link => exact hnames.elim
  | rule rule => exact hnames.elim
  | qdisc qdisc => exact hnames.elim
  | filter f => exact hnames.elim

/-- Deleting the host end takes the peer along, and nothing else. -/
theorem safe_deleteLink (h : Fits k plan) {ifindex : U32} (hhost : plan.hostIfindex = some ifindex) :
    Safe k (.link ifindex) := by
  obtain ⟨host, peer, hpair, rfl⟩ := h.host ifindex hhost
  obtain ⟨hhostNamed, hpeerNamed, hexact⟩ := classifyPair_ok hpair
  have hmem := (linkNamed_eq_some.mp hhostNamed).1
  have hpeerMem := (linkNamed_eq_some.mp hpeerNamed).1
  intro o ho hnames
  cases o with
  | link link =>
    refine ⟨host, peer, hpair, ?_⟩
    rcases hnames with hindex | ⟨host', hhost', hindex, -, hends⟩
    · exact .inl (Netlink.Kernel.link_of_ifindex ho hmem hindex)
    · obtain rfl := Netlink.Kernel.link_of_ifindex hhost' hmem hindex
      have hpeer := hexact host' peer rfl
      simp only [exactPair, Bool.and_eq_true, beq_iff_eq] at hpeer
      have hsame : link.ifindex = peer.ifindex := Option.some.inj (hends.symm.trans hpeer.1.1.1.2)
      exact .inr (Netlink.Kernel.link_of_ifindex ho hpeerMem hsame)
  | route route => exact hnames.elim
  | rule rule => exact hnames.elim
  | qdisc qdisc => exact hnames.elim
  | filter f => exact hnames.elim

/-- A filter of Flux has a handle and a priority of its own. -/
theorem expectedStaleFilter_key {name : String} (h : expectedStaleFilter link peerIfindex parent f name = true) :
    f.handle ≠ 0 ∧ f.priority ≠ 0 := by
  unfold expectedStaleFilter at h
  by_cases hparent : (parent == Netlink.TC_H_INGRESS) = true
  · rw [if_pos hparent] at h
    simp only [Bool.and_eq_true, beq_iff_eq] at h
    rw [h.2, h.1.1.2]
    decide
  · rw [if_neg hparent] at h
    split at h
    · cases h
    · next hplace =>
      simp only [Bool.or_eq_true, not_or, decide_eq_true_eq] at hplace
      refine ⟨?_, fun hzero => hplace.1.2 (by rw [hzero]; decide)⟩
      split at h
      · rw [Bool.and_eq_true, beq_iff_eq] at h
        rw [h.1]
        decide
      · split at h
        · simp only [Bool.and_eq_true, beq_iff_eq] at h
          rw [h.1.2]
          decide
        · split at h
          · simp only [Bool.and_eq_true, beq_iff_eq] at h
            rw [h.1.2]
            decide
          · cases h

theorem safe_detach (h : Fits k plan) {owned : OwnedFilter} (howned : owned ∈ plan.tcFilters) :
    Safe k (detachRequest owned.identity) := by
  obtain ⟨f, hf, hreserved, hkey⟩ := h.filters owned howned
  obtain ⟨link, hlink, hindex, howns⟩ := h.clean (.filter f) hf hreserved
  have hexpected : expectedStaleFilter link (peerOf k) f.parent f (filterName f) = true := by
    rw [ownsFilter, ownedAt, Bool.and_eq_true, Bool.and_eq_true] at howns
    exact howns.1.2
  obtain ⟨hhandle, hpriority⟩ := expectedStaleFilter_key hexpected
  simp only [Netlink.Filter.key, Netlink.FilterIdentity.key, Prod.mk.injEq] at hkey
  obtain ⟨hifindex, hparent, hchain, hprio, hproto, hhand⟩ := hkey
  intro o ho hnames
  cases o with
  | filter f' =>
    obtain ⟨hifindex', hparent', hchain', hprio', hproto', hhand'⟩ := hnames
    have hsame : f'.key = f.key := by
      have hp := hprio'.resolve_left (hprio ▸ hpriority)
      have hh := hhand'.resolve_left (hhand ▸ hhandle)
      rw [Netlink.Filter.key, Netlink.Filter.key, hifindex', hparent', hchain', hp, hproto', hh, hifindex, hparent,
        hchain, hprio, hproto, hhand]
    rw [Netlink.Kernel.filter_of_key ho hf hsame]
    exact ⟨link, hlink, hindex, howns⟩
  | link link => exact hnames.elim
  | route route => exact hnames.elim
  | rule rule => exact hnames.elim
  | qdisc qdisc => exact hnames.elim

/-! ### The deletions -/

/-- All that was sent is safe. -/
def Harmless (k : Netlink.Kernel) (s : Session) : Prop := ∀ request ∈ s.sent, Safe k request

theorem Still.harmless {k' : Netlink.Kernel} {s' : Session} (h : Still k' s.sent s') (hs : Harmless k s) :
    Harmless k s' := by
  unfold Harmless
  rw [h.2]
  exact hs

theorem ends_send {request : Netlink.Deletion} (hs : Harmless k s) (hsafe : Safe k request) :
    Ends (send answers request) s (fun _ s' => Harmless k s') (Harmless k) := by
  have hsent : ∀ r ∈ s.sent ++ [request], Safe k r := by
    intro r hr
    rcases List.mem_append.mp hr with hr | hr
    · exact hs r hr
    · exact List.mem_singleton.mp hr ▸ hsafe
  unfold Ends send
  cases answers.delete s.calls s.kernel request with
  | error error => exact hsent
  | ok kernel => exact hsent

theorem ends_harmless_call {α : Type} {f : Netlink.Kernel → α} (hs : Harmless k s) :
    Ends (call answers f) s (fun _ s' => Harmless k s') (Harmless k) :=
  Ends.mono (ends_call ⟨rfl, rfl⟩) (fun _ _ h => h.1.harmless hs) fun _ h => h.harmless hs

theorem ends_harmless_owned {id : U32} {name : String} {tag : List U8} (hs : Harmless k s) :
    Ends (attachedProgramOwned answers id name tag) s (fun _ s' => Harmless k s') (Harmless k) :=
  Ends.mono (ends_attachedProgramOwned ⟨rfl, rfl⟩) (fun _ _ h => h.1.harmless hs) fun _ h => h.harmless hs

theorem ends_dumpRecordedParent {owned : OwnedFilter} (hs : Harmless k s) :
    Ends (dumpRecordedParent answers owned) s (fun _ s' => Harmless k s') (Harmless k) := by
  unfold dumpRecordedParent
  refine Ends.bind (ends_harmless_call hs) fun filters s₁ hs₁ => ?_
  cases filters with
  | ok filters => exact ends_pure hs₁
  | error error =>
    by_cases hgone : error.rawOsError = some ENODEV ∨ error.rawOsError = some ENOENT
    · rw [recordedParent, if_pos hgone]
      exact ends_pure hs₁
    · rw [recordedParent, if_neg hgone]
      exact ends_fail hs₁

theorem ends_detachIdentity {owned : OwnedFilter} (hs : Harmless k s) (hsafe : Safe k (detachRequest owned.identity)) :
    Ends (detachIdentity answers owned) s (fun _ s' => Harmless k s') (Harmless k) := by
  unfold detachIdentity
  refine Ends.bind (ends_dumpRecordedParent hs) fun first s₁ hs₁ => ?_
  cases first with
  | none => exact ends_pure hs₁
  | some first =>
    refine Ends.bind (ends_dumpRecordedParent hs₁) fun second s₂ hs₂ => ?_
    cases second with
    | none => exact ends_pure hs₂
    | some second =>
      by_cases hstale : first ≠ second
      · show Ends (if _ then _ else _) s₂ _ _
        rw [if_pos hstale]
        exact ends_fail hs₂
      · show Ends (if _ then _ else _) s₂ _ _
        rw [if_neg hstale]
        split
        · unfold detachFound
          refine Ends.bind (ends_harmless_owned hs₂) fun owns s₃ hs₃ => ?_
          split
          · refine Ends.bind (ends_harmless_call hs₃) fun index s₄ hs₄ => ?_
            split
            · refine Ends.bind (ends_send hs₄ hsafe) fun result s₅ hs₅ => ?_
              exact ends_mapErr (fun _ _ => hs₅) hs₅
            · exact ends_fail hs₄
          · exact ends_fail hs₃
        · exact ends_pure hs₂

/-- A deletion whose absent object is no error. -/
theorem ends_delete {request : Netlink.Deletion} {g : Netlink.IoError → CleanupError} (hs : Harmless k s)
    (hsafe : Safe k request) :
    Ends (send answers request >>= fun result => mapErr g (ignoreAbsent result)) s (fun _ s' => Harmless k s')
      (Harmless k) :=
  Ends.bind (ends_send hs hsafe) fun _ _ hs' => ends_mapErr (fun _ _ => hs') hs'

/-- What holds where the cleanup ends, and where it fails: nothing was sent, or both plans found every reserved slot
Flux's own. -/
theorem ends_cleanupOwned (hs : Still k [] s) :
    Ends (cleanupOwned answers) s
      (fun _ s' => Harmless (answers.meanwhile k) s' ∧ Clean k ∧ Clean (answers.meanwhile k))
      (fun s' => Harmless (answers.meanwhile k) s' ∧ (s'.sent = [] ∨ Clean k ∧ Clean (answers.meanwhile k))) := by
  have hquiet : ∀ k₀ s', Still k₀ [] s' →
      Harmless (answers.meanwhile k) s' ∧ (s'.sent = [] ∨ Clean k ∧ Clean (answers.meanwhile k)) := by
    intro k₀ s' hs'
    refine ⟨fun request hmem => ?_, .inl hs'.2⟩
    rw [hs'.2] at hmem
    exact absurd hmem List.not_mem_nil
  unfold cleanupOwned
  refine Ends.bind (Ends.mono (ends_cleanupPlan hs) (fun _ _ h => h) (hquiet k)) fun first s₁ hfirst => ?_
  obtain ⟨hs₁, hclean⟩ := hfirst
  -- others have changed the kernel: the second plan is of the new one
  have hchanged : Still (answers.meanwhile k) [] { s₁ with kernel := answers.meanwhile s₁.kernel } :=
    ⟨congrArg answers.meanwhile hs₁.1, hs₁.2⟩
  refine Ends.update ?_
  refine Ends.bind (Ends.mono (ends_cleanupPlan hchanged) (fun _ _ h => h) (hquiet _)) fun plan s₂ hplan => ?_
  obtain ⟨hs₂, hfits⟩ := hplan
  by_cases hstale : first ≠ plan
  · rw [if_pos hstale]
    exact ends_fail (hquiet _ s₂ hs₂)
  · rw [if_neg hstale]
    have hboth : Clean k ∧ Clean (answers.meanwhile k) := ⟨hclean.clean, hfits.clean⟩
    refine Ends.mono (Q := fun _ s' => Harmless (answers.meanwhile k) s') (E := Harmless (answers.meanwhile k)) ?_
      (fun _ _ h => ⟨h, hboth⟩) fun _ h => ⟨h, .inr hboth⟩
    refine Ends.bind (ends_each (hquiet _ s₂ hs₂).1 fun owned howned s hs =>
      ends_detachIdentity hs (safe_detach hfits howned)) fun _ s₃ hs₃ => ?_
    refine Ends.bind (ends_each hs₃ fun family _ s hs => ends_delete hs (safe_deleteRule hfits family))
      fun _ s₄ hs₄ => ?_
    refine Ends.bind (ends_each hs₄ fun family _ s hs => ends_delete hs (safe_deleteRoute hfits family plan.loIfindex))
      fun _ s₅ hs₅ => ?_
    refine Ends.bind (ends_each hs₅ fun ifindex hifindex s hs =>
      ends_delete hs (safe_deleteLink hfits (Option.mem_toList.mp hifindex))) fun _ s₆ hs₆ => ?_
    exact ends_update hs₆

/-! ### Refused, or of Flux only -/

/-- The call has failed before its first deletion. -/
def Refused (run : Except CleanupError Unit × Session) : Prop := (∃ error, run.1 = .error error) ∧ run.2.sent = []

/-- Nobody else changes the kernel. -/
def Answers.alone (answers : Answers) : Answers := { answers with meanwhile := id }

/-- **A cleanup refuses, or deletes what Flux owns.**  On a kernel that is the same at both dumps it fails before its
first deletion where a reserved slot that it looks at holds something of others; and where it does not, every object
that one of its deletions can mean is Flux's. -/
theorem cleanup_refuses_or_owned (answers : Answers) (k : Netlink.Kernel) (calls : ℕ) (attached : List OwnedFilter) :
    (¬Clean k → Refused (cleanupOwned answers.alone ⟨k, calls, [], attached⟩)) ∧
    (Refused (cleanupOwned answers.alone ⟨k, calls, [], attached⟩) ∨
      ∀ request ∈ (cleanupOwned answers.alone ⟨k, calls, [], attached⟩).2.sent, Safe k request) := by
  have hends := @ends_cleanupOwned answers.alone k ⟨k, calls, [], attached⟩ ⟨rfl, rfl⟩
  rcases hends.elim with ⟨_, s', hrun, hsafe, hclean, -⟩ | ⟨error, s', hrun, hsafe, hquiet⟩
  · rw [hrun]
    exact ⟨fun hforeign => absurd hclean hforeign, .inr hsafe⟩
  · rw [hrun]
    exact ⟨fun hforeign => ⟨⟨error, rfl⟩, hquiet.resolve_right fun hclean => hforeign hclean.1⟩, .inr hsafe⟩

/-- What is reserved by its name or its numbers alone, wherever it hangs. -/
def InReservedSlot : Netlink.Object → Prop
  | .link link => link.name = HOST_NAME ∨ link.name = PEER_NAME
  | .rule rule => rule.priority = some RULE_PRIORITY
  | .route route => route.table = ROUTE_TABLE
  | .qdisc _ => False
  | .filter f => reservedFilter f.parent f = true

/-- A filter of others in the fixed slot at the ingress of an interface, where Flux attaches nothing. -/
def foreignIngress : Netlink.Filter where
  ifindex := 2
  parent := Netlink.TC_H_INGRESS
  handle := TC_HANDLE_INGRESS
  chain := TC_CHAIN
  priority := 1
  protocol := Netlink.ETH_P_ALL
  kind := some "bpf"
  directAction := true
  bpfFlags := some Netlink.TCA_BPF_FLAG_ACT_DIRECT
  progId := some 7
  progTag := some [1, 2, 3, 4, 5, 6, 7, 8]
  progName := some "flx_other"
  flagsGen := some 0
  unknownAttrs := false
  duplicateAttrs := false

def foreignKernel : Netlink.Kernel where
  links := [⟨1, "lo", none, none, none, none, 772⟩, ⟨2, "wlan0", none, none, none, none, 1⟩]
  routes := []
  rules := []
  qdiscs := [⟨2, Netlink.TC_CLSACT_HANDLE, Netlink.TC_H_CLSACT, some "clsact", false, false, false, false, false⟩]
  filters := [foreignIngress]
  programs := []
  ifindex_nodup := by decide
  name_nodup := by decide
  filter_nodup := by decide

/-- Every call succeeds, and a deletion leaves the rest alone. -/
def obeying : Answers where
  fault _ := none
  meanwhile := id
  delete _ k _ := .ok k

/-- The cleanup does not look there, and succeeds. -/
theorem foreign_ingress_passed :
    ¬∀ (answers : Answers) (k : Netlink.Kernel) (calls : ℕ) (attached : List OwnedFilter),
      (∃ o, k.Has o ∧ InReservedSlot o ∧ ¬Owns k o) → Refused (cleanupOwned answers.alone ⟨k, calls, [], attached⟩) := by
  intro h
  have hforeign : ¬Owns foreignKernel (.filter foreignIngress) := by
    rintro ⟨link, hlink, -, howns⟩
    have hnone : ∀ link ∈ foreignKernel.links, ownsFilter foreignKernel (peerOf foreignKernel) link foreignIngress = false := by
      decide +kernel
    rw [hnone link hlink] at howns
    cases howns
  have hslot : reservedFilter foreignIngress.parent foreignIngress = true := by decide +kernel
  obtain ⟨⟨error, herror⟩, -⟩ := h obeying foreignKernel 0 []
    ⟨.filter foreignIngress, List.mem_singleton_self _, hslot, hforeign⟩
  have hok : (cleanupOwned obeying.alone ⟨foreignKernel, 0, [], []⟩).1 = .ok () := by decide +kernel
  rw [hok] at herror
  cases herror

/-- **The cleanup touches what Flux owns, and nothing else.**  Whichever calls fail, whatever the kernel answers and
whatever others make of it between the two plans: each object that a deletion can mean is Flux's, and where a
reserved slot that one of the plans looks at holds something else, it fails before its first deletion. -/
theorem cleanup_touches_owned (answers : Answers) (k : Netlink.Kernel) (calls : ℕ) (attached : List OwnedFilter) :
    (∀ request ∈ (cleanupOwned answers ⟨k, calls, [], attached⟩).2.sent, ∀ o, (answers.meanwhile k).Has o →
      request.Names (answers.meanwhile k) o → Owns (answers.meanwhile k) o) ∧
    (∀ seen ∈ [k, answers.meanwhile k], (∃ o, seen.Has o ∧ Reserved seen o ∧ ¬Owns seen o) →
      (∃ error, (cleanupOwned answers ⟨k, calls, [], attached⟩).1 = .error error) ∧
        (cleanupOwned answers ⟨k, calls, [], attached⟩).2.sent = []) := by
  have hends := @ends_cleanupOwned answers k ⟨k, calls, [], attached⟩ ⟨rfl, rfl⟩
  have hseen : Clean k ∧ Clean (answers.meanwhile k) → ∀ seen ∈ [k, answers.meanwhile k], Clean seen := by
    rintro ⟨hfirst, hsecond⟩ seen hmem
    simp only [List.mem_cons, List.not_mem_nil, or_false] at hmem
    rcases hmem with rfl | rfl
    · exact hfirst
    · exact hsecond
  rcases hends.elim with ⟨_, s', hrun, hsafe, hclean⟩ | ⟨error, s', hrun, hsafe, hquiet⟩
  · rw [hrun]
    refine ⟨hsafe, ?_⟩
    rintro seen hmem ⟨o, ho, hreserved, hforeign⟩
    exact absurd (hseen hclean seen hmem o ho hreserved) hforeign
  · rw [hrun]
    refine ⟨hsafe, ?_⟩
    rintro seen hmem ⟨o, ho, hreserved, hforeign⟩
    exact ⟨⟨error, rfl⟩, hquiet.resolve_right fun hclean => hforeign (hseen hclean seen hmem o ho hreserved)⟩

end FluxRs.Dataplane
