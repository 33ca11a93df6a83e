import FluxRs.Daemon.Files

/-!
# FluxRs.Daemon.Generations — what is recorded about a generation

`Generations.committed` and `current_engine_user` are written at the commit of a generation; the first also
when a stop cannot be confirmed.  The logs of `Host` say what they stand for: under which generations
`publish_active` has succeeded, and which configuration each effective file was built from.
-/

namespace FluxRs.Daemon

open FluxRs.Lib FluxRs.Net FluxRs.Kmod FluxRs.Dataplane

/-! ### Candidates and records -/

/-- The candidate of a role. -/
@[simp] def WaitRole.candidates : WaitRole → List ℕ
  | .candidate plan => [plan.params.generation]
  | .recovery _ => []

/-- The candidates that have not been committed. -/
def Reactor.candidates (r : Reactor) : List ℕ :=
  (r.candidate.map (·.params.generation)).toList ++ (r.activationRole.map (·.candidates)).getD []

/-- The candidate that a handler has in its hands. -/
@[simp] def Control.candidates : Control → List ℕ
  | .holding t => (t.candidate.map (·.params.generation)).toList
  | .starting plan | .failing plan => [plan.params.generation]
  | _ => []

/-- What the generation that a switch replaces was built from. -/
def SwitchPlan.record (current : Option UserConfig) (plan : SwitchPlan) :
    List (ℕ × Option UserConfig) := plan.replaced.map fun g => (g, current)

/-- Generations that may run again, and what each was built from; `current` is the recorded
configuration. -/
@[simp] def EngineTransaction.records (current : Option UserConfig) :
    EngineTransaction → List (ℕ × Option UserConfig)
  | .checking plan _ => [(plan.params.generation, some plan.user)]
  | .waiting child (.candidate plan) =>
    (child.params.generation, some plan.user) :: plan.record current
  | .waiting child (.recovery _) => [(child.params.generation, current)]
  | .stopping child (.startCandidate plan) _ =>
    [(plan.params.generation, some plan.user), (child.params.generation, current)]
  | .stopping _ (.recover plan _) _ => plan.record current
  | .stopping _ _ _ => []

/-- The same for the promoted child. -/
@[simp] def EngineChild.records (current : Option UserConfig) (child : EngineChild) :
    Option WaitRole → List (ℕ × Option UserConfig)
  | some (.candidate plan) => (child.params.generation, some plan.user) :: plan.record current
  | _ => [(child.params.generation, current)]

/-- The children that the reactor knows, each with the user configuration that it is taken to run. -/
def Reactor.records (r : Reactor) : List (ℕ × Option UserConfig) :=
  (r.engine.map fun child => child.records r.currentEngineUser r.activationRole).getD [] ++
    (r.engineTransaction.map (·.records r.currentEngineUser)).getD []

/-- The same for what a handler has in its hands. -/
@[simp] def Control.records (current : Option UserConfig) : Control → List (ℕ × Option UserConfig)
  | .holding t => t.records current
  | .starting plan => (plan.params.generation, some plan.user) :: plan.record current
  | .failing plan => plan.record current
  | _ => []

/-- The logs are true: under `A` of the committed generation, under `U` of the recorded configuration. -/
structure Truthful (A U : Prop) (r : Reactor) (c : Control) : Prop where
  committed : A → r.generations.committed = 0 ∨ r.generations.committed ∈ r.host.published
  fresh : ∀ g ∈ r.candidates ++ c.candidates, g ∉ r.host.published
  published : ∀ g ∈ r.host.published, g < r.generations.next
  built : (r.host.built.map Prod.fst).Pairwise (· > ·)
  allocated : ∀ g ∈ r.host.built.map Prod.fst, g < r.generations.next
  below : ∀ x ∈ r.records ++ c.records r.currentEngineUser, x.1 < r.generations.next
  users : U → ∀ x ∈ r.records ++ c.records r.currentEngineUser, r.host.userOf x.1 = x.2

/-- Neither the generations nor what is known of them changes. -/
structure SameLogs (r r' : Reactor) : Prop where
  generations : r'.generations = r.generations
  user : r'.currentEngineUser = r.currentEngineUser
  published : r'.host.published = r.host.published
  built : r'.host.built = r.host.built

namespace Host

variable (h : Host)

theorem logs_remove (g : ℕ) :
    (h.remove g).published = h.published ∧ (h.remove g).built = h.built := by
  unfold remove
  split
  · exact ⟨rfl, rfl⟩
  · exact ⟨rfl, rfl⟩

theorem logs_removeOld (plan : SwitchPlan) :
    (h.removeOld plan).published = h.published ∧ (h.removeOld plan).built = h.built := by
  unfold removeOld
  split
  · exact logs_remove h _
  · exact ⟨rfl, rfl⟩

/-- Removing files does not touch the record of what was published and built. -/
theorem logs_cleanupWaitRole (role : WaitRole) :
    (h.cleanupWaitRole role).published = h.published ∧ (h.cleanupWaitRole role).built = h.built := by
  cases role with
  | candidate plan => exact logs_removeOld h plan
  | recovery error => exact ⟨rfl, rfl⟩

theorem logs_cleanupStopNext (next : StopNext) :
    (h.cleanupStopNext next).published = h.published ∧ (h.cleanupStopNext next).built = h.built := by
  cases next with
  | startCandidate plan => exact logs_remove h _
  | recover plan error => exact logs_removeOld h plan
  | finishRecoveryFailure error error' => exact ⟨rfl, rfl⟩
  | cancelled => exact ⟨rfl, rfl⟩

theorem logs_commitHost (role : Option WaitRole) :
    (commitHost role h).published = h.published ∧ (commitHost role h).built = h.built := by
  unfold commitHost
  split
  · exact logs_removeOld h _
  · exact ⟨rfl, rfl⟩

end Host

section Step

variable {fakeipOk : PolicyCandidate → UserConfig → Bool} {P : Fault → Prop}
variable {A U : Prop} {r r' : Reactor} {c c' : Control}

/-- Nothing new is at stake. -/
theorem Truthful.move (h : Truthful A U r c) (k : SameLogs r r')
    (hcand : r'.candidates ++ c'.candidates ⊆ r.candidates ++ c.candidates)
    (hrec : r'.records ++ c'.records r'.currentEngineUser ⊆
      r.records ++ c.records r.currentEngineUser) : Truthful A U r' c' where
  committed hA := by
    rw [k.generations, k.published]
    exact h.committed hA
  fresh g hg := by
    rw [k.published]
    exact h.fresh g (hcand hg)
  published := by
    rw [k.published, k.generations]
    exact h.published
  built := by
    rw [k.built]
    exact h.built
  allocated := by
    rw [k.built, k.generations]
    exact h.allocated
  below x hx := by
    rw [k.generations]
    exact h.below x (hrec hx)
  users hU x hx := by
    rw [Host.userOf, k.built]
    exact h.users hU x (hrec hx)

theorem Reaped.logs {child : EngineChild} (h : Reaped P child r r') : ∃ host,
    r' = { r with host := host } ∧ host.published = r.host.published ∧ host.built = r.host.built := by
  rcases h with rfl | ⟨-, rfl⟩
  · exact ⟨_, rfl, rfl, rfl⟩
  · exact ⟨r'.host, rfl, rfl, rfl⟩

/-- The handler spends what it has in hand. -/
theorem Truthful.spend (h : Truthful A U r c) (k : SameLogs r r') (he : r'.engine = r.engine)
    (ht : r'.engineTransaction = r.engineTransaction) (hr : r'.activationRole = r.activationRole)
    (hcand : c'.candidates ⊆ c.candidates)
    (hrec : c'.records r.currentEngineUser ⊆ c.records r.currentEngineUser) : Truthful A U r' c' := by
  refine h.move k ?_ ?_
  · simp only [Reactor.candidates, Reactor.candidate, ht, hr]
    exact List.append_subset.mpr ⟨List.subset_append_left _ _, List.subset_append_of_subset_right _ hcand⟩
  · simp only [Reactor.records, he, ht, hr, k.user]
    exact List.append_subset.mpr ⟨List.subset_append_left _ _, List.subset_append_of_subset_right _ hrec⟩

theorem SameLogs.remove {host : Host} (g : ℕ) (hp : host.published = r.host.published)
    (hb : host.built = r.host.built) : SameLogs r (removeEffective g { r with host := host }) := by
  obtain ⟨hp', hb'⟩ := Host.logs_remove host g
  exact ⟨rfl, rfl, hp'.trans hp, hb'.trans hb⟩

theorem SameLogs.trans {r'' : Reactor} (h : SameLogs r r') (h' : SameLogs r' r'') : SameLogs r r'' where
  generations := h'.generations.trans h.generations
  user := h'.user.trans h.user
  published := h'.published.trans h.published
  built := h'.built.trans h.built

theorem SameLogs.dropCandidate (plan : SwitchPlan) (r : Reactor) :
    SameLogs r (dropCandidate plan r) := by
  obtain ⟨hp, hb⟩ := Host.logs_remove r.host plan.params.generation
  exact ⟨rfl, rfl, hp, hb⟩

theorem Truthful.cancelEngineWork (hs : Shape r) (h : Truthful A U r .idle) :
    Truthful A U (cancelEngineWork { r with engineCancelRequested := true }) .idle := by
  unfold Daemon.cancelEngineWork
  simp only
  split
  · rename_i ht
    rw [hs.role]
    split
    · refine h.move ⟨rfl, rfl, rfl, rfl⟩ ?_ ?_
      · simp [Reactor.candidates, Reactor.candidate, beginStop, EngineTransaction.candidate]
      · simp [Reactor.records, beginStop]
    · refine h.move ⟨rfl, rfl, rfl, rfl⟩ ?_ ?_
      · simp [Reactor.candidates, Reactor.candidate, hs.role]
      · simp [Reactor.records, hs.role]
  · rename_i plan d ht
    refine h.move ⟨rfl, rfl, rfl, rfl⟩ ?_ ?_
    · simp [Reactor.candidates, Reactor.candidate, EngineTransaction.candidate, ht]
    · simp [Reactor.records, ht]
  · rename_i child role ht
    have hlogs := Host.logs_cleanupWaitRole r.host role
    refine h.move ⟨rfl, rfl, hlogs.1, hlogs.2⟩ ?_ ?_
    · simp [Reactor.candidates, Reactor.candidate, EngineTransaction.candidate, beginStop,
        cleanupCancelledWaitRole]
    · simp [Reactor.records, beginStop, cleanupCancelledWaitRole]
  · rename_i child next killSent ht
    have hlogs := Host.logs_cleanupStopNext r.host next
    refine h.move ⟨rfl, rfl, hlogs.1, hlogs.2⟩ ?_ ?_
    · simp [Reactor.candidates, Reactor.candidate, EngineTransaction.candidate, beginStop,
        cleanupCancelledStopNext]
    · simp [Reactor.records, beginStop, cleanupCancelledStopNext]

theorem SameLogs.aside (k : Aside r r') : SameLogs r r' :=
  ⟨k.generations, k.user, by rw [k.host], by rw [k.host]⟩

/-- A commit publishes the promoted child and records what it was built from. -/
theorem Truthful.commits {child : EngineChild} (h : Truthful A U r c) (he : r.engine = some child)
    (ht : r.engineTransaction = none) : Truthful A U (Daemon.committed child r) .resuming := by
  have hlogs := Host.logs_commitHost (r.host.publish child.params.generation) r.activationRole
  have hpublished : (Daemon.committed child r).host.published =
      child.params.generation :: r.host.published := hlogs.1
  have hbuilt : (Daemon.committed child r).host.built = r.host.built := hlogs.2
  -- the record of the child under its role is the record of the committed child
  have hmem : (child.params.generation, (Daemon.committed child r).currentEngineUser) ∈
      r.records ++ c.records r.currentEngineUser := by
    refine List.mem_append_left _ ?_
    simp only [Reactor.records, he, ht, Option.map_some, Option.getD_some, Option.map_none,
      Option.getD_none, List.append_nil, Daemon.committed]
    cases r.activationRole with
    | none => simp
    | some role => cases role <;> simp
  have hrecords : ∀ x ∈ (Daemon.committed child r).records ++
      Control.resuming.records (Daemon.committed child r).currentEngineUser,
      x = (child.params.generation, (Daemon.committed child r).currentEngineUser) := by
    intro x hx
    simpa [Reactor.records, Daemon.committed, he, ht] using hx
  refine ⟨fun _ => .inr ?_, fun g hg => ?_, fun g hg => ?_, ?_, ?_, fun x hx => ?_, fun hU x hx => ?_⟩
  · rw [hpublished]
    exact List.mem_cons_self
  · simp [Reactor.candidates, Reactor.candidate, Daemon.committed, ht] at hg
  · rw [hpublished] at hg
    rcases List.mem_cons.mp hg with rfl | hg
    · exact h.below _ hmem
    · exact h.published g hg
  · rw [hbuilt]
    exact h.built
  · rw [hbuilt]
    exact h.allocated
  · rw [hrecords x hx]
    exact h.below _ hmem
  · rw [hrecords x hx, Host.userOf, hbuilt]
    exact h.users hU _ hmem

/-- A child whose stop is not confirmed is taken for the committed one. -/
theorem Truthful.keeps {child : EngineChild} {next : StopNext} {killSent : Bool}
    (h : Truthful A U r (.holding (.stopping child next killSent)))
    (hs : ShapeAt r (.holding (.stopping child next killSent)))
    (hbelow : child.params.generation < r.generations.next)
    (hA : A → child.params.generation ∈ r.host.published)
    (hU : U → r.host.userOf child.params.generation = r.currentEngineUser) :
    Truthful A U (keptChild child next r) .resuming := by
  have hlogs := Host.logs_cleanupStopNext r.host next
  have hrecords : ∀ x ∈ (keptChild child next r).records ++
      Control.resuming.records (keptChild child next r).currentEngineUser,
      x = (child.params.generation, r.currentEngineUser) := by
    intro x hx
    simpa [Reactor.records, keptChild, hs.1.role] using hx
  refine ⟨fun ha => .inr ?_, fun g hg => ?_, fun g hg => ?_, ?_, ?_, fun x hx => ?_, fun hu x hx => ?_⟩
  · simpa [keptChild, Generations.commit, hlogs.1] using hA ha
  · simp [Reactor.candidates, Reactor.candidate, keptChild, hs.1.role] at hg
  · exact h.published g (by simpa [keptChild, hlogs.1] using hg)
  · simpa [keptChild, hlogs.2] using h.built
  · intro g hg
    exact h.allocated g (by simpa [keptChild, hlogs.2] using hg)
  · rw [hrecords x hx]
    exact hbelow
  · rw [hrecords x hx]
    simpa [keptChild, Host.userOf, hlogs.2] using hU hu

/-- A new generation is larger than all others, and its file was built from its configuration. -/
theorem Truthful.allocates {params : EngineParams} {user : UserConfig} {d : CheckDisposition}
    {s : Subscription} (h : Truthful A U r .idle) (hb : Bare r)
    (hg : params.generation = r.generations.next) :
    Truthful A U { r with
      generations := r.generations.allocate.2
      subscription := s
      host := r.host.write params.generation user
      engineTransaction := some (.checking ⟨params, user, none⟩ d) } .idle := by
  have hrecords : ∀ x ∈ { r with
        generations := r.generations.allocate.2
        subscription := s
        host := r.host.write params.generation user
        engineTransaction := some (.checking ⟨params, user, none⟩ d) }.records ++
      Control.idle.records r.currentEngineUser, x = (params.generation, some user) ∨
        x ∈ r.records ++ Control.idle.records r.currentEngineUser := by
    intro x hx
    simp only [Reactor.records, Control.records, Option.map_some, Option.getD_some, List.append_nil,
      List.mem_append, EngineTransaction.records, List.mem_singleton, hb.transaction, Option.map_none,
      Option.getD_none] at hx ⊢
    exact hx.symm
  refine ⟨h.committed, fun g hmem => ?_, fun g hmem => ?_, ?_, fun g hmem => ?_, fun x hx => ?_,
    fun hU x hx => ?_⟩
  · have heq : g = params.generation := by
      simpa [Reactor.candidates, Reactor.candidate, EngineTransaction.candidate, hb.role] using hmem
    intro hpub
    have hlt := h.published g hpub
    omega
  · exact Nat.lt_succ_of_lt (h.published g hmem)
  · refine List.pairwise_cons.mpr ⟨fun g hmem => ?_, h.built⟩
    rw [hg]
    exact h.allocated g hmem
  · change g < r.generations.next + 1
    rcases List.mem_cons.mp hmem with rfl | hmem
    · rw [hg]
      exact Nat.lt_succ_self _
    · exact Nat.lt_succ_of_lt (h.allocated g hmem)
  · change x.1 < r.generations.next + 1
    rcases hrecords x hx with rfl | hx
    · rw [hg]
      exact Nat.lt_succ_self _
    · exact Nat.lt_succ_of_lt (h.below x hx)
  · rcases hrecords x hx with rfl | hx
    · simp [Host.userOf, Host.write]
    · have hne : (x.1 == params.generation) = false := by
        have hlt := h.below x hx
        simp only [beq_eq_false_iff_ne]
        omega
      have hlookup := h.users hU x hx
      simpa [Host.userOf, Host.write, List.lookup_cons, hne] using hlookup

/-- A generation whose start fails is spent all the same. -/
theorem Truthful.skips {s : Subscription} (h : Truthful A U r .idle) :
    Truthful A U { r with generations := r.generations.allocate.2, subscription := s } .erring where
  committed := h.committed
  fresh := h.fresh
  published g hg := Nat.lt_succ_of_lt (h.published g hg)
  built := h.built
  allocated g hg := Nat.lt_succ_of_lt (h.allocated g hg)
  below x hx := Nat.lt_succ_of_lt (h.below x hx)
  users := h.users

/-- The child of a failed role is stopped. -/
theorem subset_failed (current : Option UserConfig) (child : EngineChild) (role : WaitRole)
    (error : EngineError) :
    (EngineTransaction.stopping child (role.failed error) false).candidate =
        (EngineTransaction.waiting child role).candidate ∧
      (EngineTransaction.stopping child (role.failed error) false).records current ⊆
        (EngineTransaction.waiting child role).records current := by
  cases role with
  | candidate plan => exact ⟨rfl, List.subset_cons_self _ _⟩
  | recovery error' => exact ⟨rfl, List.nil_subset _⟩

theorem Truthful.aside (h : Truthful A U r c) (k : Aside r r') : Truthful A U r' c :=
  h.spend (.aside k) k.engine k.transaction k.role (List.Subset.refl _) (List.Subset.refl _)

/-- A check ends, or goes on. -/
theorem Act.truthful_checking {plan : SwitchPlan} {d : CheckDisposition}
    (h : Act fakeipOk P r (.holding (.checking plan d)) r' c') (hs : Bare r)
    (hco : Coherent r (.holding (.checking plan d))) (hi : Truthful A U r (.holding (.checking plan d))) :
    Truthful A U r' c' := by
  cases h with
  | aside k => exact hi.aside k
  | recheck _ =>
    refine hi.move ⟨rfl, rfl, rfl, rfl⟩ ?_ ?_
    · simp [Reactor.candidates, Reactor.candidate, EngineTransaction.candidate]
    · simp [Reactor.records]
  | checkFailed plan d => exact hi.spend (.remove _ rfl rfl) rfl rfl rfl (by simp) (by simp)
  | checkCancelled _ => exact hi.spend (.remove _ rfl rfl) rfl rfl rfl (by simp) (by simp)
  | checked he hc =>
    have hold : plan.old = none := hco.held _ rfl
    refine hi.spend ⟨rfl, rfl, rfl, rfl⟩ rfl rfl rfl ?_ ?_
    · simp [EngineTransaction.candidate]
    · simp [SwitchPlan.record, SwitchPlan.replaced, hold]
  | switched he _ =>
    refine hi.move ⟨rfl, rfl, rfl, rfl⟩ ?_ ?_
    · simp [Reactor.candidates, Reactor.candidate, beginStop, EngineTransaction.candidate]
    · simp [Reactor.records, beginStop, he, hs.role]

/-- A child that waits goes on, is stopped, dies or is promoted. -/
theorem Act.truthful_waiting {child : EngineChild} {role : WaitRole}
    (h : Act fakeipOk P r (.holding (.waiting child role)) r' c')
    (hs : ShapeAt r (.holding (.waiting child role))) (hi : Truthful A U r (.holding (.waiting child role))) :
    Truthful A U r' c' := by
  cases h with
  | aside k => exact hi.aside k
  | rewait _ _ _ =>
    refine hi.move ⟨rfl, rfl, rfl, rfl⟩ ?_ ?_
    · simp [Reactor.candidates, Reactor.candidate, waitForChild]
    · simp [Reactor.records, waitForChild]
  | waitCancelled hc =>
    have hlogs := Host.logs_cleanupWaitRole r.host role
    refine hi.move ⟨rfl, rfl, hlogs.1, hlogs.2⟩ ?_ ?_
    · simp [Reactor.candidates, Reactor.candidate, beginStop, EngineTransaction.candidate,
        cleanupCancelledWaitRole]
    · simp [Reactor.records, beginStop, cleanupCancelledWaitRole]
  | waitFailed child role error =>
    obtain ⟨hcand, hrec⟩ := subset_failed r.currentEngineUser child role error
    refine hi.move ⟨rfl, rfl, rfl, rfl⟩ ?_ ?_
    · simp [Reactor.candidates, Reactor.candidate, beginStop, hcand, hs.2.1]
    · simpa [Reactor.records, beginStop, hs.1, hs.2.2] using hrec
  | candidateExit h =>
    obtain ⟨host, rfl, hp, hb⟩ := h.logs
    refine hi.spend ⟨rfl, rfl, hp, hb⟩ rfl rfl rfl ?_ ?_
    · simp [EngineTransaction.candidate]
    · simp
  | recoveryExit h _ =>
    obtain ⟨host, rfl, hp, hb⟩ := h.logs
    exact hi.spend ⟨rfl, rfl, hp, hb⟩ rfl rfl rfl (by simp) (by simp)
  | promote hc =>
    cases role with
    | candidate plan =>
      refine hi.move ⟨rfl, rfl, rfl, rfl⟩ ?_ ?_
      · simp [Reactor.candidates, Reactor.candidate, EngineTransaction.candidate, hs.1]
      · simp [Reactor.records, hs.1]
    | recovery error =>
      refine hi.move ⟨rfl, rfl, rfl, rfl⟩ ?_ ?_
      · simp [Reactor.candidates, Reactor.candidate, hs.1]
      · simp [Reactor.records, hs.1]

/-- A child that stops dies, or is kept. -/
theorem Act.truthful_stopping {child : EngineChild} {next : StopNext} {killSent : Bool}
    (hP : ∀ r child next, P (.unconfirmed r child next) →
      (A → child.params.generation ∈ r.host.published) ∧
      (U → r.host.userOf child.params.generation = r.currentEngineUser))
    (h : Act fakeipOk P r (.holding (.stopping child next killSent)) r' c') (hs : Bare r ∧ r.engine = none)
    (hco : Coherent r (.holding (.stopping child next killSent)))
    (hl : Ledger False r (.holding (.stopping child next killSent)))
    (hi : Truthful A U r (.holding (.stopping child next killSent))) : Truthful A U r' c' := by
  cases h with
  | aside k => exact hi.aside k
  | restop _ _ _ _ =>
    refine hi.move ⟨rfl, rfl, rfl, rfl⟩ ?_ ?_
    · cases next <;> simp [Reactor.candidates, Reactor.candidate, EngineTransaction.candidate]
    · cases next <;> simp [Reactor.records]
  | stopped h hc =>
    rename_i plan
    obtain ⟨host, rfl, hp, hb⟩ := h.logs
    have hold : plan.old = some child.params := hco.held _ rfl
    refine hi.spend ⟨rfl, rfl, hp, hb⟩ rfl rfl rfl ?_ ?_
    · simp [EngineTransaction.candidate]
    · simp [SwitchPlan.record, SwitchPlan.replaced, hold]
  | stopOvertaken h hc =>
    rename_i plan
    obtain ⟨host, rfl, hp, hb⟩ := h.logs
    have k : SameLogs r (removeEffective child.params.generation { r with host := host }) :=
      .remove _ hp hb
    exact hi.spend (k.trans (.remove _ rfl rfl)) rfl rfl rfl (by simp) (by simp)
  | stopRecovers h =>
    obtain ⟨host, rfl, hp, hb⟩ := h.logs
    refine hi.spend (.remove _ hp hb) rfl rfl rfl ?_ ?_
    · simp [EngineTransaction.candidate]
    · simp
  | stopEnds h =>
    obtain ⟨host, rfl, hp, hb⟩ := h.logs
    exact hi.spend (.remove _ hp hb) rfl rfl rfl (by simp) (by simp)
  | stopCancelled h =>
    obtain ⟨host, rfl, hp, hb⟩ := h.logs
    exact hi.spend (.remove _ hp hb) rfl rfl rfl (by simp) (by simp)
  | kept hk =>
    have hmem : child.params.generation ∈
        r.inPlay ++ (Control.holding (.stopping child next killSent)).inPlay :=
      List.mem_append_right _ ((sublist_stopping child next killSent).subset (by simp))
    obtain ⟨hA, hU⟩ := hP r child next hk
    exact hi.keeps hs (hl.below _ hmem) hA hU

/-- A candidate is started. -/
theorem Act.truthful_starting {plan : SwitchPlan} (h : Act fakeipOk P r (.starting plan) r' c')
    (hs : Bare r ∧ r.engine = none) (hi : Truthful A U r (.starting plan)) : Truthful A U r' c' := by
  cases h with
  | aside k => exact hi.aside k
  | spawnFailed plan =>
    refine hi.spend ⟨rfl, rfl, rfl, rfl⟩ rfl rfl rfl (List.Subset.refl _) ?_
    simp
  | spawned plan =>
    refine hi.move ⟨rfl, rfl, rfl, rfl⟩ ?_ ?_
    · simp [Reactor.candidates, Reactor.candidate, EngineTransaction.candidate, waitForChild, spawnEngine]
    · simp [Reactor.records, waitForChild, spawnEngine]
  | spawnedUnwatched plan error =>
    refine hi.move ⟨rfl, rfl, rfl, rfl⟩ ?_ ?_
    · simp [Reactor.candidates, Reactor.candidate, EngineTransaction.candidate, beginStop, spawnEngine]
    · simp [Reactor.records, beginStop, spawnEngine, hs.1.transaction, hs.2]

/-- A candidate has failed, and what it replaced is started again. -/
theorem Act.truthful_failing {plan : SwitchPlan} (h : Act fakeipOk P r (.failing plan) r' c')
    (hi : Truthful A U r (.failing plan)) : Truthful A U r' c' := by
  cases h with
  | aside k => exact hi.aside k
  | failCancelled hc =>
    have k := SameLogs.dropCandidate plan r
    obtain ⟨hp, hb⟩ := Host.logs_removeOld (dropCandidate plan r).host plan
    exact hi.spend (k.trans ⟨rfl, rfl, hp, hb⟩) rfl rfl rfl (by simp) (by simp)
  | failCold _ => exact hi.spend (.dropCandidate _ r) rfl rfl rfl (by simp) (by simp)
  | failLost _ _ => exact hi.spend (.dropCandidate _ r) rfl rfl rfl (by simp) (by simp)
  | recovered hold error =>
    rename_i old
    have k := SameLogs.dropCandidate plan r
    refine hi.move (k.trans ⟨rfl, rfl, rfl, rfl⟩) ?_ ?_
    · simp [Reactor.candidates, Reactor.candidate, EngineTransaction.candidate, waitForChild, spawnEngine,
        dropCandidate]
    · simp [Reactor.records, waitForChild, spawnEngine, dropCandidate, SwitchPlan.record,
        SwitchPlan.replaced, hold]
  | recoveredUnwatched hold error error' =>
    rename_i old
    have k := SameLogs.dropCandidate plan r
    refine hi.move (k.trans ⟨rfl, rfl, rfl, rfl⟩) ?_ ?_
    · simp [Reactor.candidates, Reactor.candidate, EngineTransaction.candidate, beginStop, spawnEngine,
        dropCandidate]
    · simp [Reactor.records, beginStop, spawnEngine, dropCandidate]

/-- A promoted child is committed or stopped. -/
theorem Act.truthful_activating (h : Act fakeipOk P r .activating r' c') (hi : Truthful A U r .activating) :
    Truthful A U r' c' := by
  cases h with
  | aside k => exact hi.aside k
  | commitCandidate he ht _ _ _ =>
    refine Truthful.commits (c := .activating) ?_ he ht
    exact hi.spend ⟨rfl, rfl, rfl, rfl⟩ rfl rfl rfl (List.Subset.refl _) (List.Subset.refl _)
  | commitRefused error he ht hrole _ _ =>
    refine hi.move ⟨rfl, rfl, rfl, rfl⟩ ?_ ?_
    · simp [Reactor.candidates, Reactor.candidate, EngineTransaction.candidate, beginStop, takeEngine,
        hrole]
    · simp [Reactor.records, beginStop, takeEngine, he, hrole]
  | commitRecovery he ht _ => exact hi.commits he ht
  | roleFailed error he ht hrole =>
    rename_i child role
    cases role with
    | candidate plan =>
      refine hi.move ⟨rfl, rfl, rfl, rfl⟩ ?_ ?_
      · simp [Reactor.candidates, Reactor.candidate, EngineTransaction.candidate, beginStop, takeEngine,
          WaitRole.failed, hrole]
      · simp [Reactor.records, beginStop, takeEngine, WaitRole.failed, he, hrole]
    | recovery error' =>
      refine hi.move ⟨rfl, rfl, rfl, rfl⟩ ?_ ?_
      · simp [Reactor.candidates, Reactor.candidate, EngineTransaction.candidate, beginStop, takeEngine,
          WaitRole.failed]
      · simp [Reactor.records, beginStop, takeEngine, WaitRole.failed]

/-- The steps of a reactor that holds no transaction. -/
theorem Act.truthful_idle (h : Act fakeipOk P r .idle r' c') (hs : Shape r) (hi : Truthful A U r .idle) :
    Truthful A U r' c' := by
  cases h with
  | aside k => exact hi.aside k
  | cancel => exact Truthful.cancelEngineWork hs hi
  | take ht _ =>
    refine hi.move ⟨rfl, rfl, rfl, rfl⟩ ?_ ?_
    · simp [Reactor.candidates, Reactor.candidate, ht]
    · simp [Reactor.records, ht]
  | recommit he ht => exact hi.commits he ht
  | exitEngine he h =>
    rename_i child
    obtain ⟨host, rfl, hp, hb⟩ := h.logs
    have k : SameLogs r (removeEffective child.params.generation { r with host := host }) :=
      .remove _ hp hb
    refine hi.move (k.trans ⟨rfl, rfl, rfl, rfl⟩) ?_ ?_
    · simp [Reactor.candidates, Reactor.candidate, removeEffective]
    · simp [Reactor.records, removeEffective]
  | policy _ _ _ _ =>
    exact hi.spend ⟨rfl, rfl, rfl, rfl⟩ rfl rfl rfl (List.Subset.refl _) (List.Subset.refl _)
  | generation user params d hg _ hbusy =>
    exact hi.allocates (Shape.bare hs (idle_of_not_busy hbusy).1) hg
  | generationFailed _ => exact hi.skips
  | settle _ _ _ => exact hi.spend ⟨rfl, rfl, rfl, rfl⟩ rfl rfl rfl (List.Subset.refl _) (List.Subset.refl _)
  | feed _ => exact hi.spend ⟨rfl, rfl, rfl, rfl⟩ rfl rfl rfl (List.Subset.refl _) (List.Subset.refl _)
  | discardedResult _ => exact hi.spend ⟨rfl, rfl, rfl, rfl⟩ rfl rfl rfl (List.Subset.refl _) (List.Subset.refl _)
  | emptyResult _ => exact hi.spend ⟨rfl, rfl, rfl, rfl⟩ rfl rfl rfl (List.Subset.refl _) (List.Subset.refl _)
  | acceptedResult _ _ => exact hi.spend ⟨rfl, rfl, rfl, rfl⟩ rfl rfl rfl (List.Subset.refl _) (List.Subset.refl _)

/-- Every step keeps the logs true, if a child whose stop is not confirmed is the recorded one. -/
theorem Act.truthful
    (hP : ∀ r child next, P (.unconfirmed r child next) →
      (A → child.params.generation ∈ r.host.published) ∧
      (U → r.host.userOf child.params.generation = r.currentEngineUser))
    (h : Act fakeipOk P r c r' c') (hs : ShapeAt r c) (hco : Coherent r c) (hl : Ledger False r c)
    (hi : Truthful A U r c) : Truthful A U r' c' := by
  match c with
  | .idle => exact h.truthful_idle hs hi
  | .holding (.checking _ _) => exact h.truthful_checking hs hco hi
  | .holding (.waiting _ _) => exact h.truthful_waiting hs hi
  | .holding (.stopping _ _ _) => exact h.truthful_stopping hP hs hco hl hi
  | .starting _ => exact h.truthful_starting hs hi
  | .failing _ => exact h.truthful_failing hi
  | .activating => exact h.truthful_activating hi
  | .erring =>
    cases h with
    | aside k => exact hi.aside k
    | err _ =>
      exact hi.spend ⟨rfl, rfl, rfl, rfl⟩ rfl hs.transaction.symm rfl (List.Subset.refl _) (List.Subset.refl _)
  | .cancelling =>
    cases h with
    | aside k => exact hi.aside k
    | cancelStops he _ =>
      refine hi.move ⟨rfl, rfl, rfl, rfl⟩ ?_ ?_
      · simp [Reactor.candidates, Reactor.candidate, EngineTransaction.candidate, beginStop]
      · simp [Reactor.records, beginStop]
    | cancelEnds _ _ =>
      exact hi.spend ⟨rfl, rfl, rfl, rfl⟩ rfl hs.transaction.symm rfl (List.Subset.refl _) (List.Subset.refl _)
  | .resuming =>
    cases h with
    | aside k => exact hi.aside k
    | resume w =>
      obtain ⟨changed, s, heq, -⟩ := resumeQueued_eq w r
      rw [heq]
      exact hi.spend ⟨rfl, rfl, rfl, rfl⟩ rfl rfl rfl (List.Subset.refl _) (List.Subset.refl _)

theorem next_cancelEngineWork (r : Reactor) :
    (cancelEngineWork r).generations = r.generations := by
  unfold cancelEngineWork
  simp only
  split
  · split
    · rfl
    · rfl
  · rfl
  · rfl
  · rfl

/-- The counter of generations never goes back. -/
theorem Act.next_le (h : Act fakeipOk P r c r' c') : r.generations.next ≤ r'.generations.next := by
  cases h with
  | aside k => rw [k.generations]
  | cancel => rw [next_cancelEngineWork]
  | candidateExit h | recoveryExit h _ | stopped h _ | stopOvertaken h _ | stopRecovers h | stopEnds h
  | stopCancelled h | exitEngine _ h =>
    obtain ⟨host, rfl⟩ := h.eq
    exact le_refl _
  | resume w =>
    obtain ⟨changed, s, heq, -⟩ := resumeQueued_eq w r
    rw [heq]
  | generation _ _ _ _ _ _ => exact Nat.le_succ _
  | generationFailed _ => exact Nat.le_succ _
  | _ => exact le_refl _

end Step

/-! ### Runs -/

/-- The child that survives its `SIGKILL` window when the timer fires. -/
def survivor (r : Reactor) (ev : Event) : Option EngineChild :=
  match ev.kind, r.engineTransaction with
  | .engineTimer, some (.stopping child _ true) =>
    if !ev.outside.exited && ev.outside.deadlinePassed then some child else none
  | _, _ => none

/-- A child that survives its stop has been published. -/
def SurvivorPublished (r : Reactor) (ev : Event) : Prop :=
  ∀ child ∈ survivor r ev, child.params.generation ∈ r.host.published

/-- A child that survives its stop was built from the recorded configuration. -/
def SurvivorRecorded (r : Reactor) (ev : Event) : Prop :=
  ∀ child ∈ survivor r ev, r.host.userOf child.params.generation = r.currentEngineUser

instance (r : Reactor) (ev : Event) : Decidable (SurvivorPublished r ev) :=
  inferInstanceAs (Decidable (∀ child ∈ survivor r ev, _))

instance (r : Reactor) (ev : Event) : Decidable (SurvivorRecorded r ev) :=
  inferInstanceAs (Decidable (∀ child ∈ survivor r ev, _))

/-- Every fault, but survivors as the two conditions have them. -/
def Fault.survives (A U : Prop) : Fault → Prop
  | .unconfirmed r child _ => (A → child.params.generation ∈ r.host.published) ∧
    (U → r.host.userOf child.params.generation = r.currentEngineUser)
  | _ => True

section Run

variable {e : Endian} {srt : Sorter} {fakeipOk : PolicyCandidate → UserConfig → Bool} {A U : Prop}
variable {dataplane : Plane} {badPageSize : Bool} {first : Event} {evs : List Event} {r₀ r : Reactor}

/-- The condition on an event is what the acts ask of a child that survives its stop. -/
theorem grants_survives {ev : Event} (hA : A → SurvivorPublished r ev) (hU : U → SurvivorRecorded r ev) :
    Grants (Fault.survives A U) (ev.enter r) ev.kind ev.outside where
  unconfirmed hk child next ht hx hd := by
    have ht' : r.engineTransaction = some (.stopping child next true) := ht
    have hmem : child ∈ survivor r ev := by
      simp [survivor, hk, ht', hx, hd]
    exact ⟨fun ha => hA ha child hmem, fun hu => hU hu child hmem⟩

/-- The logs are true after every run whose survivors are as the conditions have them. -/
theorem run_truthful (hstart : start e srt fakeipOk dataplane badPageSize first = some r₀)
    (hsteps : AllStepsOption (handle e srt fakeipOk)
      (fun r ev => (A → SurvivorPublished r ev) ∧ (U → SurvivorRecorded r ev)) r₀ evs)
    (hrun : runOption (handle e srt fakeipOk) r₀ evs = some r) :
    Shape r ∧ Truthful A U r .idle := by
  obtain ⟨hs, -, -, h⟩ := run_keeps
    (I := fun r c => Coherent r c ∧ Ledger False r c ∧ Truthful A U r c) e srt
    (fun hact hs hi => ⟨hact.coherent hs hi.1, hact.ledger False.elim hs hi.1 hi.2.1,
      hact.truthful (fun _ _ _ => id) hs hi.1 hi.2.1 hi.2.2⟩)
    (fun r ev _ hi => ⟨hi.1.congr rfl rfl rfl, ⟨hi.2.1.nodup, hi.2.1.below, False.elim⟩,
      hi.2.2.spend ⟨rfl, rfl, rfl, rfl⟩ rfl rfl rfl (List.Subset.refl _) (List.Subset.refl _)⟩)
    (fun r ev hc _ _ => grants_survives hc.1 hc.2)
    ⟨coherent_empty rfl rfl fun _ h => (by cases h),
      ⟨List.nodup_nil, fun _ hmem => (by cases hmem), False.elim⟩,
      { committed := fun _ => .inl rfl
        fresh := fun _ hmem => by cases hmem
        published := fun _ hmem => by cases hmem
        built := List.Pairwise.nil
        allocated := fun _ hmem => by cases hmem
        below := fun _ hmem => by cases hmem
        users := fun _ _ hmem => by cases hmem }⟩ hstart hsteps hrun
  exact ⟨hs, h⟩

/-- No run goes back to a generation that was allocated before it. -/
theorem run_next_le (hs : Shape r₀) (hrun : runOption (handle e srt fakeipOk) r₀ evs = some r) :
    r₀.generations.next ≤ r.generations.next := by
  have hstep : ∀ r' ev r'', Shape r' ∧ r₀.generations.next ≤ r'.generations.next → True →
      handle e srt fakeipOk r' ev = some r'' →
      Shape r'' ∧ r₀.generations.next ≤ r''.generations.next := by
    intro r' ev r'' hi _ heq
    have hgrants : Grants (fun _ => True) (ev.enter r') ev.kind ev.outside := {}
    have hacts := reaches_handle e srt hi.1 hgrants r'' heq
    have hs' : Shape (ev.enter r') := hi.1.congr rfl rfl rfl rfl
    refine ⟨hacts.shape hs', ?_⟩
    exact hacts.inv (I := fun r _ => r₀.generations.next ≤ r.generations.next)
      (fun hact hle => hle.trans hact.next_le) hi.2
  exact (runOption_inv hstep ⟨hs, le_refl _⟩ (allStepsOption_of_mem fun _ _ => trivial) hrun).2

/-- **The committed generation is truthful.**  In every run whose survivors have been published, the
committed generation is 0 or has been published, so that it is never that of a candidate in flight;
generations are allocated in increasing order; and a fault is current only for the child that holds the
committed activation. -/
theorem committed_is_truthful (hstart : start e srt fakeipOk dataplane badPageSize first = some r₀)
    (hsteps : AllStepsOption (handle e srt fakeipOk) SurvivorPublished r₀ evs)
    (hrun : runOption (handle e srt fakeipOk) r₀ evs = some r) :
    (r.generations.committed = 0 ∨ r.generations.committed ∈ r.host.published) ∧
      (∀ plan, r.candidate = some plan → plan.params.generation ∉ r.host.published) ∧
      ((r.host.built.map Prod.fst).Pairwise (· > ·) ∧
        (∀ g ∈ r.host.built.map Prod.fst, g < r.generations.allocate.1) ∧
        ∀ later r', runOption (handle e srt fakeipOk) r later = some r' →
          r.generations.next ≤ r'.generations.next) ∧
      ∀ g, r.generations.faultIsCurrent g (r.engine.map (·.params.generation)) = true →
        g ∈ r.host.published ∧ g = r.generations.committed ∧
          ∃ child, r.engine = some child ∧ child.params.generation = g := by
  obtain ⟨hs, h⟩ := run_truthful (A := True) (U := False) hstart
    (hsteps.mono fun _ _ hc => ⟨fun _ => hc, False.elim⟩) hrun
  refine ⟨h.committed trivial, fun plan hplan => ?_,
    ⟨h.built, h.allocated, fun later r' hlater => run_next_le hs hlater⟩, fun g hg => ?_⟩
  · exact h.fresh _ (by simp [Reactor.candidates, hplan])
  · simp only [Generations.faultIsCurrent, Bool.and_eq_true, bne_iff_ne, ne_eq, beq_iff_eq,
      Option.map_eq_some_iff] at hg
    obtain ⟨⟨hne, rfl⟩, child, he, hchild⟩ := hg
    exact ⟨(h.committed trivial).resolve_left hne, rfl, child, he, hchild⟩

/-- **The recorded configuration is the running one.**  In every run whose survivors were built from it,
the promoted child was built from `current_engine_user`, and a configuration that asks for no switch is
the one it was built from. -/
theorem recorded_user_is_running (hstart : start e srt fakeipOk dataplane badPageSize first = some r₀)
    (hsteps : AllStepsOption (handle e srt fakeipOk) SurvivorRecorded r₀ evs)
    (hrun : runOption (handle e srt fakeipOk) r₀ evs = some r) :
    ∀ child, r.engine = some child →
      r.host.userOf child.params.generation = r.currentEngineUser ∧
        ∀ user, needSwitch (some user) r = false →
          r.host.userOf child.params.generation = some user := by
  obtain ⟨hs, h⟩ := run_truthful (A := False) (U := True) hstart
    (hsteps.mono fun _ _ hc => ⟨False.elim, fun _ => hc⟩) hrun
  intro child he
  have huser := h.users trivial (child.params.generation, r.currentEngineUser)
    (by simp [Reactor.records, he, hs.role])
  refine ⟨huser, fun user hno => ?_⟩
  rw [huser]
  simpa [needSwitch, he] using hno

end Run

/-- The timer runs out twice on a stopping child, and it has not exited. -/
def killEvents : List Event :=
  [{ disabled := false, kind := .engineTimer, outside := { deadlinePassed := true } },
    { disabled := false, kind := .engineTimer, outside := { deadlinePassed := true } }]

/-- The backoff runs out over an engine. -/
def retryEvent : Event := { disabled := false, kind := .backoff, nested := [{}] }

/-- The old child survives its stop and is activated again. -/
def oldSurvivesEvents : List Event := switchEvents "next" ++ killEvents ++ [retryEvent]

def publishedRun : ColdRun SurvivorPublished fun r =>
    r.generations.faultIsCurrent 1 (r.engine.map (·.params.generation)) :=
  ⟨oldSurvivesEvents, by decide +kernel⟩

theorem committed_is_truthful_survived : ∃ r, coldRun oldSurvivesEvents = some r ∧
    r.generations.faultIsCurrent 1 (r.engine.map (·.params.generation)) = true ∧
    1 ∈ r.host.published := by
  obtain ⟨r₀, r, hstart, hsteps, hr, hcold, hfault⟩ := exists_of_coldMeets publishedRun.meets
  obtain ⟨-, -, -, hcurrent⟩ := committed_is_truthful hstart hsteps hr
  exact ⟨r, hcold, hfault, (hcurrent 1 hfault).1⟩

def recordedRun : ColdRun SurvivorRecorded fun r => r.active && r.engine.isSome :=
  ⟨oldSurvivesEvents, by decide +kernel⟩

theorem recorded_user_is_running_survived : ∃ r child, coldRun oldSurvivesEvents = some r ∧
    r.active = true ∧ r.engine = some child ∧
    r.host.userOf child.params.generation = r.currentEngineUser := by
  obtain ⟨r₀, r, hstart, hsteps, hr, hcold, hend⟩ := exists_of_coldMeets recordedRun.meets
  obtain ⟨hact, hengine⟩ := Bool.and_eq_true_iff.mp hend
  obtain ⟨child, he⟩ := Option.isSome_iff_exists.mp hengine
  exact ⟨r, child, hcold, hact, he, (recorded_user_is_running hstart hsteps hr child he).1⟩

/-- Its replacement is not ready in time, and survives its stop. -/
def candidateSurvivesEvents : List Event :=
  switchEvents "next" ++
  [{ disabled := false, kind := .transactionPidfd, outside := { exited := true } },
    { disabled := false, kind := .engineTimer, outside := { deadlinePassed := true } }] ++ killEvents

/-- The generation of a candidate that failed is committed, and a fault that names it is current, though
only the old generation has been published. -/
theorem survivor_is_committed : ∃ r, coldRun candidateSurvivesEvents = some r ∧
    r.generations.committed = 2 ∧ r.host.published = [1] ∧
    r.generations.faultIsCurrent 2 (r.engine.map (·.params.generation)) = true := by
  have hrun : (coldRun candidateSurvivesEvents).any (fun r => decide (r.generations.committed = 2 ∧
      r.host.published = [1] ∧
      r.generations.faultIsCurrent 2 (r.engine.map (·.params.generation)) = true)) = true := by
    decide +kernel
  obtain ⟨r, hr, h⟩ := (Option.any_eq_true _ _).mp hrun
  exact ⟨r, hr, of_decide_eq_true h⟩

/-- It is activated under the configuration of the generation it replaced, and files that ask for that
configuration again are taken to ask for no switch. -/
theorem survivor_is_misrecorded : ∃ r child,
    coldRun (candidateSurvivesEvents ++ [retryEvent]) = some r ∧ r.active = true ∧
    r.activationRole = none ∧ r.engine = some child ∧
    r.host.userOf child.params.generation = some "next" ∧ r.currentEngineUser = some "" ∧
    needSwitch (some "") r = false := by
  have hrun : (coldRun (candidateSurvivesEvents ++ [retryEvent])).any (fun r => decide (r.active = true ∧
      r.activationRole = none ∧ r.currentEngineUser = some "" ∧ needSwitch (some "") r = false) &&
      r.engine.any fun child => decide (r.host.userOf child.params.generation = some "next")) = true := by
    decide +kernel
  obtain ⟨r, hr, h⟩ := (Option.any_eq_true _ _).mp hrun
  obtain ⟨hstate, hengine⟩ := Bool.and_eq_true_iff.mp h
  obtain ⟨hact, hrole, hcurrent, hno⟩ := of_decide_eq_true hstate
  obtain ⟨child, he, huser⟩ := (Option.any_eq_true _ _).mp hengine
  exact ⟨r, child, hr, hact, hrole, he, of_decide_eq_true huser, hcurrent, hno⟩

end FluxRs.Daemon
