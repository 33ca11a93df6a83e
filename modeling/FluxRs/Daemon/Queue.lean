import FluxRs.Daemon.Sources

/-!
# FluxRs.Daemon.Queue — queued subscription work is not forgotten

While a batch is bound to a generation, a fetch or a change of sources waits in a flag.  The flags are
drained where a transaction ends, by `resume_queued_subscription_work`; a cancelled transaction ends without
it, and a result that brings bytes may raise a flag where no transaction is in flight.  Apart from these two
the flags are down whenever nothing is in flight.
-/

namespace FluxRs.Daemon

open FluxRs.Lib FluxRs.Net FluxRs.Kmod FluxRs.Dataplane

/-! ### Tags and debts -/

/-- The generation that the batch is bound to. -/
def Subscription.tag (s : Subscription) : Option ℕ := s.pending.bind (·.generation)

namespace Subscription

variable {s s' : Subscription} {g : ℕ}

theorem tagged_iff : s.tagged = true ↔ ∃ g, s.tag = some g := by
  unfold tagged tag
  cases s.pending with
  | none => simp
  | some pending => exact Option.isSome_iff_exists

theorem tagged_false (h : s.tag = none) : s.tagged = false := by
  by_contra hne
  obtain ⟨g, hg⟩ := tagged_iff.mp (by simpa using hne)
  cases h.symm.trans hg

theorem owes_of_tag (h : s.tag = some g) : s.owes = true := by
  simp [owes, tagged_iff.mpr ⟨g, h⟩]

theorem tag_none_of_owes (h : s.owes = false) : s.tag = none := by
  by_contra hne
  obtain ⟨g, hg⟩ := Option.ne_none_iff_exists'.mp hne
  cases h.symm.trans (owes_of_tag hg)

theorem tag_discard (h : (s.discardGeneration g).tag = some g) : False := by
  unfold discardGeneration at h
  split at h
  · cases h
  · rename_i hno
    obtain ⟨pending, hp, hg⟩ := Option.bind_eq_some_iff.mp h
    simp [hp, hg] at hno

end Subscription

theorem Quiet.tag {s s' : Subscription} {g : ℕ} (q : Quiet s s') (h : s'.tag = some g) :
    s.tag = some g := by
  unfold Subscription.tag at h ⊢
  rcases q.pending with heq | hnone
  · rwa [heq] at h
  · rw [hnone] at h
    cases h

theorem Quiet.owes_false {s s' : Subscription} (q : Quiet s s') (h : s.owes = false) :
    s'.owes = false := by
  by_contra hne
  cases h.symm.trans (q.owes (by simpa using hne))

/-- The transaction is there only to be cancelled. -/
def EngineTransaction.cancelled : EngineTransaction → Bool
  | .checking _ .cancelled | .stopping _ .cancelled _ => true
  | _ => false

/-- What queued work waits for. -/
def Waits (r : Reactor) : Control → Prop
  | .idle => r.subscription.owes = true → r.engineTransaction ≠ none
  | .holding t => (r.subscription.owes = true → r.engineCancelRequested = false) ∧
    (t.cancelled = true → r.engineCancelRequested = true)
  | .starting _ | .failing _ | .activating =>
    r.subscription.owes = true → r.engineCancelRequested = false
  | .erring => True
  | .cancelling => r.subscription.owes = false ∧ r.engineCancelRequested = true
  | .resuming => r.engineTransaction = none → r.subscription.tag = none

/-- A batch is bound to the candidate in flight, unless that is being cancelled. -/
structure Queue (r : Reactor) (c : Control) : Prop where
  waits : Waits r c
  tag : c ≠ .erring → ∀ g, r.subscription.tag = some g →
    r.engineCancelRequested = true ∨ g ∈ r.candidates ++ c.candidates
  mark : ∀ t, r.engineTransaction = some t → t.cancelled = true → r.engineCancelRequested = true

section Step

variable {fakeipOk : PolicyCandidate → UserConfig → Bool} {P : Fault → Prop}
variable {r r' : Reactor} {c c' : Control}

theorem shutdown_cancelEngineWork (r : Reactor) :
    (cancelEngineWork r).shutdownRequested = r.shutdownRequested := by
  unfold cancelEngineWork
  simp only
  split
  · split
    · rfl
    · rfl
  · rfl
  · rfl
  · rfl

/-- A shutdown is not taken back. -/
theorem Act.shutdown (h : Act fakeipOk P r c r' c') (hs : r.shutdownRequested = true) :
    r'.shutdownRequested = true := by
  cases h with
  | aside k => exact k.shutdown hs
  | cancel => rwa [shutdown_cancelEngineWork]
  | candidateExit h | recoveryExit h _ | stopped h _ | stopOvertaken h _ | stopRecovers h | stopEnds h
  | stopCancelled h | exitEngine _ h =>
    obtain ⟨host, rfl⟩ := h.eq
    exact hs
  | resume w =>
    obtain ⟨changed, s, heq, -⟩ := resumeQueued_eq w r
    rw [heq]
    exact hs
  | _ => exact hs

/-- A transaction goes into its slot. -/
theorem queue_slot {t : EngineTransaction} (ht : r'.engineTransaction = some t)
    (htag : ∀ g, r'.subscription.tag = some g → r'.engineCancelRequested = true ∨
      g ∈ (t.candidate.map (·.params.generation)).toList)
    (hmark : t.cancelled = true → r'.engineCancelRequested = true) : Queue r' .idle where
  waits _ := by simp [ht]
  tag _ g hg := by
    refine (htag g hg).imp_right fun hmem => ?_
    simpa [Reactor.candidates, Reactor.candidate, ht] using Or.inl hmem
  mark t' ht' hc := hmark (Option.some.inj (ht.symm.trans ht') ▸ hc)

/-- Nothing is in the slot, and no batch is bound. -/
theorem queue_free (ht : r'.engineTransaction = none) (htag : r'.subscription.tag = none)
    (hw : Waits r' c') : Queue r' c' where
  waits := hw
  tag _ g hg := by cases htag.symm.trans hg
  mark t h := by cases ht.symm.trans h

theorem queue_erring (ht : r'.engineTransaction = none) : Queue r' .erring where
  waits := trivial
  tag hc := absurd rfl hc
  mark t h := by cases ht.symm.trans h

theorem cancelled_checking {plan : SwitchPlan} {d : CheckDisposition}
    (h : (EngineTransaction.checking plan d).cancelled = true) : d = .cancelled := by
  cases d with
  | cancelled => rfl
  | normal | timedOut | supervisionFailed => cases h

/-- The handler goes on with what it has in hand. -/
theorem Queue.next (h : Queue r c) (ht : r.engineTransaction = none)
    (ht' : r'.engineTransaction = none) (hrole : r'.activationRole = r.activationRole)
    (hsub : r'.subscription = r.subscription)
    (hcancel : r'.engineCancelRequested = r.engineCancelRequested) (hw : Waits r' c')
    (hc : c ≠ .erring) (hcand : c.candidates ⊆ c'.candidates) : Queue r' c' where
  waits := hw
  tag _ g hg := by
    rw [hsub] at hg
    rw [hcancel]
    refine (h.tag hc g hg).imp_right fun hmem => ?_
    simp only [Reactor.candidates, Reactor.candidate, ht, ht', hrole] at hmem ⊢
    exact List.append_subset.mpr ⟨List.subset_append_left _ _,
      List.subset_append_of_subset_right _ hcand⟩ hmem
  mark t h := by cases ht'.symm.trans h

/-- With nothing in the slot, a bound batch belongs to what the handler has in hand. -/
theorem Queue.held (h : Queue r c) (hc : c ≠ .erring) (ht : r.engineTransaction = none)
    (hrole : r.activationRole = none) {g : ℕ} (hg : r.subscription.tag = some g) :
    r.engineCancelRequested = true ∨ g ∈ c.candidates := by
  simpa [Reactor.candidates, Reactor.candidate, ht, hrole] using h.tag hc g hg

theorem owes_false (h : r.subscription.owes = true → r.engineCancelRequested = false)
    (hc : r.engineCancelRequested = true) : r.subscription.owes = false := by
  by_contra hne
  cases hc.symm.trans (h (by simpa using hne))

theorem Waits.aside (k : Aside r r') (h : Waits r c) : Waits r' c := by
  unfold Waits at h ⊢
  rw [k.subscription, k.transaction, k.cancel]
  exact h

theorem Queue.cancelEngineWork (h : Queue r .idle) :
    Queue (cancelEngineWork { r with engineCancelRequested := true }) .idle := by
  unfold Daemon.cancelEngineWork
  simp only
  split
  · rename_i ht
    split
    · exact queue_slot rfl (fun _ _ => .inl rfl) fun _ => rfl
    · have howes : r.subscription.owes = false := by
        by_contra hne
        exact h.waits (by simpa using hne) ht
      exact queue_free ht (Subscription.tag_none_of_owes howes) fun ho => by cases howes.symm.trans ho
  · exact queue_slot rfl (fun _ _ => .inl rfl) fun _ => rfl
  · exact queue_slot rfl (fun _ _ => .inl rfl) fun _ => rfl
  · exact queue_slot rfl (fun _ _ => .inl rfl) fun _ => rfl

theorem owes_resume (w : Outside) (hbusy : r.convergenceBusy = false)
    (htag : r.subscription.tag = none) :
    (resumeQueuedSubscriptionWork w r).subscription.owes = false := by
  have htagged := Subscription.tagged_false htag
  unfold Subscription.tagged at htagged
  unfold resumeQueuedSubscriptionWork
  rw [hbusy]
  simp only [Bool.false_eq_true, if_false]
  split
  · have hclear : Subscription.owes
        { r.subscription with reconfigureQueued := false, fetchQueued := false } = false := by
      simp [Subscription.owes, Subscription.tagged, htagged]
    simp only [configureSubscription]
    split
    · exact hclear
    · exact (Quiet.configure _ _ _ _ _).owes_false hclear
  rename_i hrq
  split
  · have hclear : Subscription.owes { r.subscription with fetchQueued := false } = false := by
      simp [Subscription.owes, Subscription.tagged, htagged, hrq]
    simp only [startSubscriptionFetch]
    split
    · exact hclear
    · exact (Quiet.startFetchWith _ _ _ _).owes_false hclear
  · rename_i hfq
    simp [Subscription.owes, Subscription.tagged, htagged, hrq, hfq]

/-- Queued work is resumed where nothing is in flight. -/
theorem Queue.resume (hs : Shape r) (h : Queue r .resuming) (w : Outside) :
    Queue (resumeQueuedSubscriptionWork w r) .idle := by
  by_cases ht : r.engineTransaction = none
  · have hbusy : r.convergenceBusy = false := by simp [Reactor.convergenceBusy, ht, hs.role]
    have htag : r.subscription.tag = none := h.waits ht
    have howes := owes_resume w hbusy htag
    obtain ⟨changed, s, heq, -⟩ := resumeQueued_eq w r
    rw [heq] at howes ⊢
    exact queue_free ht (Subscription.tag_none_of_owes howes) fun ho => by cases howes.symm.trans ho
  · have hbusy : r.convergenceBusy = true := by
      simp [Reactor.convergenceBusy, Option.isSome_iff_ne_none.mpr ht]
    have heq : resumeQueuedSubscriptionWork w r = r := by simp [resumeQueuedSubscriptionWork, hbusy]
    rw [heq]
    exact ⟨fun _ => ht, fun _ => h.tag (by simp), h.mark⟩

/-- A committed candidate takes its batch with it. -/
theorem tag_commitPending {s : Subscription} {g : ℕ} (h : ∀ g', s.tag = some g' → g' = g)
    (nodes : Option NodeConfig) (env : CommitEnv) :
    (s.commitPending nodes (some g) env).2.tag = none := by
  have hc := s.commitPending_cached nodes (some g) env
  rcases hc.pending with hnone | ⟨heq, hne⟩
  · simp [Subscription.tag, hnone]
  · by_contra htag
    obtain ⟨g', hg'⟩ := Option.ne_none_iff_exists'.mp htag
    unfold Subscription.tag at hg'
    rw [heq] at hg'
    obtain ⟨pending, hp, hgen⟩ := Option.bind_eq_some_iff.mp hg'
    have heq' := h g' hg'
    exact hne pending hp (hgen.trans (congrArg some heq'))

theorem Queue.idle_owes (h : Queue r .idle) (ht : r.engineTransaction = none) :
    r.subscription.owes = false := by
  by_contra hne
  exact h.waits (by simpa using hne) ht

theorem Queue.idle_tag (h : Queue r .idle) (ht : r.engineTransaction = none) :
    r.subscription.tag = none := Subscription.tag_none_of_owes (h.idle_owes ht)

theorem Queue.quiet {policy : Option PolicyCandidate} {s : Subscription} (h : Queue r .idle)
    (q : Quiet r.subscription s) :
    Queue { r with currentPolicy := policy, subscription := s } .idle where
  waits ho := h.waits (q.owes ho)
  tag hc g hg := h.tag hc g (q.tag hg)
  mark := h.mark

/-- The batch of a candidate whose activation is under way is its own. -/
theorem Queue.activating {plan : SwitchPlan} (h : Queue r .activating) (ht : r.engineTransaction = none)
    (hrole : r.activationRole = some (.candidate plan)) :
    ∀ g, r.subscription.tag = some g → g = plan.params.generation := by
  intro g hg
  have hc := h.waits (Subscription.owes_of_tag hg)
  simpa [Reactor.candidates, Reactor.candidate, ht, hrole, hc] using h.tag (by simp) g hg

/-- The batch of a failed candidate is gone. -/
theorem Queue.discarded {plan : SwitchPlan} (h : Queue r (.failing plan))
    (hs : Bare r ∧ r.engine = none) {g : ℕ} {l : List ℕ}
    (hg : (dropCandidate plan r).subscription.tag = some g) :
    r.engineCancelRequested = true ∨ g ∈ l := by
  have hold := (Quiet.discardGeneration r.subscription plan.params.generation).tag hg
  refine (h.held (by simp) hs.1.transaction hs.1.role hold).imp_right fun hmem => ?_
  obtain rfl : g = plan.params.generation := by simpa using hmem
  exact (Subscription.tag_discard hg).elim

theorem tag_bind {s : Subscription} {nodes : Option NodeConfig} {g g' : ℕ} (h : s.tag = none)
    (hg : (s.bindGeneration nodes g).tag = some g') : g' = g := by
  unfold Subscription.bindGeneration at hg
  split at hg
  · simpa [Subscription.tag, eq_comm] using hg
  · cases h.symm.trans hg

theorem owes_settle (w : Outside) (user : Option UserConfig) (h : r.subscription.owes = false) :
    (settlePending w user r).subscription.owes = false := by
  cases user with
  | none => exact (Quiet.dropPending r.subscription).owes_false h
  | some user =>
    have hc := r.subscription.commitPending_cached (r.currentPolicy.map (·.nodes)) none w.commit
    simp only [settlePending, commitPendingSubscription]
    rw [hc.rest]
    simp only [Subscription.owes, Subscription.tagged, Bool.or_eq_false_iff] at h ⊢
    refine ⟨h.1, ?_⟩
    rcases hc.pending with hnone | ⟨heq, -⟩
    · rw [hnone]
      rfl
    · rw [heq]
      exact h.2

theorem result_cases (w : Outside) (answers : List FetchAnswer) (r : Reactor) :
    (handleSubscriptionResult w answers r).1 = .discarded ∧
        Quiet r.subscription (handleSubscriptionResult w answers r).2.subscription ∨
      ∃ noted, Used r.subscription (handleSubscriptionResult w answers r).2.subscription
        (handleSubscriptionResult w answers r).1 noted :=
  r.subscription.handleResult_cases r.disabled w.authority answers w.schedule w.route

theorem Queue.aside (h : Queue r c) (k : Aside r r') : Queue r' c := by
  refine ⟨h.waits.aside k, fun hc g hg => ?_, fun t ht => ?_⟩
  · rw [k.subscription] at hg
    rw [k.cancel]
    simpa [Reactor.candidates, Reactor.candidate, k.transaction, k.role] using h.tag hc g hg
  · rw [k.transaction] at ht
    rw [k.cancel]
    exact h.mark t ht

/-- A check ends, or goes on. -/
theorem Act.queue_checking {plan : SwitchPlan} {d : CheckDisposition}
    (h : Act fakeipOk P r (.holding (.checking plan d)) r' c') (hs : Bare r)
    (hi : Queue r (.holding (.checking plan d))) : Queue r' c' := by
  cases h with
  | aside k => exact hi.aside k
  | recheck hd =>
    rename_i d'
    refine queue_slot rfl (fun g hg => hi.held (by simp) hs.transaction hs.role hg) fun hc => ?_
    exact hi.waits.2 (by rw [hd (cancelled_checking hc)]; rfl)
  | checkFailed _ _ => exact queue_erring hs.transaction
  | checkCancelled hd =>
    have hc : r.engineCancelRequested = true := by
      rcases hd with rfl | hc
      · exact hi.waits.2 rfl
      · exact hc
    have howes := owes_false hi.waits.1 hc
    exact queue_free hs.transaction (Subscription.tag_none_of_owes howes) ⟨howes, hc⟩
  | checked _ _ =>
    exact hi.next hs.transaction hs.transaction rfl rfl rfl hi.waits.1 (by simp)
      (by simp [EngineTransaction.candidate])
  | switched _ _ =>
    exact queue_slot rfl (fun g hg => hi.held (by simp) hs.transaction hs.role hg) fun h => by cases h

/-- A child that waits goes on, is stopped, dies or is promoted. -/
theorem Act.queue_waiting {child : EngineChild} {role : WaitRole}
    (h : Act fakeipOk P r (.holding (.waiting child role)) r' c')
    (hs : ShapeAt r (.holding (.waiting child role))) (hi : Queue r (.holding (.waiting child role))) :
    Queue r' c' := by
  cases h with
  | aside k => exact hi.aside k
  | rewait _ _ _ =>
    exact queue_slot rfl (fun g hg => hi.held (by simp) hs.1 hs.2.1 hg) fun h => by cases h
  | waitCancelled hc => exact queue_slot rfl (fun _ _ => .inl hc) fun _ => hc
  | waitFailed child role error =>
    refine queue_slot rfl (fun g hg => ?_) fun h => ?_
    · rw [(subset_failed none child role error).1]
      exact hi.held (by simp) hs.1 hs.2.1 hg
    · cases role <;> cases h
  | candidateExit h =>
    obtain ⟨host, rfl⟩ := h.eq
    exact hi.next hs.1 hs.1 rfl rfl rfl hi.waits.1 (by simp) (by simp [EngineTransaction.candidate])
  | recoveryExit h _ =>
    obtain ⟨host, rfl⟩ := h.eq
    exact queue_erring hs.1
  | promote hc =>
    refine ⟨fun _ => rfl, fun _ g hg => ?_, fun _ h => by cases hs.1.symm.trans h⟩
    have hheld := (hi.held (by simp) hs.1 hs.2.1 hg).resolve_left (by simp [hc])
    cases role with
    | candidate plan =>
      exact .inr (by simpa [Reactor.candidates, Reactor.candidate, EngineTransaction.candidate, hs.1] using hheld)
    | recovery error => cases hheld

/-- A child that stops dies, or is kept. -/
theorem Act.queue_stopping {child : EngineChild} {next : StopNext} {killSent : Bool}
    (h : Act fakeipOk P r (.holding (.stopping child next killSent)) r' c') (hs : Bare r ∧ r.engine = none)
    (hi : Queue r (.holding (.stopping child next killSent))) : Queue r' c' := by
  cases h with
  | aside k => exact hi.aside k
  | restop _ _ _ _ =>
    refine queue_slot rfl (fun g hg => ?_) fun hc => ?_
    · have hheld := hi.held (by simp) hs.1.transaction hs.1.role hg
      cases next <;> exact hheld
    · refine hi.waits.2 ?_
      cases next <;> exact hc
  | stopped h _ =>
    obtain ⟨host, rfl⟩ := h.eq
    exact hi.next hs.1.transaction hs.1.transaction rfl rfl rfl hi.waits.1 (by simp)
      (by simp [EngineTransaction.candidate])
  | stopOvertaken h hc =>
    obtain ⟨host, rfl⟩ := h.eq
    have howes := owes_false hi.waits.1 hc
    exact queue_free hs.1.transaction (Subscription.tag_none_of_owes howes) ⟨howes, hc⟩
  | stopRecovers h =>
    obtain ⟨host, rfl⟩ := h.eq
    exact hi.next hs.1.transaction hs.1.transaction rfl rfl rfl hi.waits.1 (by simp)
      (by simp [EngineTransaction.candidate])
  | stopEnds h =>
    obtain ⟨host, rfl⟩ := h.eq
    exact queue_erring hs.1.transaction
  | stopCancelled h =>
    obtain ⟨host, rfl⟩ := h.eq
    have hc : r.engineCancelRequested = true := hi.waits.2 rfl
    have howes := owes_false hi.waits.1 hc
    exact queue_free hs.1.transaction (Subscription.tag_none_of_owes howes) ⟨howes, hc⟩
  | kept _ =>
    have htag : (next.discard r.subscription).tag = none := by
      by_contra hne
      obtain ⟨g, hg⟩ := Option.ne_none_iff_exists'.mp hne
      have hold := (quiet_discard next r.subscription).tag hg
      have hc := hi.waits.1 (Subscription.owes_of_tag hold)
      have hheld := (hi.held (by simp) hs.1.transaction hs.1.role hold).resolve_left (by simp [hc])
      cases next with
      | startCandidate plan =>
        obtain rfl : g = plan.params.generation := by
          simpa [EngineTransaction.candidate] using hheld
        exact Subscription.tag_discard hg
      | recover plan error =>
        obtain rfl : g = plan.params.generation := by
          simpa [EngineTransaction.candidate] using hheld
        exact Subscription.tag_discard hg
      | finishRecoveryFailure error error' => cases hheld
      | cancelled => cases hheld
    exact queue_free rfl htag fun _ => htag

/-- A candidate is started. -/
theorem Act.queue_starting {plan : SwitchPlan} (h : Act fakeipOk P r (.starting plan) r' c')
    (hs : Bare r ∧ r.engine = none) (hi : Queue r (.starting plan)) : Queue r' c' := by
  cases h with
  | aside k => exact hi.aside k
  | spawnFailed plan =>
    exact hi.next hs.1.transaction hs.1.transaction rfl rfl rfl hi.waits (by simp) (List.Subset.refl _)
  | spawned plan =>
    exact queue_slot rfl (fun g hg => hi.held (by simp) hs.1.transaction hs.1.role hg) fun h => by cases h
  | spawnedUnwatched plan error =>
    exact queue_slot rfl (fun g hg => hi.held (by simp) hs.1.transaction hs.1.role hg) fun h => by cases h

/-- A candidate has failed, and what it replaced is started again. -/
theorem Act.queue_failing {plan : SwitchPlan} (h : Act fakeipOk P r (.failing plan) r' c')
    (hs : Bare r ∧ r.engine = none) (hi : Queue r (.failing plan)) : Queue r' c' := by
  cases h with
  | aside k => exact hi.aside k
  | failCancelled hc =>
    have howes := (Quiet.discardGeneration r.subscription plan.params.generation).owes_false
      (owes_false hi.waits hc)
    exact queue_free hs.1.transaction (Subscription.tag_none_of_owes howes) ⟨howes, hc⟩
  | failCold _ => exact queue_erring hs.1.transaction
  | failLost _ _ => exact queue_erring hs.1.transaction
  | recovered _ _ => exact queue_slot rfl (fun g hg => hi.discarded hs hg) fun h => by cases h
  | recoveredUnwatched _ _ _ => exact queue_slot rfl (fun g hg => hi.discarded hs hg) fun h => by cases h

/-- A promoted child is committed or stopped. -/
theorem Act.queue_activating (h : Act fakeipOk P r .activating r' c') (hi : Queue r .activating) :
    Queue r' c' := by
  cases h with
  | aside k => exact hi.aside k
  | commitCandidate he ht hrole hok hb =>
    rename_i child plan env
    have htag := tag_commitPending (hi.activating ht hrole) r.nodes env
    exact queue_free ht htag fun _ => htag
  | commitRefused error he ht hrole hok hb =>
    rename_i child plan env
    have htag := tag_commitPending (hi.activating ht hrole) r.nodes env
    exact queue_slot rfl (fun g hg => by cases htag.symm.trans hg) fun h => by cases h
  | commitRecovery he ht hrole =>
    have htag : r.subscription.tag = none := by
      by_contra hne
      obtain ⟨g, hg⟩ := Option.ne_none_iff_exists'.mp hne
      have hc := hi.waits (Subscription.owes_of_tag hg)
      have hmem := hi.tag (by simp) g hg
      simp [Reactor.candidates, Reactor.candidate, ht, hrole, hc] at hmem
    exact queue_free ht htag fun _ => htag
  | roleFailed error he ht hrole =>
    rename_i child role
    refine queue_slot rfl (fun g hg => ?_) fun h => ?_
    · refine (hi.tag (by simp) g hg).imp_right fun hmem => ?_
      rw [(subset_failed none child role error).1]
      simp only [Reactor.candidates, Reactor.candidate, ht, hrole, Option.bind_none, Option.map_none,
        Option.toList_none, List.nil_append, Option.map_some, Option.getD_some, Control.candidates,
        List.append_nil] at hmem
      cases role with
      | candidate plan => exact hmem
      | recovery error' => exact hmem
    · cases role <;> cases h

/-- The steps of a reactor that holds no transaction. -/
theorem Act.queue_idle (htake : ∀ r, P (.take r) → r.shutdownRequested = true ∨
      (r.subscription.owes = true → r.engineCancelRequested = false))
    (hbeside : ∀ r, P (.queuedBeside r) → r.shutdownRequested = true) (h : Act fakeipOk P r .idle r' c')
    (hs : Shape r) (hrun : r.shutdownRequested = false) (hi : Queue r .idle) : Queue r' c' := by
  cases h with
  | aside k => exact hi.aside k
  | cancel => exact hi.cancelEngineWork
  | take ht hP =>
    have howes := (htake _ hP).resolve_left (by simp [hrun])
    refine ⟨⟨howes, hi.mark _ ht⟩, fun _ g hg => ?_, fun _ h => by cases h⟩
    simpa [Reactor.candidates, Reactor.candidate, ht, or_comm] using hi.tag (by simp) g hg
  | recommit he ht =>
    have htag : r.subscription.tag = none := hi.idle_tag ht
    exact queue_free ht htag fun _ => htag
  | exitEngine _ h =>
    obtain ⟨host, rfl⟩ := h.eq
    exact ⟨hi.waits, hi.tag, hi.mark⟩
  | policy policy changed env _ =>
    exact hi.quiet (Quiet.configure r.subscription r.disabled policy.nodes changed env)
  | generation user params d hg hd hbusy =>
    have ht := (idle_of_not_busy hbusy).1
    refine queue_slot rfl (fun g htag => .inr ?_) fun hc => ?_
    · have hbound := tag_bind (hi.idle_tag ht) htag
      simpa [EngineTransaction.candidate] using hbound
    · exact absurd (cancelled_checking hc) hd
  | generationFailed hbusy =>
    exact queue_erring (idle_of_not_busy hbusy).1
  | settle w user hbusy =>
    have ht := (idle_of_not_busy hbusy).1
    have howes := owes_settle w user (hi.idle_owes ht)
    exact queue_free ht (Subscription.tag_none_of_owes howes) fun ho => by cases howes.symm.trans ho
  | feed h => exact hi.quiet h.quiet
  | discardedResult h =>
    rename_i answers w
    rcases result_cases w answers r with ⟨-, hq⟩ | ⟨noted, hu⟩
    · exact hi.quiet hq
    · rcases hu.pending with ⟨hv, -⟩ | ⟨hv, -⟩ <;> cases h.symm.trans hv
  | emptyResult h =>
    rename_i answers w
    have hnone : (handleSubscriptionResult w answers r).2.subscription.pending = none := by
      rcases result_cases w answers r with ⟨hv, -⟩ | ⟨noted, hu⟩
      · cases h.symm.trans hv
      rcases hu.pending with ⟨-, hnone⟩ | ⟨hv, -⟩
      · exact hnone
      · cases h.symm.trans hv
    have htag : (handleSubscriptionResult w answers r).2.subscription.tag = none := by
      simp [Subscription.tag, hnone]
    exact ⟨fun _ => htag, fun _ g hg => (by cases htag.symm.trans hg), hi.mark⟩
  | acceptedResult h hP =>
    rename_i answers w
    obtain ⟨noted, hu⟩ : ∃ noted, Used r.subscription
        (handleSubscriptionResult w answers r).2.subscription .accepted noted := by
      rcases result_cases w answers r with ⟨hv, -⟩ | ⟨noted, hu⟩
      · cases h.symm.trans hv
      · exact ⟨noted, h ▸ hu⟩
    have htag : (handleSubscriptionResult w answers r).2.subscription.tag = none := by
      rcases hu.pending with ⟨hv, -⟩ | ⟨-, hsome⟩
      · cases hv
      · simp [Subscription.tag, hsome]
    refine ⟨fun ho => ?_, fun _ g hg => (by cases htag.symm.trans hg), hi.mark⟩
    by_contra ht
    have ht : r.engineTransaction = none := ht
    have hbusy : r.convergenceBusy = false := by simp [Reactor.convergenceBusy, ht, hs.role]
    simp only [Subscription.owes, Subscription.tagged_false htag, Bool.or_false, Bool.or_eq_true] at ho
    rcases ho with hfq | hrq
    · exact absurd (hbeside r (hP hfq hbusy)) (by simp [hrun])
    · exact hi.waits (hu.reconfigure hrq) ht

/-- Every step keeps the queue in order, but for the two faults. -/
theorem Act.queue (htake : ∀ r, P (.take r) → r.shutdownRequested = true ∨
      (r.subscription.owes = true → r.engineCancelRequested = false))
    (hbeside : ∀ r, P (.queuedBeside r) → r.shutdownRequested = true)
    (h : Act fakeipOk P r c r' c') (hs : ShapeAt r c) (hrun : r.shutdownRequested = false)
    (hi : Queue r c) : Queue r' c' := by
  match c with
  | .idle => exact h.queue_idle htake hbeside hs hrun hi
  | .holding (.checking _ _) => exact h.queue_checking hs hi
  | .holding (.waiting _ _) => exact h.queue_waiting hs hi
  | .holding (.stopping _ _ _) => exact h.queue_stopping hs hi
  | .starting _ => exact h.queue_starting hs hi
  | .failing _ => exact h.queue_failing hs hi
  | .activating => exact h.queue_activating hi
  | .erring =>
    cases h with
    | aside k => exact hi.aside k
    | err _ =>
      have htag : r.subscription.dropTagged.tag = none := by
        unfold Subscription.dropTagged
        split
        · rfl
        · rename_i hno
          by_contra hne
          obtain ⟨g, hg⟩ := Option.ne_none_iff_exists'.mp hne
          exact hno (Subscription.tagged_iff.mpr ⟨g, hg⟩)
      exact queue_free rfl htag fun _ => htag
  | .cancelling =>
    cases h with
    | aside k => exact hi.aside k
    | cancelStops _ _ => exact queue_slot rfl (fun _ _ => .inl hi.waits.2) fun _ => hi.waits.2
    | cancelEnds _ _ =>
      refine queue_free rfl (Subscription.tag_none_of_owes hi.waits.1) fun ho => ?_
      cases hi.waits.1.symm.trans ho
  | .resuming =>
    cases h with
    | aside k => exact hi.aside k
    | resume w => exact hi.resume hs w

end Step

/-! ### Runs -/

/-- A result leaves nothing to fetch: it covers every configured source, and no route came back since its
request while one of them failed. -/
def Complete (s : Subscription) (config : Authority) (completed : List (RemoteSource × FetchAnswer))
    (route : Option Bool) : Prop :=
  (∀ source ∈ config.nodes.remoteSources, source ∈ completed.map Prod.fst) ∧
    ((∃ entry ∈ completed, entry.1 ∈ config.nodes.remoteSources ∧ entry.2 = none) →
      (s.observeRoute route).routeRecoveryEpoch = s.fetchRouteEpoch)

instance (s : Subscription) (config : Authority) (completed : List (RemoteSource × FetchAnswer))
    (route : Option Bool) : Decidable (Complete s config completed route) :=
  inferInstanceAs (Decidable (_ ∧ (_ → _)))

/-- The current result that an event brings to an enabled daemon, if some of its bytes are accepted. -/
def accepting (r : Reactor) (ev : Event) : Option (Authority × List (RemoteSource × FetchAnswer)) :=
  match ev.kind, ev.outside.authority with
  | .subscription answers, some config =>
    (r.subscription.takeResult answers).bind fun (completed, epoch) =>
      if epoch = r.subscription.fetchEpoch ∧ ev.disabled = false ∧
          (Subscription.acceptedRaw (Subscription.judged config completed epoch epoch)).isEmpty = false
      then some (config, completed) else none
  | _, _ => none

/-- The coordinator once a result has been taken and the files have been read. -/
def scheduled (r : Reactor) (ev : Event) (config : Authority) : Subscription :=
  { r.subscription with worker := none }.ensureSchedule ev.disabled config.nodes ev.outside.schedule

/-- Unless the daemon shuts down, no event of a transaction finds it cancelled while work is queued, and a
result whose bytes are accepted while nothing is in flight leaves nothing to fetch. -/
structure KeepsQueue (r : Reactor) (ev : Event) : Prop where
  drains : r.shutdownRequested = false → ev.kind.takes = true → r.engineTransaction ≠ none →
    r.subscription.owes = true → r.engineCancelRequested = false
  complete : r.shutdownRequested = false → r.convergenceBusy = false → ∀ result ∈ accepting r ev,
    Complete (scheduled r ev result.1) result.1 result.2 ev.outside.route

instance (r : Reactor) (ev : Event) : Decidable (KeepsQueue r ev) :=
  decidable_of_iff ((_ → _ → _ → _ → _) ∧ (_ → _ → ∀ result ∈ accepting r ev, _))
    ⟨fun h => ⟨h.1, h.2⟩, fun h => ⟨h.drains, h.complete⟩⟩

/-- Every fault, but those of the queue only under a shutdown. -/
def Fault.drained : Fault → Prop
  | .take r => r.shutdownRequested = true ∨
    (r.subscription.owes = true → r.engineCancelRequested = false)
  | .queuedBeside r => r.shutdownRequested = true
  | _ => True

theorem noteResult_fetchQueued {s : Subscription} {config : Authority}
    {completed : List (RemoteSource × FetchAnswer)} {route : Option Bool}
    (h : Complete s config completed route) :
    (s.noteResult config completed route).fetchQueued = s.fetchQueued := by
  have hmissed : (config.nodes.remoteSources.any fun source =>
      !(completed.map Prod.fst).contains source) = false := by
    simpa using h.1
  have hroute : ∀ queued retry, ({ s with fetchQueued := queued, retryOnRoute := retry }.observeRoute
        route).fetchQueued = queued ∧
      ({ s with fetchQueued := queued, retryOnRoute := retry }.observeRoute route).routeRecoveryEpoch =
        (s.observeRoute route).routeRecoveryEpoch ∧
      ({ s with fetchQueued := queued, retryOnRoute := retry }.observeRoute route).fetchRouteEpoch =
        s.fetchRouteEpoch := by
    intro queued retry
    cases route <;> exact ⟨rfl, rfl, rfl⟩
  unfold Subscription.noteResult
  simp only [hmissed, Bool.or_false]
  split
  · rename_i hfailed
    obtain ⟨hfq, hepoch, hfetch⟩ := hroute s.fetchQueued true
    have hsame := h.2 (by simpa using hfailed)
    simp only [hfailed]
    rw [if_neg]
    · exact hfq
    · rw [hepoch, hfetch, hsame]
      simp
  · rfl

/-- A result that leaves a fetch queued where none was is not complete. -/
theorem incomplete_of_queued {r : Reactor} {ev : Event} {answers : List FetchAnswer}
    (hk : ev.kind = .subscription answers) (howes : r.subscription.owes = false)
    (hv : (handleSubscriptionResult ev.outside answers (ev.enter r)).1 = .accepted)
    (hfq : (handleSubscriptionResult ev.outside answers (ev.enter r)).2.subscription.fetchQueued = true) :
    ∃ result ∈ accepting r ev,
      ¬ Complete (scheduled r ev result.1) result.1 result.2 ev.outside.route := by
  have hv' : (r.subscription.handleResult ev.disabled ev.outside.authority answers ev.outside.schedule
      ev.outside.route).1 = .accepted := hv
  have hfq' : (r.subscription.handleResult ev.disabled ev.outside.authority answers ev.outside.schedule
      ev.outside.route).2.fetchQueued = true := hfq
  unfold Subscription.handleResult at hv' hfq'
  cases htake : r.subscription.takeResult answers with
  | none => simp [htake] at hv'
  | some taken =>
    obtain ⟨completed, epoch⟩ := taken
    simp only [htake] at hv' hfq'
    split at hv'
    · cases hv'
    rename_i hepoch
    rw [if_neg hepoch] at hfq'
    cases hauth : ev.outside.authority with
    | none => simp [hauth] at hv'
    | some config =>
      simp only [hauth] at hv' hfq'
      have hs₁ : scheduled r ev config = { r.subscription with worker := none }.ensureSchedule ev.disabled
          config.nodes ev.outside.schedule := rfl
      rw [← hs₁] at hv' hfq'
      split at hv'
      · cases hv'
      rename_i hoff
      rw [if_neg hoff] at hfq'
      split at hv'
      · cases hv'
      rename_i htagged
      rw [if_neg htagged] at hfq'
      have heq : epoch = r.subscription.fetchEpoch := not_not.mp hepoch
      have hon : ev.disabled = false := by
        by_contra hne
        exact hoff (by simp [hne])
      unfold Subscription.useResult at hv' hfq'
      simp only at hv' hfq'
      split at hv'
      · cases hv'
      rename_i hraw
      rw [if_neg hraw] at hfq'
      refine ⟨(config, completed), ?_, fun hcomplete => ?_⟩
      · subst heq
        simp only [accepting, hk, hauth, htake, Option.bind_some, Option.mem_def]
        exact if_pos ⟨trivial, hon, by simpa using hraw⟩
      · have hqueued : (scheduled r ev config).fetchQueued = true :=
          (noteResult_fetchQueued hcomplete).symm.trans hfq'
        have htaken : Quiet r.subscription { r.subscription with worker := none } :=
          .of_eq rfl rfl rfl rfl rfl
        have hq : Quiet r.subscription (scheduled r ev config) :=
          htaken.trans (.ensureSchedule _ _ _ _)
        have hdebt : (scheduled r ev config).owes = true := by simp [Subscription.owes, hqueued]
        cases (hq.owes_false howes).symm.trans hdebt

section Run

variable {e : Endian} {srt : Sorter} {fakeipOk : PolicyCandidate → UserConfig → Bool}

theorem KeepsQueue.grants {r : Reactor} {ev : Event} (h : KeepsQueue r ev)
    (hi : r.shutdownRequested = true ∨ Queue r .idle) :
    Grants Fault.drained (ev.enter r) ev.kind ev.outside where
  take htake ht := by
    by_cases hrun : r.shutdownRequested = true
    · exact .inl hrun
    · exact .inr (h.drains (by simpa using hrun) htake ht)
  queuedBeside answers hk hbusy hv hfq := by
    by_contra hrun
    have hrun' : ¬ r.shutdownRequested = true := hrun
    have hbusy' : r.convergenceBusy = false := hbusy
    have howes := (hi.resolve_left hrun').idle_owes (idle_of_not_busy hbusy').1
    obtain ⟨result, hmem, hno⟩ := incomplete_of_queued hk howes hv hfq
    exact hno (h.complete (by simpa using hrun') hbusy' result hmem)

/-- **No queued fetch is forgotten.**  In every run in which no cancelled transaction is advanced while work
is queued, and every result whose bytes are accepted beside an idle engine leaves nothing to fetch, the two
flags are down whenever the daemon is not shutting down and no transaction is in flight. -/
theorem no_fetch_is_forgotten {dataplane : Plane} {badPageSize : Bool} {first : Event}
    {evs : List Event} {r₀ r : Reactor}
    (hstart : start e srt fakeipOk dataplane badPageSize first = some r₀)
    (hsteps : AllStepsOption (handle e srt fakeipOk) KeepsQueue r₀ evs)
    (hrun : runOption (handle e srt fakeipOk) r₀ evs = some r) (hup : r.shutdownRequested = false)
    (hidle : r.engineTransaction = none) :
    r.subscription.fetchQueued = false ∧ r.subscription.reconfigureQueued = false := by
  obtain ⟨-, h⟩ := run_keeps (P := Fault.drained)
    (I := fun r c => r.shutdownRequested = true ∨ Queue r c) e srt
    (fun {r c r' c'} hact hs hi => by
      by_cases hdown : r.shutdownRequested = true
      · exact .inl (hact.shutdown hdown)
      · exact .inr (hact.queue (fun _ => id) (fun _ => id) hs (by simpa using hdown)
          (hi.resolve_left hdown)))
    (fun r ev _ hi => hi.imp_right fun h => ⟨h.waits, h.tag, h.mark⟩)
    (fun r ev hc _ hi => hc.grants hi)
    (.inr (queue_free rfl rfl fun ho => by cases ho)) hstart hsteps hrun
  have howes := (h.resolve_left (by simp [hup])).idle_owes hidle
  simp only [Subscription.owes, Bool.or_eq_false_iff] at howes
  exact howes.1

end Run

/-- A fetch is asked for while the batch of a candidate is bound. -/
def queuedEvents : List Event :=
  boundEvents ++
  [{ disabled := false, kind := .subscribe
     outside := { authority := some ⟨twoNodes, fun _ => true⟩ } }] ++ startedEvents ++
  [{ disabled := false, kind := .sockDiag
     outside := { probe := .ready, authority := some ⟨twoNodes, fun _ => true⟩ } }]

def queuedRun : ColdRun KeepsQueue fun r => decide (r.shutdownRequested = false ∧
    r.engineTransaction = none ∧ r.subscription.worker.isSome = true) :=
  ⟨queuedEvents, by decide +kernel⟩

theorem no_fetch_is_forgotten_queued : ∃ r, coldRun queuedEvents = some r ∧
    r.subscription.worker.isSome = true ∧ r.subscription.fetchQueued = false ∧
    r.subscription.reconfigureQueued = false := by
  obtain ⟨r₀, r, hstart, hsteps, hr, hcold, hend⟩ := exists_of_coldMeets queuedRun.meets
  obtain ⟨hup, hidle, hworker⟩ := of_decide_eq_true hend
  exact ⟨r, hcold, hworker, no_fetch_is_forgotten hstart hsteps hr hup hidle⟩

/-- A source is added while another is fetched, and what is fetched changes nothing. -/
def addedEvents : List Event :=
  readyEvents ++ sourcesEvents ⟨["a"], 3600⟩ ++ sourcesEvents twoNodes ++
  [{ disabled := false, kind := .subscription [some [1]]
     outside := { authority := some ⟨twoNodes, fun _ => true⟩ }
     nested := [{ user := some "" }] }]

/-- The fetch fails while a check is in flight, and the data plane fails before that has ended. -/
def overtakenEvents : List Event :=
  readyEvents ++ sourcesEvents ⟨["a"], 3600⟩ ++ sourcesEvents twoNodes ++
  [{ disabled := false, kind := .inotify false false true },
    { disabled := false, kind := .debounce, nested := [{ user := some "next" }] },
    { disabled := false, kind := .subscription [none]
      outside := { authority := some ⟨twoNodes, fun _ => true⟩ } },
    { disabled := false, kind := .rtnetlink },
    { disabled := false, kind := .debounce, nested := [{ up := { statusFault := some .EFAULT } }] },
    { disabled := false, kind := .checkExit, outside := { check := .finished none } },
    { disabled := false, kind := .transactionPidfd, outside := { exited := true }, nested := [{}] }]

/-- Nothing runs and nothing is pending, but a fetch stays queued. -/
def Forgets (r : Reactor) : Prop :=
  r.disabled = false ∧ r.shutdownRequested = false ∧ r.subscription.worker = none ∧
    r.engineTransaction = none ∧ r.activationRole = none ∧ r.subscription.pending = none ∧
    r.subscription.fetchQueued = true

instance (r : Reactor) : Decidable (Forgets r) := by
  unfold Forgets
  infer_instance

/-- Either way the fetch of the added source is never started. -/
theorem added_source_is_forgotten : (∃ r, coldRun addedEvents = some r ∧ Forgets r) ∧
    ∃ r, coldRun overtakenEvents = some r ∧ Forgets r := by
  have hrun : ∀ evs ∈ [addedEvents, overtakenEvents],
      (coldRun evs).any (fun r => decide (Forgets r)) = true := by decide +kernel
  have hforgets : ∀ evs ∈ [addedEvents, overtakenEvents], ∃ r, coldRun evs = some r ∧ Forgets r := by
    intro evs hmem
    obtain ⟨r, hr, h⟩ := (Option.any_eq_true _ _).mp (hrun evs hmem)
    exact ⟨r, hr, of_decide_eq_true h⟩
  exact ⟨hforgets _ (by simp), hforgets _ (by simp)⟩

end FluxRs.Daemon
