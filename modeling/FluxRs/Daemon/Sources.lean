import FluxRs.Daemon.Cache
import FluxRs.Daemon.Generations

/-!
# FluxRs.Daemon.Sources — where the bytes of the cache come from

A batch is made of one result, bound to a generation, written or dropped; epochs, generations and policies
go on meanwhile.  `Touched` says once what a step may do to the coordinator, and from it follows that every
byte in the cache is that of a response which was accepted when it was handled.
-/

namespace FluxRs.Daemon

open FluxRs.Lib FluxRs.Net FluxRs.Kmod FluxRs.Dataplane

/-! ### One step -/

/-- The bytes are those of a response that was accepted, and current, when its result was handled. -/
def Subscription.Received (s : Subscription) (source : RemoteSource) (raw : Raw) : Prop :=
  ∃ response ∈ s.responses, response.source = source ∧ response.raw = raw ∧
    response.epoch = response.current ∧ response.source ∈ response.config.nodes.remoteSources ∧
      response.config.remote response.raw = true

/-- What is pending and what was written has been received, what was bound to a generation was written for
a published one, and the cache holds what was written, or what it held at the start. -/
structure Sourced (initial : List (RemoteSource × Raw)) (published : List ℕ) (s : Subscription) :
    Prop where
  pending : ∀ pending, s.pending = some pending → ∀ entry ∈ pending.raw.entries,
    s.Received entry.1 entry.2
  writes : ∀ write ∈ s.writes, s.Received write.source write.raw ∧ write.source ∈ write.configured ∧
    ∀ g, write.generation = some g → g ∈ published
  cache : ∀ entry ∈ s.cache, entry ∈ initial ∨
    ∃ write ∈ s.writes, write.source = entry.1 ∧ write.raw = entry.2

namespace Sourced

variable {initial : List (RemoteSource × Raw)} {published published' : List ℕ} {s s' : Subscription}

theorem publish (h : Sourced initial published s) (hsub : published ⊆ published') :
    Sourced initial published' s where
  pending := h.pending
  writes write hmem :=
    let ⟨hr, hc, hg⟩ := h.writes write hmem
    ⟨hr, hc, fun g heq => hsub (hg g heq)⟩
  cache := h.cache

/-- Nothing is written, and no response is lost. -/
theorem keep (h : Sourced initial published s) (hr : s.responses ⊆ s'.responses)
    (hw : s'.writes = s.writes) (hk : s'.cache.Sublist s.cache)
    (hp : ∀ pending, s'.pending = some pending → ∀ entry ∈ pending.raw.entries,
      s'.Received entry.1 entry.2) : Sourced initial published s' where
  pending := hp
  writes write hmem := by
    rw [hw] at hmem
    obtain ⟨⟨response, hresponse, hgood⟩, hrest⟩ := h.writes write hmem
    exact ⟨⟨response, hr hresponse, hgood⟩, hrest⟩
  cache entry hmem := by
    rw [hw]
    exact h.cache entry (hk.subset hmem)

theorem quiet (h : Sourced initial published s) (q : Quiet s s') : Sourced initial published s' := by
  have hsub : s.responses ⊆ s'.responses := by
    rw [q.responses]
    exact List.Subset.refl _
  refine h.keep hsub q.writes q.cache fun pending hp entry hmem => ?_
  unfold Subscription.Received
  rw [q.responses]
  rcases q.pending with heq | hnone
  · exact h.pending pending (heq.symm.trans hp) entry hmem
  · cases hnone.symm.trans hp

theorem bind (h : Sourced initial published s) (nodes : Option NodeConfig) (generation : ℕ) :
    Sourced initial published (s.bindGeneration nodes generation) := by
  unfold Subscription.bindGeneration
  split
  · rename_i pending config hp
    refine h.keep (List.Subset.refl _) rfl (.refl _) fun bound hbound entry hmem => ?_
    cases hbound
    exact h.pending pending hp entry (List.mem_of_mem_filter hmem)
  · exact h

/-- A result that is used brings sourced bytes. -/
theorem used {verdict : Subscription.Verdict} {noted : List Response} (h : Sourced initial published s)
    (u : Used s s' verdict noted) : Sourced initial published s' := by
  have hsub : s.responses ⊆ s'.responses := by
    rw [u.responses]
    exact List.subset_append_right _ _
  refine h.keep hsub u.writes u.cache fun pending hp entry hmem => ?_
  rcases u.pending with ⟨-, hnone⟩ | ⟨-, hsome⟩
  · cases hnone.symm.trans hp
  · cases hsome.symm.trans hp
    obtain ⟨response, hresponse, hpassed, hsource, hraw⟩ := Subscription.mem_acceptedRaw hmem
    obtain ⟨hconfigured, hremote⟩ := Bool.and_eq_true_iff.mp hpassed
    refine ⟨response, ?_, hsource, hraw, u.current response hresponse, List.contains_iff_mem.mp hconfigured, hremote⟩
    rw [u.responses]
    exact List.mem_append_left _ hresponse

/-- A commit writes what was pending, for sources that are still configured. -/
theorem commit (h : Sourced initial published s) (hsub : published ⊆ published')
    {nodes : Option NodeConfig} {generation : Option ℕ} {env : CommitEnv}
    (hg : ∀ g, generation = some g → s.stored nodes generation env ≠ [] → g ∈ published') :
    Sourced initial published' (s.commitPending nodes generation env).2 := by
  have hc := s.commitPending_cached nodes generation env
  generalize s.commitPending nodes generation env = result at hc ⊢
  have hreceived : ∀ source raw, s.Received source raw → result.2.Received source raw := by
    intro source raw hr
    rw [hc.rest]
    exact hr
  refine ⟨fun pending hp entry hmem => ?_, fun write hmem => ?_, fun entry hmem => ?_⟩
  · rcases hc.pending with hnone | ⟨heq, -⟩
    · cases hnone.symm.trans hp
    · exact hreceived _ _ (h.pending pending (heq.symm.trans hp) entry hmem)
  · rw [hc.writes, List.mem_append, List.mem_reverse, List.mem_map] at hmem
    rcases hmem with ⟨entry, hentry, rfl⟩ | hold
    · have hdue := List.mem_of_mem_filter (List.mem_of_mem_filter hentry)
      obtain ⟨pending, hp, hin, hconf⟩ := Subscription.mem_due hdue
      exact ⟨hreceived _ _ (h.pending pending hp entry hin), hconf,
        fun g heq => hg g heq (List.ne_nil_of_mem hentry)⟩
    · obtain ⟨hr, hrest⟩ := (h.publish hsub).writes write hold
      exact ⟨hreceived _ _ hr, hrest⟩
  · rw [hc.writes]
    rcases hc.mem entry hmem with hold | hnew
    · rcases h.cache entry hold with hinit | ⟨write, hwrite, heq⟩
      · exact .inl hinit
      · exact .inr ⟨write, List.mem_append_right _ hwrite, heq⟩
    · exact .inr ⟨_, List.mem_append_left _ (List.mem_reverse.mpr (List.mem_map_of_mem hnew)), rfl, rfl⟩

end Sourced

section Step

variable {fakeipOk : PolicyCandidate → UserConfig → Bool} {P : Fault → Prop}
variable {r r' : Reactor} {c c' : Control}

theorem published_cancelEngineWork (r : Reactor) (hrole : r.activationRole = none) :
    (cancelEngineWork r).host.published = r.host.published ∧
      (cancelEngineWork r).subscription = r.subscription := by
  unfold cancelEngineWork
  simp only
  split
  · rw [hrole]
    split
    · exact ⟨rfl, rfl⟩
    · exact ⟨rfl, rfl⟩
  · exact ⟨rfl, rfl⟩
  · exact ⟨(Host.logs_cleanupWaitRole r.host _).1, rfl⟩
  · exact ⟨(Host.logs_cleanupStopNext r.host _).1, rfl⟩

/-- Only a commit publishes, and it publishes the promoted child. -/
theorem Act.published (h : Act fakeipOk P r c r' c') (hs : ShapeAt r c) :
    r'.host.published = r.host.published ∨ ∃ child, r.engine = some child ∧
      r'.host.published = child.params.generation :: r.host.published := by
  cases h with
  | aside k => exact .inl (by rw [k.host])
  | cancel => exact .inl (published_cancelEngineWork { r with engineCancelRequested := true } hs.role).1
  | checkFailed plan _ => exact .inl (Host.logs_remove _ _).1
  | checkCancelled _ => exact .inl (Host.logs_remove _ _).1
  | waitCancelled _ => exact .inl (Host.logs_cleanupWaitRole _ _).1
  | candidateExit h | recoveryExit h _ | stopped h _ =>
    obtain ⟨host, rfl, hp, -⟩ := h.logs
    exact .inl hp
  | stopRecovers h | stopEnds h | stopCancelled h =>
    obtain ⟨host, rfl, hp, -⟩ := h.logs
    exact .inl ((Host.logs_remove _ _).1.trans hp)
  | stopOvertaken h _ =>
    obtain ⟨host, rfl, hp, -⟩ := h.logs
    exact .inl ((Host.logs_remove _ _).1.trans ((Host.logs_remove _ _).1.trans hp))
  | kept _ => exact .inl (Host.logs_cleanupStopNext _ _).1
  | failCancelled _ => exact .inl ((Host.logs_removeOld _ _).1.trans (Host.logs_remove _ _).1)
  | failCold _ | failLost _ _ | recovered _ _ | recoveredUnwatched _ _ _ =>
    exact .inl (Host.logs_remove _ _).1
  | resume w =>
    obtain ⟨changed, s, heq, -⟩ := resumeQueued_eq w r
    exact .inl (by rw [heq])
  | commitCandidate he _ _ _ _ | commitRecovery he _ _ | recommit he _ =>
    exact .inr ⟨_, he, (Host.logs_commitHost _ _).1⟩
  | exitEngine _ h =>
    obtain ⟨host, rfl, hp, -⟩ := h.logs
    exact .inl ((Host.logs_remove _ _).1.trans hp)
  | _ => exact .inl rfl

/-- What was published stays published. -/
theorem Act.published_subset (h : Act fakeipOk P r c r' c') (hs : ShapeAt r c) :
    r.host.published ⊆ r'.host.published := by
  rcases h.published hs with heq | ⟨child, -, heq⟩
  · rw [heq]
    exact List.Subset.refl _
  · rw [heq]
    exact List.subset_cons_self _ _

/-- What a step may do to the coordinator. -/
inductive Touched (r r' : Reactor) : Prop
  | quiet (h : Quiet r.subscription r'.subscription)
  | bound (g : ℕ) (h : r'.subscription = r.subscription.bindGeneration r.nodes g)
  | settled (env : CommitEnv) (h : r'.subscription = (r.subscription.commitPending r.nodes none env).2)
  | stored (g : ℕ) (env : CommitEnv)
      (h : r'.subscription = (r.subscription.commitPending r.nodes (some g) env).2)
      (hg : r.subscription.stored r.nodes (some g) env ≠ [] → g ∈ r'.host.published)
  | used {verdict : Subscription.Verdict} {noted : List Response}
      (h : Used r.subscription r'.subscription verdict noted)

theorem quiet_resume (w : Outside) (r : Reactor) :
    Quiet r.subscription (resumeQueuedSubscriptionWork w r).subscription := by
  have hclear : ∀ s : Subscription, Quiet s { s with reconfigureQueued := false, fetchQueued := false } ∧
      Quiet s { s with fetchQueued := false } :=
    fun s => ⟨.of_le rfl (by simp) (by simp) rfl rfl, .of_le rfl (by simp) id rfl rfl⟩
  unfold resumeQueuedSubscriptionWork
  split
  · exact .refl _
  split
  · simp only [configureSubscription]
    split
    · exact (hclear _).1
    · exact (hclear _).1.trans (.configure _ _ _ _ _)
  split
  · simp only [startSubscriptionFetch]
    split
    · exact (hclear _).2
    · exact (hclear _).2.trans (.startFetchWith _ _ _ _)
  · exact .refl _

theorem quiet_discard (next : StopNext) (s : Subscription) : Quiet s (next.discard s) := by
  cases next with
  | startCandidate plan => exact .discardGeneration s _
  | recover plan error => exact .discardGeneration s _
  | finishRecoveryFailure error error' => exact .refl s
  | cancelled => exact .refl s

/-- So does the result of a fetch. -/
theorem touched_result (w : Outside) (answers : List FetchAnswer) (r : Reactor) :
    Touched r (handleSubscriptionResult w answers r).2 := by
  rcases r.subscription.handleResult_cases r.disabled w.authority answers w.schedule w.route with
    ⟨-, hq⟩ | ⟨noted, hu⟩
  · exact .quiet hq
  · exact .used hu

/-- A commit that fails uniformly stores nothing. -/
theorem stored_nil {s : Subscription} {nodes : Option NodeConfig} {generation : Option ℕ} {env : CommitEnv}
    (hok : (s.commitPending nodes generation env).1 = false) (hU : Uniform s nodes generation env) :
    s.stored nodes generation env = [] := by
  have hc := s.commitPending_cached nodes generation env
  refine List.filter_eq_nil_iff.mpr fun entry hmem => ?_
  rcases hU with hall | hnone
  · exact absurd (hc.ok.mpr hall) (by simp [hok])
  · simp [hnone entry hmem]

/-- An act touches the subscription by one of its handlers or not at all. -/
theorem Act.touched (hP : ¬ P .splitCommit) (h : Act fakeipOk P r c r' c') (hs : ShapeAt r c)
    (hco : Coherent r c) : Touched r r' := by
  cases h with
  | aside k => exact .quiet (by rw [k.subscription]; exact .refl _)
  | cancel =>
    refine .quiet ?_
    rw [(published_cancelEngineWork { r with engineCancelRequested := true } hs.role).2]
    exact .refl _
  | candidateExit h | recoveryExit h _ | stopped h _ | stopRecovers h | stopEnds h | stopCancelled h
  | stopOvertaken h _ | exitEngine _ h =>
    obtain ⟨host, rfl, -⟩ := h.logs
    exact .quiet (.refl _)
  | kept _ => exact .quiet (quiet_discard _ _)
  | failCancelled _ | failCold _ | failLost _ _ | recovered _ _ | recoveredUnwatched _ _ _ =>
    exact .quiet (.discardGeneration _ _)
  | err _ => exact .quiet (.dropTagged _)
  | resume w => exact .quiet (quiet_resume w r)
  | commitCandidate he ht hrole hok hbeside =>
    rename_i child plan env
    refine .stored plan.params.generation env rfl fun _ => ?_
    have hchild : child.params = plan.params := hco.role _ _ hrole he
    have hpub := (Host.logs_commitHost (r.host.publish child.params.generation) r.activationRole).1
    rw [← hchild]
    exact hpub ▸ List.mem_cons_self
  | commitRefused error he ht hrole hok hU =>
    rename_i child plan env
    refine .stored plan.params.generation env rfl fun hne => ?_
    exact absurd (stored_nil hok (hU.resolve_left hP)) hne
  | policy policy changed env _ =>
    exact .quiet (.configure _ _ _ _ _)
  | generation _ params _ _ _ _ => exact .bound params.generation rfl
  | generationFailed _ => exact .bound _ rfl
  | settle w user _ =>
    cases user with
    | none => exact .quiet (.dropPending _)
    | some user => exact .settled w.commit rfl
  | feed h => exact .quiet h.quiet
  | discardedResult _ => exact touched_result _ _ _
  | emptyResult _ => exact touched_result _ _ _
  | acceptedResult _ _ => exact touched_result _ _ _
  | _ => exact .quiet (.refl _)

/-- Every step keeps the cache sourced. -/
theorem Act.sourced (hP : ¬ P .splitCommit) (h : Act fakeipOk P r c r' c') (hs : ShapeAt r c)
    (hco : Coherent r c) {initial : List (RemoteSource × Raw)}
    (hi : Sourced initial r.host.published r.subscription) :
    Sourced initial r'.host.published r'.subscription := by
  have hsub := h.published_subset hs
  cases h.touched hP hs hco with
  | quiet hq => exact (hi.quiet hq).publish hsub
  | bound g heq =>
    rw [heq]
    exact (hi.bind _ g).publish hsub
  | settled env heq =>
    rw [heq]
    exact hi.commit hsub fun g hg => by cases hg
  | stored g env heq hg =>
    rw [heq]
    exact hi.commit hsub fun g' hg' => Option.some.inj hg' ▸ hg
  | used hu => exact (hi.used hu).publish hsub

end Step

/-! ### Runs -/

instance (s : Subscription) (nodes : Option NodeConfig) (generation : Option ℕ) (env : CommitEnv) :
    Decidable (Uniform s nodes generation env) := inferInstanceAs (Decidable (_ ∨ _))

/-- Where a candidate is about to be promoted, the cache takes its whole batch or nothing of it. -/
def StoresWhole (r : Reactor) (ev : Event) : Prop :=
  ∀ plan ∈ promoted r ev.kind ev.outside,
    Uniform r.subscription r.nodes (some plan.params.generation) ev.outside.commit

instance (r : Reactor) (ev : Event) : Decidable (StoresWhole r ev) :=
  inferInstanceAs (Decidable (∀ plan ∈ promoted r ev.kind ev.outside, _))

/-- Every fault but a batch that goes to the cache in part. -/
def Fault.whole : Fault → Prop
  | .splitCommit => False
  | _ => True

section Run

variable {e : Endian} {srt : Sorter} {fakeipOk : PolicyCandidate → UserConfig → Bool}

/-- **Only accepted, current responses reach the cache.**  In every run in which the cache takes the
batches of promoted candidates as a whole or not at all, every write carries the bytes of a response that
was current when its result was handled, whose source the configuration of that moment named and whose bytes its
policy accepted, to a source that the policy in force at the write configures; what was bound to a generation was written only if that generation was published; and the
cache holds nothing but such bytes and what it held at the start. -/
theorem cache_is_sourced {dataplane : Plane} {badPageSize : Bool} {first : Event} {evs : List Event}
    {r₀ r : Reactor} (hstart : start e srt fakeipOk dataplane badPageSize first = some r₀)
    (hsteps : AllStepsOption (handle e srt fakeipOk) StoresWhole r₀ evs)
    (hrun : runOption (handle e srt fakeipOk) r₀ evs = some r) :
    (∀ write ∈ r.subscription.writes,
      (∃ response ∈ r.subscription.responses, response.source = write.source ∧
        response.raw = write.raw ∧ response.epoch = response.current ∧
        response.source ∈ response.config.nodes.remoteSources ∧ response.config.remote response.raw = true) ∧
      write.source ∈ write.configured ∧ ∀ g, write.generation = some g → g ∈ r.host.published) ∧
    ∀ entry ∈ r.subscription.cache, entry ∈ first.cache ∨
      ∃ write ∈ r.subscription.writes, write.source = entry.1 ∧ write.raw = entry.2 := by
  obtain ⟨-, -, h⟩ := run_keeps (P := Fault.whole)
    (I := fun r c => Coherent r c ∧ Sourced first.cache r.host.published r.subscription) e srt
    (fun hact hs hi => ⟨hact.coherent hs hi.1, hact.sourced id hs hi.1 hi.2⟩)
    (fun r ev _ hi => ⟨hi.1.congr rfl rfl rfl, hi.2⟩)
    (fun r ev hc _ _ => { split := fun plan hplan hU => hU (hc plan hplan) })
    ⟨coherent_empty rfl rfl fun _ h => (by cases h),
      fun _ h => (by cases h), fun _ h => (by cases h), fun _ h => .inl h⟩ hstart hsteps hrun
  exact ⟨h.writes, h.cache⟩

end Run

/-- Two remote sources. -/
def twoNodes : NodeConfig := ⟨["a", "b"], 3600⟩

/-- The files name other remote sources. -/
def sourcesEvents (nodes : NodeConfig) : List Event :=
  [{ disabled := false, kind := .inotify false true false },
    { disabled := false, kind := .debounce
      nested := [{ policy := some { startPolicy with nodes := nodes } }] }]

/-- Both sources are fetched, and a candidate is built from them. -/
def boundEvents : List Event :=
  readyEvents ++ sourcesEvents twoNodes ++
  [{ disabled := false, kind := .subscription [some [1], some [2]]
     outside := { authority := some ⟨twoNodes, fun _ => true⟩ }
     nested := [{ user := some "fetched" }] }]

/-- Its check passes, the old child exits in time, and it is started. -/
def startedEvents : List Event :=
  [{ disabled := false, kind := .checkExit, outside := { check := .finished none } },
    { disabled := false, kind := .transactionPidfd, outside := { exited := true } },
    { disabled := false, kind := .engineTimer }]

/-- Its sockets are there, and its batch goes to the cache. -/
def promoteEvent (env : CommitEnv) : Event where
  disabled := false
  kind := .sockDiag
  outside := { probe := .ready, commit := env }

def storedRun : ColdRun StoresWhole fun r => decide (r.subscription.cache = [("a", [1]), ("b", [2])]) :=
  ⟨boundEvents ++ startedEvents ++ [promoteEvent {}], by decide +kernel⟩

theorem cache_is_sourced_fetched :
    ∃ r, coldRun (boundEvents ++ startedEvents ++ [promoteEvent {}]) = some r ∧
    r.subscription.cache = [("a", [1]), ("b", [2])] ∧
    ∀ write ∈ r.subscription.writes, write.generation = some 2 → 2 ∈ r.host.published := by
  obtain ⟨r₀, r, hstart, hsteps, hr, hcold, hcache⟩ := exists_of_coldMeets storedRun.meets
  obtain ⟨hwrites, -⟩ := cache_is_sourced hstart hsteps hr
  exact ⟨r, hcold, of_decide_eq_true hcache, fun write hmem heq => (hwrites write hmem).2.2 2 heq⟩

/-- The second file cannot be replaced, and the old generation is recovered. -/
def refusedEvents : List Event :=
  boundEvents ++ startedEvents ++
  [promoteEvent { faults := ["b"] },
    { disabled := false, kind := .transactionPidfd, outside := { exited := true } },
    { disabled := false, kind := .engineTimer }, promoteEvent {}]

/-- Generation 2 has been given up, but the cache holds bytes that were bound to it. -/
theorem refused_batch_reaches_cache : ∃ r, coldRun refusedEvents = some r ∧
    r.engineTransaction = none ∧ r.generations.committed = 1 ∧ 2 ∉ r.host.published ∧
    ∃ write ∈ r.subscription.writes, write.generation = some 2 ∧
      r.subscription.cache.lookup write.source = some write.raw := by
  have hrun : (coldRun refusedEvents).any (fun r => decide (r.engineTransaction = none ∧
      r.generations.committed = 1 ∧ 2 ∉ r.host.published ∧
      ∃ write ∈ r.subscription.writes, write.generation = some 2 ∧
        r.subscription.cache.lookup write.source = some write.raw)) = true := by decide +kernel
  obtain ⟨r, hr, h⟩ := (Option.any_eq_true _ _).mp hrun
  exact ⟨r, hr, of_decide_eq_true h⟩

end FluxRs.Daemon
