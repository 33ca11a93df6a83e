import FluxRs.Daemon.Convergence

/-!
# FluxRs.Daemon.Operations — the reactor moves the data plane by its operations

A step of the reactor is a step of the data-plane model repeated: whatever the handlers do, the plane they
leave is the one that some sequence of operations leads to.  So what holds over every sequence of
operations holds over every run of the reactor.
-/

namespace FluxRs.Daemon

open FluxRs.Lib FluxRs.Net FluxRs.Kmod FluxRs.Dataplane

/-! ### Sequences of operations -/

section Moves

variable (e : Endian) (srt : Sorter) (A : PlaneOp → Prop)

/-- Operations that meet `A` lead from one plane to the other. -/
def Moves (p p' : Plane) : Prop := ∃ ops, (∀ op ∈ ops, A op) ∧ p' = run (exec e srt) p ops

variable {e srt A} {p p' p'' : Plane}

theorem Moves.refl : Moves e srt A p p := ⟨[], by simp, rfl⟩

/-- Operations one after the other are operations. -/
theorem Moves.trans (h : Moves e srt A p p') (h' : Moves e srt A p' p'') : Moves e srt A p p'' := by
  obtain ⟨ops, hops, rfl⟩ := h
  obtain ⟨ops', hops', rfl⟩ := h'
  refine ⟨ops ++ ops', fun op hop => ?_, (run_append _ _ _ _).symm⟩
  rcases List.mem_append.mp hop with hop | hop
  · exact hops op hop
  · exact hops' op hop

theorem Moves.op {op : PlaneOp} (h : A op) : Moves e srt A p (exec e srt p op) :=
  ⟨[op], by simpa using h, rfl⟩

end Moves

/-- The operations a handler may issue under these answers. -/
structure Allows (A : PlaneOp → Prop) (w : Outside) : Prop where
  down : A (.converge w.down false)
  up : A (.converge w.up true)
  stage : ∀ desired, A (.stage desired)
  apply : ∀ desired, A (.apply w.apply desired)
  prepare : ∀ generation portV4 portV6, A (.prepare w.prepareFault generation portV4 portV6)
  active : A .publishActive
  inactive : A (.publishInactive w.publishFault)
  attach : A .beginAttachment
  cancel : A .cancelAttachment

section Handlers

variable {e : Endian} {srt : Sorter} {A : PlaneOp → Prop} {r : Reactor}

variable (e srt A) in
/-- Operations lead to the plane of whatever comes out. -/
def Led (p : Plane) (x : Option Reactor) : Prop := ∀ r, x = some r → Moves e srt A p r.dataplane

variable {conv : Reactor → Option Reactor} {w : Outside} {p : Plane}

theorem led_some (h : Moves e srt A p r.dataplane) : Led e srt A p (some r) :=
  fun _ heq => Option.some.inj heq ▸ h

theorem Led.after {p' : Plane} {x : Option Reactor} (h : Led e srt A p' x) (hm : Moves e srt A p p') :
    Led e srt A p x := fun r hr => hm.trans (h r hr)

theorem Led.refresh {x : Option Reactor} (h : Led e srt A p x) :
    Led e srt A p (x.map Reactor.refresh) := by
  intro r hr
  obtain ⟨r', hr', rfl⟩ := Option.map_eq_some_iff.mp hr
  exact h r' hr'

/-! ### Stopping and freezing -/

theorem cancelEngineWork_dataplane (r : Reactor) : (cancelEngineWork r).dataplane = r.dataplane := by
  unfold cancelEngineWork
  simp only
  split
  · split <;> rfl
  · rfl
  · rfl
  · rfl

theorem moves_publishInactive (hw : Allows A w) (r : Reactor) :
    Moves e srt A r.dataplane (publishInactive w r).2.dataplane := Moves.op hw.inactive

theorem moves_cancelAttachment (hw : Allows A w) (r : Reactor) :
    Moves e srt A r.dataplane (cancelAttachment r).dataplane := Moves.op hw.cancel

theorem moves_deactivateRuntime (hw : Allows A w) (r : Reactor) :
    Moves e srt A r.dataplane (deactivateRuntime e w r).dataplane := by
  unfold deactivateRuntime
  simp only [cancelEngineWork_dataplane]
  exact (moves_cancelAttachment hw r).trans (Moves.op hw.down)

theorem moves_requestShutdown (hw : Allows A w) (r : Reactor) :
    Moves e srt A r.dataplane (requestShutdown w r).dataplane := by
  unfold requestShutdown
  split
  · exact .refl
  · simp only [cancelEngineWork_dataplane]
    exact (moves_publishInactive hw { r with shutdownRequested := true }).trans
      (moves_cancelAttachment hw _)

/-! ### Ends of a transaction -/

theorem resumeQueued_dataplane : (resumeQueuedSubscriptionWork w r).dataplane = r.dataplane := by
  obtain ⟨changed, s, heq, -⟩ := resumeQueued_eq w r
  rw [heq]

section

variable (hconv : ∀ r, Led e srt A r.dataplane (conv r))

include hconv

/-- A queued convergence leads to operations, by assumption. -/
theorem led_runQueued (r : Reactor) : Led e srt A r.dataplane
    (runQueuedConvergence conv (resumeQueuedSubscriptionWork w r)) := by
  rw [← resumeQueued_dataplane (w := w)]
  unfold runQueuedConvergence
  split
  · exact hconv _
  · exact led_some .refl

theorem led_finishTransactionError (error : EngineError) (r : Reactor) :
    Led e srt A r.dataplane (finishTransactionError conv w error r) := by
  unfold finishTransactionError
  simp only
  split
  · exact led_runQueued hconv { r with
      subscription := r.subscription.dropTagged, engineTransaction := none, backoffArmed := true }
  · exact led_runQueued hconv { r with
      subscription := r.subscription.dropTagged, engineTransaction := none }

theorem led_finishCancelled (r : Reactor) : Led e srt A r.dataplane (finishCancelled conv r) := by
  unfold finishCancelled
  simp only
  split
  · exact led_some .refl
  split
  · exact led_some .refl
  split
  · exact hconv { r with diagProbe := false, engineTransaction := none, engineCancelRequested := false }
  · exact led_some .refl

theorem led_beginCandidateFailure (plan : SwitchPlan) (error : EngineError) (r : Reactor) :
    Led e srt A r.dataplane (beginCandidateFailure conv w plan error r) := by
  unfold beginCandidateFailure
  simp only
  split
  · exact led_finishCancelled hconv
      { dropCandidate plan r with host := (dropCandidate plan r).host.removeOld plan }
  split
  · exact led_finishTransactionError hconv error (dropCandidate plan r)
  split
  · exact led_finishTransactionError hconv error (dropCandidate plan r)
  · exact led_some .refl
  · exact led_some .refl

theorem led_startCandidate (plan : SwitchPlan) (r : Reactor) :
    Led e srt A r.dataplane (startCandidate conv w plan r) := by
  unfold startCandidate
  split
  · exact led_beginCandidateFailure hconv plan _ r
  · exact led_some .refl
  · exact led_some .refl

/-! ### Activation of a generation -/

variable (hw : Allows A w)

include hw

theorem led_failPhase6 (r : Reactor) :
    Led e srt A r.dataplane (failPhase6Activation conv w r) := by
  have hrec : Moves e srt A r.dataplane (cancelAttachment r).dataplane := moves_cancelAttachment hw r
  unfold failPhase6Activation
  simp only
  split
  · exact led_some (hrec.trans (moves_publishInactive hw _))
  split
  · exact (led_finishTransactionError hconv .io
      { recordDataplaneError r with activationRole := none }).after hrec
  · exact led_some hrec

theorem led_commitActivation (r : Reactor) :
    Led e srt A r.dataplane (commitActivation conv w r) := by
  have hop : Moves e srt A r.dataplane (publishActive r.dataplane).2 := Moves.op hw.active
  unfold commitActivation
  split
  · rename_i p heq
    rw [heq] at hop
    exact (led_failPhase6 hconv hw { r with dataplane := p }).after hop
  · rename_i p heq
    rw [heq] at hop
    simp only
    split
    · exact (led_failPhase6 hconv hw { r with dataplane := p }).after hop
    · exact Led.after (led_runQueued hconv _) hop

theorem led_finishPhase6 (r : Reactor) :
    Led e srt A r.dataplane (finishPhase6Activation conv w r) := by
  unfold finishPhase6Activation
  split
  · rename_i plan hrole
    let cached := (commitPendingSubscription w (some plan.params.generation) r).2
    simp only
    split
    · exact led_commitActivation hconv hw cached
    · split
      · exact led_finishTransactionError hconv .io { cached with activationRole := none }
      · exact led_some .refl
  · exact led_commitActivation hconv hw r

theorem led_startPhase6 (params : EngineParams) (r : Reactor) :
    Led e srt A r.dataplane (startPhase6Attachment e conv w params r) := by
  have hprep : Moves e srt A r.dataplane (if r.activationRole.isSome || !r.active then
      prepareGeneration e w.prepareFault params.generation params.portV4 params.portV6 r.dataplane
    else (.ok (), r.dataplane)).2 := by
    split
    · exact Moves.op (hw.prepare _ _ _)
    · exact .refl
  unfold startPhase6Attachment
  simp only
  generalize (if r.activationRole.isSome || !r.active then
      prepareGeneration e w.prepareFault params.generation params.portV4 params.portV6 r.dataplane
    else (.ok (), r.dataplane)) = prepared at hprep
  obtain ⟨result, p⟩ := prepared
  have hattach : Moves e srt A r.dataplane (beginAttachment p).2 := hprep.trans (Moves.op hw.attach)
  split
  · rename_i heq
    cases heq
    exact (led_failPhase6 hconv hw { r with dataplane := p }).after hprep
  · rename_i heq
    cases heq
    generalize beginAttachment p = attached at hattach
    obtain ⟨result, p⟩ := attached
    cases result with
    | error err =>
      simp only
      split
      · exact (led_failPhase6 hconv hw { r with dataplane := p }).after hattach
      · exact led_some (hattach.trans (Moves.op hw.cancel))
    | ok _ =>
      simp only
      split
      · exact led_some hattach
      split
      · exact (led_finishPhase6 hconv hw { r with dataplane := p }).after hattach
      · exact led_some hattach

/-! ### Convergence -/

omit hw in
theorem led_startGenerationCheck (user : UserConfig) (generation : ℕ) (r : Reactor) :
    Led e srt A r.dataplane (startGenerationCheck conv w user generation r) := by
  unfold startGenerationCheck
  simp only
  split
  · exact led_finishTransactionError hconv _ { r with
      subscription := r.subscription.bindGeneration (r.currentPolicy.map (·.nodes)) generation }
  · exact led_some .refl

theorem led_convergeEngine (i : Inputs) (user : Option UserConfig) (r : Reactor) :
    Led e srt A r.dataplane (convergeEngine e conv w i user r) := by
  unfold convergeEngine
  split
  · split
    · exact led_startPhase6 hconv hw _ r
    · exact led_some .refl
  split
  · exact led_some .refl
  simp only
  split
  · split
    · exact led_startPhase6 hconv hw _ (settlePending w user
        { r with reloadRequested := false, engineConfigChanged := false })
    · exact led_some .refl
  · split
    · exact led_some .refl
    · exact led_startGenerationCheck hconv _ _
        { r with
          reloadRequested := false, engineConfigChanged := false
          generations := r.generations.allocate.2, backoffArmed := false }

omit hconv in
theorem moves_convergePolicy (i : Inputs) (r : Reactor) :
    Moves e srt A r.dataplane (convergePolicy e srt w i r).2.dataplane := by
  have happly : ∀ desired, Moves e srt A r.dataplane (applyPolicy e srt w.apply desired r.dataplane).2 :=
    fun desired => Moves.op (hw.apply desired)
  have hfail : ∀ r' : Reactor, Moves e srt A r.dataplane r'.dataplane →
      Moves e srt A r.dataplane (recordDataplaneError (queuePolicyRetry r')).dataplane := by
    intro r' h
    have hq : (queuePolicyRetry r').dataplane = r'.dataplane := by
      unfold queuePolicyRetry
      split <;> rfl
    exact (h.trans (hq ▸ .refl)).trans (moves_cancelAttachment hw _)
  unfold convergePolicy
  split
  · rename_i policy hpolicy
    have hp := happly policy.desired
    split
    · rename_i heq
      rw [heq] at hp
      exact hp
    · rename_i heq
      rw [heq] at hp
      exact hfail _ hp
  split
  · split
    · exact .refl
    · rename_i policy hpolicy
      have hp := happly policy.desired
      split
      · rename_i heq
        rw [heq] at hp
        exact hp
      · rename_i heq
        rw [heq] at hp
        exact hfail _ hp
  · exact .refl

omit hconv in
theorem moves_bringUp (i : Inputs) (r : Reactor) :
    Moves e srt A r.dataplane (bringUp e w i r).dataplane := by
  have hc : Moves e srt A r.dataplane (cancelAttachment r).dataplane := moves_cancelAttachment hw r
  unfold bringUp
  simp only
  split
  · exact (hc.trans (Moves.op (hw.stage _))).trans (Moves.op hw.up)
  · exact hc.trans (Moves.op hw.up)

theorem led_convergeDataplane (i : Inputs) (r : Reactor) :
    Led e srt A r.dataplane (convergeDataplane e srt conv w i r) := by
  have hup : Moves e srt A r.dataplane (bringUp e w i r).dataplane := moves_bringUp hw i r
  unfold convergeDataplane
  simp only
  split
  · have hc := hup.trans (moves_cancelAttachment hw (bringUp e w i r))
    split
    · refine led_some ?_
      rw [cancelEngineWork_dataplane]
      exact hc
    · exact led_some hc
  · have hp : Moves e srt A r.dataplane
        (convergePolicy e srt w i (dropRefused i (bringUp e w i r))).2.dataplane :=
      hup.trans (moves_convergePolicy hw i (dropRefused i (bringUp e w i r)))
    exact (led_convergeEngine hconv hw i _
      { configureMissing w (convergePolicy e srt w i (dropRefused i (bringUp e w i r))).2 with
        topologyChanged := false }).after hp

theorem led_convergeWith (fakeipOk : PolicyCandidate → UserConfig → Bool) (r : Reactor) :
    Led e srt A r.dataplane (convergeWith e srt fakeipOk conv w r) := by
  unfold convergeWith
  split
  · refine led_some ?_
    rw [cancelEngineWork_dataplane]
    exact .refl
  split
  · exact led_some (moves_deactivateRuntime hw { r with
      ssidPaused := false, subscription := r.subscription.resetOnDisable })
  split
  · exact led_some .refl
  unfold convergeEnabled
  simp only
  obtain ⟨paused, changed, heq⟩ := evaluateSsid_eq w
    ((inputs fakeipOk w r).candidatePolicy.or r.currentPolicy)
    (scheduleSources w (inputs fakeipOk w r) { r with policyChanged := false })
  let judged := { scheduleSources w (inputs fakeipOk w r) { r with policyChanged := false } with
    ssidPaused := paused, wifiChanged := changed }
  simp only [heq]
  split
  · exact led_some (moves_deactivateRuntime hw judged)
  split
  · exact led_some .refl
  split
  · exact led_some (Moves.op hw.down)
  · exact led_convergeDataplane hconv hw (inputs fakeipOk w r) judged

/-! ### Events -/

theorem led_executeCommands (kinds : List CommandKind) (stimulus : Stimulus) (r : Reactor) :
    Led e srt A r.dataplane (executeCommands e conv w kinds stimulus r) := by
  unfold executeCommands
  split
  · exact led_some (moves_requestShutdown hw r)
  split
  · exact led_some (moves_deactivateRuntime hw r)
  have hfreeze : Moves e srt A r.dataplane
      (if kinds.contains .publishInactive then freeze w r else r).dataplane := by
    split
    · have hp : Moves e srt A r.dataplane (publishInactive w r).2.dataplane :=
        moves_publishInactive hw r
      unfold freeze
      split
      · rename_i heq
        rwa [heq] at hp
      · rename_i heq
        rw [heq] at hp
        exact hp.trans (moves_cancelAttachment hw _)
    · exact .refl
  generalize (if kinds.contains .publishInactive then freeze w r else r) = r₁ at hfreeze
  simp only
  have hcancel : Moves e srt A r.dataplane
      (if kinds.contains .stopEngine || kinds.contains .restartWithBackoff then
        cancelEngineWork { r₁ with engineCancelRequested := true } else r₁).dataplane := by
    split
    · rw [cancelEngineWork_dataplane]
      exact hfreeze
    · exact hfreeze
  split
  · exact (hconv _).after hcancel
  · exact led_some hcancel

theorem led_applyStimulus (stimulus : Stimulus) (r : Reactor) :
    Led e srt A r.dataplane (applyStimulus e conv w stimulus r) := by
  unfold applyStimulus
  simp only
  split
  · exact led_some .refl
  split
  · exact led_some .refl
  · exact (led_executeCommands hconv hw _ stimulus { r with planner := (plan r.planner stimulus).1 }).refresh

omit hw in
theorem led_finishWaitingExit (child : EngineChild) (role : WaitRole) (r : Reactor) :
    Led e srt A r.dataplane (finishWaitingExit conv w child role r) := by
  let reaped := terminate w child { r with diagProbe := false }
  cases role with
  | candidate plan => exact led_beginCandidateFailure hconv plan _ reaped
  | recovery error => exact led_finishTransactionError hconv error reaped

omit hw in
theorem led_advanceWaiting (child : EngineChild) (role : WaitRole) (r : Reactor) :
    Led e srt A r.dataplane (advanceWaiting conv w child role r) := by
  unfold advanceWaiting
  split
  · exact led_some .refl
  split
  · exact led_finishWaitingExit hconv child role r
  split
  · exact led_some .refl
  split
  · exact led_some .refl
  · exact led_some .refl
  split
  · exact led_some .refl
  split
  · exact led_some .refl
  · exact led_some .refl

omit hw in
theorem led_completeStopped (child : EngineChild) (next : StopNext) (r : Reactor) :
    Led e srt A r.dataplane (completeStopped conv w child next r) := by
  let removed := removeEffective child.params.generation (terminate w child r)
  unfold completeStopped
  simp only
  split
  · rename_i plan
    split
    · exact led_finishCancelled hconv (removeEffective plan.params.generation removed)
    · exact led_startCandidate hconv _ (terminate w child r)
  · exact led_beginCandidateFailure hconv _ _ removed
  · exact led_finishTransactionError hconv _ removed
  · exact led_finishCancelled hconv removed

theorem led_completeCheck (plan : SwitchPlan) (d : CheckDisposition) (error : Option EngineError)
    (r : Reactor) : Led e srt A r.dataplane (completeCheck conv w plan d error r) := by
  let removed := removeEffective plan.params.generation r
  unfold completeCheck
  simp only
  split
  · exact led_finishCancelled hconv removed
  · exact led_finishTransactionError hconv _ removed
  · exact led_finishTransactionError hconv _ removed
  split
  · exact led_finishTransactionError hconv _ removed
  split
  · exact led_finishCancelled hconv removed
  split
  · exact led_startCandidate hconv plan r
  · rename_i child he
    have hp : Moves e srt A r.dataplane (publishInactive w { r with engine := none }).2.dataplane :=
      moves_publishInactive hw { r with engine := none }
    split
    · rename_i r' heq
      rw [heq] at hp
      exact (led_finishTransactionError hconv _
        { removeEffective plan.params.generation r' with engine := some child }).after hp
    · rename_i r' heq
      rw [heq] at hp
      exact led_some hp

theorem led_handleCheckExit (r : Reactor) : Led e srt A r.dataplane (handleCheckExit conv w r) := by
  unfold handleCheckExit
  split
  · split
    · exact led_completeCheck hconv hw _ _ _ { r with engineTransaction := none }
    · exact led_some .refl
    · exact led_some .refl
  · exact led_some .refl

theorem led_handleEngineTimer (r : Reactor) : Led e srt A r.dataplane (handleEngineTimer conv w r) := by
  unfold handleEngineTimer
  simp only
  split
  · exact led_some .refl
  · split
    · exact led_completeCheck hconv hw _ _ _ { r with engineTransaction := none }
    · exact led_some .refl
    · exact led_some .refl
  · exact led_advanceWaiting hconv _ _ { r with engineTransaction := none }
  · split
    · exact led_completeStopped hconv _ _ { r with engineTransaction := none }
    split
    · exact led_some .refl
    split
    · exact led_some .refl
    · refine led_some ?_
      unfold stopConfirmationFailed
      simp only [resumeQueued_dataplane]
      exact .refl

omit hw in
theorem led_handleTransactionPidfd (r : Reactor) :
    Led e srt A r.dataplane (handleTransactionPidfd conv w r) := by
  unfold handleTransactionPidfd
  simp only
  split
  · exact led_advanceWaiting hconv _ _ { r with engineTransaction := none }
  · exact led_completeStopped hconv _ _ { r with engineTransaction := none }
  · exact led_some .refl

theorem led_handleSockDiag (r : Reactor) : Led e srt A r.dataplane (handleSockDiag e conv w r) := by
  unfold handleSockDiag
  split
  · exact led_some .refl
  simp only
  split
  · rename_i child role ht
    split
    · exact led_some .refl
    split
    · exact led_finishWaitingExit hconv _ _ { r with diagProbe := false, engineTransaction := none }
    split
    · exact led_some .refl
    split
    · exact led_some .refl
    · exact led_some .refl
    · unfold promoteReadyChild
      simp only
      split
      · exact led_some .refl
      · exact led_startPhase6 hconv hw _
          { r with
            diagProbe := false, engineTransaction := none, engine := some child
            activationRole := some role, engineCancelRequested := false }
    · exact led_some .refl
  · exact led_some .refl

theorem led_handleEngineExit (r : Reactor) : Led e srt A r.dataplane (handleEngineExit conv w r) := by
  unfold handleEngineExit
  simp only
  refine Led.refresh ?_
  have hfreeze : ∀ kinds (r : Reactor),
      Moves e srt A r.dataplane (freezeForExit w kinds r).dataplane := by
    intro kinds r
    unfold freezeForExit
    split
    · exact .refl
    split
    · exact moves_publishInactive hw r
    · exact .refl
  have hreap : ∀ r : Reactor, Led e srt A r.dataplane (reapEngine conv w r) := by
    intro r
    unfold reapEngine
    simp only
    split
    · exact led_some .refl
    rename_i child hchild
    let reaped := removeEffective child.params.generation (terminate w child { r with engine := none })
    split
    · exact led_beginCandidateFailure hconv _ _ { reaped with activationRole := none }
    · exact led_finishTransactionError hconv _ { reaped with activationRole := none }
    · refine led_some ?_
      split <;> exact .refl
  exact ((hreap _).after (moves_cancelAttachment hw _)).after
    (hfreeze _ { r with planner := (plan r.planner .engineExited).1 })

theorem led_handleKind (kind : EventKind) (r : Reactor) :
    Led e srt A r.dataplane (handleKind e conv w r kind) := by
  cases kind with
  | enable written =>
    cases written with
    | false => exact led_some .refl
    | true => exact led_applyStimulus hconv hw _ { r with disabled := false }
  | disable written =>
    cases written with
    | false => exact led_some .refl
    | true => exact led_applyStimulus hconv hw _ { r with disabled := true }
  | reload =>
    exact led_applyStimulus hconv hw _ { r with reloadRequested := true, policyRetryAvailable := true }
  | sighup =>
    exact led_applyStimulus hconv hw _ { r with reloadRequested := true, policyRetryAvailable := true }
  | stop =>
    intro r' hr'
    obtain ⟨r₁, h₁, rfl⟩ := Option.map_eq_some_iff.mp hr'
    exact (led_applyStimulus hconv hw _ r r₁ h₁).trans (moves_requestShutdown hw r₁)
  | sigterm => exact led_applyStimulus hconv hw _ r
  | inotify switch policy engineConfig =>
    intro r' hr'
    obtain ⟨r₁, h₁, rfl⟩ := Option.map_eq_some_iff.mp hr'
    cases switch with
    | false => exact Option.some.inj h₁ ▸ .refl
    | true => exact led_applyStimulus hconv hw _ r r₁ h₁
  | rtnetlink => exact led_some .refl
  | nl80211 =>
    refine led_some ?_
    split <;> exact .refl
  | debounce =>
    have hsame : (takeDebounceStimulus w r).2.dataplane = r.dataplane := by
      unfold takeDebounceStimulus
      split
      · obtain ⟨paused, changed, heq⟩ := evaluateSsid_eq w r.currentPolicy r
        simp only [heq]
      · split <;> rfl
    have h := led_applyStimulus hconv hw (takeDebounceStimulus w r).1 (takeDebounceStimulus w r).2
    rw [hsame] at h
    intro r' hr'
    obtain ⟨r₁, h₁, rfl⟩ := Option.map_eq_some_iff.mp hr'
    have hmoves := h r₁ h₁
    split
    · exact hmoves
    · exact hmoves
  | backoff =>
    simp only [handleKind]
    split
    · refine led_some ?_
      rw [cancelEngineWork_dataplane]
      exact .refl
    · exact led_applyStimulus hconv hw _ { r with backoffArmed := false }
  | engineExit => exact led_handleEngineExit hconv hw r
  | engineTimer => exact led_handleEngineTimer hconv hw r
  | transactionPidfd => exact led_handleTransactionPidfd hconv r
  | checkExit => exact led_handleCheckExit hconv hw r
  | sockDiag => exact led_handleSockDiag hconv hw r
  | subscription answers =>
    have hsame : (handleSubscriptionResult w answers r).2.dataplane = r.dataplane := rfl
    simp only [handleKind]
    generalize handleSubscriptionResult w answers r = x at hsame ⊢
    obtain ⟨verdict, r₁⟩ := x
    rw [← hsame]
    cases verdict with
    | discarded => exact led_some .refl
    | empty =>
      refine led_some ?_
      rw [resumeQueued_dataplane]
      exact .refl
    | accepted =>
      exact hconv
        { r₁ with policyChanged := true, policyRetryAvailable := true, engineConfigChanged := true }
  | subscribe => exact led_some .refl
  | subscriptionTimer => exact led_some .refl
  | other => exact led_some .refl

end

end Handlers

/-! ### Runs -/

/-- Every answer of the step allows its operations. -/
def EventAllows (A : PlaneOp → Prop) (ev : Event) : Prop :=
  Allows A ev.outside ∧ ∀ w ∈ ev.nested, Allows A w

section Run

variable {e : Endian} {srt : Sorter} {fakeipOk : PolicyCandidate → UserConfig → Bool}
variable {A : PlaneOp → Prop}

/-- Convergences that queue one another, by induction on what is found outside. -/
theorem led_converge : ∀ {ws : List Outside}, (∀ w ∈ ws, Allows A w) →
    ∀ r, Led e srt A r.dataplane (converge e srt fakeipOk ws r)
  | [], _, _ => fun _ h => by cases h
  | w :: ws, hws, r =>
    led_convergeWith (led_converge fun w' hmem => hws w' (List.mem_cons_of_mem w hmem))
      (hws w List.mem_cons_self) fakeipOk r

/-- So does the start. -/
theorem led_start {dataplane : Plane} {badPageSize : Bool} {ev : Event} (h : EventAllows A ev) :
    Led e srt A dataplane (start e srt fakeipOk dataplane badPageSize ev) := by
  unfold start
  simp only
  split
  · exact (led_some (moves_deactivateRuntime h.1 _)).refresh
  · exact led_applyStimulus (led_converge h.2) h.1 _ _

/-- An event leads from plane to plane by operations that its answers allow. -/
theorem led_handle {r : Reactor} {ev : Event} (h : EventAllows A ev) :
    Led e srt A r.dataplane (handle e srt fakeipOk r ev) :=
  led_handleKind (led_converge h.2) h.1 ev.kind (ev.enter r)

/-- **The reactor refines the data-plane model**: the plane of every state a run reaches is the one that
some sequence of operations leads to from the plane the run starts with. -/
theorem reactor_moves {dataplane : Plane} {badPageSize : Bool} {first : Event} {evs : List Event}
    {r₀ r : Reactor} (hstart : start e srt fakeipOk dataplane badPageSize first = some r₀)
    (hfirst : EventAllows A first) (hevs : ∀ ev ∈ evs, EventAllows A ev)
    (hrun : runOption (handle e srt fakeipOk) r₀ evs = some r) :
    Moves e srt A dataplane r.dataplane := by
  have hsteps : AllStepsOption (handle e srt fakeipOk) (fun _ ev => EventAllows A ev) r₀ evs :=
    allStepsOption_of_mem hevs
  exact runOption_inv (I := fun r => Moves e srt A dataplane r.dataplane)
    (fun r ev r' h hc heq => h.trans (led_handle hc r' heq)) (led_start hfirst r₀ hstart) hsteps hrun

theorem eventAllows_true (ev : Event) : EventAllows (fun _ => True) ev :=
  have h : ∀ w : Outside, Allows (fun _ => True) w := fun _ =>
    ⟨trivial, trivial, fun _ => trivial, fun _ => trivial, fun _ _ _ => trivial, trivial, trivial, trivial, trivial⟩
  ⟨h _, fun w _ => h w⟩

/-- The planes of a run are reachable ones. -/
theorem reactor_reachable {resident : Bool} {k : Kernel} (hk : k.Closed) {badPageSize : Bool}
    {first : Event} {evs : List Event} {r₀ r : Reactor}
    (hstart : start e srt fakeipOk (.open resident k) badPageSize first = some r₀)
    (hrun : runOption (handle e srt fakeipOk) r₀ evs = some r) : Reachable e srt r.dataplane := by
  obtain ⟨ops, -, heq⟩ := reactor_moves (A := fun _ => True) hstart (eventAllows_true first)
    (fun ev _ => eventAllows_true ev) hrun
  exact ⟨resident, k, ops, hk, heq.symm⟩

/-- **Active means installed**: over every sequence of operations whose ioctls succeed and whose commit
points find the table filled, an active plane publishes exactly the stored selection. -/
theorem active_installed {resident : Bool} {k : Kernel} (hk : k.Closed) {ops : List PlaneOp}
    (hok : ∀ op ∈ ops, op.IoctlsSucceed)
    (hfill : AllSteps (exec e srt) FillsFirst (.open resident k) ops)
    (hact : (run (exec e srt) (.open resident k) ops).mgr.status.active = true) :
    (run (exec e srt) (.open resident k) ops).kernel.published.Pairwise (· < ·) ∧
      ∀ uid, uid ∈ (run (exec e srt) (.open resident k) ops).kernel.published ↔
        (run (exec e srt) (.open resident k) ops).mgr.uidModes[uid]? = some UidMode.selected.asU8 ∧
          AppUid uid := by
  have h : InstalledInv (run (exec e srt) (.open resident k) ops) :=
    run_inv (fun _ _ h hop => h.exec e srt hop.1 hop.2) (InstalledInv.init hk resident)
      ((allSteps_of_mem e srt hok).and hfill)
  exact ⟨h.plane.tableOk.sorted, h.installed hact⟩

end Run

theorem active_installed_coldStart :
    startedPlane.mgr.status.active = true ∧ 10123 ∈ startedPlane.kernel.published := by
  have hact : startedPlane.mgr.status.active = true := by decide +kernel
  have hk : (Kernel.init false).Closed := ⟨rfl, rfl, rfl⟩
  have hok : ∀ op ∈ coldStart (selectPolicy [10123]) 1, op.IoctlsSucceed := by
    simp [coldStart, PlaneOp.IoctlsSucceed]
  have hfill : AllSteps (exec .little insertionSorter) FillsFirst (.open false (.init false))
      (coldStart (selectPolicy [10123]) 1) := by decide +kernel
  have h := active_installed hk hok hfill hact
  exact ⟨hact, (h.2 10123).mpr (by decide +kernel)⟩

/-- Every ioctl behind these answers succeeds. -/
def Outside.IoctlsSucceed (w : Outside) : Prop :=
  (w.down.statusFault = none ∧ w.down.clearFault = none) ∧
  (w.up.statusFault = none ∧ w.up.clearFault = none) ∧
  (w.apply.bypass = {} ∧ w.apply.uids = {} ∧ w.apply.rollback = {}) ∧
  w.prepareFault = none ∧ w.publishFault = none

instance (w : Outside) : Decidable w.IoctlsSucceed :=
  inferInstanceAs (Decidable ((_ ∧ _) ∧ (_ ∧ _) ∧ (_ ∧ _ ∧ _) ∧ _ ∧ _))

/-- The engine crashes, and the backoff brings up a new one under an unchanged policy. -/
def crashEvents : List Event :=
  readyEvents ++
  [{ disabled := false, kind := .engineExit },
    { disabled := false, kind := .backoff, nested := [{ user := some "" }] }] ++
  readyEvents

/-- The exit cleared the table, nothing queued a policy change, and the commit only sets the flag. -/
theorem active_without_table :
    (∀ ev ∈ startEvent :: crashEvents, ∀ w ∈ ev.outside :: ev.nested, w.IoctlsSucceed) ∧
    ∃ r, coldRun crashEvents = some r ∧ r.active = true ∧
      ¬ ∀ uid, uid ∈ r.dataplane.kernel.published ↔
        r.dataplane.mgr.uidModes[uid]? = some UidMode.selected.asU8 ∧ AppUid uid := by
  constructor
  · decide
  · have hrun : (coldRun crashEvents).any (fun r => r.active && decide
        (10123 ∉ r.dataplane.kernel.published ∧
          r.dataplane.mgr.uidModes[(10123 : U32)]? = some UidMode.selected.asU8)) = true := by
      decide +kernel
    obtain ⟨r, hr, h⟩ := (Option.any_eq_true _ _).mp hrun
    simp only [Bool.and_eq_true, decide_eq_true_eq] at h
    refine ⟨r, hr, h.1, fun hall => h.2.1 ((hall 10123).mpr ⟨h.2.2, by decide⟩)⟩

end FluxRs.Daemon
