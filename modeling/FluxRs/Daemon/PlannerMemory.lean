import FluxRs.Daemon.Capture

/-!
# FluxRs.Daemon.PlannerMemory — the planner's phase and the observed one

`planner.phase` is a second copy of what `observation` can see.  Stimuli that carry commands and an exit
of the engine write it anew; the handlers of the engine transaction never do.  So the copies agree
between two handlers as long as these leave work in flight, or end it in the phase the planner already
remembers.
-/

namespace FluxRs.Daemon

open FluxRs.Lib FluxRs.Net FluxRs.Kmod FluxRs.Dataplane

/-! ### Agreement -/

/-- The copies agree, or engine work is in flight. -/
def Agrees (r : Reactor) : Prop := r.convergenceBusy = true ∨ r.planner.phase = r.phase

variable {r : Reactor}

/-- A shutdown counts as the switch file either way. -/
theorem phase_eq_observe (r : Reactor) : r.phase = .observe r.observation := by
  unfold Reactor.phase
  simp only
  split
  · rename_i hs
    simp [Phase.observe, hs]
  · rfl

theorem Agrees.congr {r' : Reactor} (h : Agrees r) (ho : r'.observation = r.observation)
    (hp : r'.planner.phase = r.planner.phase) : Agrees r' := by
  have hbusy : r'.convergenceBusy = r.convergenceBusy := congrArg Observation.convergenceBusy ho
  rw [Agrees, phase_eq_observe, hbusy, hp, ho, ← phase_eq_observe]
  exact h

theorem agrees_refresh (r : Reactor) : Agrees r.refresh := .inr rfl

theorem agrees_of_tx {t : EngineTransaction} (h : r.engineTransaction = some t) : Agrees r :=
  .inl (by simp [Reactor.convergenceBusy, h])

theorem agrees_of_role {role : WaitRole} (h : r.activationRole = some role) : Agrees r :=
  .inl (by simp [Reactor.convergenceBusy, h])

/-- The switch, as the handler leaves it, is no news: work is in flight, a shutdown covers it, or it has
not moved. -/
def Steady (r : Reactor) (disabled : Bool) : Prop :=
  r.convergenceBusy = true ∨ r.shutdownRequested = true ∨ disabled = r.disabled

/-- The switch changes the observation only where the phase follows it. -/
theorem Agrees.setDisabled (h : Agrees r) {d : Bool} (hs : Steady r d) :
    Agrees { r with disabled := d } := by
  rcases hs with hbusy | hshut | rfl
  · exact .inl hbusy
  · rcases h with hbusy | hphase
    · exact .inl hbusy
    · refine .inr (hphase.trans ?_)
      simp only [phase_eq_observe, Phase.observe, Reactor.observation, Reactor.convergenceBusy,
        Reactor.active, hshut]
      simp
  · exact h

/-! ### How a transaction ends -/

/-- What a handler of the engine transaction leaves. -/
inductive Ending where
  /-- The handler has nothing to do. -/
  | untouched
  /-- A transaction or a role stays in flight. -/
  | working
  /-- The transaction is over and the engine stays as it is. -/
  | settled
  /-- The stop that a cancellation asked for is over. -/
  | cancelled
  /-- A child whose stop nobody confirms is the engine again. -/
  | kept (child : EngineChild)
  /-- A ready child goes for its commit. -/
  | promoted
  deriving DecidableEq

section Endings

variable (w : Outside) (r : Reactor)

/-- `begin_candidate_failure`. -/
def failureEnding (plan : SwitchPlan) : Ending :=
  if r.engineCancelRequested then .cancelled
  else match plan.old, w.recoverySpawn with
    | none, _ | _, .failed _ => .settled
    | _, _ => .working

/-- `start_candidate`. -/
def candidateEnding (plan : SwitchPlan) : Ending :=
  match w.spawn with
  | .failed _ => failureEnding w r plan
  | _ => .working

/-- `finish_cancelled`: a promoted engine is stopped first. -/
def cancelEnding : Ending := if r.engine.isSome then .working else .cancelled

/-- `complete_check`. -/
def checkEnding (plan : SwitchPlan) (error : Option EngineError) : CheckDisposition → Ending
  | .cancelled => cancelEnding r
  | .timedOut | .supervisionFailed => .settled
  | .normal =>
    if error.isSome then .settled
    else if r.engineCancelRequested then cancelEnding r
    else if r.engine.isNone then candidateEnding w r plan
    else match (publishInactive w r).1 with
      | .ok () => .working
      | .error _ => .settled

/-- The exit of a child that was waited for. -/
def exitEnding : WaitRole → Ending
  | .candidate plan => failureEnding w r plan
  | .recovery _ => .settled

/-- `advance_waiting`. -/
def waitingEnding (role : WaitRole) : Ending :=
  if r.engineCancelRequested || !w.exited then .working else exitEnding w r role

/-- `complete_stopped`. -/
def stoppedEnding : StopNext → Ending
  | .startCandidate plan => if r.engineCancelRequested then .cancelled else candidateEnding w r plan
  | .recover plan _ => failureEnding w r plan
  | .finishRecoveryFailure _ _ => .settled
  | .cancelled => .cancelled

/-- What the handler of an event leaves, read from the state before it. -/
def ending : EventKind → Ending
  | .checkExit =>
    match r.engineTransaction, w.check with
    | some (.checking plan d), .finished error => checkEnding w r plan error d
    | some (.checking _ _), _ => .working
    | _, _ => .untouched
  | .engineTimer =>
    match r.engineTransaction with
    | none => .untouched
    | some (.checking plan d) =>
      match w.check with
      | .finished error =>
        checkEnding w r plan error (if d == .normal && w.deadlinePassed then .timedOut else d)
      | _ => .working
    | some (.waiting _ role) => waitingEnding w r role
    | some (.stopping child next killSent) =>
      if w.exited then stoppedEnding w r next
      else if w.deadlinePassed && killSent then .kept child
      else .working
  | .transactionPidfd =>
    match r.engineTransaction with
    | some (.waiting _ role) => waitingEnding w r role
    | some (.stopping _ next _) => stoppedEnding w r next
    | _ => .untouched
  | .sockDiag =>
    if !r.diagProbe then .untouched
    else match r.engineTransaction with
      | some (.waiting _ role) =>
        if r.engineCancelRequested then .working
        else if w.exited then exitEnding w r role
        else if w.deadlinePassed then .working
        else if w.probe = .ready ∧ w.retags then .promoted
        else .working
      | none => .untouched
      | _ => .settled
  | _ => .untouched

/-- No convergence follows the end of a transaction. -/
def NothingQueued : Prop :=
  r.disabled = true ∨ r.shutdownRequested = true ∨
    queued r = false ∧ r.subscription.reconfigureQueued = false

/-- The planner already has the phase in which the work ends. -/
def Remembered : Ending → Prop
  | .untouched | .working => True
  | .settled => NothingQueued r ∧ r.planner.phase = { r with engineTransaction := none }.phase
  | .cancelled => (r.disabled = true ∨ r.shutdownRequested = true) ∧ r.planner.phase = .disabled
  | .kept child =>
    r.planner.phase = { r with engine := some child, engineTransaction := none }.phase
  | .promoted => NothingQueued r ∧ r.disabled = false ∧ r.ssidPaused = false ∧ r.planner.phase = .active

/-- Work on the host changes neither the planner nor what is queued. -/
theorem remembered_host (host : Host) {x : Ending} (h : Remembered r x) :
    Remembered { r with host := host } x := by
  cases x <;> exact h

end Endings

/-! ### The completions -/

/-- Whatever comes out agrees. -/
def Tracks (x : Option Reactor) : Prop := ∀ r, x = some r → Agrees r

@[simp] theorem tracks_some : Tracks (some r) ↔ Agrees r :=
  ⟨fun h => h r rfl, fun h _ heq => Option.some.inj heq ▸ h⟩

section Completions

variable {conv : Reactor → Option Reactor} {w : Outside}

theorem tracks_beginStop (child : EngineChild) (next : StopNext) :
    Tracks (some (beginStop child next r)) := tracks_some.mpr (agrees_of_tx rfl)

theorem tracks_waitForChild (child : EngineChild) (role : WaitRole) :
    Tracks (some (waitForChild child role r)) := tracks_some.mpr (agrees_of_tx rfl)

/-- Queued subscription work does not change what the planner knows. -/
theorem resumeQueued_agrees (h : Agrees r) : Agrees (resumeQueuedSubscriptionWork w r) := by
  obtain ⟨changed, s, heq, -⟩ := resumeQueued_eq w r
  rw [heq]
  exact h.congr rfl rfl

theorem tracks_runQueued (hq : NothingQueued r) (h : Agrees r) :
    Tracks (runQueuedConvergence conv (resumeQueuedSubscriptionWork w r)) := by
  have hrest : (!(resumeQueuedSubscriptionWork w r).shutdownRequested &&
      !(resumeQueuedSubscriptionWork w r).disabled && queued (resumeQueuedSubscriptionWork w r)) =
        false := by
    obtain ⟨changed, s, heq, hkept⟩ := resumeQueued_eq w r
    rw [heq]
    rcases hq with hd | hs | ⟨hq, hw⟩
    · simp [hd]
    · simp [hs]
    · have hq' : queued { r with engineConfigChanged := changed, subscription := s } = false := by
        rw [hkept hw]
        exact hq
      rw [hq']
      simp
  unfold runQueuedConvergence
  rw [hrest]
  exact tracks_some.mpr (resumeQueued_agrees h)

theorem tracks_finishTransactionError (h : Remembered r .settled) (error : EngineError) :
    Tracks (finishTransactionError conv w error r) := by
  have ha : Agrees { r with engineTransaction := none } := .inr h.2
  have hq : r.subscription.dropTagged.reconfigureQueued = r.subscription.reconfigureQueued := by
    unfold Subscription.dropTagged
    split <;> rfl
  have hnothing : NothingQueued { r with
      subscription := r.subscription.dropTagged, engineTransaction := none } :=
    h.1.imp_right (Or.imp_right fun ⟨hqueued, hre⟩ => ⟨hqueued, hq.trans hre⟩)
  unfold finishTransactionError
  simp only
  refine tracks_runQueued ?_ ?_
  · split <;> exact hnothing
  · split
    · exact ha.congr rfl rfl
    · exact ha.congr rfl rfl

theorem tracks_finishCancelled (hrole : r.activationRole = none)
    (h : Remembered r (cancelEnding r)) : Tracks (finishCancelled conv r) := by
  unfold cancelEnding at h
  unfold finishCancelled
  simp only
  split
  · exact tracks_beginStop _ _
  · rename_i he
    have he' : r.engine = none := he
    rw [if_neg (by simp [he'])] at h
    obtain ⟨hoff, hphase⟩ := h
    have ha : Agrees { r with
        diagProbe := false, engineTransaction := none, engineCancelRequested := false } := by
      refine .inr (hphase.trans ?_)
      rw [phase_eq_observe]
      rcases hoff with hd | hs
      · simp [Phase.observe, Reactor.observation, Reactor.convergenceBusy, hd, he', hrole]
      · simp [Phase.observe, Reactor.observation, Reactor.convergenceBusy, hs, he', hrole]
    split
    · exact tracks_some.mpr ha
    split
    · rename_i hd hs
      simp only [Bool.not_eq_true] at hd hs
      simp [hd] at hoff
      simp [hoff] at hs
    · exact tracks_some.mpr ha

theorem tracks_beginCandidateFailure (he : r.engine = none) (hrole : r.activationRole = none)
    {plan : SwitchPlan} (h : Remembered r (failureEnding w r plan)) (error : EngineError) :
    Tracks (beginCandidateFailure conv w plan error r) := by
  have hdrop : Remembered r .settled → Remembered (dropCandidate plan r) .settled := by
    have hq : (dropCandidate plan r).subscription.reconfigureQueued =
        r.subscription.reconfigureQueued := by
      unfold dropCandidate Subscription.discardGeneration
      simp only
      split <;> rfl
    exact fun h => ⟨h.1.imp_right (Or.imp_right fun ⟨hqueued, hre⟩ => ⟨hqueued, hq.trans hre⟩), h.2⟩
  unfold failureEnding at h
  unfold beginCandidateFailure
  simp only
  split
  · rename_i hc
    have hc' : r.engineCancelRequested = true := hc
    rw [if_pos hc'] at h
    refine tracks_finishCancelled hrole ?_
    rw [cancelEnding, if_neg (by simp [dropCandidate, he])]
    exact h
  rename_i hc
  have hc' : ¬ r.engineCancelRequested = true := hc
  rw [if_neg hc'] at h
  split
  · rename_i hold
    rw [hold] at h
    exact tracks_finishTransactionError (hdrop h) error
  · rename_i old hold
    split
    · rename_i hspawn
      rw [hold, hspawn] at h
      exact tracks_finishTransactionError (hdrop h) error
    · exact tracks_waitForChild _ _
    · exact tracks_beginStop _ _

theorem tracks_startCandidate (he : r.engine = none) (hrole : r.activationRole = none)
    {plan : SwitchPlan} (h : Remembered r (candidateEnding w r plan)) :
    Tracks (startCandidate conv w plan r) := by
  unfold candidateEnding at h
  unfold startCandidate
  split
  · rename_i hspawn
    rw [hspawn] at h
    exact tracks_beginCandidateFailure he hrole h _
  · exact tracks_waitForChild _ _
  · exact tracks_beginStop _ _

/-! ### The activation -/

theorem tracks_failPhase6 {role : WaitRole} {child : EngineChild} (hrole : r.activationRole = some role)
    (he : r.engine = some child) : Tracks (failPhase6Activation conv w r) := by
  have hrole' : (recordDataplaneError r).activationRole = some role := hrole
  have he' : (recordDataplaneError r).engine = some child := he
  unfold failPhase6Activation
  simp only [hrole', he']
  exact tracks_beginStop _ _

/-- A commit ends in `Active`, which is what the planner must remember. -/
theorem tracks_commitActivation {role : WaitRole} {child : EngineChild}
    (hrole : r.activationRole = some role) (he : r.engine = some child)
    (hs : r.shutdownRequested = false) (h : Remembered r .promoted) : Tracks (commitActivation conv w r) := by
  obtain ⟨hq, hd, hp, hphase⟩ := h
  unfold commitActivation
  split
  · exact tracks_failPhase6 hrole he
  · rename_i p heq
    have hact := publishActive_ok heq
    simp only [he]
    refine tracks_runQueued hq (.inr (hphase.trans ?_))
    rw [phase_eq_observe]
    simp [Phase.observe, Reactor.observation, Reactor.active, hact, hd, hs, hp]

theorem commitSource_reconfigureQueued (config : NodeConfig) (env : CommitEnv) (generation : Option ℕ) :
    ∀ (raw : List (RemoteSource × Raw)) (acc : Bool × Subscription),
      (raw.foldl (Subscription.commitSource config env generation) acc).2.reconfigureQueued =
        acc.2.reconfigureQueued
  | [], _ => rfl
  | entry :: raw, acc => by
    have hstep : (Subscription.commitSource config env generation acc entry).2.reconfigureQueued =
        acc.2.reconfigureQueued := by
      unfold Subscription.commitSource
      simp only
      split
      · rfl
      split
      · rfl
      split <;> rfl
    exact (commitSource_reconfigureQueued config env generation raw _).trans hstep

theorem commitPending_reconfigureQueued (s : Subscription) (nodes : Option NodeConfig)
    (generation : Option ℕ) (env : CommitEnv) :
    (s.commitPending nodes generation env).2.reconfigureQueued = s.reconfigureQueued := by
  unfold Subscription.commitPending
  split
  · rfl
  split
  · rfl
  simp only
  split
  · rfl
  · exact commitSource_reconfigureQueued _ _ _ _ _

/-- The end of an activation, where the planner remembers the promotion. -/
theorem tracks_finishPhase6 {role : WaitRole} {child : EngineChild}
    (hrole : r.activationRole = some role) (he : r.engine = some child)
    (hs : r.shutdownRequested = false) (h : Remembered r .promoted) : Tracks (finishPhase6Activation conv w r) := by
  unfold finishPhase6Activation
  split
  · rename_i plan hplan
    have hcached : Remembered (commitPendingSubscription w (some plan.params.generation) r).2 .promoted := by
      obtain ⟨hq, hrest⟩ := h
      refine ⟨hq.imp_right (Or.imp_right fun ⟨hqueued, hre⟩ => ⟨hqueued, ?_⟩), hrest⟩
      exact (commitPending_reconfigureQueued _ _ _ _).trans hre
    simp only
    split
    · exact tracks_commitActivation (r := (commitPendingSubscription w (some plan.params.generation) r).2)
        hrole he hs hcached
    · simp only [commitPendingSubscription, he]
      exact tracks_beginStop _ _
  · exact tracks_commitActivation hrole he hs h

theorem tracks_startPhase6 {role : WaitRole} {child : EngineChild}
    (hrole : r.activationRole = some role) (he : r.engine = some child)
    (hs : r.shutdownRequested = false) (h : Remembered r .promoted) (e : Endian) (params : EngineParams) :
    Tracks (startPhase6Attachment e conv w params r) := by
  have hactivating : (r.activationRole.isSome || !r.active) = true := by simp [hrole]
  unfold startPhase6Attachment
  simp only [hactivating, Bool.true_or, if_true]
  split
  · exact tracks_failPhase6 hrole he
  · split
    · exact tracks_failPhase6 hrole he
    · split
      · exact tracks_some.mpr (agrees_of_role hrole)
      · exact tracks_finishPhase6 hrole he hs h

/-! ### The handlers of a transaction -/

/-- The end of a check by each of its dispositions. -/
theorem tracks_completeCheck (hrole : r.activationRole = none) {plan : SwitchPlan}
    {error : Option EngineError} {d : CheckDisposition} (h : Remembered r (checkEnding w r plan error d)) :
    Tracks (completeCheck conv w plan d error { r with engineTransaction := none }) := by
  let removed := removeEffective plan.params.generation { r with engineTransaction := none }
  cases d with
  | cancelled => exact tracks_finishCancelled (r := removed) hrole h
  | timedOut => exact tracks_finishTransactionError (r := removed) h _
  | supervisionFailed => exact tracks_finishTransactionError (r := removed) h _
  | normal =>
    cases error with
    | some error => exact tracks_finishTransactionError (r := removed) h _
    | none =>
      simp only [checkEnding, Option.isSome_none, Bool.false_eq_true, if_false] at h
      simp only [completeCheck]
      split
      · rename_i hc
        rw [if_pos hc] at h
        exact tracks_finishCancelled (r := removed) hrole h
      rename_i hc
      rw [if_neg hc] at h
      split
      · rename_i he
        have he' : r.engine = none := he
        rw [if_pos (by simp [he'])] at h
        exact tracks_startCandidate (r := { r with engineTransaction := none }) he hrole h
      · rename_i child he
        have he' : r.engine = some child := he
        rw [if_neg (by simp [he'])] at h
        unfold publishInactive at h ⊢
        simp only at h ⊢
        generalize hx : Dataplane.publishInactive w.publishFault r.dataplane = x at h ⊢
        obtain ⟨result, p⟩ := x
        cases result with
        | error err =>
          have hkept : Remembered { removeEffective plan.params.generation
              { r with engineTransaction := none, engine := none, dataplane := p } with
                engine := some child } .settled := by
            refine ⟨h.1, h.2.trans ?_⟩
            have hact := publishInactive_error hx
            simp only [phase_eq_observe, Reactor.observation, Reactor.active, Reactor.convergenceBusy,
              removeEffective, hact, he']
          exact tracks_finishTransactionError hkept _
        | ok _ =>
          exact tracks_beginStop (r := { r with engineTransaction := none, engine := none, dataplane := p })
            _ _

theorem tracks_finishWaitingExit (he : r.engine = none) (hrole : r.activationRole = none)
    {role : WaitRole} (h : Remembered r (exitEnding w r role)) (child : EngineChild) :
    Tracks (finishWaitingExit conv w child role r) := by
  let reaped := terminate w child { r with diagProbe := false }
  cases role with
  | candidate plan => exact tracks_beginCandidateFailure (r := reaped) he hrole h _
  | recovery error => exact tracks_finishTransactionError (r := reaped) h _

theorem tracks_advanceWaiting (he : r.engine = none) (hrole : r.activationRole = none)
    {role : WaitRole} (h : Remembered r (waitingEnding w r role)) (child : EngineChild) :
    Tracks (advanceWaiting conv w child role r) := by
  unfold waitingEnding at h
  unfold advanceWaiting
  split
  · exact tracks_beginStop _ _
  rename_i hc
  split
  · rename_i hexit
    rw [if_neg (by simp [hc, hexit])] at h
    exact tracks_finishWaitingExit he hrole h child
  split
  · exact tracks_beginStop _ _
  split
  · exact tracks_beginStop _ _
  · exact tracks_waitForChild _ _
  split
  · exact tracks_waitForChild _ _
  split
  · exact tracks_waitForChild _ _
  · exact tracks_beginStop _ _

/-- The end of a stop by what comes next. -/
theorem tracks_completeStopped (he : r.engine = none) (hrole : r.activationRole = none)
    {next : StopNext} (h : Remembered r (stoppedEnding w r next)) (child : EngineChild) :
    Tracks (completeStopped conv w child next r) := by
  have hcancelled : ∀ host, Remembered r .cancelled → Tracks (finishCancelled conv { r with host := host }) := by
    intro host h
    refine tracks_finishCancelled hrole ?_
    rw [cancelEnding, if_neg (by simp [he])]
    exact h
  let reaped := terminate w child r
  let removed := removeEffective child.params.generation reaped
  cases next with
  | startCandidate plan =>
    simp only [stoppedEnding, completeStopped] at h ⊢
    split
    · rename_i hc
      have hc' : r.engineCancelRequested = true := hc
      rw [if_pos hc'] at h
      exact hcancelled (removeEffective plan.params.generation removed).host h
    · rename_i hc
      have hc' : ¬ r.engineCancelRequested = true := hc
      rw [if_neg hc'] at h
      exact tracks_startCandidate (r := reaped) he hrole h
  | recover plan error =>
    have hremoved : Remembered removed (failureEnding w r plan) := remembered_host r removed.host h
    exact tracks_beginCandidateFailure (r := removed) he hrole hremoved _
  | finishRecoveryFailure error error' =>
    have hremoved : Remembered removed .settled := remembered_host r removed.host h
    exact tracks_finishTransactionError (r := removed) hremoved _
  | cancelled => exact hcancelled removed.host h

theorem tracks_handleCheckExit (h : Inv False r) (ha : Agrees r)
    (hm : Remembered r (ending w r .checkExit)) : Tracks (handleCheckExit conv w r) := by
  unfold ending at hm
  unfold handleCheckExit
  split
  · rename_i plan d ht
    split
    · rename_i error hcheck
      simp only [ht, hcheck] at hm
      exact tracks_completeCheck (h.role_none (by simp [ht])) hm
    · exact tracks_some.mpr (agrees_of_tx ht)
    · exact tracks_some.mpr (agrees_of_tx rfl)
  · exact tracks_some.mpr ha

theorem tracks_handleEngineTimer (h : Inv False r) (ha : Agrees r)
    (hm : Remembered r (ending w r .engineTimer)) : Tracks (handleEngineTimer conv w r) := by
  unfold ending at hm
  unfold handleEngineTimer
  simp only
  split
  · exact tracks_some.mpr ha
  · rename_i plan d ht
    split
    · rename_i error hcheck
      simp only [ht, hcheck] at hm
      exact tracks_completeCheck (h.role_none (by simp [ht])) hm
    · exact tracks_some.mpr (agrees_of_tx rfl)
    · exact tracks_some.mpr (agrees_of_tx rfl)
  · rename_i child role ht
    simp only [ht] at hm
    exact tracks_advanceWaiting (r := { r with engineTransaction := none })
      (h.engine_none_of_waiting ht) (h.role_none (by simp [ht])) hm child
  · rename_i child next killSent ht
    simp only [ht] at hm
    split
    · rename_i hexit
      rw [if_pos hexit] at hm
      exact tracks_completeStopped (r := { r with engineTransaction := none })
        (h.engine_none_of_stopping ht) (h.role_none (by simp [ht])) hm child
    rename_i hexit
    split
    · exact tracks_some.mpr ha
    rename_i hdeadline
    split
    · exact tracks_some.mpr (agrees_of_tx rfl)
    · rename_i hkill
      simp only [Bool.not_eq_true', Bool.not_eq_false] at hdeadline hkill
      rw [if_neg hexit, if_pos (by simp [hdeadline, hkill])] at hm
      have hkept : Agrees { r with
          subscription := next.discard r.subscription, host := r.host.cleanupStopNext next
          generations := r.generations.commit child.params.generation
          engine := some child, engineTransaction := none, engineCancelRequested := false } := .inr hm
      exact tracks_some.mpr ((resumeQueued_agrees hkept).congr rfl rfl)

theorem tracks_handleTransactionPidfd (h : Inv False r) (ha : Agrees r)
    (hm : Remembered r (ending w r .transactionPidfd)) :
    Tracks (handleTransactionPidfd conv w r) := by
  unfold ending at hm
  unfold handleTransactionPidfd
  simp only
  split
  · rename_i child role ht
    simp only [ht] at hm
    exact tracks_advanceWaiting (r := { r with engineTransaction := none })
      (h.engine_none_of_waiting ht) (h.role_none (by simp [ht])) hm child
  · rename_i child next killSent ht
    simp only [ht] at hm
    exact tracks_completeStopped (r := { r with engineTransaction := none })
      (h.engine_none_of_stopping ht) (h.role_none (by simp [ht])) hm child
  · exact tracks_some.mpr ha

theorem tracks_promoteReadyChild (hs : r.shutdownRequested = false)
    (hm : w.retags = true → Remembered r .promoted) (e : Endian) (child : EngineChild)
    (role : WaitRole) : Tracks (promoteReadyChild e conv w child role r) := by
  unfold promoteReadyChild
  simp only
  split
  · exact tracks_beginStop _ _
  · rename_i hr
    exact tracks_startPhase6
      (r := { r with
        diagProbe := false, engine := some child, activationRole := some role
        engineCancelRequested := false })
      rfl rfl hs (hm (by simpa using hr)) e _

theorem tracks_handleSockDiag (h : Inv False r) (ha : Agrees r)
    (hm : Remembered r (ending w r .sockDiag)) (e : Endian) :
    Tracks (handleSockDiag e conv w r) := by
  unfold ending at hm
  unfold handleSockDiag
  split
  · exact tracks_some.mpr ha
  rename_i hprobe
  rw [if_neg hprobe] at hm
  simp only
  split
  · rename_i child role ht
    simp only [ht] at hm
    split
    · exact tracks_beginStop _ _
    rename_i hc
    rw [if_neg hc] at hm
    have hs : r.shutdownRequested = false := by
      by_contra hs
      exact hc ((h.shut (by simpa using hs)).2 (by simp [ht]))
    split
    · rename_i hexit
      rw [if_pos hexit] at hm
      exact tracks_finishWaitingExit (r := { r with diagProbe := false, engineTransaction := none })
        (h.engine_none_of_waiting ht) (h.role_none (by simp [ht])) hm child
    rename_i hexit
    rw [if_neg hexit] at hm
    split
    · exact tracks_beginStop _ _
    rename_i hdeadline
    rw [if_neg hdeadline] at hm
    split
    · exact tracks_waitForChild _ _
    · exact tracks_waitForChild _ _
    · rename_i hready
      refine tracks_promoteReadyChild (r := { r with diagProbe := false, engineTransaction := none }) hs
        (fun hr => ?_) e child role
      rw [if_pos ⟨hready, hr⟩] at hm
      exact hm
    · exact tracks_beginStop _ _
  · rename_i hnot
    refine tracks_some.mpr ?_
    cases ht : r.engineTransaction with
    | none =>
      refine ha.congr ?_ rfl
      simp only [Reactor.observation, Reactor.convergenceBusy, Reactor.active, ht]
    | some t =>
      cases t with
      | waiting child role => exact absurd ht (hnot child role)
      | checking plan d =>
        simp only [ht] at hm
        exact .inr hm.2
      | stopping child next killSent =>
        simp only [ht] at hm
        exact .inr hm.2

end Completions

/-! ### Stimuli -/

/-- The stimuli that handlers other than the prologue and the engine's exit give. -/
def Stimulus.handled : Stimulus → Bool
  | .enable | .disable | .reload | .stop | .sighup | .sigterm | .ssidPause | .ssidResume
  | .captureSideDrift | .debounceExpired | .backoffExpired => true
  | _ => false

/-- A stimulus that is handled is expected in every phase, and an empty row keeps its phase. -/
theorem step_handled (p : Phase) {s : Stimulus} (hs : s.handled = true) :
    .ignoreUnexpected ∉ (step p s).commands ∧
      ((step p s).commands = [] → s ≠ .ssidPause → (step p s).phase = p) := by
  cases s with
  | enable | disable | reload | stop | sighup | sigterm | ssidPause | ssidResume
  | captureSideDrift | debounceExpired | backoffExpired => cases p <;> decide
  | _ => cases hs

section Stimuli

variable {conv : Reactor → Option Reactor} {w : Outside} (e : Endian)

/-- Commands are followed by a new observation. -/
theorem tracks_applyStimulus {s : Stimulus} (hu : .ignoreUnexpected ∉ (step r.planner.phase s).commands)
    (hk : (step r.planner.phase s).commands ≠ []) : Tracks (applyStimulus e conv w s r) := by
  unfold applyStimulus
  simp only [plan_kinds]
  rw [if_neg (by simpa using hu), if_neg (by simpa using hk)]
  intro r' hr'
  obtain ⟨r₁, -, rfl⟩ := Option.map_eq_some_iff.mp hr'
  exact agrees_refresh r₁

/-- Without commands only the planner moves. -/
theorem applyStimulus_stays {s : Stimulus} (hk : (step r.planner.phase s).commands = []) :
    applyStimulus e conv w s r = some { r with planner := (plan r.planner s).1 } := by
  unfold applyStimulus
  simp only [plan_kinds, hk]
  rfl

/-- Where commands follow a convergence refreshes the planner; where none do the phase was right. -/
theorem tracks_heard {s : Stimulus} (hs : s.handled = true) (hp : s ≠ .ssidPause)
    (h : (step r.planner.phase s).commands ≠ [] ∨ Agrees r) :
    Tracks (applyStimulus e conv w s r) := by
  by_cases hk : (step r.planner.phase s).commands = []
  · rw [applyStimulus_stays e hk]
    exact tracks_some.mpr ((h.resolve_left (absurd hk)).congr rfl
      ((step_handled r.planner.phase hs).2 hk hp))
  · exact tracks_applyStimulus e (step_handled r.planner.phase hs).1 hk

/-- A pause that only moves the planner moves it to what the new verdict shows. -/
theorem observe_pause (o : Observation) (h : (step (.observe o) .ssidPause).commands = []) :
    (step (.observe o) .ssidPause).phase = .observe { o with ssidPaused := true } := by
  obtain ⟨d, s, p, x, a, c, b⟩ := o
  revert h
  cases d <;> cases s <;> cases p <;> cases x <;> cases a <;> cases c <;> cases b <;> decide

theorem observe_resume (o : Observation) (h : (step (.observe o) .ssidResume).commands = []) :
    (step (.observe o) .ssidResume).phase = .observe { o with ssidPaused := false } := by
  obtain ⟨d, s, p, x, a, c, b⟩ := o
  revert h
  cases d <;> cases s <;> cases p <;> cases x <;> cases a <;> cases c <;> cases b <;> decide

theorem tracks_debounce
    (h : (step r.planner.phase (takeDebounceStimulus w r).1).commands ≠ [] ∨ Agrees r) :
    Tracks (applyStimulus e conv w (takeDebounceStimulus w r).1 (takeDebounceStimulus w r).2) := by
  unfold takeDebounceStimulus at h ⊢
  split
  · rename_i hwifi
    obtain ⟨paused, changed, heq⟩ := evaluateSsid_eq w r.currentPolicy r
    simp only [hwifi, if_true, heq] at h ⊢
    by_cases hk : (step r.planner.phase (if paused = true then .ssidPause else .ssidResume)).commands = []
    · rw [applyStimulus_stays (r := { r with ssidPaused := paused, wifiChanged := changed }) e hk]
      refine tracks_some.mpr ?_
      rcases h.resolve_left (absurd hk) with hbusy | hphase
      · exact .inl hbusy
      · refine .inr ?_
        rw [phase_eq_observe] at hphase ⊢
        rw [hphase] at hk
        change (step r.planner.phase _).phase = _
        rw [hphase]
        cases paused with
        | true => exact observe_pause r.observation hk
        | false => exact observe_resume r.observation hk
    · refine tracks_applyStimulus (r := { r with ssidPaused := paused, wifiChanged := changed }) e ?_ hk
      exact (step_handled r.planner.phase (by cases paused <;> rfl)).1
  · rename_i hwifi
    rw [if_neg hwifi] at h
    split
    · rename_i htop
      rw [if_pos htop] at h
      exact tracks_heard e rfl (by simp) h
    · rename_i htop
      rw [if_neg htop] at h
      exact tracks_heard e rfl (by simp) h

end Stimuli

/-! ### Runs -/

/-- The stimulus carries commands in the planner's phase, or the switch is no news. -/
def Heard (r : Reactor) (s : Stimulus) (disabled : Bool) : Prop :=
  (step r.planner.phase s).commands ≠ [] ∨ Steady r disabled

/-- What each handler needs so that the copies still agree when it returns; `d` is the switch it finds. -/
def Tracked (w : Outside) (r : Reactor) (d : Bool) : EventKind → Prop
  | .enable true => Heard r .enable false
  | .disable true => Heard r .disable true
  | .reload => Heard r .reload d
  | .sighup => Heard r .sighup d
  | .stop | .sigterm | .engineExit => True
  | .inotify true _ _ => Heard r (if d then .disable else .enable) d
  | .debounce => Heard r (takeDebounceStimulus w { r with disabled := d }).1 d
  | .backoff =>
    if r.shutdownRequested || d then r.engine ≠ none ∨ Steady r d else Heard r .backoffExpired d
  | .checkExit => Steady r d ∧ Remembered { r with disabled := d } (ending w r .checkExit)
  | .engineTimer => Steady r d ∧ Remembered { r with disabled := d } (ending w r .engineTimer)
  | .transactionPidfd =>
    Steady r d ∧ Remembered { r with disabled := d } (ending w r .transactionPidfd)
  | .sockDiag => Steady r d ∧ Remembered { r with disabled := d } (ending w r .sockDiag)
  | .subscription answers =>
    Steady r d ∧ (handleSubscriptionResult w answers { r with disabled := d }).1 ≠ .accepted
  | _ => Steady r d

section Run

variable (e : Endian) {conv : Reactor → Option Reactor} {w : Outside}

theorem requestShutdown_requested (w : Outside) (r : Reactor) :
    (requestShutdown w r).shutdownRequested = true := by
  unfold requestShutdown
  split
  · assumption
  · unfold cancelEngineWork
    simp only
    split
    · split <;> rfl
    · rfl
    · rfl
    · rfl

theorem step_stop (p : Phase) : .exitProcess ∈ (step p .stop).commands := by cases p <;> decide

/-- `stop` has already asked for the shutdown that its handler asks for. -/
theorem applyStimulus_stop {r' : Reactor} (h : applyStimulus e conv w .stop r = some r') :
    Agrees r' ∧ requestShutdown w r' = r' := by
  have hmem := step_stop r.planner.phase
  obtain ⟨hu, -⟩ := step_handled r.planner.phase (s := .stop) rfl
  refine ⟨tracks_applyStimulus e hu (List.ne_nil_of_mem hmem) r' h, ?_⟩
  unfold applyStimulus at h
  simp only [plan_kinds] at h
  rw [if_neg (by simpa using hu), if_neg (by simpa using List.ne_nil_of_mem hmem)] at h
  obtain ⟨r₁, h₁, rfl⟩ := Option.map_eq_some_iff.mp h
  unfold executeCommands at h₁
  rw [if_pos (by simpa using hmem)] at h₁
  have hs : r₁.refresh.shutdownRequested = true := by
    rw [← Option.some.inj h₁]
    exact requestShutdown_requested w _
  unfold requestShutdown
  rw [if_pos hs]

theorem agrees_cancelEngineWork (h : Inv False r) (ha : r.engine ≠ none ∨ Agrees r) :
    Agrees (cancelEngineWork { r with backoffArmed := false, engineCancelRequested := true }) := by
  unfold cancelEngineWork
  simp only
  split
  · rename_i ht
    split
    · exact agrees_of_tx rfl
    · rename_i he
      have he' : r.engine = none := he
      have hrole : r.activationRole = none := by
        by_contra hne
        exact (h.role hne).1 he'
      refine (ha.resolve_left (absurd he')).congr ?_ rfl
      simp only [Reactor.observation, Reactor.convergenceBusy, Reactor.active, hrole]
  · exact agrees_of_tx rfl
  · exact agrees_of_tx rfl
  · exact agrees_of_tx rfl

theorem tracks_handleEngineExit : Tracks (handleEngineExit conv w r) := by
  intro r' hr'
  obtain ⟨r₁, -, rfl⟩ := Option.map_eq_some_iff.mp hr'
  exact agrees_refresh r₁

/-- The step lemma over the kinds of events. -/
theorem tracks_handleKind (h : Inv False r) (ha : Agrees r) {d : Bool} {kind : EventKind}
    (hk : Tracked w r d kind) : Tracks (handleKind e conv w { r with disabled := d } kind) := by
  have hr : Inv False { r with disabled := d } := h.congr rfl rfl rfl rfl rfl rfl
  have hset : ∀ {d}, Steady r d → Agrees { r with disabled := d } := ha.setDisabled
  cases kind with
  | enable written =>
    cases written with
    | false => exact tracks_some.mpr (hset hk)
    | true =>
      exact tracks_heard (r := { r with disabled := false }) e rfl (by simp) (hk.imp_right hset)
  | disable written =>
    cases written with
    | false => exact tracks_some.mpr (hset hk)
    | true =>
      exact tracks_heard (r := { r with disabled := true }) e rfl (by simp) (hk.imp_right hset)
  | reload =>
    refine tracks_heard e rfl (by simp) (Or.imp_right (fun hs => ?_) hk)
    exact (hset hs).congr rfl rfl
  | sighup =>
    refine tracks_heard e rfl (by simp) (Or.imp_right (fun hs => ?_) hk)
    exact (hset hs).congr rfl rfl
  | stop =>
    intro r' hr'
    obtain ⟨r₁, h₁, rfl⟩ := Option.map_eq_some_iff.mp hr'
    obtain ⟨hagrees, hsame⟩ := applyStimulus_stop e h₁
    rwa [hsame]
  | sigterm =>
    refine tracks_applyStimulus e (step_handled _ rfl).1 ?_
    cases r.planner.phase <;> decide
  | inotify switch policy engineConfig =>
    intro r' hr'
    obtain ⟨r₁, h₁, rfl⟩ := Option.map_eq_some_iff.mp hr'
    suffices hsw : Agrees r₁ from hsw.congr rfl rfl
    cases switch with
    | false => exact Option.some.inj h₁ ▸ hset hk
    | true =>
      refine tracks_heard (r := { r with disabled := d }) e ?_ ?_ (Or.imp_right hset hk) r₁ h₁
      · cases d <;> rfl
      · cases d <;> simp
  | rtnetlink => exact tracks_some.mpr ((hset hk).congr rfl rfl)
  | nl80211 =>
    cases d with
    | true => exact tracks_some.mpr (hset hk)
    | false => exact tracks_some.mpr ((hset hk).congr rfl rfl)
  | debounce =>
    intro r' hr'
    obtain ⟨r₁, h₁, rfl⟩ := Option.map_eq_some_iff.mp hr'
    have hagrees : Agrees r₁ :=
      tracks_debounce (r := { r with disabled := d }) e (Or.imp_right hset hk) r₁ h₁
    split
    · exact hagrees.congr rfl rfl
    · exact hagrees
  | backoff =>
    unfold Tracked at hk
    simp only [handleKind]
    split
    · rename_i hoff
      rw [if_pos hoff] at hk
      exact tracks_some.mpr (agrees_cancelEngineWork hr (hk.imp_right hset))
    · rename_i hoff
      rw [if_neg hoff] at hk
      refine tracks_heard e rfl (by simp) (Or.imp_right (fun hs => ?_) hk)
      exact (hset hs).congr rfl rfl
  | engineExit => exact tracks_handleEngineExit
  | engineTimer => exact tracks_handleEngineTimer hr (hset hk.1) hk.2
  | transactionPidfd => exact tracks_handleTransactionPidfd hr (hset hk.1) hk.2
  | checkExit => exact tracks_handleCheckExit hr (hset hk.1) hk.2
  | sockDiag => exact tracks_handleSockDiag hr (hset hk.1) hk.2 e
  | subscription answers =>
    obtain ⟨hs, hverdict⟩ := hk
    have hagrees : Agrees (handleSubscriptionResult w answers { r with disabled := d }).2 :=
      (hset hs).congr rfl rfl
    simp only [handleKind]
    generalize handleSubscriptionResult w answers { r with disabled := d } = x at hverdict hagrees ⊢
    obtain ⟨verdict, r₁⟩ := x
    cases verdict with
    | discarded => exact tracks_some.mpr hagrees
    | empty => exact tracks_some.mpr (resumeQueued_agrees hagrees)
    | accepted => exact absurd rfl hverdict
  | subscribe => exact tracks_some.mpr ((hset hk).congr rfl rfl)
  | subscriptionTimer => exact tracks_some.mpr ((hset hk).congr rfl rfl)
  | other => exact tracks_some.mpr (hset hk)

/-- The verdict depends on the policy alone. -/
theorem evaluateSsid_fst (w : Outside) (policy : Option PolicyCandidate) (r r' : Reactor) :
    (evaluateSsid w policy r).1 = (evaluateSsid w policy r').1 := by
  unfold evaluateSsid
  rcases policy with - | ⟨desired, ssidListed, nodes⟩
  · rfl
  · cases ssidListed with
    | false => rfl
    | true =>
      simp only
      cases w.ssid <;> rfl

/-- The files that the step cannot remove are no concern of the planner. -/
theorem Tracked.setHost {d : Bool} {kind : EventKind} (h : Tracked w r d kind) (host : Host) :
    Tracked w { r with host := host } d kind := by
  cases kind with
  | enable written => cases written <;> exact h
  | disable written => cases written <;> exact h
  | inotify switch policy engineConfig => cases switch <;> exact h
  | debounce =>
    have hsame : (takeDebounceStimulus w { r with host := host, disabled := d }).1 =
        (takeDebounceStimulus w { r with disabled := d }).1 := by
      unfold takeDebounceStimulus
      simp only
      rw [evaluateSsid_fst w r.currentPolicy { r with host := host, disabled := d }
        { r with disabled := d }]
      split
      · rfl
      split <;> rfl
    unfold Tracked at h ⊢
    rw [hsame]
    exact h
  | _ => exact h

variable (srt : Sorter) (fakeipOk : PolicyCandidate → UserConfig → Bool)

/-- The first convergence. -/
theorem tracks_start (resident : Bool) (k : Kernel) (badPageSize : Bool) (ev : Event) :
    Tracks (start e srt fakeipOk (.open resident k) badPageSize ev) := by
  unfold start
  simp only
  split
  · exact tracks_some.mpr (agrees_refresh _)
  · rename_i hd
    have hd' : ev.disabled = false := Bool.not_eq_true _ ▸ hd
    have hphase : (Reactor.refresh { Reactor.new (.open resident k) badPageSize with
        disabled := ev.disabled
        subscription := .new ev.cache
        host := { Host.new with stuck := ev.stuck } }).planner.phase = .inactive := by
      rw [hd']
      rfl
    refine tracks_applyStimulus e ?_ ?_
    · rw [hphase]
      decide
    · rw [hphase]
      decide

variable {e srt fakeipOk}

theorem tracks_handle (h : Inv False r) (ha : Agrees r) {ev : Event}
    (hk : Tracked ev.outside r ev.disabled ev.kind) : Tracks (handle e srt fakeipOk r ev) := by
  have hi : Inv False { r with host := { r.host with stuck := ev.stuck } } :=
    h.congr rfl rfl rfl rfl rfl rfl
  have hagrees : Agrees { r with host := { r.host with stuck := ev.stuck } } := ha.congr rfl rfl
  exact tracks_handleKind e hi hagrees (hk.setHost _)

/-- **Planner memory agrees with reality** in every run whose steps meet `Tracked`: with no engine work in
flight the planner's phase is the observed one, so an enable after a completed disable attempts an
activation, and a reload of a committed engine switches. -/
theorem planner_agrees {resident : Bool} {k : Kernel} {badPageSize : Bool} {first : Event}
    {evs : List Event} {r₀ r : Reactor}
    (hstart : start e srt fakeipOk (.open resident k) badPageSize first = some r₀)
    (hsteps : AllStepsOption (handle e srt fakeipOk)
      (fun r ev => Tracked ev.outside r ev.disabled ev.kind) r₀ evs)
    (hrun : runOption (handle e srt fakeipOk) r₀ evs = some r)
    (ht : r.engineTransaction = none) (hrole : r.activationRole = none) :
    r.planner.phase = .observe r.observation ∧
      (r.disabled = true → r.engine = none →
        (plan r.planner .enable).2.map Command.kind = [.attemptActivation]) ∧
      (Phase.observe r.observation = .active →
        (plan r.planner .reload).2.map Command.kind = [.policyTransaction, .engineCandidateSwitch]) := by
  have h₀ : Inv False r₀ ∧ Agrees r₀ :=
    ⟨Inv.start e srt fakeipOk resident k badPageSize False.elim r₀ hstart,
      tracks_start e srt fakeipOk resident k badPageSize first r₀ hstart⟩
  have h : Inv False r ∧ Agrees r := runOption_inv (I := fun r => Inv False r ∧ Agrees r)
    (fun r ev r' h hc heq => ⟨h.1.handle e srt fakeipOk False.elim False.elim r' heq,
      tracks_handle h.1 h.2 hc r' heq⟩) h₀ hsteps hrun
  have hphase : r.planner.phase = .observe r.observation := by
    rw [← phase_eq_observe]
    exact h.2.resolve_left (by simp [Reactor.convergenceBusy, ht, hrole])
  refine ⟨hphase, fun hd he => ?_, fun hact => ?_⟩
  · have hoff : Phase.observe r.observation = .disabled := by
      simp [Phase.observe, Reactor.observation, Reactor.convergenceBusy, hd, he, ht, hrole]
    rw [plan_kinds, hphase, hoff]
    rfl
  · rw [plan_kinds, hphase, hact]
    rfl

end Run

instance (r : Reactor) : Decidable (NothingQueued r) :=
  inferInstanceAs (Decidable (_ ∨ _ ∨ _ ∧ _))

instance (r : Reactor) : (m : Ending) → Decidable (Remembered r m)
  | .untouched | .working => isTrue trivial
  | .settled => inferInstanceAs (Decidable (_ ∧ _))
  | .cancelled => inferInstanceAs (Decidable ((_ ∨ _) ∧ _))
  | .kept _ => inferInstanceAs (Decidable (_ = _))
  | .promoted => inferInstanceAs (Decidable (_ ∧ _ ∧ _ ∧ _))

instance (r : Reactor) (d : Bool) : Decidable (Steady r d) := inferInstanceAs (Decidable (_ ∨ _ ∨ _))

instance (r : Reactor) (s : Stimulus) (d : Bool) : Decidable (Heard r s d) :=
  inferInstanceAs (Decidable (_ ∨ _))

instance (w : Outside) (r : Reactor) (d : Bool) (kind : EventKind) : Decidable (Tracked w r d kind) := by
  unfold Tracked
  split <;> infer_instance

/-- A candidate that comes up too late and whose stop is never confirmed is kept as the engine; the retry
commits it inside a stimulus, and a reload then switches it. -/
def keptEvents : List Event :=
  [{ disabled := false, kind := .checkExit, outside := { check := .finished none } },
    { disabled := false, kind := .engineTimer },
    { disabled := false, kind := .engineTimer, outside := { deadlinePassed := true } },
    { disabled := false, kind := .engineTimer, outside := { deadlinePassed := true } },
    { disabled := false, kind := .engineTimer, outside := { deadlinePassed := true } },
    { disabled := false, kind := .backoff, nested := [{}] },
    { disabled := false, kind := .reload
      nested := [{ policy := some startPolicy, user := some "new" }] },
    { disabled := false, kind := .checkExit, outside := { check := .finished none } },
    { disabled := false, kind := .transactionPidfd },
    { disabled := false, kind := .engineTimer },
    { disabled := false, kind := .sockDiag, outside := { probe := .ready } }]

def keptRun : ColdRun (fun r ev => Tracked ev.outside r ev.disabled ev.kind) fun r =>
    decide (r.engineTransaction = none ∧ r.activationRole = none ∧
      Phase.observe r.observation = .active) :=
  ⟨keptEvents, by decide +kernel⟩

theorem planner_agrees_kept : ∃ r, coldRun keptEvents = some r ∧ r.planner.phase = .active ∧
    (plan r.planner .reload).2.map Command.kind = [.policyTransaction, .engineCandidateSwitch] := by
  obtain ⟨r₀, r, hstart, hsteps, hr, hcold, hend⟩ := exists_of_coldMeets keptRun.meets
  obtain ⟨ht, hrole, hact⟩ := of_decide_eq_true hend
  obtain ⟨hphase, -, hreload⟩ := planner_agrees hstart hsteps hr ht hrole
  exact ⟨r, hcold, hphase.trans hact, hreload hact⟩

/-- The first activation, then a disable whose stop completes. -/
def disableEvents : List Event :=
  readyEvents ++
  [{ disabled := false, kind := .disable true }, { disabled := true, kind := .transactionPidfd }]

/-- After the first commit a reload is dropped, and after a completed disable an enable is. -/
theorem planner_forgets :
    (∃ r, coldRun readyEvents = some r ∧ r.engineTransaction = none ∧ r.activationRole = none ∧
      r.planner.phase = .activating ∧ Phase.observe r.observation = .active ∧
      (plan r.planner .reload).2 = []) ∧
    ∃ r, coldRun disableEvents = some r ∧ r.engineTransaction = none ∧ r.activationRole = none ∧
      r.planner.phase = .stopping ∧ Phase.observe r.observation = .disabled ∧
      (plan r.planner .enable).2 = [] := by
  have hready : (coldRun readyEvents).any (fun r => decide (r.engineTransaction = none ∧
      r.activationRole = none ∧ r.planner.phase = .activating ∧
      Phase.observe r.observation = .active ∧ (plan r.planner .reload).2 = [])) = true := by
    decide +kernel
  have hdisable : (coldRun disableEvents).any (fun r => decide (r.engineTransaction = none ∧
      r.activationRole = none ∧ r.planner.phase = .stopping ∧
      Phase.observe r.observation = .disabled ∧ (plan r.planner .enable).2 = [])) = true := by
    decide +kernel
  obtain ⟨r, hr, h⟩ := (Option.any_eq_true _ _).mp hready
  obtain ⟨r', hr', h'⟩ := (Option.any_eq_true _ _).mp hdisable
  exact ⟨⟨r, hr, of_decide_eq_true h⟩, r', hr', of_decide_eq_true h'⟩

end FluxRs.Daemon
