import FluxRs.Daemon.Reactor
import FluxRs.Dataplane.Plane

/-!
# FluxRs.Daemon.Events — one handler for each wakeup

The planner's commands and their execution, the completions of an engine transaction, and the events
the loop takes from epoll.  The presence of the switch file is whatever the handler finds when it starts.
-/

namespace FluxRs.Daemon

open FluxRs.Lib FluxRs.Net FluxRs.Kmod FluxRs.Dataplane

section Handlers

variable (e : Endian) (conv : Reactor → Option Reactor) (w : Outside)

/-! ### Commands -/

/-- An inactive publication whose failure is recorded. -/
def freeze (r : Reactor) : Reactor :=
  match publishInactive w r with
  | (.ok (), r) => r
  | (.error _, r) => recordDataplaneError r

/-- The commands of one stimulus: the kinds that exit, stop or freeze are looked for first, and one that asks for it
converges. -/
def executeCommands (kinds : List CommandKind) (stimulus : Stimulus) (r : Reactor) : Option Reactor :=
  if kinds.contains .exitProcess then some (requestShutdown w r)
  else if (stimulus == .disable || stimulus == .ssidPause) && kinds.contains .stopEngine then
    some (deactivateRuntime e w r)
  else
    let r := if kinds.contains .publishInactive then freeze w r else r
    let r :=
      if kinds.contains .stopEngine || kinds.contains .restartWithBackoff then
        cancelEngineWork { r with engineCancelRequested := true }
      else r
    if kinds.any CommandKind.needsConverge then conv r else some r

/-- `apply_stimulus`: the planner moves before its commands are executed. -/
def applyStimulus (stimulus : Stimulus) (r : Reactor) : Option Reactor :=
  let phase := r.planner.phase
  let (model, commands) := plan r.planner stimulus
  let r := { r with planner := model }
  let kinds := commands.map Command.kind
  if kinds.contains .ignoreUnexpected then some { r with planner := { r.planner with phase := phase } }
  else if kinds.isEmpty then some r
  else (executeCommands e conv w kinds stimulus r).map Reactor.refresh

/-! ### Engine transaction -/

/-- The child is dead: its role decides what follows. -/
def finishWaitingExit (child : EngineChild) (role : WaitRole) (r : Reactor) : Option Reactor :=
  let r := terminate w child { r with diagProbe := false }
  match role with
  | .candidate plan => beginCandidateFailure conv w plan .exited r
  | .recovery candidateError => finishTransactionError conv w candidateError r

/-- A child that cannot get ready is stopped for its role. -/
def failWaiting (child : EngineChild) (role : WaitRole) (error : EngineError) (r : Reactor) : Reactor :=
  beginStop child (role.failed error) r

/-- `advance_waiting`, with the transaction taken. -/
def advanceWaiting (child : EngineChild) (role : WaitRole) (r : Reactor) : Option Reactor :=
  if r.engineCancelRequested then
    some (beginStop child .cancelled (cleanupCancelledWaitRole role r))
  else if w.exited then finishWaitingExit conv w child role r
  else if w.deadlinePassed then some (failWaiting child role .notReady r)
  else match w.identity with
    | .failed => some (failWaiting child role .io r)
    | .differs => some (waitForChild child role { r with diagProbe := false })
    | .same =>
      if r.diagProbe then some (waitForChild child role r)
      else if w.probeStarts then some (waitForChild child role { r with diagProbe := true })
      else some (failWaiting child role .io r)

/-- `promote_ready_child`: the child leaves its transaction, and the activation begins. -/
def promoteReadyChild (child : EngineChild) (role : WaitRole) (r : Reactor) : Option Reactor :=
  let r := { r with diagProbe := false }
  if !w.retags then some (beginStop child (role.failed .io) r)
  else startPhase6Attachment e conv w child.params
    { r with engine := some child, activationRole := some role, engineCancelRequested := false }

/-- `complete_stopped`: the child is reaped, and what waited for its stop comes next. -/
def completeStopped (child : EngineChild) (next : StopNext) (r : Reactor) : Option Reactor :=
  let r := terminate w child r
  let removed := removeEffective child.params.generation r
  match next with
  | .startCandidate plan =>
    if r.engineCancelRequested then
      finishCancelled conv (removeEffective plan.params.generation removed)
    else startCandidate conv w plan r
  | .recover plan candidateError => beginCandidateFailure conv w plan candidateError removed
  | .finishRecoveryFailure candidateError _ => finishTransactionError conv w candidateError removed
  | .cancelled => finishCancelled conv removed

/-- What an unconfirmed stop gives up: the batch of the generation that was to follow or had failed. -/
def StopNext.discard (next : StopNext) (s : Subscription) : Subscription :=
  match next with
  | .startCandidate plan | .recover plan _ => s.discardGeneration plan.params.generation
  | .finishRecoveryFailure _ _ | .cancelled => s

/-- `stop_confirmation_failed`: the child is taken back as the promoted engine, and its generation as committed. -/
def stopConfirmationFailed (child : EngineChild) (next : StopNext) (r : Reactor) : Reactor :=
  let r := { r with
    subscription := next.discard r.subscription
    host := r.host.cleanupStopNext next
    generations := r.generations.commit child.params.generation
    engine := some child
    engineTransaction := none
    engineCancelRequested := false }
  { resumeQueuedSubscriptionWork w r with backoffArmed := true }

/-- `complete_check`, with the transaction taken. -/
def completeCheck (plan : SwitchPlan) (disposition : CheckDisposition) (error : Option EngineError)
    (r : Reactor) : Option Reactor :=
  let removed := removeEffective plan.params.generation r
  match disposition with
  | .cancelled => finishCancelled conv removed
  | .timedOut => finishTransactionError conv w .checkFailed removed
  | .supervisionFailed => finishTransactionError conv w .io removed
  | .normal =>
    match error with
    | some error => finishTransactionError conv w error removed
    | none =>
      if r.engineCancelRequested then finishCancelled conv removed
      else match r.engine with
        | none => startCandidate conv w plan r
        | some child =>
          -- the running child is stopped only under a frozen capture
          match publishInactive w { r with engine := none } with
          | (.error _, r) =>
            finishTransactionError conv w .io
              { removeEffective plan.params.generation r with engine := some child }
          | (.ok (), r) =>
            some (beginStop child (.startCandidate { plan with old := some child.params }) r)

/-- The checker has ended, or is still running. -/
def handleCheckExit (r : Reactor) : Option Reactor :=
  match r.engineTransaction with
  | some (.checking plan disposition) =>
    match w.check with
    | .finished error => completeCheck conv w plan disposition error { r with engineTransaction := none }
    | .pending => some r
    | .supervisionError =>
      some { r with engineTransaction := some (.checking plan .supervisionFailed) }
  | _ => some r

/-- The one timer of the engine: a deadline of a check, of a child that waits or of one that stops, or the backoff. -/
def handleEngineTimer (r : Reactor) : Option Reactor :=
  let taken := { r with engineTransaction := none }
  match r.engineTransaction with
  | none => some r
  | some (.checking plan disposition) =>
    let disposition := if disposition == .normal && w.deadlinePassed then .timedOut else disposition
    match w.check with
    | .finished error => completeCheck conv w plan disposition error taken
    | .pending => some { r with engineTransaction := some (.checking plan disposition) }
    | .supervisionError =>
      some { r with engineTransaction := some (.checking plan .supervisionFailed) }
  | some (.waiting child role) => advanceWaiting conv w child role taken
  | some (.stopping child next killSent) =>
    if w.exited then completeStopped conv w child next taken
    else if !w.deadlinePassed then some r
    else if !killSent then some { r with engineTransaction := some (.stopping child next true) }
    else some (stopConfirmationFailed w child next taken)

/-- The pidfd of the child in the transaction. -/
def handleTransactionPidfd (r : Reactor) : Option Reactor :=
  let taken := { r with engineTransaction := none }
  match r.engineTransaction with
  | some (.waiting child role) => advanceWaiting conv w child role taken
  | some (.stopping child next _) => completeStopped conv w child next taken
  | _ => some r

/-- `handle_sock_diag`: without a waiting child the transaction it took is dropped. -/
def handleSockDiag (r : Reactor) : Option Reactor :=
  if !r.diagProbe then some r
  else
    let taken := { r with diagProbe := false, engineTransaction := none }
    match r.engineTransaction with
    | some (.waiting child role) =>
      if r.engineCancelRequested then
        some (beginStop child .cancelled (cleanupCancelledWaitRole role taken))
      else if w.exited then finishWaitingExit conv w child role taken
      else if w.deadlinePassed then some (failWaiting child role .notReady taken)
      else match w.probe with
        | .wait => some (waitForChild child role { taken with diagProbe := true })
        | .notReady => some (waitForChild child role taken)
        | .ready => promoteReadyChild e conv w child role taken
        | .failed error => some (failWaiting child role error taken)
    | _ => some taken

/-- The publication the planner asks for when the engine exits. -/
def freezeForExit (kinds : List CommandKind) (r : Reactor) : Reactor :=
  if kinds.contains .ignoreUnexpected then r
  else if kinds.contains .publishInactive then (publishInactive w r).2
  else r

/-- The exited child is reaped, and its role decides what follows. -/
def reapEngine (r : Reactor) : Option Reactor :=
  match r.engine with
  | none => some r
  | some child =>
    let r := removeEffective child.params.generation (terminate w child { r with engine := none })
    match r.activationRole with
    | some (.candidate plan) =>
      beginCandidateFailure conv w plan .exited { r with activationRole := none }
    | some (.recovery candidateError) =>
      finishTransactionError conv w candidateError { r with activationRole := none }
    | none => some (if r.engineTransaction.isNone then { r with backoffArmed := true } else r)

/-- The pidfd of the promoted engine. -/
def handleEngineExit (r : Reactor) : Option Reactor :=
  let (model, commands) := plan r.planner .engineExited
  let r := freezeForExit w (commands.map Command.kind) { r with planner := model }
  (reapEngine conv w (cancelAttachment r)).map Reactor.refresh

/-! ### The loop -/

/-- `take_debounce_stimulus`. -/
def takeDebounceStimulus (r : Reactor) : Stimulus × Reactor :=
  if r.wifiChanged && !r.topologyChanged then
    let (paused, r) := evaluateSsid w r.currentPolicy r
    (if paused then .ssidPause else .ssidResume, r)
  else if r.topologyChanged then (.captureSideDrift, r)
  else (.debounceExpired, r)

/-- `handle_subscription_result`, up to the convergence it asks for. -/
def handleSubscriptionResult (answers : List FetchAnswer) (r : Reactor) :
    Subscription.Verdict × Reactor :=
  let result := r.subscription.handleResult r.disabled w.authority answers w.schedule w.route
  (result.1, { r with subscription := result.2 })

/-- `start_scheduled_subscription_fetch`. -/
def startScheduledSubscriptionFetch (env : FetchEnv) (r : Reactor) : Reactor :=
  { r with subscription := match (r.currentPolicy.map (·.nodes)).or (w.authority.map (·.nodes)) with
      | none => r.subscription
      | some nodes => r.subscription.startFetchWith r.disabled nodes env }

/-- `maybe_retry_subscription_on_route`. -/
def maybeRetrySubscriptionOnRoute (r : Reactor) : Reactor :=
  let epoch := r.subscription.routeRecoveryEpoch
  let observed := { r with subscription := r.subscription.observeRoute w.route }
  { r with subscription :=
      if !observed.subscription.retryOnRoute || observed.subscription.routeRecoveryEpoch == epoch then
        observed.subscription
      else (startScheduledSubscriptionFetch w w.retry
        { observed with subscription := { observed.subscription with retryOnRoute := false } }).subscription }

/-- What the loop dispatches on. -/
inductive EventKind where
  | enable (written : Bool)
  | disable (written : Bool)
  | reload
  | stop
  | sighup
  | sigterm
  | inotify (switch policy engineConfig : Bool)
  | rtnetlink
  | nl80211
  | debounce
  | backoff
  | engineExit
  | engineTimer
  | transactionPidfd
  | checkExit
  | sockDiag
  | subscription (answers : List FetchAnswer)
  | subscribe
  | subscriptionTimer
  /-- Output pipes, control connections, `status` and `check`. -/
  | other
  deriving DecidableEq

/-- One handler of the loop; none where it converges more often than answers were given for. -/
def handleKind (r : Reactor) : EventKind → Option Reactor
  | .enable written =>
    if written then applyStimulus e conv w .enable { r with disabled := false } else some r
  | .disable written =>
    if written then applyStimulus e conv w .disable { r with disabled := true } else some r
  | .reload =>
    applyStimulus e conv w .reload { r with reloadRequested := true, policyRetryAvailable := true }
  | .stop => (applyStimulus e conv w .stop r).map (requestShutdown w)
  | .sighup =>
    applyStimulus e conv w .sighup { r with reloadRequested := true, policyRetryAvailable := true }
  | .sigterm => applyStimulus e conv w .sigterm r
  | .inotify switch policy engineConfig =>
    let switched :=
      if switch then applyStimulus e conv w (if r.disabled then .disable else .enable) r else some r
    switched.map fun r => { r with
      policyChanged := r.policyChanged || policy
      engineConfigChanged := r.engineConfigChanged || engineConfig
      policyRetryAvailable := r.policyRetryAvailable || policy }
  | .rtnetlink => some { r with topologyChanged := true }
  | .nl80211 => some (if r.disabled then r else { r with wifiChanged := true })
  | .debounce =>
    let topologyChanged := r.topologyChanged
    let (stimulus, r) := takeDebounceStimulus w r
    (applyStimulus e conv w stimulus r).map fun r =>
      if topologyChanged then maybeRetrySubscriptionOnRoute w r else r
  | .backoff =>
    let r := { r with backoffArmed := false }
    if r.shutdownRequested || r.disabled then
      some (cancelEngineWork { r with engineCancelRequested := true })
    else applyStimulus e conv w .backoffExpired r
  | .engineExit => handleEngineExit conv w r
  | .engineTimer => handleEngineTimer conv w r
  | .transactionPidfd => handleTransactionPidfd conv w r
  | .checkExit => handleCheckExit conv w r
  | .sockDiag => handleSockDiag e conv w r
  | .subscription answers =>
    match handleSubscriptionResult w answers r with
    | (.discarded, r) => some r
    | (.empty, r) => some (resumeQueuedSubscriptionWork w r)
    | (.accepted, r) =>
      conv { r with policyChanged := true, policyRetryAvailable := true, engineConfigChanged := true }
  | .subscribe => some (startSubscriptionFetch w w.schedule r)
  | .subscriptionTimer => some (startScheduledSubscriptionFetch w w.schedule r)
  | .other => some r

end Handlers

/-- One event with all that its handler meets outside. -/
structure Event where
  /-- The switch file is present, or cannot be read, when the handler starts. -/
  disabled : Bool
  kind : EventKind
  /-- Effective files that the handler cannot remove. -/
  stuck : List ℕ := []
  /-- The source cache that an earlier daemon left, for the first event. -/
  cache : List (RemoteSource × Raw) := []
  outside : Outside := {}
  /-- What the convergences of the handler meet, in order. -/
  nested : List Outside := []

/-- The reactor as the handler finds it. -/
def Event.enter (ev : Event) (r : Reactor) : Reactor :=
  { r with disabled := ev.disabled, host := { r.host with stuck := ev.stuck } }

section Run

variable (e : Endian) (srt : Sorter) (fakeipOk : PolicyCandidate → UserConfig → Bool)

/-- One turn of the loop, with the convergences that it leads to. -/
def handle (r : Reactor) (ev : Event) : Option Reactor :=
  handleKind e (converge e srt fakeipOk ev.nested) ev.outside (ev.enter r) ev.kind

/-- The prologue of `run`: the first phase, then the switch or the cold start. -/
def start (dataplane : Plane) (badPageSize : Bool) (ev : Event) : Option Reactor :=
  let r := { Reactor.new dataplane badPageSize with
    disabled := ev.disabled
    subscription := .new ev.cache
    host := { Host.new with stuck := ev.stuck } }.refresh
  if r.disabled then some (deactivateRuntime e ev.outside r).refresh
  else applyStimulus e (converge e srt fakeipOk ev.nested) ev.outside .bootstrap r

end Run

/-! ### The first activation -/

/-- One selected app and no `[ssid]` entry. -/
def startPolicy : PolicyCandidate := { desired := selectPolicy [10123], ssidListed := false }

/-- The start of a daemon that finds a policy and an engine configuration. -/
def startEvent : Event where
  disabled := false
  kind := .other
  nested := [{ policy := some startPolicy, user := some "" }]

/-- A started check succeeds and its candidate comes up. -/
def readyEvents : List Event :=
  [{ disabled := false, kind := .checkExit, outside := { check := .finished none } },
    { disabled := false, kind := .engineTimer },
    { disabled := false, kind := .sockDiag, outside := { probe := .ready } }]

/-- A daemon that starts with the switch file absent and the module not loaded. -/
def coldRun (evs : List Event) : Option Reactor :=
  (start .little insertionSorter (fun _ _ => true) (.open false (.init false)) false startEvent).bind
    fun r => runOption (handle .little insertionSorter fun _ _ => true) r evs

/-- Every step of such a run meets `C`, and its end satisfies `q`. -/
def coldMeets (C : Reactor → Event → Prop) [∀ r ev, Decidable (C r ev)] (evs : List Event)
    (q : Reactor → Bool) : Bool :=
  (start .little insertionSorter (fun _ _ => true) (.open false (.init false)) false startEvent).any
    fun r₀ => decide (AllStepsOption (handle .little insertionSorter fun _ _ => true) C r₀ evs) &&
      (runOption (handle .little insertionSorter fun _ _ => true) r₀ evs).any q

theorem exists_of_coldMeets {C : Reactor → Event → Prop} [∀ r ev, Decidable (C r ev)]
    {evs : List Event} {q : Reactor → Bool} (h : coldMeets C evs q = true) :
    ∃ r₀ r, start .little insertionSorter (fun _ _ => true) (.open false (.init false)) false startEvent
        = some r₀ ∧
      AllStepsOption (handle .little insertionSorter fun _ _ => true) C r₀ evs ∧
      runOption (handle .little insertionSorter fun _ _ => true) r₀ evs = some r ∧
      coldRun evs = some r ∧ q r = true := by
  obtain ⟨r₀, hstart, h₀⟩ := (Option.any_eq_true _ _).mp h
  obtain ⟨hsteps, hend⟩ := Bool.and_eq_true_iff.mp h₀
  obtain ⟨r, hr, hq⟩ := (Option.any_eq_true _ _).mp hend
  refine ⟨r₀, r, hstart, of_decide_eq_true hsteps, hr, ?_, hq⟩
  rw [coldRun, hstart]
  exact hr

/-- Events, with the evaluation of the run that they drive. -/
structure ColdRun (C : Reactor → Event → Prop) [∀ r ev, Decidable (C r ev)] (q : Reactor → Bool) where
  evs : List Event
  meets : coldMeets C evs q = true

end FluxRs.Daemon
