import Mathlib.Data.List.Basic

/-!
# FluxRs.Daemon.Planner — the lifecycle table

`crates/flux-core/src/runtime.rs`: phases, stimuli, the commands the table answers with, and the
reconstruction of the phase from what the daemon can observe.
-/

namespace FluxRs.Daemon

/-- The phase that the planner believes the daemon to be in. -/
inductive Phase where
  | disabled
  | stopping
  | paused
  | inactive
  | activating
  | active
  deriving DecidableEq, Repr

/-- What the planner reacts to. -/
inductive Stimulus where
  | bootstrap
  | enable
  | disable
  | reload
  | stop
  | status
  | check
  | newInterface
  | interfaceGone (lastActiveIface : Bool)
  | addressChange
  | captureSideDrift
  | coreDrift
  | netlinkOverrun
  | fluxTomlChanged
  | templateOrListChanged
  | packagesChanged
  | ssidPause
  | ssidResume
  | engineExited
  | currentGenerationFault
  | staleOrDuplicateFault
  | debounceExpired
  | backoffExpired
  | readinessBackoff
  | sighup
  | sigterm
  | activationCommitted
  | activationFailed
  | engineStopped
  deriving DecidableEq, Repr

/-- What the planner asks for. -/
inductive CommandKind where
  | ignoreUnexpected
  | attemptActivation
  | stopEngine
  | publishInactive
  | exitProcess
  | revalidateOnly
  | policyTransaction
  | engineCandidateSwitch
  | reevaluateAdmission
  | admitAndAttach
  | excludeInterface
  | updateSelfAddresses
  | reattachCaptureLocally
  | fullRedump
  | regenerateThenSwitch
  | reparseThenPolicy
  | restartWithBackoff
  | clearLatchOnly
  | runPendingConvergence
  | retryActivation
  | recheckSockDiag
  deriving DecidableEq, Repr

/-- A command with its number. -/
structure Command where
  id : ℕ
  kind : CommandKind
  deriving DecidableEq, Repr

/-- Planner memory: the phase last observed or advanced, and the next command id. -/
structure Model where
  phase : Phase
  nextId : ℕ
  deriving DecidableEq, Repr

/-- A planner that has given no command. -/
def Model.new (phase : Phase) : Model := ⟨phase, 1⟩

/-- One entry of the table: the next phase and its commands. -/
structure Step where
  phase : Phase
  commands : List CommandKind
  deriving DecidableEq, Repr

/-- Nothing is asked for. -/
def stay (phase : Phase) : Step := ⟨phase, []⟩

/-- `with`. -/
def withCommands (phase : Phase) (commands : List CommandKind) : Step := ⟨phase, commands⟩

/-- The stimulus does not belong to the phase. -/
def unexpected (phase : Phase) : Step := ⟨phase, [.ignoreUnexpected]⟩

/-- The §26 table.  Combinations it does not have are logged and ignored. -/
def step : Phase → Stimulus → Step
  | p, .status | p, .check => stay p
  | .disabled, .bootstrap => stay .disabled
  | .stopping, .bootstrap => stay .stopping
  | .inactive, .bootstrap => withCommands .inactive [.attemptActivation]
  | .paused, .bootstrap => withCommands .paused [.attemptActivation]
  | p, .bootstrap => unexpected p
  | .disabled, .enable => withCommands .inactive [.attemptActivation]
  | p, .enable => stay p
  | .disabled, .disable => stay .disabled
  | .stopping, .disable => stay .stopping
  | .active, .disable => withCommands .stopping [.publishInactive, .stopEngine]
  | _, .disable => withCommands .stopping [.stopEngine]
  | .disabled, .reload | .disabled, .sighup => withCommands .disabled [.revalidateOnly]
  | .stopping, .reload | .stopping, .sighup => withCommands .stopping [.revalidateOnly]
  | .inactive, .reload | .inactive, .sighup => withCommands .inactive [.attemptActivation]
  | .paused, .reload | .paused, .sighup => withCommands .paused [.attemptActivation]
  | .activating, .reload | .activating, .sighup => stay .activating
  | .active, .reload | .active, .sighup =>
    withCommands .active [.policyTransaction, .engineCandidateSwitch]
  | .disabled, .stop | .disabled, .sigterm => withCommands .disabled [.exitProcess]
  | .stopping, .stop | .stopping, .sigterm => withCommands .stopping [.exitProcess]
  | _, .stop | _, .sigterm => withCommands .stopping [.publishInactive, .stopEngine, .exitProcess]
  | .disabled, .newInterface => stay .disabled
  | .stopping, .newInterface => stay .stopping
  | .activating, .newInterface => stay .activating
  | .active, .newInterface => withCommands .active [.admitAndAttach]
  | p, .newInterface => withCommands p [.reevaluateAdmission]
  | .disabled, .interfaceGone _ => stay .disabled
  | .stopping, .interfaceGone _ => stay .stopping
  | .activating, .interfaceGone _ => stay .activating
  | .active, .interfaceGone true => withCommands .inactive [.publishInactive, .excludeInterface]
  | .active, .interfaceGone false => withCommands .active [.excludeInterface]
  | p, .interfaceGone _ => withCommands p [.reevaluateAdmission]
  | .disabled, .addressChange => stay .disabled
  | .stopping, .addressChange => stay .stopping
  | p, .addressChange => withCommands p [.updateSelfAddresses]
  | .disabled, .captureSideDrift => stay .disabled
  | .stopping, .captureSideDrift => stay .stopping
  | .active, .captureSideDrift => withCommands .active [.reattachCaptureLocally]
  | p, .captureSideDrift => withCommands p [.runPendingConvergence]
  | .disabled, .coreDrift => stay .disabled
  | .stopping, .coreDrift => stay .stopping
  | .active, .coreDrift => withCommands .activating [.publishInactive, .runPendingConvergence]
  | p, .coreDrift => withCommands p [.runPendingConvergence]
  | .disabled, .netlinkOverrun => stay .disabled
  | .stopping, .netlinkOverrun => stay .stopping
  | p, .netlinkOverrun => withCommands p [.fullRedump]
  | .disabled, .fluxTomlChanged => withCommands .disabled [.revalidateOnly]
  | .stopping, .fluxTomlChanged => withCommands .stopping [.revalidateOnly]
  | .activating, .fluxTomlChanged => stay .activating
  | .active, .fluxTomlChanged => withCommands .active [.policyTransaction]
  | p, .fluxTomlChanged => withCommands p [.attemptActivation]
  | .disabled, .templateOrListChanged => withCommands .disabled [.revalidateOnly]
  | .stopping, .templateOrListChanged => withCommands .stopping [.revalidateOnly]
  | .activating, .templateOrListChanged => stay .activating
  | .active, .templateOrListChanged => withCommands .active [.regenerateThenSwitch]
  | p, .templateOrListChanged => withCommands p [.attemptActivation]
  | .disabled, .packagesChanged => stay .disabled
  | .stopping, .packagesChanged => stay .stopping
  | .activating, .packagesChanged => stay .activating
  | p, .packagesChanged => withCommands p [.reparseThenPolicy]
  | .disabled, .ssidPause => stay .disabled
  | .stopping, .ssidPause => stay .stopping
  | .inactive, .ssidPause | .paused, .ssidPause => stay .paused
  | _, .ssidPause => withCommands .paused [.publishInactive, .stopEngine]
  | .paused, .ssidResume => withCommands .inactive [.attemptActivation]
  | p, .ssidResume => stay p
  | .disabled, .engineExited => unexpected .disabled
  | .stopping, .engineExited => stay .disabled
  | .inactive, .engineExited => withCommands .inactive [.restartWithBackoff]
  | .paused, .engineExited => withCommands .paused [.restartWithBackoff]
  | _, .engineExited => withCommands .inactive [.publishInactive, .restartWithBackoff]
  | .disabled, .currentGenerationFault => unexpected .disabled
  | .activating, .currentGenerationFault | .active, .currentGenerationFault =>
    withCommands .inactive [.publishInactive, .restartWithBackoff]
  | p, .currentGenerationFault => withCommands p [.clearLatchOnly]
  | p, .staleOrDuplicateFault => withCommands p [.clearLatchOnly]
  | .disabled, .debounceExpired => stay .disabled
  | .stopping, .debounceExpired => stay .stopping
  | p, .debounceExpired => withCommands p [.runPendingConvergence]
  | .disabled, .backoffExpired => stay .disabled
  | .stopping, .backoffExpired => stay .stopping
  | p, .backoffExpired => withCommands p [.retryActivation]
  | .disabled, .readinessBackoff => stay .disabled
  | .stopping, .readinessBackoff => stay .stopping
  | p, .readinessBackoff => withCommands p [.recheckSockDiag]
  | .activating, .activationCommitted => stay .active
  | .activating, .activationFailed => withCommands .inactive [.publishInactive]
  | p, .activationCommitted | p, .activationFailed => unexpected p
  | .stopping, .engineStopped => stay .disabled
  | p, .engineStopped => unexpected p

/-- Number the commands from `id` on. -/
def number (id : ℕ) : List CommandKind → List Command
  | [] => []
  | kind :: rest => ⟨id, kind⟩ :: number (id + 1) rest

/-- The table is applied, and its commands get their numbers. -/
def plan (model : Model) (stimulus : Stimulus) : Model × List Command :=
  let stepped := step model.phase stimulus
  (⟨stepped.phase, model.nextId + stepped.commands.length⟩, number model.nextId stepped.commands)

/-- The command is carried out by a convergence. -/
def CommandKind.needsConverge : CommandKind → Bool
  | .attemptActivation | .policyTransaction | .engineCandidateSwitch | .reevaluateAdmission
  | .admitAndAttach | .excludeInterface | .updateSelfAddresses | .reattachCaptureLocally
  | .fullRedump | .regenerateThenSwitch | .reparseThenPolicy | .runPendingConvergence
  | .retryActivation => true
  | _ => false

/-- What the phase is read from. -/
structure Observation where
  disablePresent : Bool
  shutdown : Bool
  ssidPaused : Bool
  enginePresent : Bool
  dataplaneActive : Bool
  awaitingCommit : Bool
  convergenceBusy : Bool
  deriving DecidableEq, Repr

/-- The phase that the observation stands for. -/
def Phase.observe (o : Observation) : Phase :=
  if o.disablePresent || o.shutdown then
    if o.enginePresent || o.convergenceBusy then .stopping else .disabled
  else if o.ssidPaused then .paused
  else if o.dataplaneActive && o.enginePresent && !o.awaitingCommit then .active
  else if o.enginePresent || o.awaitingCommit || o.convergenceBusy then .activating
  else .inactive

@[simp] theorem number_kinds (id : ℕ) (kinds : List CommandKind) :
    (number id kinds).map Command.kind = kinds := by
  induction kinds generalizing id with
  | nil => rfl
  | cons kind rest ih => simp [number, ih]

theorem plan_kinds (model : Model) (stimulus : Stimulus) :
    (plan model stimulus).2.map Command.kind = (step model.phase stimulus).commands :=
  number_kinds _ _

end FluxRs.Daemon
