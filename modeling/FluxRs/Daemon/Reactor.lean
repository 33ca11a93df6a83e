import FluxRs.Daemon.Planner
import FluxRs.Daemon.Subscription
import FluxRs.Dataplane.Manager

/-!
# FluxRs.Daemon.Reactor — the event handlers of the daemon

`crates/fluxd/src/reactor.rs` over the manager of `FluxRs.Dataplane`: the engine transaction, the
activation of a generation, convergence, and one handler for each wakeup.  What a handler meets outside
the process is an argument of it.  Error texts, log lines, control replies and timer lengths are left
out.  What the handlers leave outside the process is part of the state: the data plane, and in `Host` the
effective files and the engine processes.

`converge` and the completions of a transaction call each other.  Each takes the convergence it may
call as the argument `conv`, and `converge` closes the knot over the list of what its nested calls meet.
-/

namespace FluxRs.Daemon

open FluxRs.Lib FluxRs.Net FluxRs.Kmod FluxRs.Dataplane
open Std (ExtTreeMap ExtTreeSet)

/-! ### Engine domain -/

/-- The serialized generated configuration, which is what engine rotation compares. -/
abbrev UserConfig := String

/-- What an engine process is started with. -/
structure EngineParams where
  generation : ℕ
  portV4 : U16
  portV6 : U16
  deriving DecidableEq

/-- A supervised child; its effective file is named by its generation. -/
structure EngineChild where
  params : EngineParams
  deriving DecidableEq

/-- Why an engine could not be brought up; the texts are left out. -/
inductive EngineError where
  | binaryMissing
  | configInvalid
  | writeEffective
  | checkFailed
  | spawnFailed
  | exited
  | notReady
  | socketOwnerMismatch
  | io
  deriving DecidableEq, Repr

/-- `is_retryable`. -/
def EngineError.isRetryable : EngineError → Bool
  | .binaryMissing | .configInvalid | .checkFailed => false
  | _ => true

/-- A candidate with its user configuration, and the child that it replaces. -/
structure SwitchPlan where
  params : EngineParams
  user : UserConfig
  old : Option EngineParams
  deriving DecidableEq

/-- What is known of a check before its process is gone. -/
inductive CheckDisposition where
  | normal
  | timedOut
  | supervisionFailed
  | cancelled
  deriving DecidableEq, Repr

/-- What a child that waits for its readiness is for. -/
inductive WaitRole where
  | candidate (plan : SwitchPlan)
  | recovery (candidateError : EngineError)
  deriving DecidableEq

/-- What follows the stop of a child. -/
inductive StopNext where
  | startCandidate (plan : SwitchPlan)
  | recover (plan : SwitchPlan) (candidateError : EngineError)
  | finishRecoveryFailure (candidateError recoveryError : EngineError)
  | cancelled
  deriving DecidableEq

/-- What follows the stop of a child that failed in its role. -/
def WaitRole.failed : WaitRole → EngineError → StopNext
  | .candidate plan, err => .recover plan err
  | .recovery candidateError, err => .finishRecoveryFailure candidateError err

/-- The engine transaction in flight. -/
inductive EngineTransaction where
  | checking (plan : SwitchPlan) (disposition : CheckDisposition)
  | waiting (child : EngineChild) (role : WaitRole)
  | stopping (child : EngineChild) (next : StopNext) (killSent : Bool)
  deriving DecidableEq

/-- The counter of generations, and the one that is committed. -/
structure Generations where
  next : ℕ
  committed : ℕ
  deriving DecidableEq

/-- The first generation is 1; 0 stands for none. -/
def Generations.new : Generations := ⟨1, 0⟩

/-- The next number is taken, and never given again. -/
def Generations.allocate (g : Generations) : ℕ × Generations := (g.next, ⟨g.next + 1, g.committed⟩)

/-- The generation whose activation has been completed. -/
def Generations.commit (g : Generations) (id : ℕ) : Generations := ⟨g.next, id⟩

/-- A ringbuf fault is current only when it names the committed generation and the live child still
carries that same id. -/
def Generations.faultIsCurrent (g : Generations) (eventGeneration : ℕ) (childGeneration : Option ℕ) :
    Bool :=
  g.committed != 0 && eventGeneration == g.committed && childGeneration == some g.committed

/-! ### Files and processes -/

/-- The effective files `run/sing-box.<generation>.json` and the engine processes of this instance.
`built`, `spawns` and `published` only grow, and no function reads them. -/
structure Host where
  /-- The generations whose effective file is on disk. -/
  effective : List ℕ
  /-- Files that `remove_file` cannot remove for now. -/
  stuck : List ℕ
  /-- Every effective file that was written, with the configuration it was built from. -/
  built : List (ℕ × UserConfig)
  /-- Engine processes that were started and not reaped. -/
  processes : List EngineParams
  /-- For each engine that was started, the processes that it found. -/
  spawns : List (List EngineParams)
  /-- Generations of children under which `publish_active` succeeded. -/
  published : List ℕ
  deriving DecidableEq

/-- Nothing has been written or started. -/
def Host.new : Host := ⟨[], [], [], [], [], []⟩

namespace Host

variable (h : Host)

/-- The effective file of a generation is written. -/
def write (generation : ℕ) (user : UserConfig) : Host :=
  { h with effective := generation :: h.effective, built := (generation, user) :: h.built }

/-- The effective file of a generation goes, if it can. -/
def remove (generation : ℕ) : Host :=
  if h.stuck.contains generation then h
  else { h with effective := h.effective.filter fun g => g != generation }

/-- The file of the generation that a switch replaces. -/
def removeOld (plan : SwitchPlan) : Host :=
  match plan.old with
  | some old => h.remove old.generation
  | none => h

/-- `cleanup_cancelled_wait_role`. -/
def cleanupWaitRole (role : WaitRole) : Host :=
  match role with
  | .candidate plan => h.removeOld plan
  | .recovery _ => h

/-- `cleanup_cancelled_stop_next`. -/
def cleanupStopNext (next : StopNext) : Host :=
  match next with
  | .startCandidate plan => h.remove plan.params.generation
  | .recover plan _ => h.removeOld plan
  | .finishRecoveryFailure _ _ | .cancelled => h

/-- A process is started, beside those that the log then names. -/
def spawn (params : EngineParams) : Host :=
  { h with processes := params :: h.processes, spawns := h.processes :: h.spawns }

/-- A process is gone. -/
def reap (params : EngineParams) : Host := { h with processes := h.processes.erase params }

/-- A generation has been committed. -/
def publish (generation : ℕ) : Host := { h with published := generation :: h.published }

/-- The configuration that the effective file of a generation was built from. -/
def userOf (generation : ℕ) : Option UserConfig := h.built.lookup generation

end Host

/-! ### The state -/

/-- The policy as it is read from its files. -/
structure PolicyCandidate where
  desired : DesiredPolicy
  /-- `[ssid]` lists an entry. -/
  ssidListed : Bool
  nodes : NodeConfig := ⟨[], 0⟩
  deriving DecidableEq

/-- **The state of the loop**, as far as its handlers decide by it. -/
structure Reactor where
  /-- `layout.disabled()`: the switch file is present or unreadable. -/
  disabled : Bool
  dataplane : Plane
  engine : Option EngineChild
  engineTransaction : Option EngineTransaction
  activationRole : Option WaitRole
  diagProbe : Bool
  engineCancelRequested : Bool
  shutdownRequested : Bool
  generations : Generations
  backoffArmed : Bool
  reloadRequested : Bool
  policyChanged : Bool
  engineConfigChanged : Bool
  topologyChanged : Bool
  wifiChanged : Bool
  currentPolicy : Option PolicyCandidate
  currentEngineUser : Option UserConfig
  ssidPaused : Bool
  policyRetryAvailable : Bool
  badPageSize : Bool
  planner : Model
  subscription : Subscription
  host : Host

/-- `Reactor::new` over whatever module an earlier daemon left. -/
def Reactor.new (dataplane : Plane) (badPageSize : Bool) : Reactor where
  disabled := false
  dataplane := dataplane
  engine := none
  engineTransaction := none
  activationRole := none
  diagProbe := false
  engineCancelRequested := false
  shutdownRequested := false
  generations := .new
  backoffArmed := false
  reloadRequested := false
  policyChanged := false
  engineConfigChanged := false
  topologyChanged := false
  wifiChanged := false
  currentPolicy := none
  currentEngineUser := none
  ssidPaused := false
  policyRetryAvailable := true
  badPageSize := badPageSize
  planner := .new .inactive
  subscription := .new []
  host := .new

namespace Reactor

/-- The hook captures. -/
def active (r : Reactor) : Bool := r.dataplane.mgr.status.active

/-- An engine transaction or an activation is in flight. -/
def convergenceBusy (r : Reactor) : Bool := r.engineTransaction.isSome || r.activationRole.isSome

/-- What the planner is told of the state. -/
def observation (r : Reactor) : Observation where
  disablePresent := r.disabled
  shutdown := r.shutdownRequested
  ssidPaused := r.ssidPaused
  enginePresent := r.engine.isSome
  dataplaneActive := r.active
  awaitingCommit := r.activationRole.isSome
  convergenceBusy := r.convergenceBusy

/-- The phase that belongs to the state. -/
def phase (r : Reactor) : Phase :=
  let o := r.observation
  .observe (if o.shutdown then { o with disablePresent := true } else o)

/-- `self.planner.phase = self.phase()`. -/
def refresh (r : Reactor) : Reactor := { r with planner := { r.planner with phase := r.phase } }

end Reactor

/-! ### What a handler meets outside the process -/

/-- What is found out about the network in use. -/
inductive SsidAnswer where
  | unreadable
  | verdict (paused followUp : Bool)
  deriving DecidableEq

/-- How `start_generation_check` ends. -/
inductive CheckStart where
  | failed (error : EngineError)
  | started (watched : Bool)
  deriving DecidableEq

/-- `check.finish()`. -/
inductive CheckAnswer where
  | pending
  | finished (error : Option EngineError)
  | supervisionError
  deriving DecidableEq

/-- `verify_process_identity`. -/
inductive IdentityAnswer where
  | failed
  | differs
  | same
  deriving DecidableEq

/-- A readable probe, with the inodes already compared. -/
inductive ProbeAnswer where
  | wait
  | notReady
  | ready
  | failed (error : EngineError)
  deriving DecidableEq

/-- `engine::spawn` and the registration of its child. -/
inductive SpawnAnswer where
  | failed (error : EngineError)
  | unregistered
  | running
  deriving DecidableEq

/-- **What one handler meets outside**: every answer that it may ask for. -/
structure Outside where
  /-- What `CLEAR_UIDS` answers instead of success. -/
  publishFault : Option Errno := none
  /-- The convergence that disables. -/
  down : ConvergeEnv := {}
  up : ConvergeEnv := {}
  apply : ApplyEnv := {}
  prepareFault : Option Errno := none
  layoutOk : Bool := true
  /-- `read_policy_config` and `read_engine_config`, where they are called. -/
  policy : Option PolicyCandidate := none
  user : Option UserConfig := none
  ssid : SsidAnswer := .unreadable
  /-- `flux_config_from_authority`, where a subscription path reads it. -/
  authority : Option Authority := none
  /-- Attempts to start a fetch: for the schedule, for a configured policy, for queued work, and for a
  route that came back. -/
  schedule : FetchEnv := {}
  configure : FetchEnv := {}
  resume : FetchEnv := {}
  retry : FetchEnv := {}
  /-- The route as a failed fetch, or a topology change, finds it. -/
  route : Option Bool := none
  commit : CommitEnv := {}
  start : CheckStart := .started true
  ports : U16 × U16 := (61000, 61000)
  check : CheckAnswer := .pending
  deadlinePassed : Bool := false
  exited : Bool := false
  identity : IdentityAnswer := .same
  probeStarts : Bool := true
  probe : ProbeAnswer := .wait
  retags : Bool := true
  spawn : SpawnAnswer := .running
  recoverySpawn : SpawnAnswer := .running
  /-- A child that has not exited when it is reaped dies within its `SIGKILL` window. -/
  terminates : Bool := true

section Handlers

variable (e : Endian) (srt : Sorter) (fakeipOk : PolicyCandidate → UserConfig → Bool)
variable (conv : Reactor → Option Reactor) (w : Outside)

/-! ### Stopping and freezing -/

/-- The attachment of the dataplane is given up. -/
def cancelAttachment (r : Reactor) : Reactor :=
  { r with dataplane := Dataplane.cancelAttachment r.dataplane }

/-- `record_dataplane_error`, less the texts. -/
def recordDataplaneError (r : Reactor) : Reactor := cancelAttachment r

/-- The hook is told to let all packets pass. -/
def publishInactive (r : Reactor) : Except DataplaneError Unit × Reactor :=
  let (result, p) := Dataplane.publishInactive w.publishFault r.dataplane
  (result, { r with dataplane := p })

/-- `remove_file` of an effective file; a failure is ignored. -/
def removeEffective (generation : ℕ) (r : Reactor) : Reactor :=
  { r with host := r.host.remove generation }

/-- `terminate` with no grace: a child that has exited is reaped, another is killed first, and one that
survives that is given up. -/
def terminate (child : EngineChild) (r : Reactor) : Reactor :=
  { r with host := if w.exited || w.terminates then r.host.reap child.params else r.host }

/-- A child is asked to stop, and put where its exit is awaited. -/
def beginStop (child : EngineChild) (next : StopNext) (r : Reactor) : Reactor :=
  { r with diagProbe := false, engineTransaction := some (.stopping child next false) }

/-- A child is put where its readiness is awaited. -/
def waitForChild (child : EngineChild) (role : WaitRole) (r : Reactor) : Reactor :=
  { r with engineTransaction := some (.waiting child role) }

/-- The file that the role has kept for a failure goes. -/
def cleanupCancelledWaitRole (role : WaitRole) (r : Reactor) : Reactor :=
  { r with host := r.host.cleanupWaitRole role }

/-- The file of what was to follow the stop goes. -/
def cleanupCancelledStopNext (next : StopNext) (r : Reactor) : Reactor :=
  { r with host := r.host.cleanupStopNext next }

/-- Whatever is in flight is turned into a stop that is followed by nothing. -/
def cancelEngineWork (r : Reactor) : Reactor :=
  let r := { r with diagProbe := false }
  match r.engineTransaction with
  | none =>
    let r := { r with
      host := r.activationRole.elim r.host r.host.cleanupWaitRole
      activationRole := none }
    match r.engine with
    | some child => beginStop child .cancelled { r with engine := none }
    | none => { r with engineCancelRequested := false }
  | some (.checking plan _) => { r with engineTransaction := some (.checking plan .cancelled) }
  | some (.waiting child role) => beginStop child .cancelled (cleanupCancelledWaitRole role r)
  | some (.stopping child next _) => beginStop child .cancelled (cleanupCancelledStopNext next r)

/-- The switch is off: the dataplane goes down, and the engine work with it. -/
def deactivateRuntime (r : Reactor) : Reactor :=
  let r := cancelAttachment r
  let r := { r with dataplane := Dataplane.converge e w.down false r.dataplane }
  let r := cancelEngineWork { r with engineCancelRequested := true }
  { r with
    reloadRequested := true
    policyChanged := true
    engineConfigChanged := true
    topologyChanged := false
    backoffArmed := false }

/-- The daemon is to end: the hook lets all packets pass, and the engine work is cancelled. -/
def requestShutdown (r : Reactor) : Reactor :=
  if r.shutdownRequested then r
  else
    let r := (publishInactive w { r with shutdownRequested := true }).2
    cancelEngineWork { cancelAttachment r with engineCancelRequested := true }

/-! ### Ends of a transaction -/

/-- `configure_subscription`. -/
def configureSubscription (env : FetchEnv) (sourcesChanged : Bool) (r : Reactor) : Reactor :=
  { r with subscription := match r.currentPolicy with
      | none => r.subscription
      | some policy => r.subscription.configure r.disabled policy.nodes sourcesChanged env }

/-- `start_subscription_fetch`. -/
def startSubscriptionFetch (env : FetchEnv) (r : Reactor) : Reactor :=
  { r with subscription := match w.authority with
      | none => r.subscription
      | some config => r.subscription.startFetchWith r.disabled config.nodes env }

/-- Work that waited for the end of a transaction is taken up. -/
def resumeQueuedSubscriptionWork (r : Reactor) : Reactor :=
  if r.convergenceBusy then r
  else if r.subscription.reconfigureQueued then
    configureSubscription w.resume true { r with
      engineConfigChanged := true
      subscription := { r.subscription with reconfigureQueued := false, fetchQueued := false } }
  else if r.subscription.fetchQueued then
    startSubscriptionFetch w w.resume { r with subscription := { r.subscription with fetchQueued := false } }
  else r

/-- A change waits for a convergence. -/
def queued (r : Reactor) : Bool :=
  r.reloadRequested || r.policyChanged || r.engineConfigChanged || r.topologyChanged

/-- A change that waits is handled, unless the daemon is off or ends. -/
def runQueuedConvergence (r : Reactor) : Option Reactor :=
  if !r.shutdownRequested && !r.disabled && queued r then conv r else some r

/-- A transaction has failed for good: its batch goes, and the backoff may begin. -/
def finishTransactionError (error : EngineError) (r : Reactor) : Option Reactor :=
  let r := { r with subscription := r.subscription.dropTagged, engineTransaction := none }
  let r :=
    if r.engine.isNone && !r.disabled && !r.shutdownRequested && error.isRetryable then
      { r with backoffArmed := true }
    else r
  runQueuedConvergence conv (resumeQueuedSubscriptionWork w r)

/-- A cancelled transaction ends when the promoted engine has been stopped too. -/
def finishCancelled (r : Reactor) : Option Reactor :=
  let r := { r with diagProbe := false, engineTransaction := none }
  match r.engine with
  | some child => some (beginStop child .cancelled { r with engine := none })
  | none =>
    let r := { r with engineCancelRequested := false }
    if r.disabled then some r
    else if !r.shutdownRequested then conv r
    else some r

/-- `engine::spawn`, once it has succeeded. -/
def spawnEngine (params : EngineParams) (r : Reactor) : Reactor :=
  { r with host := r.host.spawn params }

/-- What the failure of a candidate undoes first: its batch and its file. -/
def dropCandidate (plan : SwitchPlan) (r : Reactor) : Reactor :=
  { r with
    subscription := r.subscription.discardGeneration plan.params.generation
    host := r.host.remove plan.params.generation }

/-- A candidate has failed: what it replaced is started again. -/
def beginCandidateFailure (plan : SwitchPlan) (error : EngineError) (r : Reactor) : Option Reactor :=
  let r := dropCandidate plan r
  if r.engineCancelRequested then finishCancelled conv { r with host := r.host.removeOld plan }
  else match plan.old with
    | none => finishTransactionError conv w error r
    | some old =>
      match w.recoverySpawn with
      | .failed _ => finishTransactionError conv w error r
      | .running => some (waitForChild ⟨old⟩ (.recovery error) (spawnEngine old r))
      | .unregistered =>
        some (beginStop ⟨old⟩ (.finishRecoveryFailure error .io) (spawnEngine old r))

/-- A checked candidate is started where nothing runs. -/
def startCandidate (plan : SwitchPlan) (r : Reactor) : Option Reactor :=
  match w.spawn with
  | .failed error => beginCandidateFailure conv w plan error r
  | .running =>
    some (waitForChild ⟨plan.params⟩ (.candidate plan) (spawnEngine plan.params r))
  | .unregistered => some (beginStop ⟨plan.params⟩ (.recover plan .io) (spawnEngine plan.params r))

/-! ### Activation of a generation -/

/-- An activation has failed: its child is stopped for its role. -/
def failPhase6Activation (r : Reactor) : Option Reactor :=
  let r := recordDataplaneError r
  match r.activationRole with
  | none => some (publishInactive w r).2
  | some role =>
    let r := { r with activationRole := none }
    match r.engine with
    | none => finishTransactionError conv w .io r
    | some child => some (beginStop child (role.failed .io) { r with engine := none })

/-- A committed candidate has no use for the file it replaces. -/
def commitHost (role : Option WaitRole) (h : Host) : Host :=
  match role with
  | some (.candidate plan) => h.removeOld plan
  | _ => h

/-- The commit point: `publish_active`, then the bookkeeping of the committed child. -/
def commitActivation (r : Reactor) : Option Reactor :=
  match publishActive r.dataplane with
  | (.error _, p) => failPhase6Activation conv w { r with dataplane := p }
  | (.ok (), p) =>
    let r := { r with dataplane := p }
    match r.engine with
    | none => failPhase6Activation conv w r
    | some child =>
      let r := { r with
        generations := r.generations.commit child.params.generation
        host := commitHost r.activationRole (r.host.publish child.params.generation)
        currentEngineUser := match r.activationRole with
          | some (.candidate plan) => some plan.user
          | _ => r.currentEngineUser
        activationRole := none
        engineCancelRequested := false }
      runQueuedConvergence conv (resumeQueuedSubscriptionWork w r)

/-- `commit_pending_subscription`: the accepted responses go to the cache. -/
def commitPendingSubscription (generation : Option ℕ) (r : Reactor) : Bool × Reactor :=
  let result := r.subscription.commitPending (r.currentPolicy.map (·.nodes)) generation w.commit
  (result.1, { r with subscription := result.2 })

/-- The hook captures: the cache is written, and the generation committed. -/
def finishPhase6Activation (r : Reactor) : Option Reactor :=
  match r.activationRole with
  | some (.candidate plan) =>
    let (ok, r) := commitPendingSubscription w (some plan.params.generation) r
    if ok then commitActivation conv w r
    else
      let r := { r with activationRole := none }
      match r.engine with
      | none => finishTransactionError conv w .io r
      | some child => some (beginStop child (.recover plan .io) { r with engine := none })
  | _ => commitActivation conv w r

/-- The generation is announced to the hook, and the attachment begins. -/
def startPhase6Attachment (params : EngineParams) (r : Reactor) : Option Reactor :=
  let activating := r.activationRole.isSome || !r.active
  let prepared :=
    if activating then
      prepareGeneration e w.prepareFault params.generation params.portV4 params.portV6 r.dataplane
    else (.ok (), r.dataplane)
  match prepared with
  | (.error _, p) => failPhase6Activation conv w { r with dataplane := p }
  | (.ok (), p) =>
    match beginAttachment p with
    | (.error _, p) =>
      let r := { r with dataplane := p }
      if activating || !r.active then failPhase6Activation conv w r
      else some (recordDataplaneError r)
    | (.ok (), p) =>
      let r := { r with dataplane := p }
      -- `capture_interface_ready`
      if !r.dataplane.mgr.status.attachmentReady then some r
      else if activating || !r.active then finishPhase6Activation conv w r
      else some r

/-! ### Convergence -/

/-- The network decides whether the policy pauses. -/
def evaluateSsid (policy : Option PolicyCandidate) (r : Reactor) : Bool × Reactor :=
  match policy with
  | some ⟨_, true, _⟩ =>
    match w.ssid with
    | .unreadable => (false, { r with ssidPaused := false, wifiChanged := false })
    | .verdict paused followUp => (paused, { r with ssidPaused := paused, wifiChanged := followUp })
  | _ => (false, { r with ssidPaused := false, wifiChanged := false })

/-- A policy that could not be read is read once more. -/
def queuePolicyRetry (r : Reactor) : Reactor :=
  if !r.policyRetryAvailable then r
  else { r with policyRetryAvailable := false, policyChanged := true }

/-- A start that fails leaves no file: it never wrote one, or it has removed it. -/
def startGenerationCheck (user : UserConfig) (generation : ℕ) (r : Reactor) : Option Reactor :=
  let r := { r with
    subscription := r.subscription.bindGeneration (r.currentPolicy.map (·.nodes)) generation }
  match w.start with
  | .failed error => finishTransactionError conv w error r
  | .started watched =>
    let plan : SwitchPlan := ⟨⟨generation, w.ports.1, w.ports.2⟩, user, none⟩
    some { r with
      host := r.host.write generation user
      engineTransaction := some (.checking plan (if watched then .normal else .supervisionFailed)) }

/-- What one convergence has decided before it touches anything. -/
structure Inputs where
  refreshSelfAddresses : Bool
  engineBusy : Bool
  needStart : Bool
  ssidOnlyChange : Bool
  wasActive : Bool
  wantEngine : Bool
  /-- The sources of the configuration that an engine candidate is built from. -/
  engineNodes : Option NodeConfig
  sourcesChanged : Bool
  candidatePolicy : Option PolicyCandidate
  candidateUser : Option UserConfig

/-- A policy is checked against the running engine, or the candidate when none runs. -/
def admittedPolicy (r : Reactor) (policy : Option PolicyCandidate) (user : Option UserConfig) :
    Option PolicyCandidate :=
  match policy, r.currentEngineUser.or user with
  | some policy, some user => if fakeipOk policy user then some policy else none
  | policy, _ => policy

/-- An engine candidate is checked against the policy that will be installed beside it. -/
def admittedUser (r : Reactor) (policy : Option PolicyCandidate) (user : Option UserConfig) :
    Option UserConfig :=
  match policy.or r.currentPolicy, user with
  | some policy, some user => if fakeipOk policy user then some user else none
  | _, _ => none

/-- What a convergence reads again, and what it takes from the state. -/
def inputs (r : Reactor) : Inputs :=
  let engineBusy := r.convergenceBusy
  let needStart := !engineBusy && r.engine.isNone
  let wantEngine := !engineBusy && (needStart || r.reloadRequested || r.engineConfigChanged)
  let wantPolicy := r.currentPolicy.isNone || r.reloadRequested || r.policyChanged || r.topologyChanged
  let policy := if wantPolicy then w.policy else none
  let user := if wantEngine && (policy.or r.currentPolicy).isSome then w.user else none
  let candidatePolicy := admittedPolicy fakeipOk r policy user
  { refreshSelfAddresses := r.topologyChanged
    engineBusy := engineBusy
    needStart := needStart
    ssidOnlyChange := r.wifiChanged && !r.reloadRequested && !r.policyChanged
      && !r.engineConfigChanged && !r.topologyChanged
    wasActive := r.active && r.engine.isSome && r.activationRole.isNone && !r.ssidPaused
    wantEngine := wantEngine
    engineNodes := if wantEngine then (policy.or r.currentPolicy).map (·.nodes) else none
    sourcesChanged := match r.currentPolicy, policy with
      | some current, some candidate =>
        current.nodes.remoteSources != candidate.nodes.remoteSources
      | _, _ => false
    candidatePolicy := candidatePolicy
    candidateUser := admittedUser fakeipOk r candidatePolicy user }

/-- `need_switch`: the running engine was started with another configuration. -/
def needSwitch (user : Option UserConfig) (r : Reactor) : Bool :=
  match r.engine, user with
  | some _, some user => r.currentEngineUser != some user
  | _, _ => false

/-- The batch of a refresh that needs no other engine. -/
def settlePending (user : Option UserConfig) (r : Reactor) : Reactor :=
  { r with subscription := match user with
      | some _ => (commitPendingSubscription w none r).2.subscription
      | none => { r.subscription with pending := none } }

/-- The engine half of a convergence, once the data plane stands. -/
def convergeEngine (i : Inputs) (user : Option UserConfig) (r : Reactor) : Option Reactor :=
  match r.activationRole with
  | some _ =>
    match r.engine with
    | some child => startPhase6Attachment e conv w child.params r
    | none => some r
  | none =>
    if i.engineBusy then some r
    else
      let r := { r with reloadRequested := false, engineConfigChanged := false }
      if !i.needStart && !needSwitch user r then
        let r := settlePending w user r
        match r.engine with
        | some child => startPhase6Attachment e conv w child.params r
        | none => some r
      else match user with
        | none => some r
        | some user =>
          let (generation, generations) := r.generations.allocate
          startGenerationCheck conv w user generation
            { r with generations := generations, backoffArmed := false }

/-- The policy half: the new policy, or the current one for the sake of its self addresses. -/
def convergePolicy (i : Inputs) (r : Reactor) : Option UserConfig × Reactor :=
  match i.candidatePolicy with
  | some policy =>
    match applyPolicy e srt w.apply policy.desired r.dataplane with
    | (.ok (), p) =>
      (i.candidateUser, configureSubscription w.configure i.sourcesChanged
        { r with dataplane := p, currentPolicy := some policy, policyRetryAvailable := true })
    | (.error _, p) =>
      (if r.currentPolicy.isNone then none else i.candidateUser,
        recordDataplaneError (queuePolicyRetry { r with dataplane := p }))
  | none =>
    if i.refreshSelfAddresses then
      match r.currentPolicy with
      | none => (i.candidateUser, r)
      | some policy =>
        match applyPolicy e srt w.apply policy.desired r.dataplane with
        | (.ok (), p) => (i.candidateUser, { r with dataplane := p })
        | (.error _, p) => (i.candidateUser, recordDataplaneError (queuePolicyRetry { r with dataplane := p }))
    else (i.candidateUser, r)

/-- A first schedule for a policy that has none. -/
def configureMissing (r : Reactor) : Reactor :=
  { r with subscription :=
      if r.subscription.schedule.isNone then (configureSubscription w.configure false r).subscription
      else r.subscription }

/-- The sources that an engine candidate is built from are put on the schedule first. -/
def scheduleSources (i : Inputs) (r : Reactor) : Reactor :=
  { r with subscription := match i.engineNodes with
      | some nodes => r.subscription.ensureSchedule r.disabled nodes w.schedule
      | none => r.subscription }

/-- A batch that no candidate could be built from is dropped. -/
def dropRefused (i : Inputs) (r : Reactor) : Reactor :=
  { r with subscription :=
      if i.wantEngine && i.candidateUser.isNone then r.subscription.dropUntagged else r.subscription }

/-- The module is brought up under the interface policy that is about to be applied. -/
def bringUp (i : Inputs) (r : Reactor) : Reactor :=
  let r := cancelAttachment r
  let p := match i.candidatePolicy with
    | some policy => stageInterfacePolicy policy.desired r.dataplane
    | none => r.dataplane
  { r with dataplane := Dataplane.converge e w.up true p }

/-- A data-plane error stops the engine work and nothing else. -/
def convergeDataplane (i : Inputs) (r : Reactor) : Option Reactor :=
  let r := bringUp e w i r
  if r.dataplane.mgr.status.error.isSome then
    let r := cancelAttachment r
    if r.engine.isSome || r.engineTransaction.isSome then
      some (cancelEngineWork { r with engineCancelRequested := true })
    else some r
  else
    let (user, r) := convergePolicy e srt w i (dropRefused i r)
    convergeEngine e conv w i user { configureMissing w r with topologyChanged := false }

/-- Convergence of an enabled daemon. -/
def convergeEnabled (r : Reactor) : Option Reactor :=
  let i := inputs fakeipOk w r
  let (paused, r) := evaluateSsid w (i.candidatePolicy.or r.currentPolicy)
    (scheduleSources w i { r with policyChanged := false })
  if paused then some (deactivateRuntime e w r)
  else if i.ssidOnlyChange && i.wasActive && !i.engineBusy then some r
  else if !i.engineBusy && r.engine.isNone && i.candidateUser.isNone then
    some { r with
      dataplane := Dataplane.converge e w.down false r.dataplane
      reloadRequested := false
      engineConfigChanged := false
      topologyChanged := false }
  else convergeDataplane e srt conv w i r

/-- **One convergence**: from what the files say now to a policy, an engine transaction or an activation. -/
def convergeWith (r : Reactor) : Option Reactor :=
  if r.shutdownRequested then some (cancelEngineWork { r with engineCancelRequested := true })
  else if r.disabled then
    some (deactivateRuntime e w
      { r with ssidPaused := false, subscription := r.subscription.resetOnDisable })
  else if r.badPageSize || !w.layoutOk then some r
  else convergeEnabled e srt fakeipOk conv w r

end Handlers

section Knot

variable (e : Endian) (srt : Sorter) (fakeipOk : PolicyCandidate → UserConfig → Bool)

/-- `converge`; each nested call takes the next answers, and a run they do not reach is no run. -/
def converge : List Outside → Reactor → Option Reactor
  | [], _ => none
  | w :: ws, r => convergeWith e srt fakeipOk (converge ws) w r

end Knot

end FluxRs.Daemon
