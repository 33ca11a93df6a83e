import FluxRs.Dataplane.SelfAddr
import FluxRs.Kmod.Hook

/-!
# FluxRs.Dataplane.Manager — the userspace half of the data plane over the module

`Manager` of `crates/fluxd/src/dataplane/platform.rs` and `attachment.rs`, together with the kernel
state its ioctls change.  A `Plane` is both; every operation takes the answers of the environment
(dumps, allocations, ioctl faults) as arguments and returns its result beside the new plane.
Interface rows, sysctls, counters and warnings of the status report are left out, and so is the
debug-only bypass of the daemon's integration tests.
-/

namespace FluxRs.Dataplane

open FluxRs.Lib FluxRs.Net FluxRs.Kmod
open Std (ExtTreeMap ExtTreeSet)

/-- `UID_SELECTED_MAX`. -/
def uidSelectedMax : ℕ := 1024

/-- `UID_POLICY_MAX_ENTRIES`. -/
def uidPolicyMaxEntries : ℕ := 4096

/-- `LPM_MAX_ENTRIES`. -/
def lpmMaxEntries : ℕ := 65536

inductive ListMode where
  | blacklist
  | whitelist
  deriving DecidableEq, Repr, Inhabited

/-- `UidMode`, stored as `u8`. -/
inductive UidMode where
  | selected
  | draining
  deriving DecidableEq, Repr

def UidMode.asU8 : UidMode → U8
  | .selected => 1
  | .draining => 2

def ListMode.toCidrMode : ListMode → CidrMode
  | .blacklist => .blacklist
  | .whitelist => .whitelist

abbrev KeyMap (w : ℕ) := ExtTreeMap (LpmKey w) BypassTag

structure DesiredPolicy where
  appsMode : ListMode
  cidrMode : ListMode
  interfacesMode : ListMode
  interfaces : ExtTreeSet String
  selectedUids : UidSet
  bypassV4 : KeyMap 32
  bypassV6 : KeyMap 128
  deriving DecidableEq

/-! ### Errors -/

/-- `io::Error` of an ioctl: an errno, or the argument check of the wrapper. -/
inductive IoError where
  | os (errno : Errno)
  | invalidInput (message : String)
  deriving DecidableEq, Repr

/-- `kmod::LoadError`, mapped by `kmod_load_error`. -/
inductive LoadError where
  | unknownRelease (release : String)
  | missingModule
  | finit (errno : Errno)
  | control (errno : Errno)
  | io (errno : Errno)
  deriving DecidableEq, Repr

inductive DataplaneError where
  | new (code detail : String)
  /-- Code `{operation}:{errno}`, detail `{operation} failed: {error}`. -/
  | io (operation : String) (error : IoError)
  | load (error : LoadError)
  deriving DecidableEq, Repr

def policyCapacitySelected : DataplaneError :=
  .new "policy_capacity:selected" "selected UID count exceeds the ABI limit"

def policyCapacityBypass : DataplaneError :=
  .new "policy_capacity:bypass" "bypass prefix count exceeds the ABI limit"

def policyCapacitySelfAddr : DataplaneError :=
  .new "policy_capacity:self_addr" "non-privacy device addresses exceed the exact bypass map limit"

def policyCapacityUidPolicy : DataplaneError :=
  .new "policy_capacity:uid_policy" "selected plus boot-lifetime draining UIDs exceed the ABI limit"

def lkmNotLoaded : DataplaneError :=
  .new "lkm_not_loaded" "LOCAL_OUT module is not holding /dev/fluxrs"

/-! ### State -/

/-- `abi::Control` less its constants (magic, listener and probe addresses, zero ifindexes). -/
structure Control where
  active : U32
  generation : ℕ
  listenPortV4 : U16
  listenPortV6 : U16
  cidrMode : U16
  selectedCount : U32
  drainingCount : U32
  bypassV4Count : U32
  bypassV6Count : U32
  policyBank : U8
  deriving DecidableEq, Repr

structure DataplaneStatus where
  active : Bool
  topologyReady : Bool
  bpfReady : Bool
  attachmentReady : Bool
  error : Option DataplaneError
  deriving DecidableEq

def DataplaneStatus.default : DataplaneStatus := ⟨false, false, false, false, none⟩

structure Manager where
  reconciledOnce : Bool
  lastControl : Option Control
  appsMode : ListMode
  cidrMode : ListMode
  interfacesMode : ListMode
  interfaces : ExtTreeSet String
  uidModes : ExtTreeMap U32 U8
  bypassV4 : KeyMap 32
  bypassV6 : KeyMap 128
  selfV4 : AddrSet 32
  selfV6 : AddrSet 128
  addressBook : AddressBook
  /-- The control fd of the loaded module is held. -/
  kmod : Bool
  status : DataplaneStatus
  deriving DecidableEq

/-- `Manager::open`. -/
def Manager.open : Manager where
  reconciledOnce := false
  lastControl := none
  appsMode := .whitelist
  cidrMode := .blacklist
  interfacesMode := .blacklist
  interfaces := ∅
  uidModes := ∅
  bypassV4 := ∅
  bypassV6 := ∅
  selfV4 := ∅
  selfV6 := ∅
  addressBook := .empty
  kmod := false
  status := .default

/-- The manager and the kernel module it drives; a module that is not resident has no hook. -/
structure Plane where
  mgr : Manager
  resident : Bool
  kernel : Kernel
  deriving DecidableEq

/-- A manager just opened over whatever module an earlier daemon left. -/
def Plane.open (resident : Bool) (kernel : Kernel) : Plane := ⟨.open, resident, kernel⟩

/-! ### Epochs and their stored form -/

/-- The keys of a stored map as prefixes. -/
def KeyMap.toBypass {w : ℕ} (m : KeyMap w) : BypassMap w :=
  BypassMap.collect (m.toList.map fun kt => (kt.1.toCidr, kt.2))

def desiredEpoch (desired : DesiredPolicy) (selfV4 : AddrSet 32) (selfV6 : AddrSet 128) :
    PolicyEpoch where
  cidrMode := desired.cidrMode.toCidrMode
  selected := desired.selectedUids
  draining := ∅
  bypassV4 := KeyMap.toBypass desired.bypassV4
  bypassV6 := KeyMap.toBypass desired.bypassV6
  selfV4 := selfV4
  selfV6 := selfV6

/-- One pass over `selected`, then one over `draining`; the later insert wins. -/
def uidModesFromEpoch (epoch : PolicyEpoch) : ExtTreeMap U32 U8 :=
  let modes : ExtTreeMap U32 U8 := epoch.selected.toList.foldl
    (fun m uid => m.insert uid UidMode.selected.asU8) ∅
  epoch.draining.toList.foldl (fun m uid => m.insert uid UidMode.draining.asU8) modes

/-- The UIDs of `live_epoch`'s loop over `uid_modes`. -/
def uidsWithMode (modes : ExtTreeMap U32 U8) (mode : UidMode) : UidSet :=
  modes.toList.foldl (fun (s : UidSet) um => if um.2 = mode.asU8 then s.insert um.1 else s) ∅

namespace Manager

def liveEpoch (m : Manager) : PolicyEpoch where
  cidrMode := m.cidrMode.toCidrMode
  selected := uidsWithMode m.uidModes .selected
  draining := uidsWithMode m.uidModes .draining
  bypassV4 := KeyMap.toBypass m.bypassV4
  bypassV6 := KeyMap.toBypass m.bypassV6
  selfV4 := m.selfV4
  selfV6 := m.selfV6

def countMode (m : Manager) (mode : UidMode) : U32 :=
  BitVec.ofNat 32 (m.uidModes.toList.filter fun um => um.2 == mode.asU8).length

/-- `policy_counts`, written into a control record. -/
def withPolicyCounts (m : Manager) (c : Control) : Control :=
  { c with
    selectedCount := m.countMode .selected
    drainingCount := m.countMode .draining
    bypassV4Count := BitVec.ofNat 32 m.bypassV4.size
    bypassV6Count := BitVec.ofNat 32 m.bypassV6.size }

end Manager

/-- `cidr_mode_value`. -/
def cidrModeValue : ListMode → U16
  | .blacklist => 0
  | .whitelist => 1

section Ops

variable (e : Endian) (srt : Sorter)

/-- `port.to_be()`. -/
def portToBe (port : U16) : U16 :=
  match e with
  | .big => port
  | .little => port.extractLsb' 0 8 ++ port.extractLsb' 8 8

/-- `inactive_control(0, 0, ..)`. -/
def inactiveControl (generation : ℕ) (portV4 portV6 : U16) : Control where
  active := 0
  generation := max generation 1
  listenPortV4 := portToBe e portV4
  listenPortV6 := portToBe e portV6
  cidrMode := 0
  selectedCount := 0
  drainingCount := 0
  bypassV4Count := 0
  bypassV6Count := 0
  policyBank := 0

/-! ### The ioctls -/

/-- The outcomes of the two allocations of one `SET_UIDS`. -/
structure UidsAlloc where
  ctl : Bool := true
  tmp : Bool := true
  deriving DecidableEq

/-- `kmod_set_bypass`: pack, submit, and let the kernel swap the set in. -/
def moduleSetBypass (alloc : BypassAlloc) (k : Kernel) (ep : PolicyEpoch) : Except IoError Kernel :=
  match kmodSetBypass e ep with
  | .error message => .error (.invalidInput message)
  | .ok body =>
    match fluxrsSetBypass e srt alloc body with
    | .error errno => .error (.os errno)
    | .ok s => .ok (k.setBypass s)

/-- `LoadedModule::set_uids` up to the publication: the table, or the refusal. -/
def moduleUidTable (alloc : UidsAlloc) (uids : List U32) : Except IoError (List U32) :=
  if uidSlotMax < uids.length then .error (.invalidInput "too many UIDs for FLUXRS_SET_UIDS")
  else if !alloc.ctl then .error (.os .ENOMEM)
  else match setUidsTable srt alloc.tmp (uidsBody uids) with
    | .error errno => .error (.os errno)
    | .ok table => .ok table

/-! ### `apply_policy` -/

/-- What the kernel answers during one `apply_policy`. -/
structure ApplyEnv where
  snapshot : Except Errno (List Address) := .ok []
  bypass : BypassAlloc := {}
  uids : UidsAlloc := {}
  /-- The compensating `SET_BYPASS` after a failed `SET_UIDS`. -/
  rollback : BypassAlloc := {}

/-- The kernel commit: `SET_BYPASS`, then `SET_UIDS`, undone by a second `SET_BYPASS`. -/
def commitKernel (env : ApplyEnv) (k : Kernel) (from' next : PolicyEpoch) :
    Except DataplaneError Unit × Kernel :=
  match moduleSetBypass e srt env.bypass k next with
  | .error err => (.error (.io "lkm_set_bypass" err), k)
  | .ok k₁ =>
    match moduleUidTable srt env.uids next.selected.toList with
    | .ok table => (.ok (), k₁.setUids table)
    | .error err =>
      match moduleSetBypass e srt env.rollback k₁ from' with
      | .ok k₂ => (.error (.io "lkm_set_uids" err), k₂)
      | .error _ => (.error (.io "lkm_set_uids" err), k₁)

/-- The fields `apply_policy` replaces after the kernel took the epoch. -/
def Manager.store (m : Manager) (desired : DesiredPolicy) (next : PolicyEpoch) : Manager :=
  { m with
    lastControl := m.lastControl.map fun last =>
      { last with
        selectedCount := BitVec.ofNat 32 next.selected.size
        drainingCount := BitVec.ofNat 32 next.draining.size
        bypassV4Count := BitVec.ofNat 32 next.bypassV4.size
        bypassV6Count := BitVec.ofNat 32 next.bypassV6.size
        cidrMode := cidrModeValue desired.cidrMode }
    uidModes := uidModesFromEpoch next
    bypassV4 := desired.bypassV4
    bypassV6 := desired.bypassV6
    selfV4 := next.selfV4
    selfV6 := next.selfV6
    appsMode := desired.appsMode
    cidrMode := desired.cidrMode
    interfacesMode := desired.interfacesMode
    interfaces := desired.interfaces }

/-- The plane with another address book. -/
def Plane.withBook (p : Plane) (book : AddressBook) : Plane :=
  { p with mgr := { p.mgr with addressBook := book } }

def applyPolicy (env : ApplyEnv) (desired : DesiredPolicy) (p : Plane) :
    Except DataplaneError Unit × Plane :=
  if uidSelectedMax < desired.selectedUids.size then (.error policyCapacitySelected, p)
  else if lpmMaxEntries < desired.bypassV4.size ∨ lpmMaxEntries < desired.bypassV6.size then
    (.error policyCapacityBypass, p)
  else match env.snapshot with
    | .error errno => (.error (.io "rtnetlink_dump" (.os errno)), p)
    | .ok addresses =>
      match desiredSelfAddresses p.mgr.addressBook addresses with
      | (book, none) => (.error policyCapacitySelfAddr, p.withBook book)
      | (book, some sel) =>
        let from' := p.mgr.liveEpoch
        let next := committed from' (desiredEpoch desired sel.v4 sel.v6)
        if uidPolicyMaxEntries < next.selected.size + next.draining.size then
          (.error policyCapacityUidPolicy, p.withBook book)
        else if !p.mgr.kmod then (.error lkmNotLoaded, p.withBook book)
        else match commitKernel e srt env p.kernel from' next with
          | (.error err, k) => (.error err, { p.withBook book with kernel := k })
          | (.ok (), k) =>
            (.ok (), { p.withBook book with
              kernel := k, mgr := (p.withBook book).mgr.store desired next })

/-! ### Publication -/

def publishActive (p : Plane) : Except DataplaneError Unit × Plane :=
  if !p.mgr.status.attachmentReady then
    (.error (.new "dataplane_not_ready" "LOCAL_OUT module is not ready for activation"), p)
  else match p.mgr.lastControl with
    | none => (.error (.new "control_missing" "inactive generation was not published"), p)
    | some control =>
      let control := p.mgr.withPolicyCounts { control with active := 1 }
      (.ok (), { p with mgr := { p.mgr with
        lastControl := some control
        status := { p.mgr.status with active := true } } })

/-- `publish_inactive`; `fault` is what `CLEAR_UIDS` answers instead of success. -/
def publishInactive (fault : Option Errno) (p : Plane) : Except DataplaneError Unit × Plane :=
  let inactive (m : Manager) : Manager := { m with status := { m.status with active := false } }
  match p.mgr.lastControl with
  | none => (.ok (), { p with mgr := inactive p.mgr })
  | some control =>
    let p := { p with mgr := { p.mgr with lastControl := some { control with active := 0 } } }
    if p.mgr.kmod then
      match fault with
      | some errno => (.error (.io "lkm_clear_uids" (.os errno)), p)
      | none => (.ok (), { p with mgr := inactive p.mgr, kernel := p.kernel.clearUids })
    else (.ok (), { p with mgr := inactive p.mgr })

/-- The listeners `set_listeners` submits for the ABI addresses. -/
def abiListeners (portV4 portV6 : U16) : Listeners :=
  ⟨e.load (octets listenV4), portToBe e portV4, octets listenV6, portToBe e portV6⟩

def prepareGeneration (fault : Option Errno) (generation : ℕ) (portV4 portV6 : U16) (p : Plane) :
    Except DataplaneError Unit × Plane :=
  let control := p.mgr.withPolicyCounts
    { inactiveControl e generation portV4 portV6 with
      cidrMode := cidrModeValue p.mgr.cidrMode
      policyBank := match p.mgr.lastControl with
        | some last => last.policyBank &&& 1
        | none => 0 }
  if !p.mgr.kmod then (.error lkmNotLoaded, p)
  else match fault with
    | some errno => (.error (.io "lkm_set_listeners" (.os errno)), p)
    | none =>
      (.ok (), { p with
        kernel := p.kernel.setListeners (abiListeners e portV4 portV6)
        mgr := { p.mgr with
          lastControl := some control
          status := { p.mgr.status with active := false } } })

/-! ### Convergence -/

def Manager.dropKmod (m : Manager) : Manager :=
  { m with
    kmod := false
    status := { m.status with attachmentReady := false, bpfReady := false, topologyReady := false } }

/-- Dropping the control fd closes it. -/
def dropKmod (p : Plane) : Plane :=
  { p with mgr := p.mgr.dropKmod, kernel := if p.mgr.kmod then p.kernel.setLive false else p.kernel }

/-- How `load_from_dir` ends. -/
inductive LoadOutcome where
  /-- Refused before the module was resident, or with it already resident. -/
  | failed (error : DataplaneError)
  /-- The module is resident, its node did not open, and `delete_module` removed it or did not. -/
  | controlFailed (symReady : Bool) (errno : Errno) (deleted : Bool)
  /-- The node opened; a module loaded just now resolved its symbols or did not. -/
  | loaded (symReady : Bool)

def loadModule (outcome : LoadOutcome) (p : Plane) : Except DataplaneError Unit × Plane :=
  match outcome with
  | .failed err => (.error err, p)
  | .controlFailed symReady errno deleted =>
    let k := if p.resident then p.kernel else .init symReady
    (.error (.load (.control errno)),
      if deleted then { p with resident := false, kernel := .init false }
      else { p with resident := true, kernel := k })
  | .loaded symReady =>
    -- `EEXIST`: a resident module keeps its statics, the bypass set among them
    let k := if p.resident then p.kernel else .init symReady
    (.ok (), { p with
      resident := true, kernel := k.setLive true, mgr := { p.mgr with kmod := true } })

/-- What one convergence meets outside the process. -/
structure ConvergeEnv where
  /-- The cold-start cleanup of owned objects, when it has not run yet. -/
  cleanup : Option DataplaneError := none
  load : LoadOutcome := .loaded true
  /-- What `GET_STATUS` answers instead of success. -/
  statusFault : Option Errno := none
  clearFault : Option Errno := none

def ensureKmod (env : ConvergeEnv) (p : Plane) : Except DataplaneError Unit × Plane :=
  let (loaded, p) := if p.mgr.kmod then (.ok (), p) else loadModule env.load p
  match loaded with
  | .error err => (.error err, p)
  | .ok () =>
    match env.statusFault with
    | some errno => (.error (.io "lkm_status" (.os errno)), p)
    | none =>
      if !p.kernel.symReady then
        (.error (.new "lkm_tproxy_symbol" "fluxrs loaded but nf_tproxy symbols were not resolved"),
          dropKmod p)
      else
        let control := p.mgr.lastControl.getD (inactiveControl e 1 0 0)
        (.ok (), { p with mgr := { p.mgr with lastControl := some control } })

def Plane.setStatus (p : Plane) (status : DataplaneStatus) : Plane :=
  { p with mgr := { p.mgr with status := status } }

/-- `converge_inner`.  A failed step leaves `active` as it was and records the error. -/
def converge (env : ConvergeEnv) (enabled : Bool) (p : Plane) : Plane :=
  let next : DataplaneStatus := { DataplaneStatus.default with active := p.mgr.status.active }
  match (if p.mgr.reconciledOnce then none else env.cleanup) with
  | some err => p.setStatus { next with error := some err }
  | none =>
    let p := { p with mgr := { p.mgr with reconciledOnce := true } }
    if !enabled then
      match publishInactive env.clearFault (dropKmod p) with
      | (.error err, p) => p.setStatus { next with error := some err }
      | (.ok (), p) => p.setStatus { next with active := false }
    else
      match ensureKmod e env p with
      | (.error err, p) => p.setStatus { next with error := some err }
      | (.ok (), p) =>
        p.setStatus { next with
          topologyReady := true, bpfReady := true, attachmentReady := p.mgr.kmod }

/-- `stage_interface_policy`. -/
def stageInterfacePolicy (desired : DesiredPolicy) (p : Plane) : Plane :=
  { p with mgr := { p.mgr with
    interfacesMode := desired.interfacesMode, interfaces := desired.interfaces } }

/-! ### Attachment -/

def notReady (detail : String) : DataplaneError := .new "dataplane_not_ready" detail

/-- `begin_attachment`.  Without the module the readiness flags are down, so the branch that attached
the classifier of the previous data plane is never entered; it stands for its refusal here. -/
def beginAttachment (p : Plane) : Except DataplaneError Unit × Plane :=
  if p.mgr.kmod then
    if !p.mgr.status.topologyReady || !p.mgr.status.bpfReady then
      (.error (notReady "LOCAL_OUT module must be loaded before activation"), p)
    else (.ok (), p.setStatus { p.mgr.status with attachmentReady := true })
  else if p.mgr.status.attachmentReady then (.ok (), p)
  else (.error (notReady "topology and inactive BPF runtime must exist before TC attachment"), p)

/-- `cancel_attachment`; no verification is ever pending. -/
def cancelAttachment (p : Plane) : Plane :=
  p.setStatus { p.mgr.status with attachmentReady := false }

end Ops

end FluxRs.Dataplane
