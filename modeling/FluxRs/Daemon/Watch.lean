import FluxRs.Daemon.Operations
import FluxRs.Daemon.PlannerMemory

/-!
# FluxRs.Daemon.Watch — file events, and the switch they may not tell

`crates/fluxd/src/watch.rs` decodes inotify events; `handle_inotify` folds a batch of them into flags.  A queue that
overflowed and a watch that was replaced lose the event of the switch file, and the debounce that the batch arms is
all that can notice the file.
-/

namespace FluxRs.Daemon

open FluxRs.Lib FluxRs.Net FluxRs.Kmod FluxRs.Dataplane

/-! ### Batches -/

/-- What one inotify event means. -/
inductive WatchAction where
  | switch
  | config
  | policy
  | rebuild
  | overflow
  deriving DecidableEq

/-- One inotify event. -/
structure WatchEvent where
  wd : ℤ
  mask : U32
  name : String

def IN_DELETE_SELF : U32 := 0x0400#32

def IN_MOVE_SELF : U32 := 0x0800#32

def IN_Q_OVERFLOW : U32 := 0x4000#32

def IN_IGNORED : U32 := 0x8000#32

/-- `classify`: by the mask first, then by the watched directory and the name. -/
def classify (event : WatchEvent) (moduleWd configWd : ℤ) (packagesWd : Option ℤ) : Option WatchAction :=
  if event.mask &&& IN_Q_OVERFLOW ≠ 0#32 then some .overflow
  else if event.mask &&& (IN_MOVE_SELF ||| IN_DELETE_SELF ||| IN_IGNORED) ≠ 0#32 then some .rebuild
  else if event.wd = moduleWd then
    if event.name = "disable" then some .switch
    else if event.name = "config" then some .rebuild
    else none
  else if event.wd = configWd ∧ event.name ≠ "" then some .config
  else if packagesWd = some event.wd ∧ event.name = "packages.list" then some .policy
  else none

/-- The flags of `handle_inotify`. -/
structure Noticed where
  switchChanged : Bool
  policyChanged : Bool
  engineConfigChanged : Bool
  rebuild : Bool
  deriving DecidableEq

/-- One more action; the flags only go up. -/
def Noticed.add (n : Noticed) : WatchAction → Noticed
  | .switch => { n with switchChanged := true }
  | .config => { n with policyChanged := true, engineConfigChanged := true }
  | .policy => { n with policyChanged := true }
  | .rebuild => { n with rebuild := true, policyChanged := true, engineConfigChanged := true }
  | .overflow => { n with rebuild := true, policyChanged := true, engineConfigChanged := true }

/-- What a batch of events comes to. -/
def noticed (actions : List WatchAction) : Noticed := actions.foldl Noticed.add ⟨false, false, false, false⟩

/-- `handle_inotify`, once the batch is decoded. -/
def inotify (actions : List WatchAction) : EventKind :=
  .inotify (noticed actions).switchChanged (noticed actions).policyChanged (noticed actions).engineConfigChanged

/-- Files are read again after the debounce. -/
def Noticed.armsDebounce (n : Noticed) : Bool := n.policyChanged || n.engineConfigChanged

/-- Flags that are up stay up, and only the action of the switch raises its flag. -/
theorem foldl_add (actions : List WatchAction) (n : Noticed) :
    ((actions.foldl Noticed.add n).switchChanged = true ↔ n.switchChanged = true ∨ .switch ∈ actions) ∧
      ((actions.foldl Noticed.add n).rebuild = true ↔ n.rebuild = true ∨ .overflow ∈ actions ∨ .rebuild ∈ actions) ∧
      (((n.rebuild = true → n.policyChanged = true ∧ n.engineConfigChanged = true) →
        (actions.foldl Noticed.add n).rebuild = true → (actions.foldl Noticed.add n).policyChanged = true ∧
          (actions.foldl Noticed.add n).engineConfigChanged = true)) := by
  induction actions generalizing n with
  | nil => simp
  | cons action actions ih =>
    obtain ⟨hswitch, hrebuild, hchanged⟩ := ih (n.add action)
    rw [List.foldl_cons, hswitch, hrebuild]
    refine ⟨?_, ?_, ?_⟩
    · cases action <;> simp [Noticed.add]
    · cases action <;> simp [Noticed.add]
    · intro h hr
      refine hchanged ?_ (hrebuild.mpr hr)
      cases action <;> simp_all [Noticed.add]

/-- A batch that overflowed or lost a watch, and does not tell of the switch. -/
structure Lossy (actions : List WatchAction) : Prop where
  silent : .switch ∉ actions
  lost : .overflow ∈ actions ∨ .rebuild ∈ actions

/-- What an overflow marks: policy and engine, and the watches; the switch is not read again. -/
theorem Lossy.noticed {actions : List WatchAction} (h : Lossy actions) :
    noticed actions = ⟨false, true, true, true⟩ := by
  obtain ⟨hswitch, hrebuild, hchanged⟩ := foldl_add actions ⟨false, false, false, false⟩
  have hraised := hrebuild.mpr (.inr h.lost)
  obtain ⟨hpolicy, hengine⟩ := hchanged (fun hr => absurd hr Bool.false_ne_true) hraised
  have hsilent : (actions.foldl Noticed.add ⟨false, false, false, false⟩).switchChanged = false := by
    rw [← Bool.not_eq_true, hswitch]
    rintro (hno | hmem)
    · exact absurd hno Bool.false_ne_true
    · exact h.silent hmem
  unfold Daemon.noticed
  generalize actions.foldl Noticed.add ⟨false, false, false, false⟩ = n at *
  obtain ⟨s, p, c, b⟩ := n
  simp only at hsilent hpolicy hengine hraised
  rw [hsilent, hpolicy, hengine, hraised]

/-- Such a batch arms the debounce and gives the planner nothing. -/
theorem Lossy.inotify {actions : List WatchAction} (h : Lossy actions) :
    inotify actions = .inotify false true true ∧ (Daemon.noticed actions).armsDebounce = true := by
  unfold Daemon.inotify
  rw [h.noticed]
  exact ⟨rfl, rfl⟩

/-! ### Acting on the switch -/

/-- The engine is gone, or what is in flight ends with its stop. -/
def EngineStopping (r : Reactor) : Prop :=
  match r.engineTransaction with
  | none => r.engine = none
  | some (.checking _ disposition) => disposition = .cancelled
  | some (.waiting _ _) => False
  | some (.stopping _ next _) => next = .cancelled

/-- Nothing is left to stop. -/
def Stopped (r : Reactor) : Prop := r.active = false ∧ EngineStopping r

/-- A handler converges: it has no result where convergence has none. -/
def CallsConverge (e : Endian) (ev : Event) (r : Reactor) : Prop :=
  handleKind e (fun _ => none) ev.outside (ev.enter r) ev.kind = none

/-- What the debounce made of the switch file it found: present, the data plane is inactive and the engine is stopped
or being stopped; absent, a convergence was called. -/
def Recovered (e : Endian) (r : Reactor) (debounce : Event) (r' : Reactor) : Prop :=
  if debounce.disabled then Stopped r' else CallsConverge e debounce r

theorem engineStopping_cancelEngineWork (r : Reactor) : EngineStopping (cancelEngineWork r) := by
  unfold cancelEngineWork
  cases ht : r.engineTransaction with
  | none =>
    simp only
    cases he : r.engine with
    | none => exact rfl
    | some child => exact rfl
  | some t =>
    simp only
    cases t with
    | checking plan disposition => exact rfl
    | waiting child role => exact rfl
    | stopping child next killSent => exact rfl

/-- The start-up cleanup has run, or it succeeds now, or the data plane is inactive already. -/
def CanFreeze (w : Outside) (r : Reactor) : Prop :=
  r.active = false ∨ r.dataplane.mgr.reconciledOnce = true ∨ w.down.cleanup = none

theorem converge_down_active (e : Endian) (env : ConvergeEnv) (p : Plane) :
    (Dataplane.converge e env false p).mgr.status.active = false ↔
      p.mgr.status.active = false ∨ p.mgr.reconciledOnce = true ∨ env.cleanup = none := by
  unfold Dataplane.converge
  simp only
  split
  · rename_i err hclean
    have hfailed : p.mgr.reconciledOnce = false ∧ env.cleanup = some err := by
      cases hr : p.mgr.reconciledOnce with
      | true => simp [hr] at hclean
      | false => exact ⟨rfl, by simpa [hr] using hclean⟩
    rw [hfailed.1, hfailed.2]
    show p.mgr.status.active = false ↔ _
    simp
  · rename_i hclean
    have hready : p.mgr.reconciledOnce = true ∨ env.cleanup = none := by
      cases hr : p.mgr.reconciledOnce with
      | true => exact .inl rfl
      | false => exact .inr (by simpa [hr] using hclean)
    simp only [Bool.not_false, if_true]
    have hok := (publishInactive_closed
      (p := dropKmod { p with mgr := { p.mgr with reconciledOnce := true } }) env.clearFault rfl).1
    split
    · rename_i heq
      rw [heq] at hok
      cases hok
    · exact ⟨fun _ => .inr hready, fun _ => rfl⟩

/-- **Deactivation stops everything** unless the cleanup that comes first fails. -/
theorem stopped_deactivateRuntime (e : Endian) (w : Outside) (r : Reactor) :
    Stopped (deactivateRuntime e w r) ↔ CanFreeze w r := by
  have hengine : EngineStopping (deactivateRuntime e w r) := engineStopping_cancelEngineWork _
  have hactive : (deactivateRuntime e w r).active =
      (Dataplane.converge e w.down false (Dataplane.cancelAttachment r.dataplane)).mgr.status.active := by
    show (cancelEngineWork _).dataplane.mgr.status.active = _
    rw [cancelEngineWork_dataplane]
    rfl
  rw [Stopped, hactive, converge_down_active, CanFreeze]
  exact ⟨fun h => h.1, fun h => ⟨h, hengine⟩⟩

/-! ### The row that the debounce takes -/

/-- The verdict on the current Wi-Fi network. -/
def paused (w : Outside) (r : Reactor) : Bool := (evaluateSsid w r.currentPolicy r).1

/-- Only the Wi-Fi network has changed. -/
def ssidOnly (r : Reactor) : Bool := r.wifiChanged && !r.topologyChanged

/-- The debounce has no command for the planner's phase: a shutdown is under way, or only the Wi-Fi network has changed
and the verdict is none to the phase. -/
def Unheard (w : Outside) (r : Reactor) : Prop :=
  r.shutdownRequested = true ∨
    ssidOnly r = true ∧ if paused w r then r.phase = .inactive ∨ r.phase = .paused else r.phase ≠ .paused

/-- What the deactivation that the debounce leads to meets. -/
def stopOutside (debounce : Event) (r : Reactor) : Outside :=
  if ssidOnly r && paused debounce.outside r then debounce.outside else debounce.nested.headD {}

/-- The file has appeared, and nothing is left to stop, or the debounce has a command and its deactivation succeeds. -/
def Heeds (debounce : Event) (r : Reactor) : Prop :=
  r.disabled = false ∧
    (Stopped r ∨ ¬Unheard debounce.outside r ∧ CanFreeze (stopOutside debounce r) r)

section Debounce

variable {e : Endian} {conv : Reactor → Option Reactor} {w : Outside} {r : Reactor}

/-- The rows of the debounce: silent, the pause of a running engine, or a command to converge. -/
theorem debounce_row (p : Phase) {s : Stimulus}
    (hs : s = .ssidPause ∨ s = .ssidResume ∨ s = .captureSideDrift ∨ s = .debounceExpired) :
    (step p s).commands = [] ∨
      (s = .ssidPause ∧ (step p s).commands = [.publishInactive, .stopEngine]) ∨
      ∃ kind, kind.needsConverge = true ∧ (step p s).commands = [kind] := by
  rcases hs with rfl | rfl | rfl | rfl <;> cases p <;>
    first
    | exact .inl rfl
    | exact .inr (.inl ⟨rfl, rfl⟩)
    | exact .inr (.inr ⟨_, rfl, rfl⟩)

/-- One command to converge is one convergence. -/
theorem applyStimulus_converges {s : Stimulus} {kind : CommandKind} (hk : kind.needsConverge = true)
    (h : (step r.planner.phase s).commands = [kind]) :
    applyStimulus e conv w s r = (conv { r with planner := (plan r.planner s).1 }).map Reactor.refresh := by
  have hnot : kind ≠ .ignoreUnexpected ∧ kind ≠ .exitProcess ∧ kind ≠ .publishInactive ∧ kind ≠ .stopEngine ∧
      kind ≠ .restartWithBackoff := by
    cases kind <;> first | exact absurd hk (by decide) | decide
  obtain ⟨hunexpected, hexit, hpublish, hstop, hrestart⟩ := hnot
  unfold applyStimulus executeCommands
  simp [plan_kinds, h, hk, Ne.symm hunexpected, Ne.symm hexit, Ne.symm hpublish, Ne.symm hstop, Ne.symm hrestart]

/-- A pause that stops the engine deactivates at once. -/
theorem applyStimulus_pauses (h : (step r.planner.phase .ssidPause).commands = [.publishInactive, .stopEngine]) :
    applyStimulus e conv w .ssidPause r =
      some (deactivateRuntime e w { r with planner := (plan r.planner .ssidPause).1 }).refresh := by
  unfold applyStimulus
  simp only [plan_kinds, h]
  rfl

/-- The stimulus of a debounce by what has been noticed before. -/
theorem takeDebounceStimulus_eq (w : Outside) (r : Reactor) :
    ∃ ssidPaused wifiChanged, takeDebounceStimulus w r =
      (if ssidOnly r then if paused w r then .ssidPause else .ssidResume
        else if r.topologyChanged then .captureSideDrift else .debounceExpired,
        { r with ssidPaused := ssidPaused, wifiChanged := wifiChanged }) := by
  unfold takeDebounceStimulus ssidOnly paused
  obtain ⟨verdict, changed, heq⟩ := evaluateSsid_eq w r.currentPolicy r
  rw [heq]
  by_cases hwifi : (r.wifiChanged && !r.topologyChanged) = true
  · rw [if_pos hwifi, if_pos hwifi]
    exact ⟨verdict, changed, rfl⟩
  · rw [if_neg hwifi, if_neg hwifi]
    refine ⟨r.ssidPaused, r.wifiChanged, ?_⟩
    split <;> rfl

/-- What the debounce of a state is about, as one stimulus. -/
def debounceStimulus (w : Outside) (r : Reactor) : Stimulus :=
  if ssidOnly r then if paused w r then .ssidPause else .ssidResume
  else if r.topologyChanged then .captureSideDrift else .debounceExpired

/-- It depends on three fields alone. -/
theorem debounceStimulus_congr {r' : Reactor} (hwifi : r'.wifiChanged = r.wifiChanged)
    (htopology : r'.topologyChanged = r.topologyChanged) (hpolicy : r'.currentPolicy = r.currentPolicy) :
    debounceStimulus w r' = debounceStimulus w r := by
  unfold debounceStimulus ssidOnly paused
  rw [hwifi, htopology, hpolicy, evaluateSsid_fst w r.currentPolicy r' r]

theorem debounceStimulus_cases (w : Outside) (r : Reactor) :
    debounceStimulus w r = .ssidPause ∨ debounceStimulus w r = .ssidResume ∨
      debounceStimulus w r = .captureSideDrift ∨ debounceStimulus w r = .debounceExpired := by
  unfold debounceStimulus
  split
  · split
    · exact .inl rfl
    · exact .inr (.inl rfl)
  · split
    · exact .inr (.inr (.inl rfl))
    · exact .inr (.inr (.inr rfl))

/-- The rows of the planner that a debounce can meet while the switch is on. -/
theorem enabled_rows {p : Phase} (hstopping : p ≠ .stopping) (hdisabled : p ≠ .disabled) :
    ((step p .ssidPause).commands = [] ↔ p = .inactive ∨ p = .paused) ∧
      ((step p .ssidResume).commands = [] ↔ p ≠ .paused) ∧
      (step p .captureSideDrift).commands ≠ [] ∧ (step p .debounceExpired).commands ≠ [] := by
  cases p with
  | stopping => exact absurd rfl hstopping
  | disabled => exact absurd rfl hdisabled
  | _ => decide

/-- The row is empty in the phase of an enabled daemon exactly when the debounce is not heard. -/
theorem row_empty_iff (hd : r.disabled = false) :
    (step r.phase (debounceStimulus w r)).commands = [] ↔ Unheard w r := by
  have hphase := phase_eq_observe r
  cases hs : r.shutdownRequested with
  | true =>
    have hoff : r.phase = .stopping ∨ r.phase = .disabled := by
      rw [hphase]
      simp only [Phase.observe, Reactor.observation, hd, hs, Bool.or_true, if_true]
      split
      · exact .inl rfl
      · exact .inr rfl
    refine ⟨fun _ => .inl hs, fun _ => ?_⟩
    rcases debounceStimulus_cases w r with h | h | h | h <;> rw [h] <;> rcases hoff with hoff | hoff <;> rw [hoff] <;> rfl
  | false =>
    have hon : r.phase ≠ .stopping ∧ r.phase ≠ .disabled := by
      rw [hphase]
      simp only [Phase.observe, Reactor.observation, hd, hs, Bool.or_self, Bool.false_eq_true, if_false]
      constructor <;> (repeat' split) <;> decide
    obtain ⟨hpause, hresume, hother⟩ := enabled_rows hon.1 hon.2
    unfold Unheard debounceStimulus
    rw [hs]
    by_cases honly : ssidOnly r = true
    · rw [if_pos honly]
      by_cases hpaused : paused w r = true
      · rw [if_pos hpaused, if_pos hpaused, hpause]
        simp [honly]
      · rw [if_neg hpaused, if_neg hpaused, hresume]
        simp [honly]
    · rw [if_neg honly]
      refine iff_of_false ?_ ?_
      · split
        · exact hother.1
        · exact hother.2
      · simp [honly]

theorem pause_of_cause (h : (ssidOnly r && paused w r) = true) : debounceStimulus w r = .ssidPause := by
  obtain ⟨honly, hpaused⟩ := Bool.and_eq_true_iff.mp h
  rw [debounceStimulus, if_pos honly, if_pos hpaused]

theorem pause_cause (h : debounceStimulus w r = .ssidPause) : (ssidOnly r && paused w r) = true := by
  unfold debounceStimulus at h
  split at h
  · rename_i honly
    split at h
    · rename_i hpaused
      rw [honly, hpaused]
      rfl
    · cases h
  · split at h <;> cases h

/-- A daemon that remembers the switch file has an empty row for every debounce. -/
theorem disabled_row (hd : r.disabled = true) {s : Stimulus}
    (hs : s = .ssidPause ∨ s = .ssidResume ∨ s = .captureSideDrift ∨ s = .debounceExpired) :
    (step r.phase s).commands = [] := by
  have hoff : r.phase = .stopping ∨ r.phase = .disabled := by
    rw [phase_eq_observe]
    simp only [Phase.observe, Reactor.observation, hd, Bool.true_or, if_true]
    split
    · exact .inl rfl
    · exact .inr rfl
  rcases hs with rfl | rfl | rfl | rfl <;> rcases hoff with hoff | hoff <;> rw [hoff] <;> rfl

/-- With the switch file present a convergence deactivates. -/
theorem stopped_convergeWith (srt : Sorter) (fakeipOk : PolicyCandidate → UserConfig → Bool)
    (hshut : r.shutdownRequested = false) (hd : r.disabled = true) :
    ∃ r', convergeWith e srt fakeipOk conv w r = some r' ∧ (Stopped r' ↔ CanFreeze w r) := by
  unfold convergeWith
  rw [hshut, if_neg Bool.false_ne_true, if_pos hd]
  exact ⟨_, rfl, stopped_deactivateRuntime e w _⟩

/-- What the verdict on the Wi-Fi network leaves as it was. -/
structure SameWork (r r' : Reactor) : Prop where
  planner : r'.planner = r.planner
  dataplane : r'.dataplane = r.dataplane
  engine : r'.engine = r.engine
  engineTransaction : r'.engineTransaction = r.engineTransaction
  shutdownRequested : r'.shutdownRequested = r.shutdownRequested
  disabled : r'.disabled = r.disabled

/-- The debounce is one stimulus, and a look at the schedule after it. -/
theorem handleKind_debounce (e : Endian) (conv : Reactor → Option Reactor) (w : Outside) (r : Reactor) :
    ∃ (r' : Reactor) (after : Reactor → Subscription), SameWork r r' ∧
      handleKind e conv w r .debounce =
        (applyStimulus e conv w (debounceStimulus w r) r').map fun r' => { r' with subscription := after r' } := by
  obtain ⟨ssidPaused, wifiChanged, heq⟩ := takeDebounceStimulus_eq w r
  unfold handleKind
  simp only [heq]
  refine ⟨{ r with ssidPaused := ssidPaused, wifiChanged := wifiChanged },
    fun r' => (if r.topologyChanged then maybeRetrySubscriptionOnRoute w r' else r').subscription, ⟨rfl, rfl, rfl, rfl, rfl, rfl⟩, ?_⟩
  refine congrArg₂ Option.map (funext fun r' => ?_) rfl
  split <;> rfl

theorem Stopped.congr {r' : Reactor} (hd : r'.dataplane = r.dataplane) (he : r'.engine = r.engine)
    (ht : r'.engineTransaction = r.engineTransaction) : Stopped r' ↔ Stopped r := by
  unfold Stopped Reactor.active EngineStopping
  rw [hd, he, ht]

theorem CanFreeze.congr {r' : Reactor} (hd : r'.dataplane = r.dataplane) : CanFreeze w r' ↔ CanFreeze w r := by
  unfold CanFreeze Reactor.active
  rw [hd]

end Debounce

/-! ### A switch that its batch does not tell -/

/-- A change of the switch file, the batch without its event, and the debounce that the batch arms. -/
structure LostSwitch (r : Reactor) where
  actions : List WatchAction
  batch : Event
  debounce : Event
  lossy : Lossy actions
  batch_kind : batch.kind = inotify actions
  batch_switch : batch.disabled = !r.disabled
  debounce_kind : debounce.kind = .debounce
  debounce_switch : debounce.disabled = !r.disabled
  /-- A convergence has something to meet. -/
  nested : debounce.nested ≠ []

section Recovery

variable (e : Endian) (srt : Sorter) (fakeipOk : PolicyCandidate → UserConfig → Bool) {r : Reactor}

/-- **A switch that its batch does not tell is acted on exactly when the file has appeared, and nothing is left to
stop or the debounce has a command for the planner's phase.**  A file that is gone is never acted on. -/
theorem lost_switch_recovered_iff (agrees : r.planner.phase = .observe r.observation) (l : LostSwitch r) :
    ∃ r₁ r₂, handle e srt fakeipOk r l.batch = some r₁ ∧ handle e srt fakeipOk r₁ l.debounce = some r₂ ∧
      (Recovered e r₁ l.debounce r₂ ↔ Heeds l.debounce r) := by
  obtain ⟨actions, batch, debounce, lossy, hbatch, hbatchSwitch, hdebounce, hswitch, hnested⟩ := l
  simp only
  obtain ⟨outside, nested, hnested⟩ := List.exists_cons_of_ne_nil hnested
  have hphase : r.planner.phase = r.phase := agrees.trans (phase_eq_observe r).symm
  -- the batch sets flags and nothing else
  obtain ⟨r₁, hr₁, hfirst⟩ : ∃ r₁, handle e srt fakeipOk r batch = some r₁ ∧
      r₁ = { batch.enter r with policyChanged := true, engineConfigChanged := true, policyRetryAvailable := true } := by
    refine ⟨_, ?_, rfl⟩
    unfold handle
    rw [hbatch, lossy.inotify.1]
    show some _ = some _
    refine congrArg some ?_
    simp [Event.enter]
  refine ⟨r₁, ?_⟩
  obtain ⟨x, hx⟩ : ∃ x, x = debounce.enter r₁ := ⟨_, rfl⟩
  have hdataplane : x.dataplane = r.dataplane := by rw [hx, hfirst]; rfl
  have hengine : x.engine = r.engine := by rw [hx, hfirst]; rfl
  have htransaction : x.engineTransaction = r.engineTransaction := by rw [hx, hfirst]; rfl
  have hplanner : x.planner = r.planner := by rw [hx, hfirst]; rfl
  have hshutdown : x.shutdownRequested = r.shutdownRequested := by rw [hx, hfirst]; rfl
  have hstimulus : debounceStimulus debounce.outside x = debounceStimulus debounce.outside r := by
    rw [hx, hfirst]
    exact debounceStimulus_congr rfl rfl rfl
  have hdisabled : x.disabled = !r.disabled := by rw [hx, ← hswitch]; rfl
  by_cases hempty : (step r.phase (debounceStimulus debounce.outside r)).commands = []
  · -- nothing is run, so the state stays as it was
    have hstays : ∀ conv : Reactor → Option Reactor, ∃ r₂, handleKind e conv debounce.outside x .debounce = some r₂ ∧
        (Stopped r₂ ↔ Stopped r) := by
      intro conv
      obtain ⟨y, after, hsame, hkind⟩ := handleKind_debounce e conv debounce.outside x
      have hrow : (step y.planner.phase (debounceStimulus debounce.outside r)).commands = [] := by
        rw [hsame.planner, hplanner, hphase]
        exact hempty
      rw [hkind, hstimulus, applyStimulus_stays e hrow]
      exact ⟨_, rfl, Stopped.congr (hsame.dataplane.trans hdataplane) (hsame.engine.trans hengine)
        (hsame.engineTransaction.trans htransaction)⟩
    obtain ⟨r₂, hr₂, hsame⟩ := hstays (converge e srt fakeipOk debounce.nested)
    refine ⟨r₂, hr₁, ?_, ?_⟩
    · rw [handle, hdebounce, ← hx]
      exact hr₂
    · unfold Recovered Heeds
      rw [hswitch]
      cases hd : r.disabled with
      | true =>
        obtain ⟨r', hr', -⟩ := hstays fun _ => none
        refine iff_of_false ?_ (fun h => absurd h.1 Bool.noConfusion)
        intro hconv
        change handleKind e (fun _ => none) debounce.outside (debounce.enter r₁) debounce.kind = none at hconv
        rw [hdebounce, ← hx, hr'] at hconv
        cases hconv
      | false =>
        show Stopped r₂ ↔ _
        rw [hsame]
        have hunheard := (row_empty_iff hd).mp hempty
        exact ⟨fun h => ⟨rfl, .inl h⟩, fun h => h.2.resolve_right fun hne => hne.1 hunheard⟩
  · have hd : r.disabled = false := by
      by_contra hd
      rw [Bool.not_eq_false] at hd
      exact hempty (disabled_row hd (debounceStimulus_cases debounce.outside r))
    have hheard : ¬Unheard debounce.outside r := fun h => hempty ((row_empty_iff hd).mpr h)
    have hshut : r.shutdownRequested = false := Bool.eq_false_iff.mpr fun hs => hheard (.inl hs)
    rw [hd, Bool.not_false] at hdisabled
    suffices hstep : ∃ r₂, handleKind e (converge e srt fakeipOk debounce.nested) debounce.outside x .debounce = some r₂ ∧
        (Stopped r₂ ↔ CanFreeze (stopOutside debounce r) r) by
      obtain ⟨r₂, hr₂, hsame⟩ := hstep
      refine ⟨r₂, hr₁, ?_, ?_⟩
      · rw [handle, hdebounce, ← hx]
        exact hr₂
      · unfold Recovered Heeds
        rw [hswitch, hd]
        show Stopped r₂ ↔ _
        rw [hsame]
        refine ⟨fun h => ⟨rfl, .inr ⟨hheard, h⟩⟩, ?_⟩
        rintro ⟨-, hstop | ⟨-, hcan⟩⟩
        · exact .inl hstop.1
        · exact hcan
    obtain ⟨y, after, hsame, hkind⟩ :=
      handleKind_debounce e (converge e srt fakeipOk debounce.nested) debounce.outside x
    have hyDataplane := hsame.dataplane.trans hdataplane
    rw [hkind, hstimulus]
    rw [← hphase, ← hplanner, ← hsame.planner] at hempty
    rcases debounce_row y.planner.phase (debounceStimulus_cases debounce.outside r) with hnone | ⟨hpause, hrow⟩ |
      ⟨kind, hkindConverges, hrow⟩
    · exact absurd hnone hempty
    · rw [hpause] at hrow ⊢
      rw [applyStimulus_pauses hrow, stopOutside, if_pos (pause_cause hpause), ← CanFreeze.congr hyDataplane]
      exact ⟨_, rfl, stopped_deactivateRuntime e debounce.outside _⟩
    · have hcause : ¬(ssidOnly r && paused debounce.outside r) = true := by
        intro hcause
        rw [pause_of_cause hcause] at hrow
        revert hrow hkindConverges
        cases y.planner.phase <;> cases kind <;> decide
      rw [applyStimulus_converges hkindConverges hrow, hnested, converge, stopOutside, if_neg hcause, hnested,
        List.headD_cons, ← CanFreeze.congr hyDataplane]
      have hconverged := @stopped_convergeWith e (converge e srt fakeipOk nested) outside
        { y with planner := (plan y.planner (debounceStimulus debounce.outside r)).1 } srt fakeipOk
        (hsame.shutdownRequested.trans (hshutdown.trans hshut)) (hsame.disabled.trans hdisabled)
      obtain ⟨r', hr', hstop⟩ := hconverged
      rw [hr']
      exact ⟨_, rfl, hstop⟩

end Recovery

/-- What the kernel queues in place of the events that it dropped. -/
def overflowEvent : WatchEvent := ⟨-1, IN_Q_OVERFLOW, ""⟩

/-- The batch of an overflow, with the switch file as the handler finds it. -/
def overflowBatch (disabled : Bool) : Event where
  disabled := disabled
  kind := inotify ([overflowEvent].filterMap (classify · 1 2 none))

def debounceEvent (disabled : Bool) : Event where
  disabled := disabled
  kind := .debounce
  nested := [{ policy := some startPolicy, user := some "" }]

/-- The event that the kernel queues for an overflow is lossy. -/
theorem lossy_overflow : Lossy ([overflowEvent].filterMap (classify · 1 2 none)) := by
  have hactions : [overflowEvent].filterMap (classify · 1 2 none) = [.overflow] := by decide
  rw [hactions]
  exact ⟨by decide, .inl (by decide)⟩

/-- The file appears before anything has run. -/
def lostDisable : LostSwitch (Reactor.new (.open false (.init false)) false) where
  actions := [overflowEvent].filterMap (classify · 1 2 none)
  batch := overflowBatch true
  debounce := debounceEvent true
  lossy := lossy_overflow
  batch_kind := rfl
  batch_switch := rfl
  debounce_kind := rfl
  debounce_switch := rfl
  nested := List.cons_ne_nil _ _

theorem lost_switch_recovered_iff_new : ∃ r₁ r₂,
    handle .little insertionSorter (fun _ _ => true) (Reactor.new (.open false (.init false)) false) (overflowBatch true) =
        some r₁ ∧
      handle .little insertionSorter (fun _ _ => true) r₁ (debounceEvent true) = some r₂ ∧ Stopped r₂ := by
  obtain ⟨r₁, r₂, hr₁, hr₂, hiff⟩ := lost_switch_recovered_iff .little insertionSorter (fun _ _ => true) rfl lostDisable
  exact ⟨r₁, r₂, hr₁, hr₂, hiff.mpr ⟨rfl, .inl ⟨rfl, rfl⟩⟩⟩

/-- A daemon that started with the switch file present. -/
def startDisabled : Option Reactor :=
  start .little insertionSorter (fun _ _ => true) (.open false (.init false)) false { disabled := true, kind := .other }

/-- The handler of these runs. -/
abbrev coldHandle : Reactor → Event → Option Reactor := handle .little insertionSorter fun _ _ => true

/-- A Wi-Fi network that `[ssid]` lists, and that does not pause. -/
def listedNetwork : Outside where
  policy := some { startPolicy with ssidListed := true }
  user := some "new"
  ssid := .verdict false false

/-- An active daemon that has read a policy with an `[ssid]` list, with a change of the network that waits for its
debounce. -/
def wifiEvents : List Event :=
  keptEvents ++ [{ disabled := false, kind := .reload, nested := [listedNetwork] },
    { disabled := false, kind := .nl80211 }]

/-- The debounce finds the switch file and the listed network. -/
def wifiDebounce : Event where
  disabled := true
  kind := .debounce
  outside := listedNetwork
  nested := [listedNetwork]

/-- The switch file is removed and its event overflows: nothing converges.  It is created while the Wi-Fi network
changes to one that does not pause: the engine goes on. -/
theorem lost_switch_ignored :
    (∃ r₀ r₁ r₂, startDisabled = some r₀ ∧ r₀.planner.phase = .observe r₀.observation ∧ r₀.disabled = true ∧
      coldHandle r₀ (overflowBatch false) = some r₁ ∧ coldHandle r₁ (debounceEvent false) = some r₂ ∧
      ¬Recovered .little r₁ (debounceEvent false) r₂) ∧
    ∃ r₀ r₁ r₂, coldRun wifiEvents = some r₀ ∧ r₀.planner.phase = .observe r₀.observation ∧ r₀.disabled = false ∧
      r₀.currentPolicy.any (·.ssidListed) = true ∧
      coldHandle r₀ (overflowBatch true) = some r₁ ∧ coldHandle r₁ wifiDebounce = some r₂ ∧
      ¬Recovered .little r₁ wifiDebounce r₂ := by
  have hremoved : (startDisabled.any fun r₀ => decide (r₀.planner.phase = .observe r₀.observation) && r₀.disabled &&
      (coldHandle r₀ (overflowBatch false)).any fun r₁ =>
        (handleKind .little (fun _ => none) (debounceEvent false).outside ((debounceEvent false).enter r₁) .debounce).isSome &&
          (coldHandle r₁ (debounceEvent false)).isSome) = true := by
    decide +kernel
  have hcreated : ((coldRun wifiEvents).any fun r₀ => decide (r₀.planner.phase = .observe r₀.observation) &&
      (!r₀.disabled && r₀.currentPolicy.any (·.ssidListed)) && (coldHandle r₀ (overflowBatch true)).any fun r₁ =>
        (coldHandle r₁ wifiDebounce).any fun r₂ => r₂.active) = true := by
    decide +kernel
  constructor
  · obtain ⟨r₀, hr₀, h⟩ := (Option.any_eq_true _ _).mp hremoved
    obtain ⟨hfacts, h⟩ := Bool.and_eq_true_iff.mp h
    obtain ⟨hphase, hdisabled⟩ := Bool.and_eq_true_iff.mp hfacts
    obtain ⟨r₁, hr₁, h⟩ := (Option.any_eq_true _ _).mp h
    obtain ⟨hquiet, h⟩ := Bool.and_eq_true_iff.mp h
    obtain ⟨r₂, hr₂⟩ := Option.isSome_iff_exists.mp h
    refine ⟨r₀, r₁, r₂, hr₀, of_decide_eq_true hphase, hdisabled, hr₁, hr₂, ?_⟩
    intro hconverges
    change handleKind .little (fun _ => none) (debounceEvent false).outside _ .debounce = none at hconverges
    rw [hconverges] at hquiet
    exact Bool.false_ne_true hquiet
  · obtain ⟨r₀, hr₀, h⟩ := (Option.any_eq_true _ _).mp hcreated
    obtain ⟨hfacts, h⟩ := Bool.and_eq_true_iff.mp h
    obtain ⟨hphase, hread⟩ := Bool.and_eq_true_iff.mp hfacts
    obtain ⟨hdisabled, hlisted⟩ := Bool.and_eq_true_iff.mp hread
    obtain ⟨r₁, hr₁, h⟩ := (Option.any_eq_true _ _).mp h
    obtain ⟨r₂, hr₂, hactive⟩ := (Option.any_eq_true _ _).mp h
    refine ⟨r₀, r₁, r₂, hr₀, of_decide_eq_true hphase, by simpa using hdisabled, hlisted, hr₁, hr₂, ?_⟩
    intro hstopped
    exact Bool.false_ne_true (hstopped.1.symm.trans hactive)

end FluxRs.Daemon
