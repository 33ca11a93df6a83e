import FluxRs.Daemon.Convergence

/-!
# FluxRs.Daemon.Capture — capture and the engine behind it

The invariant through every handler and every run.  Its last part, that an active data plane has a
committed engine, fails in three places, and the condition of the run theorem names them: an exit of the
engine that the planner does not expect, a backoff that finds the switch file, and a convergence whose
`GET_STATUS` fails.
-/

namespace FluxRs.Daemon

open FluxRs.Lib FluxRs.Net FluxRs.Kmod FluxRs.Dataplane

variable {C F : Prop} {r : Reactor}

/-! ### Commands -/

theorem cancelEngineWork_engine (h : r.engine = none) : (cancelEngineWork r).engine = none := by
  unfold cancelEngineWork
  simp only
  split
  · split
    · rfl
    · exact h
  · exact h
  · exact h
  · exact h

/-- Apart from an exit, the table stops an engine only where it freezes the plane too. -/
theorem step_stops_frozen (p : Phase) (s : Stimulus) (hs : s ≠ .engineExited) :
    .stopEngine ∈ (step p s).commands ∨ .restartWithBackoff ∈ (step p s).commands →
      .exitProcess ∈ (step p s).commands ∨
        (s = .disable ∨ s = .ssidPause) ∧ .stopEngine ∈ (step p s).commands ∨
        .publishInactive ∈ (step p s).commands := by
  cases s with
  | engineExited => exact absurd rfl hs
  | interfaceGone last => cases p <;> cases last <;> decide
  | _ => cases p <;> decide

section Handlers

variable {conv : Reactor → Option Reactor} (hconv : Conv C F conv) {w : Outside}
variable (hw : C → w.publishFault = none)

section

include hw

/-- A freeze keeps the invariant, whatever the publication comes to. -/
theorem Inv.freeze (h : Inv C r) : Inv C (freeze w r) := by
  have hp := h.publishInactive hw
  unfold Daemon.freeze
  split
  · rename_i heq
    rwa [heq] at hp
  · rename_i heq
    rw [heq] at hp
    exact hp.recordDataplaneError

/-- Where publications succeed nothing is captured after a freeze. -/
theorem freeze_frozen (hC : C) (r : Reactor) : (freeze w r).active = false := by
  have hp := publishInactive_frozen hw hC r
  unfold freeze
  split
  · rename_i heq
    rwa [heq] at hp
  · rename_i heq
    rwa [heq] at hp

end

theorem freeze_engine (w : Outside) (r : Reactor) : (freeze w r).engine = r.engine := by
  have hp : (publishInactive w r).2.engine = r.engine := rfl
  unfold freeze
  split
  · rename_i heq
    rwa [heq] at hp
  · rename_i heq
    rwa [heq] at hp

include hconv hw

/-- The commands of a stimulus keep the invariant: those that end the engine freeze first, exit, or follow the switch.
-/
theorem Inv.executeCommands (h : Inv C r) (hF : F → r.engine = none) (e : Endian)
    {kinds : List CommandKind} {s : Stimulus}
    (hstop : .stopEngine ∈ kinds ∨ .restartWithBackoff ∈ kinds →
      .exitProcess ∈ kinds ∨ (s = .disable ∨ s = .ssidPause) ∧ .stopEngine ∈ kinds ∨
        .publishInactive ∈ kinds) :
    Ends C (executeCommands e conv w kinds s r) := by
  unfold Daemon.executeCommands
  split
  · exact ends_some.mpr (h.requestShutdown hw)
  rename_i hexit
  split
  · exact ends_some.mpr (h.deactivateRuntime e w)
  rename_i hdown
  simp only [List.contains_eq_mem, decide_eq_true_eq, Bool.and_eq_true, Bool.or_eq_true,
    beq_iff_eq] at hexit hdown
  -- what is left stops the engine under a frozen plane only
  have hpub : Inv C (if kinds.contains .publishInactive then Daemon.freeze w r else r) ∧
      (if kinds.contains .publishInactive then Daemon.freeze w r else r).engine = r.engine := by
    split
    · exact ⟨h.freeze hw, freeze_engine w r⟩
    · exact ⟨h, rfl⟩
  have hfrozen : .stopEngine ∈ kinds ∨ .restartWithBackoff ∈ kinds → C →
      (if kinds.contains .publishInactive then Daemon.freeze w r else r).active = false := by
    intro hk hC
    have hmem := ((hstop hk).resolve_left hexit).resolve_left hdown
    rw [if_pos (by simpa using hmem)]
    exact freeze_frozen hw hC r
  generalize (if kinds.contains .publishInactive then Daemon.freeze w r else r) = r₁ at hpub hfrozen
  obtain ⟨h₁, he₁⟩ := hpub
  have hcancel : Inv C (if kinds.contains .stopEngine || kinds.contains .restartWithBackoff then
        Daemon.cancelEngineWork { r₁ with engineCancelRequested := true } else r₁) ∧
      (F → (if kinds.contains .stopEngine || kinds.contains .restartWithBackoff then
        Daemon.cancelEngineWork { r₁ with engineCancelRequested := true } else r₁).engine = none) := by
    split
    · rename_i hk
      refine ⟨h₁.cancelEngineWork (hfrozen (by simpa using hk)), fun hf => ?_⟩
      exact cancelEngineWork_engine (he₁.trans (hF hf))
    · exact ⟨h₁, fun hf => he₁.trans (hF hf)⟩
  simp only
  split
  · exact hconv _ hcancel.1 hcancel.2
  · exact ends_some.mpr hcancel.1

/-- Every stimulus but the exit of the engine, which `reap_engine` answers, is planned with its freeze. -/
theorem Inv.applyStimulus (h : Inv C r) (hF : F → r.engine = none) (e : Endian) {s : Stimulus}
    (hs : s ≠ .engineExited) : Ends C (applyStimulus e conv w s r) := by
  have hr : Inv C { r with planner := (plan r.planner s).1 } := h.congr rfl rfl rfl rfl rfl rfl
  unfold Daemon.applyStimulus
  simp only [plan_kinds]
  split
  · exact ends_some.mpr (h.congr rfl rfl rfl rfl rfl rfl)
  split
  · exact ends_some.mpr hr
  · exact (hr.executeCommands hconv hw hF e (step_stops_frozen r.planner.phase s hs)).refresh

/-! ### Engine transaction -/

omit hw in
theorem Halted.finishWaitingExit (h : Halted C r) (he : r.engine = none) (child : EngineChild)
    (role : WaitRole) : Ends C (finishWaitingExit conv w child role r) := by
  have hr : Halted C (terminate w child { r with diagProbe := false }) :=
    ⟨h.live, h.role, h.frozen, h.shut⟩
  unfold Daemon.finishWaitingExit
  simp only
  split
  · exact hr.beginCandidateFailure hconv he _ _
  · exact hr.finishTransactionError hconv he _

omit hw in
theorem Halted.advanceWaiting (h : Halted C r) (he : r.engine = none) (child : EngineChild)
    (role : WaitRole) : Ends C (advanceWaiting conv w child role r) := by
  unfold Daemon.advanceWaiting
  split
  · exact ends_some.mpr (h.hold rfl rfl he rfl rfl)
  split
  · exact h.finishWaitingExit hconv he child role
  split
  · exact ends_some.mpr (h.beginStop he _ _)
  split
  · exact ends_some.mpr (h.beginStop he _ _)
  · exact ends_some.mpr (h.hold rfl rfl he rfl rfl)
  split
  · exact ends_some.mpr (h.waitForChild he _ _)
  split
  · exact ends_some.mpr (h.hold rfl rfl he rfl rfl)
  · exact ends_some.mpr (h.beginStop he _ _)

/-- A ready child takes the engine's place; only the commit itself can activate. -/
theorem Halted.promoteReadyChild (h : Halted C r) (he : r.engine = none)
    (ht : r.engineTransaction = none) (hkept : r.engineCancelRequested = false) (hF : ¬ F)
    (e : Endian) (child : EngineChild) (role : WaitRole) :
    Ends C (promoteReadyChild e conv w child role r) := by
  have hs : r.shutdownRequested = false := by
    by_contra hs
    exact absurd (hkept.symm.trans (h.shut (by simpa using hs))) (by decide)
  have hpromoted : Inv C { r with
      diagProbe := false, engine := some child, activationRole := some role
      engineCancelRequested := false } :=
    { live := h.live
      single := fun _ t ht' => by cases ht.symm.trans ht'
      role := fun _ => ⟨by simp, ht⟩
      shut := fun hs' => absurd (hs.symm.trans hs') (by decide)
      capture := fun hC ha => absurd ((h.frozen hC).symm.trans ha) (by decide) }
  unfold Daemon.promoteReadyChild
  simp only
  split
  · exact ends_some.mpr (h.hold rfl rfl he rfl rfl)
  · exact hpromoted.startPhase6 hconv (by simp) ht hs (fun hf => absurd hf hF) hw e _

omit hw in
theorem Halted.completeStopped (h : Halted C r) (he : r.engine = none) (child : EngineChild)
    (next : StopNext) : Ends C (completeStopped conv w child next r) := by
  have hr : Halted C (terminate w child r) := ⟨h.live, h.role, h.frozen, h.shut⟩
  have hremoved : Halted C (removeEffective child.params.generation (terminate w child r)) :=
    ⟨h.live, h.role, h.frozen, h.shut⟩
  unfold Daemon.completeStopped
  simp only
  split
  · split
    · exact Halted.finishCancelled hconv ⟨h.live, h.role, h.frozen, h.shut⟩
    · exact hr.startCandidate hconv he _
  · exact hremoved.beginCandidateFailure hconv he _ _
  · exact hremoved.finishTransactionError hconv he _
  · exact hremoved.finishCancelled hconv

omit hconv hw in
theorem Halted.stopConfirmationFailed (h : Halted C r) (child : EngineChild) (next : StopNext) :
    Inv C (stopConfirmationFailed w child next r) := by
  have hr : Inv C { r with
      subscription := next.discard r.subscription, host := r.host.cleanupStopNext next
      generations := r.generations.commit child.params.generation
      engine := some child, engineTransaction := none, engineCancelRequested := false } :=
    h.clear rfl rfl rfl
  exact (hr.resumeQueued (w := w)).congr rfl rfl rfl rfl rfl rfl

/-- A check may also end as another one, as long as nobody cancels it. -/
theorem Inv.completeCheck (h : Inv C r) (hF : F → r.engine = none) {plan : SwitchPlan}
    {d d' : CheckDisposition} (ht : r.engineTransaction = some (.checking plan d))
    (hd : d' = .cancelled → d = .cancelled) (error : Option EngineError) :
    Ends C (completeCheck conv w plan d' error { r with engineTransaction := none }) := by
  have hrole := h.role_none (by simp [ht])
  have hshut : r.shutdownRequested = true → r.engineCancelRequested = true := fun hs =>
    (h.shut hs).2 (by simp [ht])
  have hcancelled : (C → r.active = false) → Ends C (Daemon.finishCancelled conv
      (removeEffective plan.params.generation { r with engineTransaction := none })) := fun hf =>
    Halted.finishCancelled hconv ⟨h.live, hrole, hf, hshut⟩
  have hremoved : Inv C
      (removeEffective plan.params.generation { r with engineTransaction := none }) :=
    h.drop.congr rfl rfl rfl rfl rfl rfl
  have hfail : ∀ err, Ends C (Daemon.finishTransactionError conv w err
      (removeEffective plan.params.generation { r with engineTransaction := none })) := fun err =>
    hremoved.finishTransactionError hconv hF err
  unfold Daemon.completeCheck
  simp only
  split
  · exact hcancelled fun hC => h.frozen_of hC fun c => c.check plan (by rw [ht, hd rfl])
  · exact hfail _
  · exact hfail _
  split
  · exact hfail _
  split
  · rename_i hc
    exact hcancelled fun hC => h.frozen_of hC fun c => absurd (c.kept.symm.trans hc) (by decide)
  split
  · rename_i he
    have hfrozen := fun hC : C => h.frozen_of hC fun c => c.engine he
    exact Halted.startCandidate hconv ⟨h.live, hrole, hfrozen, hshut⟩ he plan
  · rename_i child he
    have hpub := h.publishInactive hw
    have hfrozen := fun hC : C => publishInactive_frozen hw hC r
    unfold Daemon.publishInactive Reactor.active at hfrozen
    unfold Daemon.publishInactive at hpub ⊢
    simp only at hpub hfrozen ⊢
    generalize Dataplane.publishInactive w.publishFault r.dataplane = x at hpub hfrozen
    obtain ⟨result, p⟩ := x
    cases result with
    | error err =>
      have hkept : Inv C { removeEffective plan.params.generation
          { r with engineTransaction := none, engine := none, dataplane := p } with
            engine := some child } :=
        hpub.drop.congr rfl he.symm rfl rfl rfl rfl
      exact hkept.finishTransactionError hconv
        (fun hf => absurd (he.symm.trans (hF hf)) (by simp)) _
    | ok _ =>
      exact ends_some.mpr (Halted.beginStop
        (r := { r with engineTransaction := none, engine := none, dataplane := p })
        ⟨hpub.live, hrole, hfrozen, hshut⟩ rfl _ _)

theorem Inv.handleCheckExit (h : Inv C r) (hF : F → r.engine = none) :
    Ends C (handleCheckExit conv w r) := by
  unfold Daemon.handleCheckExit
  split
  · rename_i plan d ht
    split
    · exact h.completeCheck hconv hw hF ht id _
    · exact ends_some.mpr h
    · exact ends_some.mpr (h.setCheck ht fun hd => by cases hd)
  · exact ends_some.mpr h

theorem Inv.handleEngineTimer (h : Inv C r) (hF : F → r.engine = none) :
    Ends C (handleEngineTimer conv w r) := by
  unfold Daemon.handleEngineTimer
  simp only
  split
  · exact ends_some.mpr h
  · rename_i plan d ht
    have hd : (if d == .normal && w.deadlinePassed then CheckDisposition.timedOut else d) = .cancelled →
        d = .cancelled := by
      split
      · exact fun hd => by cases hd
      · exact id
    split
    · exact h.completeCheck hconv hw hF ht hd _
    · exact ends_some.mpr (h.setCheck ht hd)
    · exact ends_some.mpr (h.setCheck ht fun hd => by cases hd)
  · rename_i child role ht
    have he := h.engine_none_of_waiting ht
    exact (h.halted_taken he (by simp [ht])).advanceWaiting hconv he child role
  · rename_i child next killSent ht
    have he := h.engine_none_of_stopping ht
    have hhalted := h.halted_taken he (by simp [ht])
    split
    · exact hhalted.completeStopped hconv he child next
    split
    · exact ends_some.mpr h
    split
    · exact ends_some.mpr (hhalted.hold rfl rfl he rfl rfl)
    · exact ends_some.mpr (hhalted.stopConfirmationFailed child next)

omit hw in
theorem Inv.handleTransactionPidfd (h : Inv C r) : Ends C (handleTransactionPidfd conv w r) := by
  unfold Daemon.handleTransactionPidfd
  simp only
  split
  · rename_i child role ht
    have he := h.engine_none_of_waiting ht
    exact (h.halted_taken he (by simp [ht])).advanceWaiting hconv he child role
  · rename_i child next killSent ht
    have he := h.engine_none_of_stopping ht
    exact (h.halted_taken he (by simp [ht])).completeStopped hconv he child next
  · exact ends_some.mpr h

theorem Inv.handleSockDiag (h : Inv C r)
    (hF : F → ∀ child role, r.engineTransaction ≠ some (.waiting child role)) (e : Endian) :
    Ends C (handleSockDiag e conv w r) := by
  unfold Daemon.handleSockDiag
  split
  · exact ends_some.mpr h
  simp only
  split
  · rename_i child role ht
    have he := h.engine_none_of_waiting ht
    have h₀ := h.halted_taken he (by simp [ht])
    have h₁ : Halted C { r with diagProbe := false, engineTransaction := none } :=
      ⟨h₀.live, h₀.role, h₀.frozen, h₀.shut⟩
    split
    · exact ends_some.mpr (h₁.hold rfl rfl he rfl rfl)
    rename_i hkept
    split
    · exact h₁.finishWaitingExit hconv he child role
    split
    · exact ends_some.mpr (h₁.beginStop he _ _)
    split
    · exact ends_some.mpr (h₁.hold rfl rfl he rfl rfl)
    · exact ends_some.mpr (h₁.waitForChild he _ _)
    · exact h₁.promoteReadyChild hconv hw he rfl (by simpa using hkept)
        (fun hf => hF hf child role ht) e child role
    · exact ends_some.mpr (h₁.beginStop he _ _)
  · exact ends_some.mpr (h.drop.congr rfl rfl rfl rfl rfl rfl)

omit hconv in
theorem Inv.freezeForExit (h : Inv C r) (kinds : List CommandKind) :
    Inv C (freezeForExit w kinds r) := by
  unfold Daemon.freezeForExit
  split
  · exact h
  split
  · exact h.publishInactive hw
  · exact h

omit hconv in
/-- The planner freezes the plane when it expects an engine; where it does not, nothing may be active. -/
theorem freezeForExit_frozen (hC : C) {p : Phase} (hp : r.active = true → p = .activating ∨ p = .active) :
    (freezeForExit w (step p .engineExited).commands r).active = false := by
  have hpub := publishInactive_frozen hw hC r
  unfold freezeForExit
  cases ha : r.active with
  | true => rcases hp ha with rfl | rfl <;> exact hpub
  | false =>
    split
    · exact ha
    split
    · exact hpub
    · exact ha

omit hw in
/-- The engine is gone: the invariant holds where nothing is captured any more. -/
theorem Inv.reapEngine (h : Inv C r) (hfrozen : C → r.active = false) :
    Ends C (reapEngine conv w r) := by
  unfold Daemon.reapEngine
  simp only
  split
  · exact ends_some.mpr h
  rename_i child hchild
  split
  · rename_i plan hrole
    have hrole' : r.activationRole = some (.candidate plan) := hrole
    have ht := h.takeRole (by simp [hrole'])
    refine Halted.beginCandidateFailure hconv ?_ rfl plan .exited
    exact ⟨ht.live, rfl, ht.frozen, ht.shut⟩
  · rename_i err hrole
    have hrole' : r.activationRole = some (.recovery err) := hrole
    have ht := h.takeRole (by simp [hrole'])
    refine Halted.finishTransactionError hconv ?_ rfl err
    exact ⟨ht.live, rfl, ht.frozen, ht.shut⟩
  · rename_i hrole
    have hlost : Inv C { r with engine := none } :=
      { live := h.live
        single := fun hne => absurd rfl hne
        role := fun hne => absurd hrole hne
        shut := h.shut
        capture := fun hC ha => absurd ((hfrozen hC).symm.trans ha) (by decide) }
    refine ends_some.mpr ?_
    split
    · exact hlost.congr rfl rfl rfl rfl rfl rfl
    · exact hlost.congr rfl rfl rfl rfl rfl rfl

/-- The exit of an engine that captures is met in a phase whose row freezes. -/
theorem Inv.handleEngineExit (h : Inv C r)
    (hexit : C → r.active = true → r.planner.phase = .activating ∨ r.planner.phase = .active) :
    Ends C (handleEngineExit conv w r) := by
  have hr : Inv C { r with planner := (plan r.planner .engineExited).1 } :=
    h.congr rfl rfl rfl rfl rfl rfl
  unfold Daemon.handleEngineExit
  simp only [plan_kinds]
  refine (Inv.reapEngine hconv (hr.freezeForExit hw _).cancelAttachment fun hC => ?_).refresh
  exact freezeForExit_frozen hw hC (hexit hC)

/-! ### The loop -/

omit hconv hw in
/-- The debounce never reports an exit, and touches none of what the invariant is about. -/
theorem takeDebounceStimulus_spec (w : Outside) (r : Reactor) :
    (takeDebounceStimulus w r).1 ≠ .engineExited ∧ Keeps r (takeDebounceStimulus w r).2 := by
  unfold takeDebounceStimulus
  split
  · refine ⟨?_, evaluateSsid_keeps w r.currentPolicy r⟩
    simp only
    split <;> simp
  split
  · exact ⟨by simp, .refl r⟩
  · exact ⟨by simp, .refl r⟩

/-- Where the handlers may meet an active plane. -/
structure Covers (C F : Prop) (kind : EventKind) (r : Reactor) : Prop where
  exit : C → kind = .engineExit → r.active = true →
    r.planner.phase = .activating ∨ r.planner.phase = .active
  backoff : C → kind = .backoff → r.disabled = true → r.active = false
  engine : F → r.engine = none
  probe : F → ∀ child role, r.engineTransaction ≠ some (.waiting child role)

/-- The step lemma over the kinds of events. -/
theorem Inv.handleKind (h : Inv C r) {kind : EventKind} (hc : Covers C F kind r) (e : Endian) :
    Ends C (handleKind e conv w r kind) := by
  unfold Daemon.handleKind
  cases kind with
  | enable written =>
    simp only
    split
    · have hr : Inv C { r with disabled := false } := h.congr rfl rfl rfl rfl rfl rfl
      exact hr.applyStimulus hconv hw hc.engine e (by simp)
    · exact ends_some.mpr h
  | disable written =>
    simp only
    split
    · have hr : Inv C { r with disabled := true } := h.congr rfl rfl rfl rfl rfl rfl
      exact hr.applyStimulus hconv hw hc.engine e (by simp)
    · exact ends_some.mpr h
  | reload =>
    have hr : Inv C { r with reloadRequested := true, policyRetryAvailable := true } :=
      h.congr rfl rfl rfl rfl rfl rfl
    exact hr.applyStimulus hconv hw hc.engine e (by simp)
  | sighup =>
    have hr : Inv C { r with reloadRequested := true, policyRetryAvailable := true } :=
      h.congr rfl rfl rfl rfl rfl rfl
    exact hr.applyStimulus hconv hw hc.engine e (by simp)
  | stop =>
    intro r' hr'
    obtain ⟨r₁, h₁, rfl⟩ := Option.map_eq_some_iff.mp hr'
    exact (h.applyStimulus hconv hw hc.engine e (by simp) r₁ h₁).requestShutdown hw
  | sigterm => exact h.applyStimulus hconv hw hc.engine e (by simp)
  | inotify switch policy engineConfig =>
    intro r' hr'
    obtain ⟨r₁, h₁, rfl⟩ := Option.map_eq_some_iff.mp hr'
    have hsw : Inv C r₁ := by
      split at h₁
      · exact h.applyStimulus hconv hw hc.engine e (by split <;> simp) r₁ h₁
      · exact Option.some.inj h₁ ▸ h
    exact hsw.congr rfl rfl rfl rfl rfl rfl
  | rtnetlink => exact ends_some.mpr (h.congr rfl rfl rfl rfl rfl rfl)
  | nl80211 =>
    refine ends_some.mpr ?_
    split
    · exact h
    · exact h.congr rfl rfl rfl rfl rfl rfl
  | debounce =>
    obtain ⟨hs, k⟩ := takeDebounceStimulus_spec w r
    intro r' hr'
    obtain ⟨r₁, h₁, rfl⟩ := Option.map_eq_some_iff.mp hr'
    have hstep : Inv C r₁ :=
      (k.inv h).applyStimulus hconv hw (fun hf => k.engine.trans (hc.engine hf)) e hs r₁ h₁
    split
    · exact hstep.congr rfl rfl rfl rfl rfl rfl
    · exact hstep
  | backoff =>
    have hr : Inv C { r with backoffArmed := false } := h.congr rfl rfl rfl rfl rfl rfl
    simp only
    split
    · rename_i hoff
      refine ends_some.mpr (hr.cancelEngineWork fun hC => ?_)
      rcases Bool.or_eq_true_iff.mp hoff with hs | hd
      · exact h.frozen_of_shutdown hC hs
      · exact hc.backoff hC rfl hd
    · exact hr.applyStimulus hconv hw hc.engine e (by simp)
  | engineExit => exact h.handleEngineExit hconv hw fun hC => hc.exit hC rfl
  | engineTimer => exact h.handleEngineTimer hconv hw hc.engine
  | transactionPidfd => exact h.handleTransactionPidfd hconv
  | checkExit => exact h.handleCheckExit hconv hw hc.engine
  | sockDiag => exact h.handleSockDiag hconv hw hc.probe e
  | subscription answers =>
    have hr : Inv C (handleSubscriptionResult w answers r).2 := h.congr rfl rfl rfl rfl rfl rfl
    have he : (handleSubscriptionResult w answers r).2.engine = r.engine := rfl
    simp only
    generalize handleSubscriptionResult w answers r = x at hr he ⊢
    obtain ⟨verdict, r₁⟩ := x
    cases verdict with
    | discarded => exact ends_some.mpr hr
    | empty => exact ends_some.mpr hr.resumeQueued
    | accepted =>
      exact hconv _ (hr.congr rfl rfl rfl rfl rfl rfl) fun hf => he.trans (hc.engine hf)
  | subscribe => exact ends_some.mpr (h.congr rfl rfl rfl rfl rfl rfl)
  | subscriptionTimer => exact ends_some.mpr (h.congr rfl rfl rfl rfl rfl rfl)
  | other => exact ends_some.mpr h

end Handlers

/-! ### Runs -/

/-- `publish_inactive` succeeds wherever the step calls it. -/
def PublishSucceeds (ev : Event) : Prop :=
  ev.outside.publishFault = none ∧ ∀ w ∈ ev.nested, w.publishFault = none

/-- A child waits for its readiness. -/
def isWaiting : Option EngineTransaction → Bool
  | some (.waiting _ _) => true
  | _ => false

/-- A child is promoted, or may be in this step. -/
def HasChild (r : Reactor) : Prop := r.engine ≠ none ∨ isWaiting r.engineTransaction = true

/-- The three places where capture can lose its engine are not reached. -/
def EngineGuarded (r : Reactor) (ev : Event) : Prop :=
  (ev.kind = .engineExit → r.active = true →
    r.planner.phase = .activating ∨ r.planner.phase = .active) ∧
  (ev.kind = .backoff → ev.disabled = true → r.active = false) ∧
  (HasChild r → ∀ w ∈ ev.nested, w.up.statusFault = none)

instance (ev : Event) : Decidable (PublishSucceeds ev) := inferInstanceAs (Decidable (_ ∧ _))

instance (r : Reactor) : Decidable (HasChild r) := inferInstanceAs (Decidable (_ ∨ _))

instance (r : Reactor) (ev : Event) : Decidable (EngineGuarded r ev) :=
  inferInstanceAs (Decidable ((_ → _ → _ ∨ _) ∧ (_ → _ → _) ∧ (_ → _)))

section Run

variable (e : Endian) (srt : Sorter) (fakeipOk : PolicyCandidate → UserConfig → Bool)

theorem Inv.init (resident : Bool) (k : Kernel) (badPageSize : Bool) :
    Inv C (.new (.open resident k) badPageSize) where
  live := .init resident k
  single hne := absurd rfl hne
  role hne := absurd rfl hne
  shut hs := by cases hs
  capture _ ha := by cases ha

/-- The first convergence. -/
theorem Inv.start (resident : Bool) (k : Kernel) (badPageSize : Bool) {ev : Event}
    (hpub : C → PublishSucceeds ev) :
    Ends C (start e srt fakeipOk (.open resident k) badPageSize ev) := by
  have hconv : Conv C True (Daemon.converge e srt fakeipOk ev.nested) :=
    conv_converge e srt fakeipOk fun w hmem hC =>
      ⟨(hpub hC).2 w hmem, fun hf => absurd trivial hf⟩
  have h : Inv C (Reactor.refresh
      { Reactor.new (.open resident k) badPageSize with
        disabled := ev.disabled
        subscription := .new ev.cache
        host := { Host.new with stuck := ev.stuck } }) :=
    Inv.refresh ((Inv.init resident k badPageSize).congr rfl rfl rfl rfl rfl rfl)
  unfold Daemon.start
  simp only
  split
  · exact ends_some.mpr (h.deactivateRuntime e ev.outside).refresh
  · exact h.applyStimulus hconv (fun hC => (hpub hC).1) (fun _ => rfl) e (by simp)

/-- One event keeps the invariant. -/
theorem Inv.handle (h : Inv C r) {ev : Event} (hpub : C → PublishSucceeds ev)
    (hg : C → EngineGuarded r ev) : Ends C (handle e srt fakeipOk r ev) := by
  have hconv : Conv C (¬ HasChild r) (Daemon.converge e srt fakeipOk ev.nested) :=
    conv_converge e srt fakeipOk fun w hmem hC =>
      ⟨(hpub hC).2 w hmem, fun hf => (hg hC).2.2 (not_not.mp hf) w hmem⟩
  have hr : Inv C (ev.enter r) := h.congr rfl rfl rfl rfl rfl rfl
  refine hr.handleKind hconv (fun hC => (hpub hC).1) ?_ e
  exact
    { exit := fun hC => (hg hC).1
      backoff := fun hC => (hg hC).2.1
      engine := fun hf => by
        by_contra hne
        exact hf (.inl hne)
      probe := fun hf child role ht => by
        have ht' : r.engineTransaction = some (.waiting child role) := ht
        exact hf (.inr (by rw [ht']; rfl)) }

variable {e srt fakeipOk}

/-- **Capture never outlives its engine**: in every run whose publications succeed and whose steps stay
clear of the three places, an active data plane has a promoted engine that nobody is stopping. -/
theorem capture_has_engine {resident : Bool} {k : Kernel} {badPageSize : Bool} {first : Event}
    {evs : List Event} {r₀ r : Reactor}
    (hstart : start e srt fakeipOk (.open resident k) badPageSize first = some r₀)
    (hfirst : PublishSucceeds first)
    (hsteps : AllStepsOption (handle e srt fakeipOk)
      (fun r ev => PublishSucceeds ev ∧ EngineGuarded r ev) r₀ evs)
    (hrun : runOption (handle e srt fakeipOk) r₀ evs = some r) (hact : r.active = true) :
    r.engine ≠ none ∧ r.engineCancelRequested = false ∧
      ∀ t, r.engineTransaction = some t → ∃ plan d, t = .checking plan d ∧ d ≠ .cancelled := by
  have h₀ : Inv True r₀ :=
    Inv.start e srt fakeipOk resident k badPageSize (fun _ => hfirst) r₀ hstart
  have h : Inv True r := runOption_inv
    (fun r ev r' h hc heq => h.handle e srt fakeipOk (fun _ => hc.1) (fun _ => hc.2) r' heq)
    h₀ hsteps hrun
  have hcommitted := h.capture trivial hact
  refine ⟨hcommitted.engine, hcommitted.kept, fun t ht => ?_⟩
  obtain ⟨plan, d, rfl⟩ := h.single hcommitted.engine t ht
  refine ⟨plan, d, rfl, ?_⟩
  rintro rfl
  exact hcommitted.check plan ht

end Run

def readyRun : ColdRun (fun r ev => PublishSucceeds ev ∧ EngineGuarded r ev) Reactor.active :=
  ⟨readyEvents, by decide +kernel⟩

theorem capture_has_engine_ready :
    ∃ r, coldRun readyEvents = some r ∧ r.active = true ∧ r.engine ≠ none := by
  obtain ⟨r₀, r, hstart, hsteps, hr, hcold, hact⟩ := exists_of_coldMeets readyRun.meets
  exact ⟨r, hcold, hact, (capture_has_engine hstart (by decide) hsteps hr hact).1⟩

/-- A disable and an enable race with the termination of the engine; the next engine then crashes. -/
def raceEvents : List Event :=
  readyEvents ++
  [{ disabled := false, kind := .disable true },
    { disabled := true, kind := .enable true },
    { disabled := false, kind := .transactionPidfd
      nested := [{ policy := some startPolicy, user := some "" }] }] ++
  readyEvents ++
  [{ disabled := false, kind := .engineExit }]

/-- The planner still remembers the stop, so the exit of the new engine freezes nothing. -/
theorem capture_outlives_engine : (∀ ev ∈ raceEvents, PublishSucceeds ev) ∧
    ∃ r, coldRun raceEvents = some r ∧ r.active = true ∧ r.engine = none := by
  refine ⟨by decide, ?_⟩
  have hrun : (coldRun raceEvents).any (fun r => r.active && decide (r.engine = none)) = true := by
    decide +kernel
  obtain ⟨r, hr, h⟩ := (Option.any_eq_true _ _).mp hrun
  simp only [Bool.and_eq_true, decide_eq_true_eq] at h
  exact ⟨r, hr, h⟩

end FluxRs.Daemon
