import FluxRs.Daemon.Invariant

/-!
# FluxRs.Daemon.Convergence — the invariant through a convergence

The completions of a transaction, the activation of a generation and the convergence call each other;
each keeps the invariant if the convergence it may call does, and the knot closes by induction on what
the nested calls meet.  `F` allows `GET_STATUS` to fail where no engine is promoted.
-/

namespace FluxRs.Daemon

open FluxRs.Lib FluxRs.Net FluxRs.Kmod FluxRs.Dataplane

variable {C F : Prop}

/-- What a completion needs of the convergence it may call. -/
def Conv (C F : Prop) (conv : Reactor → Option Reactor) : Prop :=
  ∀ r, Inv C r → (F → r.engine = none) → Ends C (conv r)

section Completions

variable {conv : Reactor → Option Reactor} (hconv : Conv C F conv) {w : Outside} {r : Reactor}

/-! ### Ends of a transaction -/

/-- Queued work touches the coordinator, and asks for another engine candidate only where it finds a
changed set of sources. -/
theorem resumeQueued_eq (w : Outside) (r : Reactor) :
    ∃ changed s, resumeQueuedSubscriptionWork w r =
        { r with engineConfigChanged := changed, subscription := s } ∧
      (r.subscription.reconfigureQueued = false → changed = r.engineConfigChanged) := by
  unfold resumeQueuedSubscriptionWork
  split
  · exact ⟨_, _, rfl, fun _ => rfl⟩
  split
  · rename_i hq
    exact ⟨_, _, rfl, fun h => absurd (h.symm.trans hq) (by decide)⟩
  split
  · exact ⟨_, _, rfl, fun _ => rfl⟩
  · exact ⟨_, _, rfl, fun _ => rfl⟩

theorem Inv.resumeQueued (h : Inv C r) : Inv C (resumeQueuedSubscriptionWork w r) := by
  obtain ⟨changed, s, heq, -⟩ := resumeQueued_eq w r
  rw [heq]
  exact h.congr rfl rfl rfl rfl rfl rfl

theorem resumeQueued_engine : (resumeQueuedSubscriptionWork w r).engine = r.engine := by
  obtain ⟨changed, s, heq, -⟩ := resumeQueued_eq w r
  rw [heq]

include hconv

/-- Queued work starts one more convergence, which keeps the invariant by assumption. -/
theorem Inv.runQueued (h : Inv C r) (hF : F → r.engine = none) :
    Ends C (runQueuedConvergence conv r) := by
  unfold runQueuedConvergence
  split
  · exact hconv r h hF
  · exact ends_some.mpr h

theorem ends_finishTransactionError (h : Inv C { r with engineTransaction := none })
    (hF : F → r.engine = none) (error : EngineError) :
    Ends C (finishTransactionError conv w error r) := by
  unfold finishTransactionError
  simp only
  refine Inv.runQueued hconv (Inv.resumeQueued ?_) fun hf => resumeQueued_engine.trans ?_
  · split
    · exact h.congr rfl rfl rfl rfl rfl rfl
    · exact h.congr rfl rfl rfl rfl rfl rfl
  · split <;> exact hF hf

theorem Inv.finishTransactionError (h : Inv C r) (hF : F → r.engine = none) (error : EngineError) :
    Ends C (finishTransactionError conv w error r) :=
  ends_finishTransactionError hconv h.drop hF error

theorem Halted.finishTransactionError (h : Halted C r) (he : r.engine = none) (error : EngineError) :
    Ends C (finishTransactionError conv w error r) :=
  ends_finishTransactionError hconv (h.clear rfl rfl rfl) (fun _ => he) error

theorem Halted.finishCancelled (h : Halted C r) : Ends C (finishCancelled conv r) := by
  unfold Daemon.finishCancelled
  simp only
  split
  · exact ends_some.mpr (Halted.beginStop
      (r := { r with diagProbe := false, engineTransaction := none, engine := none })
      ⟨h.live, h.role, h.frozen, h.shut⟩ rfl _ _)
  · rename_i he
    have hclear : Inv C { r with
        diagProbe := false, engineTransaction := none, engineCancelRequested := false } :=
      h.clear rfl rfl rfl
    split
    · exact ends_some.mpr hclear
    split
    · exact hconv _ hclear fun _ => he
    · exact ends_some.mpr hclear

theorem Halted.beginCandidateFailure (h : Halted C r) (he : r.engine = none) (plan : SwitchPlan)
    (error : EngineError) : Ends C (beginCandidateFailure conv w plan error r) := by
  have hdrop : Halted C (dropCandidate plan r) := ⟨h.live, h.role, h.frozen, h.shut⟩
  have herr : Ends C (Daemon.finishTransactionError conv w error (dropCandidate plan r)) :=
    hdrop.finishTransactionError hconv he error
  unfold Daemon.beginCandidateFailure
  simp only
  split
  · exact Halted.finishCancelled hconv ⟨h.live, h.role, h.frozen, h.shut⟩
  split
  · exact herr
  split
  · exact herr
  · exact ends_some.mpr (h.hold rfl rfl he rfl rfl)
  · exact ends_some.mpr (h.hold rfl rfl he rfl rfl)

theorem Halted.startCandidate (h : Halted C r) (he : r.engine = none) (plan : SwitchPlan) :
    Ends C (startCandidate conv w plan r) := by
  unfold Daemon.startCandidate
  split
  · exact h.beginCandidateFailure hconv he plan _
  · exact ends_some.mpr (h.hold rfl rfl he rfl rfl)
  · exact ends_some.mpr (h.hold rfl rfl he rfl rfl)

/-! ### Activation of a generation -/

omit hconv in
/-- A child that waits for its commit can be taken out: nothing is captured and nobody shuts down. -/
theorem Inv.takeRole (h : Inv C r) (hrole : r.activationRole ≠ none) :
    Halted C { r with activationRole := none, engine := none } where
  live := h.live
  role := rfl
  frozen hC := h.frozen_of hC fun c => hrole c.role
  shut hs := absurd (h.shut hs).1 hrole

omit hconv in
/-- A failed activation stops its child; where none is under way the capture is ended. -/
theorem Inv.failPhase6 (h : Inv C r) (hw : C → w.publishFault = none) :
    Ends C (failPhase6Activation conv w r) := by
  have hr := h.recordDataplaneError
  unfold failPhase6Activation
  simp only
  split
  · exact ends_some.mpr (hr.publishInactive hw)
  · rename_i role hrole
    have hne : (Daemon.recordDataplaneError r).activationRole ≠ none := by simp [hrole]
    split
    · rename_i he
      exact absurd he (hr.role hne).1
    · exact ends_some.mpr ((hr.takeRole hne).beginStop rfl _ _)

/-- The generation is committed with its engine in the slot. -/
theorem Inv.commitActivation (h : Inv C r) (he : r.engine ≠ none) (ht : r.engineTransaction = none)
    (hs : r.shutdownRequested = false) (hF : F → r.engine = none)
    (hw : C → w.publishFault = none) : Ends C (commitActivation conv w r) := by
  have hlive := h.live.publishActive
  unfold Daemon.commitActivation
  split
  · rename_i p heq
    obtain rfl := publishActive_error heq
    exact h.failPhase6 hw
  · rename_i p heq
    rw [heq] at hlive
    simp only
    split
    · rename_i hnone
      exact absurd hnone he
    · rename_i child hchild
      refine Inv.runQueued hconv (Inv.resumeQueued ?_) fun hf => resumeQueued_engine.trans (hF hf)
      exact
        { live := hlive
          single := fun _ t ht' => by cases ht.symm.trans ht'
          role := fun hne => absurd rfl hne
          shut := fun hs' => absurd (hs.symm.trans hs') (by decide)
          capture := fun _ _ => ⟨he, rfl, rfl, hs, fun _ hc => by cases ht.symm.trans hc⟩ }

/-- The end of an activation: capture is published for an engine that is there. -/
theorem Inv.finishPhase6 (h : Inv C r) (he : r.engine ≠ none) (ht : r.engineTransaction = none)
    (hs : r.shutdownRequested = false) (hF : F → r.engine = none)
    (hw : C → w.publishFault = none) : Ends C (finishPhase6Activation conv w r) := by
  unfold finishPhase6Activation
  split
  · rename_i plan hrole
    have hcached : Inv C (commitPendingSubscription w (some plan.params.generation) r).2 :=
      h.congr rfl rfl rfl rfl rfl rfl
    simp only
    split
    · exact hcached.commitActivation hconv he ht hs hF hw
    · split
      · rename_i hnone
        exact absurd hnone he
      · exact ends_some.mpr ((hcached.takeRole
          (by simp [commitPendingSubscription, hrole])).beginStop rfl _ _)
  · exact h.commitActivation hconv he ht hs hF hw

/-- The begin of an activation, with the attachment that may end at once. -/
theorem Inv.startPhase6 (h : Inv C r) (he : r.engine ≠ none) (ht : r.engineTransaction = none)
    (hs : r.shutdownRequested = false) (hF : F → r.engine = none)
    (hw : C → w.publishFault = none) (e : Endian) (params : EngineParams) :
    Ends C (startPhase6Attachment e conv w params r) := by
  unfold startPhase6Attachment
  simp only
  -- preparing a generation freezes the plane or leaves it as it was
  have hprep : Inv C { r with dataplane :=
      (if r.activationRole.isSome || !r.active then
        prepareGeneration e w.prepareFault params.generation params.portV4 params.portV6 r.dataplane
      else (.ok (), r.dataplane)).2 } := by
    split
    · refine h.setPlane (h.live.prepare e _ _ _ _) fun _ ha => ?_
      rcases prepareGeneration_cases e w.prepareFault params.generation params.portV4 params.portV6
        r.dataplane with heq | ⟨-, hdown⟩
      · rwa [heq] at ha
      · exact absurd (hdown.symm.trans ha) (by decide)
    · exact h
  generalize (if r.activationRole.isSome || !r.active then
      prepareGeneration e w.prepareFault params.generation params.portV4 params.portV6 r.dataplane
    else (.ok (), r.dataplane)) = prepared at hprep
  obtain ⟨result, p⟩ := prepared
  simp only at hprep
  have hattach : Inv C { r with dataplane := (beginAttachment p).2 } := by
    refine hprep.setPlane hprep.live.beginAttachment fun _ ha => ?_
    rcases beginAttachment_spec p with heq | ⟨-, -, heq⟩ <;> rwa [heq] at ha
  split
  · rename_i heq
    cases heq
    exact hprep.failPhase6 hw
  · rename_i heq
    cases heq
    split
    · rename_i hb
      rw [hb] at hattach
      split
      · exact hattach.failPhase6 hw
      · exact ends_some.mpr hattach.recordDataplaneError
    · rename_i hb
      rw [hb] at hattach
      split
      · exact ends_some.mpr hattach
      split
      · exact hattach.finishPhase6 hconv he ht hs hF hw
      · exact ends_some.mpr hattach

/-- A generation is checked, or the attempt ends with the error of its start. -/
theorem Inv.startGenerationCheck (h : Inv C r) (hrole : r.activationRole = none)
    (hs : r.shutdownRequested = false) (hF : F → r.engine = none) (user : UserConfig)
    (generation : ℕ) : Ends C (startGenerationCheck conv w user generation r) := by
  unfold Daemon.startGenerationCheck
  simp only
  split
  · have hbound : Inv C { r with
        subscription := r.subscription.bindGeneration (r.currentPolicy.map (·.nodes)) generation } :=
      h.congr rfl rfl rfl rfl rfl rfl
    exact hbound.finishTransactionError hconv hF _
  · rename_i watched hstart
    exact ends_some.mpr
      { live := h.live
        single := fun _ t heq => ⟨_, _, (Option.some.inj heq).symm⟩
        role := fun hne => absurd hrole hne
        shut := fun hs' => absurd (hs.symm.trans hs') (by decide)
        capture := fun hC ha =>
          let h' := h.capture hC ha
          ⟨h'.engine, h'.role, h'.kept, h'.running, fun _ heq => by cases watched <;> cases heq⟩ }

end Completions

/-! ### Convergence -/

/-- The engine, its transaction and the requests on them are left alone, and nothing is activated. -/
structure Keeps (r r' : Reactor) : Prop where
  engine : r'.engine = r.engine
  transaction : r'.engineTransaction = r.engineTransaction
  role : r'.activationRole = r.activationRole
  cancel : r'.engineCancelRequested = r.engineCancelRequested
  shutdown : r'.shutdownRequested = r.shutdownRequested
  live : LiveInv r.dataplane → LiveInv r'.dataplane
  active : r'.active = r.active

theorem Keeps.inv {r r' : Reactor} (k : Keeps r r') (h : Inv C r) : Inv C r' := by
  have hp : Inv C { r with dataplane := r'.dataplane } :=
    h.setPlane (k.live h.live) fun _ ha => k.active.symm.trans ha
  exact hp.congr rfl k.engine k.transaction k.role k.cancel k.shutdown

theorem Keeps.trans {r r' r'' : Reactor} (k : Keeps r r') (k' : Keeps r' r'') : Keeps r r'' where
  engine := k'.engine.trans k.engine
  transaction := k'.transaction.trans k.transaction
  role := k'.role.trans k.role
  cancel := k'.cancel.trans k.cancel
  shutdown := k'.shutdown.trans k.shutdown
  live h := k'.live (k.live h)
  active := k'.active.trans k.active

theorem Keeps.refl (r : Reactor) : Keeps r r := ⟨rfl, rfl, rfl, rfl, rfl, id, rfl⟩

/-- The verdict on the network is stored, and nothing else. -/
theorem evaluateSsid_eq (w : Outside) (policy : Option PolicyCandidate) (r : Reactor) :
    ∃ paused changed, evaluateSsid w policy r =
      (paused, { r with ssidPaused := paused, wifiChanged := changed }) := by
  unfold evaluateSsid
  split
  · split
    · exact ⟨_, _, rfl⟩
    · exact ⟨_, _, rfl⟩
  · exact ⟨_, _, rfl⟩

theorem evaluateSsid_keeps (w : Outside) (policy : Option PolicyCandidate) (r : Reactor) :
    Keeps r (evaluateSsid w policy r).2 := by
  obtain ⟨paused, changed, heq⟩ := evaluateSsid_eq w policy r
  rw [heq]
  exact ⟨rfl, rfl, rfl, rfl, rfl, id, rfl⟩

theorem queuePolicyRetry_keeps (r : Reactor) : Keeps r (queuePolicyRetry r) := by
  unfold queuePolicyRetry
  split
  · exact .refl r
  · exact ⟨rfl, rfl, rfl, rfl, rfl, id, rfl⟩

theorem recordDataplaneError_keeps (r : Reactor) : Keeps r (recordDataplaneError r) :=
  ⟨rfl, rfl, rfl, rfl, rfl, LiveInv.cancelAttachment, rfl⟩

theorem applyPolicy_keeps (e : Endian) (srt : Sorter) (env : ApplyEnv) (desired : DesiredPolicy)
    (r : Reactor) :
    Keeps r { r with dataplane := (applyPolicy e srt env desired r.dataplane).2 } where
  engine := rfl
  transaction := rfl
  role := rfl
  cancel := rfl
  shutdown := rfl
  live h := h.apply e srt env desired
  active := by
    change (applyPolicy e srt env desired r.dataplane).2.mgr.status.active = _
    have hres := applyPolicy_result e srt env desired r.dataplane
    generalize applyPolicy e srt env desired r.dataplane = x at hres
    cases hres <;> rfl

theorem convergePolicy_keeps (e : Endian) (srt : Sorter) (w : Outside) (i : Inputs) (r : Reactor) :
    Keeps r (convergePolicy e srt w i r).2 := by
  have hfail : ∀ r' : Reactor, Keeps r r' → Keeps r (recordDataplaneError (queuePolicyRetry r')) :=
    fun r' k => (k.trans (queuePolicyRetry_keeps r')).trans (recordDataplaneError_keeps _)
  unfold convergePolicy
  split
  · rename_i policy hpolicy
    have k := applyPolicy_keeps e srt w.apply policy.desired r
    split
    · rename_i heq
      rw [heq] at k
      exact k.trans ⟨rfl, rfl, rfl, rfl, rfl, id, rfl⟩
    · rename_i heq
      rw [heq] at k
      exact hfail _ k
  · split
    · split
      · exact .refl r
      · rename_i policy hpolicy
        have k := applyPolicy_keeps e srt w.apply policy.desired r
        split
        · rename_i heq
          rw [heq] at k
          exact k
        · rename_i heq
          rw [heq] at k
          exact hfail _ k
    · exact .refl r

theorem dropRefused_keeps (i : Inputs) (r : Reactor) : Keeps r (dropRefused i r) :=
  ⟨rfl, rfl, rfl, rfl, rfl, id, rfl⟩

theorem bringUp_keeps (e : Endian) (w : Outside) (i : Inputs) (r : Reactor) :
    Keeps r (bringUp e w i r) where
  engine := rfl
  transaction := rfl
  role := rfl
  cancel := rfl
  shutdown := rfl
  live h := by
    unfold bringUp
    simp only
    refine LiveInv.converge e ?_ w.up true
    split
    · exact h.cancelAttachment.congr rfl rfl rfl rfl rfl rfl id
    · exact h.cancelAttachment
  active := by
    refine (converge_up_active e w.up _).trans ?_
    split <;> rfl

/-- While active, the module can refuse only its `GET_STATUS`. -/
theorem bringUp_error {e : Endian} {w : Outside} {i : Inputs} {r : Reactor}
    (h : LiveInv r.dataplane) (ha : r.active = true) (hs : w.up.statusFault = none) :
    (bringUp e w i r).dataplane.mgr.status.error = none := by
  unfold bringUp
  simp only
  refine LiveInv.converge_up_error e ?_ ?_ hs
  · split
    · exact h.cancelAttachment.congr rfl rfl rfl rfl rfl rfl id
    · exact h.cancelAttachment
  · split <;> exact ha

section Convergence

variable {conv : Reactor → Option Reactor} (hconv : Conv C F conv) {w : Outside} {r : Reactor}
variable (hw : C → w.publishFault = none) (e : Endian) (srt : Sorter)

include hconv hw

/-- The engine half of a convergence. -/
theorem Inv.convergeEngine (h : Inv C r) (hs : r.shutdownRequested = false) {i : Inputs}
    (hidle : i.engineBusy = false → r.engineTransaction = none) (hF : F → r.engine = none)
    (user : Option UserConfig) : Ends C (convergeEngine e conv w i user r) := by
  unfold Daemon.convergeEngine
  split
  · rename_i role hrole
    have hr := h.role (by simp [hrole])
    split
    · exact h.startPhase6 hconv hr.1 hr.2 hs hF hw e _
    · exact ends_some.mpr h
  · rename_i hrole
    split
    · exact ends_some.mpr h
    rename_i hbusy
    have ht := hidle (by simpa using hbusy)
    have hr : Inv C { r with reloadRequested := false, engineConfigChanged := false } :=
      h.congr rfl rfl rfl rfl rfl rfl
    simp only
    split
    · have hsettled : Inv C (settlePending w user
          { r with reloadRequested := false, engineConfigChanged := false }) :=
        hr.congr rfl rfl rfl rfl rfl rfl
      split
      · rename_i child hchild
        have hne : r.engine ≠ none := Option.ne_none_iff_exists'.mpr ⟨child, hchild⟩
        exact hsettled.startPhase6 hconv hne ht hs hF hw e _
      · exact ends_some.mpr hsettled
    · split
      · exact ends_some.mpr hr
      · have hr' : Inv C { r with
            reloadRequested := false, engineConfigChanged := false
            generations := r.generations.allocate.2, backoffArmed := false } :=
          h.congr rfl rfl rfl rfl rfl rfl
        exact hr'.startGenerationCheck hconv hrole hs hF _ _

/-- A data-plane error finds the plane frozen, or it was `GET_STATUS` that failed. -/
theorem Inv.convergeDataplane (h : Inv C r) (hs : r.shutdownRequested = false) {i : Inputs}
    (hidle : i.engineBusy = false → r.engineTransaction = none)
    (hup : C → ¬ F → w.up.statusFault = none) (hF : F → r.engine = none) :
    Ends C (convergeDataplane e srt conv w i r) := by
  have k := bringUp_keeps e w i r
  have hr := k.inv h
  unfold Daemon.convergeDataplane
  simp only
  split
  · rename_i herr
    have hfrozen : C → (bringUp e w i r).active = false := by
      intro hC
      cases ha : r.active with
      | false => exact k.active.trans ha
      | true =>
        have hpromoted := (h.capture hC ha).engine
        rw [bringUp_error h.live ha (hup hC fun hf => hpromoted (hF hf))] at herr
        cases herr
    split
    · exact ends_some.mpr (hr.cancelAttachment.cancelEngineWork hfrozen)
    · exact ends_some.mpr hr.cancelAttachment
  · have k' := (k.trans (dropRefused_keeps i (bringUp e w i r))).trans
      (convergePolicy_keeps e srt w i (dropRefused i (bringUp e w i r)))
    have hp : Inv C { configureMissing w
        (convergePolicy e srt w i (dropRefused i (bringUp e w i r))).2 with topologyChanged := false } :=
      (k'.inv h).congr rfl rfl rfl rfl rfl rfl
    exact hp.convergeEngine hconv hw e (k'.shutdown.trans hs)
      (fun hb => k'.transaction.trans (hidle hb)) (fun hf => k'.engine.trans (hF hf)) _

variable (fakeipOk : PolicyCandidate → UserConfig → Bool)

/-- A convergence while the switch is on. -/
theorem Inv.convergeEnabled (h : Inv C r) (hs : r.shutdownRequested = false)
    (hup : C → ¬ F → w.up.statusFault = none) (hF : F → r.engine = none) :
    Ends C (convergeEnabled e srt fakeipOk conv w r) := by
  unfold Daemon.convergeEnabled
  simp only
  have k := evaluateSsid_keeps w ((inputs fakeipOk w r).candidatePolicy.or r.currentPolicy)
    (scheduleSources w (inputs fakeipOk w r) { r with policyChanged := false })
  generalize evaluateSsid w ((inputs fakeipOk w r).candidatePolicy.or r.currentPolicy)
    (scheduleSources w (inputs fakeipOk w r) { r with policyChanged := false }) = x at k
  obtain ⟨paused, r'⟩ := x
  simp only at k ⊢
  have h' : Inv C r' := k.inv (h.congr rfl rfl rfl rfl rfl rfl)
  split
  · exact ends_some.mpr (h'.deactivateRuntime e w)
  split
  · exact ends_some.mpr h'
  split
  · have hdown := h'.live.converge_down e w.down
    have hr : Inv C { r' with dataplane := Dataplane.converge e w.down false r'.dataplane } :=
      h'.setPlane (h'.live.converge e w.down false) fun _ ha =>
        absurd (hdown.symm.trans ha) (by decide)
    exact ends_some.mpr (hr.congr rfl rfl rfl rfl rfl rfl)
  · refine h'.convergeDataplane hconv hw e srt (k.shutdown.trans hs) (fun hb => ?_) hup
      fun hf => k.engine.trans (hF hf)
    have hidle : r.convergenceBusy = false := hb
    simp only [Reactor.convergenceBusy, Bool.or_eq_false_iff] at hidle
    have ht : r.engineTransaction = none := by simpa using hidle.1
    exact k.transaction.trans ht

/-- One convergence, whether the switch is on or off. -/
theorem Inv.convergeWith (h : Inv C r) (hup : C → ¬ F → w.up.statusFault = none)
    (hF : F → r.engine = none) : Ends C (convergeWith e srt fakeipOk conv w r) := by
  unfold Daemon.convergeWith
  split
  · rename_i hs
    exact ends_some.mpr (h.cancelEngineWork fun hC => h.frozen_of_shutdown hC hs)
  rename_i hs
  split
  · have hr : Inv C { r with
        ssidPaused := false, subscription := r.subscription.resetOnDisable } :=
      h.congr rfl rfl rfl rfl rfl rfl
    exact ends_some.mpr (hr.deactivateRuntime e w)
  split
  · exact ends_some.mpr h
  · exact h.convergeEnabled hconv hw e srt fakeipOk (by simpa using hs) hup hF

end Convergence

/-- What the nested convergences of a step meet. -/
def Clean (C F : Prop) (ws : List Outside) : Prop :=
  ∀ w ∈ ws, C → w.publishFault = none ∧ (¬ F → w.up.statusFault = none)

/-- Any number of convergences that queue one another, by induction on what is found outside. -/
theorem conv_converge (e : Endian) (srt : Sorter) (fakeipOk : PolicyCandidate → UserConfig → Bool) :
    ∀ {ws : List Outside}, Clean C F ws → Conv C F (converge e srt fakeipOk ws)
  | [], _ => fun _ _ _ => ends_none
  | w :: ws, hws => by
    have hconv := conv_converge e srt fakeipOk fun w' hmem => hws w' (List.mem_cons_of_mem w hmem)
    have hw := hws w List.mem_cons_self
    intro r h hF
    exact h.convergeWith hconv (fun hC => (hw hC).1) e srt fakeipOk (fun hC => (hw hC).2) hF

end FluxRs.Daemon
