import FluxRs.Daemon.Machine

/-!
# FluxRs.Daemon.Simulation — every handler is a sequence of steps

One lemma for each function of the reactor: whatever it returns is reached by steps of
`FluxRs.Daemon.Machine` from the control under which it is called.  The knot of `converge` is closed by
induction on what the nested calls meet.
-/

namespace FluxRs.Daemon

open FluxRs.Lib FluxRs.Net FluxRs.Kmod FluxRs.Dataplane

section

variable (fakeipOk : PolicyCandidate → UserConfig → Bool) (P : Fault → Prop)

/-- Every result of `x` is reached by steps. -/
def Reaches (r : Reactor) (c : Control) (x : Option Reactor) : Prop :=
  ∀ r', x = some r' → Acts fakeipOk P r c r' .idle

/-- What the completions need of the convergence they may call. -/
def Converges (conv : Reactor → Option Reactor) : Prop :=
  ∀ r, Shape r → Reaches fakeipOk P r .idle (conv r)

end

section

variable {fakeipOk : PolicyCandidate → UserConfig → Bool} {P : Fault → Prop}
variable {r r' r'' : Reactor} {c c' : Control} {x : Option Reactor}

theorem Reaches.some (h : Acts fakeipOk P r c r' .idle) : Reaches fakeipOk P r c (some r') := by
  intro r'' heq
  cases heq
  exact h

theorem Acts.reaches (h : Acts fakeipOk P r c r' c') (hx : Reaches fakeipOk P r' c' x) :
    Reaches fakeipOk P r c x := fun r'' heq => h.trans (hx r'' heq)

theorem Act.reaches (h : Act fakeipOk P r c r' c') (hx : Reaches fakeipOk P r' c' x) :
    Reaches fakeipOk P r c x := h.one.reaches hx

theorem Act.reaches_some (h : Act fakeipOk P r c r' .idle) : Reaches fakeipOk P r c (some r') :=
  Reaches.some h.one

theorem Reaches.map (h : Reaches fakeipOk P r c x) {f : Reactor → Reactor}
    (hf : ∀ r', Acts fakeipOk P r' .idle (f r') .idle) : Reaches fakeipOk P r c (x.map f) := by
  intro r' heq
  obtain ⟨r₁, h₁, rfl⟩ := Option.map_eq_some_iff.mp heq
  exact (h r₁ h₁).trans (hf r₁)

/-- Nothing moves but fields that no step reads. -/
theorem Aside.reaches (k : Aside r r') (hx : Reaches fakeipOk P r' c x) : Reaches fakeipOk P r c x :=
  (Act.aside k).reaches hx

theorem Aside.acts (k : Aside r r') : Acts fakeipOk P r c r' c := (Act.aside k).one

theorem aside_setPlane (r : Reactor) (p : Plane) : Aside r { r with dataplane := p } := .of_kept rfl id

theorem aside_refresh (r : Reactor) : Aside r r.refresh := .of_kept rfl id

theorem Shape.aside (h : Shape r) (k : Aside r r') : Shape r' :=
  h.congr k.engine k.transaction k.role k.probe

end

section Completions

variable {fakeipOk : PolicyCandidate → UserConfig → Bool} {P : Fault → Prop}
variable {conv : Reactor → Option Reactor} {r : Reactor} {w : Outside}
variable (hconv : Converges fakeipOk P conv)

include hconv

/-! ### Ends of a transaction -/

theorem reaches_runQueued (hs : Shape r) :
    Reaches fakeipOk P r .idle (runQueuedConvergence conv r) := by
  unfold runQueuedConvergence
  split
  · exact hconv r hs
  · exact Reaches.some Acts.refl

/-- Queued work is resumed, and the queued convergence runs. -/
theorem reaches_resume (hs : Shape r) :
    Reaches fakeipOk P r .resuming
      (runQueuedConvergence conv (resumeQueuedSubscriptionWork w r)) :=
  (Act.resume r w).reaches (reaches_runQueued hconv (shape_resumeQueued hs w))

theorem reaches_finishTransactionError (hb : Bare r) (error : EngineError) :
    Reaches fakeipOk P r .erring (finishTransactionError conv w error r) := by
  have hs : Shape { r with
      subscription := r.subscription.dropTagged, engineTransaction := none } :=
    Bare.shape ⟨rfl, hb.role, hb.probe⟩
  unfold finishTransactionError
  simp only
  refine (Act.err hb.role).reaches ?_
  split
  · have k : Aside { r with subscription := r.subscription.dropTagged, engineTransaction := none }
        { r with
          subscription := r.subscription.dropTagged, engineTransaction := none
          backoffArmed := true } := .of_kept rfl id
    exact k.reaches (reaches_resume hconv (hs.aside k))
  · exact reaches_resume hconv hs

theorem reaches_finishCancelled (hb : Bare r) :
    Reaches fakeipOk P r .cancelling (finishCancelled conv r) := by
  unfold finishCancelled
  simp only
  split
  · rename_i child he
    exact (Act.cancelStops he hb.role).reaches_some
  · rename_i he
    refine (Act.cancelEnds he hb.role).reaches ?_
    split
    · exact Reaches.some Acts.refl
    split
    · exact hconv _ (Bare.shape ⟨rfl, hb.role, rfl⟩)
    · exact Reaches.some Acts.refl

theorem reaches_beginCandidateFailure {plan : SwitchPlan} (hb : Bare r) (error : EngineError)
    (hrec : ∀ old error, plan.old = some old → r.engineCancelRequested = false →
      w.recoverySpawn = .failed error → P .recoverySpawn) :
    Reaches fakeipOk P r (.failing plan) (beginCandidateFailure conv w plan error r) := by
  have hdrop : Bare (dropCandidate plan r) := hb.congr rfl rfl rfl
  unfold beginCandidateFailure
  simp only
  split
  · rename_i hc
    have hc' : r.engineCancelRequested = true := hc
    refine (Act.failCancelled hc').reaches (reaches_finishCancelled hconv ?_)
    exact hb.congr rfl rfl rfl
  rename_i hc
  have hc' : r.engineCancelRequested = false := by simpa [dropCandidate] using hc
  split
  · rename_i hold
    exact (Act.failCold hold).reaches (reaches_finishTransactionError hconv hdrop error)
  · rename_i old hold
    split
    · rename_i hspawn
      exact (Act.failLost hold (hrec old _ hold hc' hspawn)).reaches
        (reaches_finishTransactionError hconv hdrop error)
    · exact (Act.recovered hold error).reaches_some
    · exact (Act.recoveredUnwatched hold error .io).reaches_some

theorem reaches_startCandidate {plan : SwitchPlan} (hb : Bare r)
    (hrec : ∀ old error, plan.old = some old → r.engineCancelRequested = false →
      w.recoverySpawn = .failed error → P .recoverySpawn) :
    Reaches fakeipOk P r (.starting plan) (startCandidate conv w plan r) := by
  unfold startCandidate
  split
  · exact (Act.spawnFailed r plan).reaches (reaches_beginCandidateFailure hconv hb _ hrec)
  · exact (Act.spawned r plan).reaches_some
  · exact (Act.spawnedUnwatched r plan .io).reaches_some

/-! ### Activation of a generation -/

/-- Under which control an activation runs: a role has been taken up just now, or there is none. -/
def Activates (r : Reactor) (c : Control) : Prop :=
  r.activationRole = none ∧ c = .idle ∨ r.activationRole ≠ none ∧ c = .activating

omit hconv in
theorem Activates.aside {r' : Reactor} {c : Control} (h : Activates r c) (k : Aside r r') :
    Activates r' c := by
  unfold Activates
  rw [k.role]
  exact h

omit hconv in
theorem reaches_failPhase6 {child : EngineChild} {c : Control} (hc : Activates r c)
    (he : r.engine = some child) (ht : r.engineTransaction = none) :
    Reaches fakeipOk P r c (failPhase6Activation conv w r) := by
  unfold failPhase6Activation
  simp only
  rcases hc with ⟨hrole, rfl⟩ | ⟨hrole, rfl⟩
  · split
    · exact Reaches.some (Aside.acts (aside_setPlane r _))
    · rename_i role heq
      cases hrole.symm.trans heq
  · split
    · rename_i heq
      exact absurd heq hrole
    · rename_i role heq
      have hrole' : r.activationRole = some role := heq
      split
      · rename_i hnone
        cases he.symm.trans hnone
      · rename_i child' he'
        have hchild : r.engine = some child' := he'
        exact (Act.roleFailed .io hchild ht hrole').reaches
          (Reaches.some (Aside.acts (aside_setPlane _ _)))

/-- The commit of a promoted child under a plane that can be published. -/
theorem reaches_commitActivation {child : EngineChild} {p : Plane}
    (hpub : publishActive r.dataplane = (.ok (), p)) (he : r.engine = some child)
    (ht : r.engineTransaction = none) (hprobe : r.diagProbe = false) :
    Reaches fakeipOk P (committed child r) .resuming (commitActivation conv w r) := by
  unfold commitActivation
  rw [hpub]
  simp only
  split
  · rename_i hnone
    cases hnone.symm.trans he
  · rename_i child' he'
    obtain rfl : child' = child := Option.some.inj (he'.symm.trans he)
    refine Aside.reaches (aside_setPlane (committed child' r) p) ?_
    exact reaches_resume (r := { committed child' r with dataplane := p }) hconv
      (Bare.shape ⟨ht, rfl, hprobe⟩)

/-- What a candidate meets at its commit. -/
structure Commits (P : Fault → Prop) (w : Outside) (r : Reactor) : Prop where
  beside : ∀ plan policy, r.activationRole = some (.candidate plan) →
    r.currentPolicy = some policy → P (.beside policy plan)
  split : ∀ plan, r.activationRole = some (.candidate plan) →
    ¬ Uniform r.subscription r.nodes (some plan.params.generation) w.commit → P .splitCommit

theorem reaches_finishPhase6 {child : EngineChild} {p : Plane} {c : Control} (hc : Activates r c)
    (hw : Commits P w r) (he : r.engine = some child) (ht : r.engineTransaction = none)
    (hprobe : r.diagProbe = false) (hpub : publishActive r.dataplane = (.ok (), p)) :
    Reaches fakeipOk P r c (finishPhase6Activation conv w r) := by
  unfold finishPhase6Activation
  split
  · rename_i plan hrole
    obtain rfl : c = .activating := by
      rcases hc with ⟨hnone, -⟩ | ⟨-, hc⟩
      · cases hnone.symm.trans hrole
      · exact hc
    simp only
    split
    · rename_i hok
      refine (Act.commitCandidate he ht hrole hok fun policy hp => hw.beside plan policy hrole hp).reaches ?_
      exact reaches_commitActivation hconv hpub he ht hprobe
    · rename_i hok
      split
      · rename_i hnone
        cases hnone.symm.trans he
      rename_i child' he'
      have hchild : r.engine = some child' := he'
      refine (Act.commitRefused .io hchild ht hrole (Bool.eq_false_iff.mpr hok) ?_).reaches_some
      by_cases hU : Uniform r.subscription r.nodes (some plan.params.generation) w.commit
      · exact .inr hU
      · exact .inl (hw.split plan hrole hU)
  · rename_i hno
    have hcommit : Reaches fakeipOk P (committed child r) .resuming (commitActivation conv w r) :=
      reaches_commitActivation hconv hpub he ht hprobe
    rcases hc with ⟨-, rfl⟩ | ⟨hrole, rfl⟩
    · exact (Act.recommit he ht).reaches hcommit
    · obtain ⟨role, hrole⟩ := Option.ne_none_iff_exists'.mp hrole
      cases role with
      | candidate plan => exact absurd hrole (hno plan)
      | recovery error => exact (Act.commitRecovery he ht hrole).reaches hcommit

omit hconv in
/-- A prepared generation can be published. -/
theorem publishActive_of_control {p : Plane} (hc : p.mgr.lastControl ≠ none)
    (hready : p.mgr.status.attachmentReady = true) : ∃ p', publishActive p = (.ok (), p') := by
  unfold publishActive
  simp only [hready, Bool.not_true, Bool.false_eq_true, if_false]
  split
  · rename_i hnone
    exact absurd hnone hc
  · exact ⟨_, rfl⟩

omit hconv in
theorem prepareGeneration_control {e : Endian} {fault : Option Errno} {g : ℕ} {portV4 portV6 : U16}
    {p p' : Plane} (h : prepareGeneration e fault g portV4 portV6 p = (.ok (), p')) :
    p'.mgr.lastControl ≠ none := by
  unfold prepareGeneration at h
  simp only at h
  split at h
  · cases h
  split at h
  · cases h
  · cases h
    simp

omit hconv in
/-- An attachment that begins is ready at once. -/
theorem beginAttachment_ok {p p' : Plane} (h : beginAttachment p = (.ok (), p')) :
    p'.mgr.lastControl = p.mgr.lastControl ∧ p'.mgr.status.attachmentReady = true := by
  unfold beginAttachment at h
  split at h
  · split at h
    · cases h
    · cases h
      exact ⟨rfl, rfl⟩
  split at h
  · rename_i hready
    cases h
    exact ⟨rfl, hready⟩
  · cases h

omit hconv in
theorem beginAttachment_active (p : Plane) :
    (beginAttachment p).2.mgr.status.active = p.mgr.status.active := by
  rcases beginAttachment_spec p with heq | ⟨-, -, heq⟩
  · rw [heq]
  · rw [heq]
    rfl

/-- An activation that has begun ends in this handler: it commits, or it fails. -/
theorem reaches_startPhase6 {child : EngineChild} {c : Control} (hc : Activates r c)
    (hw : Commits P w r) (he : r.engine = some child) (ht : r.engineTransaction = none)
    (hprobe : r.diagProbe = false) (e : Endian) (params : EngineParams) :
    Reaches fakeipOk P r c (startPhase6Attachment e conv w params r) := by
  have hset : ∀ p, Aside r { r with dataplane := p } := aside_setPlane r
  have hfail : ∀ p, Reaches fakeipOk P r c (failPhase6Activation conv w { r with dataplane := p }) :=
    fun p => (hset p).reaches (reaches_failPhase6 (hc.aside (hset p)) he ht)
  unfold startPhase6Attachment
  simp only
  by_cases hact : (r.activationRole.isSome || !r.active) = true
  · simp only [hact, if_true, Bool.true_or]
    split
    · exact hfail _
    · rename_i p hprep
      split
      · exact hfail _
      · rename_i p' hbegin
        obtain ⟨hcontrol, hready⟩ := beginAttachment_ok hbegin
        have hpub := publishActive_of_control
          (fun hnone => prepareGeneration_control hprep (hcontrol.symm.trans hnone)) hready
        obtain ⟨p'', hpub⟩ := hpub
        simp only [hready, Bool.not_true, Bool.false_eq_true, if_false]
        exact (hset p').reaches (reaches_finishPhase6 (r := { r with dataplane := p' }) hconv
          (hc.aside (hset p')) ⟨hw.beside, hw.split⟩ he ht hprobe hpub)
  · -- a running engine under an active plane: only the attachment is renewed
    have hidle : c = .idle := by
      rcases hc with ⟨-, hc⟩ | ⟨hrole, -⟩
      · exact hc
      · exact absurd (by simp [Option.isSome_iff_ne_none.mpr hrole]) hact
    subst hidle
    have hactive : r.active = true := by
      by_contra hno
      exact hact (by simp [hno])
    simp only [hact, Bool.false_eq_true, if_false, Bool.false_or]
    have hkeep := beginAttachment_active r.dataplane
    split
    · split
      · exact hfail _
      · exact Reaches.some (Aside.acts (hset _))
    · rename_i p' hbegin
      rw [hbegin] at hkeep
      split
      · exact Reaches.some (Aside.acts (hset _))
      split
      · rename_i hno
        have hactive' : p'.mgr.status.active = true := hkeep.trans hactive
        simp [Reactor.active, hactive'] at hno
      · exact Reaches.some (Aside.acts (hset _))

theorem reaches_startGenerationCheck (hs : Shape r) (hbusy : r.convergenceBusy = false) (user : UserConfig) :
    Reaches fakeipOk P r .idle (startGenerationCheck conv w user r.generations.next
      { r with generations := r.generations.allocate.2, backoffArmed := false }) := by
  unfold startGenerationCheck
  simp only
  split
  · have hb : Bare { r with
        generations := r.generations.allocate.2
        backoffArmed := false
        subscription := r.subscription.bindGeneration r.nodes r.generations.next } :=
      (hs.bare (idle_of_not_busy hbusy).1).congr rfl rfl rfl
    refine (Act.generationFailed hbusy).reaches
      (Aside.reaches ?_ (reaches_finishTransactionError hconv hb _))
    exact .of_kept rfl id
  · rename_i watched hstart
    exact (Act.generation user ⟨r.generations.next, w.ports.1, w.ports.2⟩
      (if watched then .normal else .supervisionFailed) rfl (by cases watched <;> decide) hbusy).reaches
      (Reaches.some (Aside.acts (.of_kept rfl id)))

end Completions

/-! ### Convergence -/

section Convergence

variable {fakeipOk : PolicyCandidate → UserConfig → Bool} {P : Fault → Prop}
variable {conv : Reactor → Option Reactor} {r r' : Reactor} {w : Outside}

/-- Steps beside which a convergence may trust what it has decided. -/
structure Stays (fakeipOk : PolicyCandidate → UserConfig → Bool) (P : Fault → Prop)
    (r r' : Reactor) : Prop where
  acts : Acts fakeipOk P r .idle r' .idle
  user : r'.currentEngineUser = r.currentEngineUser
  busy : r'.convergenceBusy = r.convergenceBusy

theorem Stays.trans {r'' : Reactor} (h : Stays fakeipOk P r r') (h' : Stays fakeipOk P r' r'') :
    Stays fakeipOk P r r'' :=
  ⟨h.acts.trans h'.acts, h'.user.trans h.user, h'.busy.trans h.busy⟩

theorem Aside.stays (k : Aside r r') : Stays fakeipOk P r r' where
  acts := k.acts
  user := k.user
  busy := by rw [Reactor.convergenceBusy, k.transaction, k.role, Reactor.convergenceBusy]

theorem Feed.stays {s : Subscription} (h : Feed r.disabled r.nodes r.subscription s) :
    Stays fakeipOk P r { r with subscription := s } := ⟨(Act.feed h).one, rfl, rfl⟩

theorem stays_refl : Stays fakeipOk P r r := ⟨Acts.refl, rfl, rfl⟩

theorem scheduleSources_stays (w : Outside) (i : Inputs) (r : Reactor) :
    Stays fakeipOk P r (scheduleSources w i r) := by
  unfold scheduleSources
  cases i.engineNodes with
  | none => exact stays_refl
  | some nodes => exact (Feed.schedule nodes w.schedule).stays

theorem dropRefused_stays (i : Inputs) (r : Reactor) :
    Stays fakeipOk P r (dropRefused i r) := by
  unfold dropRefused
  by_cases hd : (i.wantEngine && i.candidateUser.isNone) = true
  · simp only [hd, if_true]
    exact Feed.refused.stays
  · simp only [hd, Bool.false_eq_true, if_false]
    exact stays_refl

theorem configureSubscription_stays (env : FetchEnv) (changed : Bool) (r : Reactor) :
    Stays fakeipOk P r (configureSubscription env changed r) := by
  unfold configureSubscription
  split
  · exact stays_refl
  · rename_i policy hp
    exact (Feed.configure policy.nodes changed env (by simp [Reactor.nodes, hp])).stays

theorem configureMissing_stays (w : Outside) (r : Reactor) :
    Stays fakeipOk P r (configureMissing w r) := by
  unfold configureMissing
  by_cases hn : r.subscription.schedule.isNone = true
  · simp only [hn, if_true]
    exact configureSubscription_stays w.configure false r
  · simp only [hn, Bool.false_eq_true, if_false]
    exact stays_refl

theorem evaluateSsid_stays (w : Outside) (policy : Option PolicyCandidate) (r : Reactor) :
    Stays fakeipOk P r (evaluateSsid w policy r).2 := by
  obtain ⟨paused, changed, heq⟩ := evaluateSsid_eq w policy r
  rw [heq]
  exact Aside.stays (.of_kept rfl id)

theorem queuePolicyRetry_stays (r : Reactor) : Stays fakeipOk P r (queuePolicyRetry r) := by
  unfold queuePolicyRetry
  split
  · exact stays_refl
  · exact Aside.stays (.of_kept rfl id)

/-- A policy that the running engine admits is installed. -/
theorem policy_stays {policy : PolicyCandidate} (changed : Bool) (env : FetchEnv)
    (huser : ∀ user, r.currentEngineUser = some user → fakeipOk policy user = true) :
    Stays fakeipOk P r
      (configureSubscription env changed { r with currentPolicy := some policy }) :=
  ⟨(Act.policy policy changed env huser).one, rfl, rfl⟩

theorem convergePolicy_stays {i : Inputs} (e : Endian) (srt : Sorter) (w : Outside)
    (hadm : ∀ policy, i.candidatePolicy = some policy →
      ∀ user, r.currentEngineUser = some user → fakeipOk policy user = true) :
    Stays fakeipOk P r (convergePolicy e srt w i r).2 := by
  have hset : ∀ p, Stays fakeipOk P r { r with dataplane := p } :=
    fun p => Aside.stays (aside_setPlane r p)
  have hfail : ∀ p, Stays fakeipOk P r
      (recordDataplaneError (queuePolicyRetry { r with dataplane := p })) :=
    fun p => ((hset p).trans (queuePolicyRetry_stays _)).trans (Aside.stays (aside_setPlane _ _))
  unfold convergePolicy
  split
  · rename_i policy hpolicy
    have hp := hadm policy hpolicy
    split
    · rename_i p _
      have hready : Stays fakeipOk P r { r with dataplane := p, policyRetryAvailable := true } :=
        Aside.stays (.of_kept rfl id)
      exact hready.trans (policy_stays i.sourcesChanged w.configure hp)
    · exact hfail _
  · split
    · split
      · exact stays_refl
      · split
        · exact hset _
        · exact hfail _
    · exact stays_refl

/-- The running engine admits the policy that a convergence is about to install. -/
theorem inputs_admitted {policy : PolicyCandidate} {user : UserConfig}
    (fakeipOk : PolicyCandidate → UserConfig → Bool) (w : Outside) (r : Reactor)
    (h : (inputs fakeipOk w r).candidatePolicy = some policy)
    (huser : r.currentEngineUser = some user) : fakeipOk policy user = true := by
  simp only [inputs, admittedPolicy, huser, Option.some_or] at h
  split at h
  · rename_i p u _ hu
    cases hu
    split at h
    · rename_i hok
      cases h
      exact hok
    · cases h
  · rename_i hno
    exact absurd rfl (hno policy user h)

theorem acts_cancel (r : Reactor) (p : Plane) :
    Acts fakeipOk P r .idle
      (cancelEngineWork { r with dataplane := p, engineCancelRequested := true }) .idle :=
  (Aside.acts (aside_setPlane r p)).trans (Act.cancel { r with dataplane := p }).one

theorem acts_deactivateRuntime (e : Endian) (w : Outside) (r : Reactor) :
    Acts fakeipOk P r .idle (deactivateRuntime e w r) .idle :=
  (acts_cancel r _).trans (Aside.acts (.of_kept rfl id))

theorem acts_requestShutdown (w : Outside) (r : Reactor) :
    Acts fakeipOk P r .idle (requestShutdown w r) .idle := by
  unfold requestShutdown
  split
  · exact Acts.refl
  · have k : Aside r { r with shutdownRequested := true } := .of_kept rfl fun _ => rfl
    exact (Aside.acts k).trans (acts_cancel _ _)

section

variable (hconv : Converges fakeipOk P conv)

include hconv

theorem reaches_convergeEngine {i : Inputs} (hs : Shape r)
    (hidle : i.engineBusy = false → r.convergenceBusy = false) (e : Endian)
    (user : Option UserConfig) : Reaches fakeipOk P r .idle (convergeEngine e conv w i user r) := by
  unfold convergeEngine
  split
  · rename_i role hrole
    cases hs.role.symm.trans hrole
  split
  · exact Reaches.some Acts.refl
  rename_i hnot
  have hbusy := hidle (by simpa using hnot)
  have k : Aside r { r with reloadRequested := false, engineConfigChanged := false } := .of_kept rfl id
  refine k.reaches ?_
  have hs' := hs.aside k
  have hbusy' : { r with
      reloadRequested := false, engineConfigChanged := false }.convergenceBusy = false := hbusy
  simp only
  split
  · -- the running engine is kept, and the batch goes to the cache
    refine (Act.settle w user hbusy').reaches ?_
    have hb : Bare (settlePending w user
        { r with reloadRequested := false, engineConfigChanged := false }) :=
      (hs'.bare (idle_of_not_busy hbusy).1).congr rfl rfl rfl
    split
    · rename_i child he
      refine reaches_startPhase6 hconv (.inl ⟨hb.role, rfl⟩) ⟨?_, ?_⟩ he hb.transaction hb.probe e
        child.params
      · intro plan policy hrole
        cases hb.role.symm.trans hrole
      · intro plan hrole
        cases hb.role.symm.trans hrole
    · exact Reaches.some Acts.refl
  split
  · exact Reaches.some Acts.refl
  · rename_i user _
    exact reaches_startGenerationCheck hconv hs' hbusy' user

theorem reaches_convergeDataplane {i : Inputs} (hs : Shape r)
    (hidle : i.engineBusy = false → r.convergenceBusy = false)
    (hadm : ∀ policy, i.candidatePolicy = some policy →
      ∀ user, r.currentEngineUser = some user → fakeipOk policy user = true)
    (e : Endian) (srt : Sorter) : Reaches fakeipOk P r .idle (convergeDataplane e srt conv w i r) := by
  have kup : Aside r (bringUp e w i r) := aside_setPlane r _
  unfold convergeDataplane
  simp only
  refine kup.reaches ?_
  split
  · split
    · exact Reaches.some (acts_cancel _ _)
    · exact Reaches.some (Aside.acts (aside_setPlane _ _))
  · have hdrop : Stays fakeipOk P (bringUp e w i r) (dropRefused i (bringUp e w i r)) :=
      dropRefused_stays i _
    have hpolicy : Stays fakeipOk P (bringUp e w i r)
        (convergePolicy e srt w i (dropRefused i (bringUp e w i r))).2 :=
      hdrop.trans (convergePolicy_stays e srt w hadm)
    generalize convergePolicy e srt w i (dropRefused i (bringUp e w i r)) = x at hpolicy
    obtain ⟨user, r₁⟩ := x
    simp only at hpolicy ⊢
    have k : Aside (configureMissing w r₁) { configureMissing w r₁ with topologyChanged := false } := .of_kept rfl id
    have hstay := (hpolicy.trans (configureMissing_stays w r₁)).trans (Aside.stays k)
    exact hstay.acts.reaches (reaches_convergeEngine hconv (hstay.acts.shape (hs.aside kup))
      (fun hb => hstay.busy.trans (hidle hb)) e user)

theorem reaches_convergeEnabled (hs : Shape r) (e : Endian) (srt : Sorter) :
    Reaches fakeipOk P r .idle (convergeEnabled e srt fakeipOk conv w r) := by
  unfold convergeEnabled
  simp only
  have k : Aside r { r with policyChanged := false } := .of_kept rfl id
  have hstay : Stays fakeipOk P r (evaluateSsid w
      ((inputs fakeipOk w r).candidatePolicy.or r.currentPolicy)
      (scheduleSources w (inputs fakeipOk w r) { r with policyChanged := false })).2 :=
    ((Aside.stays k).trans (scheduleSources_stays w _ _)).trans (evaluateSsid_stays w _ _)
  change Reaches fakeipOk P r .idle
    (if (evaluateSsid w ((inputs fakeipOk w r).candidatePolicy.or r.currentPolicy)
      (scheduleSources w (inputs fakeipOk w r) { r with policyChanged := false })).1 = true then _ else _)
  generalize evaluateSsid w ((inputs fakeipOk w r).candidatePolicy.or r.currentPolicy)
    (scheduleSources w (inputs fakeipOk w r) { r with policyChanged := false }) = x at hstay
  obtain ⟨paused, r₁⟩ := x
  simp only at hstay ⊢
  refine hstay.acts.reaches ?_
  split
  · exact Reaches.some (acts_deactivateRuntime e w r₁)
  split
  · exact Reaches.some Acts.refl
  split
  · exact Reaches.some (Aside.acts (.of_kept rfl id))
  · refine reaches_convergeDataplane hconv (hstay.acts.shape hs) (fun hb => hstay.busy.trans hb)
      (fun policy hp user hu => ?_) e srt
    exact inputs_admitted fakeipOk w r hp (hstay.user.symm.trans hu)

theorem reaches_convergeWith (hs : Shape r) (e : Endian) (srt : Sorter) :
    Reaches fakeipOk P r .idle (convergeWith e srt fakeipOk conv w r) := by
  unfold convergeWith
  split
  · exact Reaches.some (Act.cancel r).one
  split
  · have k : Aside r { r with ssidPaused := false } := .of_kept rfl id
    refine k.reaches ((Act.feed Feed.reset).reaches ?_)
    exact Reaches.some (acts_deactivateRuntime e w _)
  split
  · exact Reaches.some Acts.refl
  · exact reaches_convergeEnabled hconv hs e srt

end

/-- Nested convergences are sequences of steps, whatever they meet. -/
theorem converges_converge (e : Endian) (srt : Sorter) :
    ∀ ws : List Outside, Converges fakeipOk P (converge e srt fakeipOk ws)
  | [] => fun _ _ _ heq => by cases heq
  | _ :: ws => fun _ hs => reaches_convergeWith (converges_converge e srt ws) hs e srt

end Convergence

/-! ### Handlers -/

section Handlers

variable {fakeipOk : PolicyCandidate → UserConfig → Bool} {P : Fault → Prop}
variable {conv : Reactor → Option Reactor} {r : Reactor} {w : Outside}
variable (hconv : Converges fakeipOk P conv)

theorem freeze_aside (w : Outside) (r : Reactor) : Aside r (freeze w r) := by
  have k : Aside r (publishInactive w r).2 := aside_setPlane r _
  unfold freeze
  split
  · rename_i heq
    rwa [heq] at k
  · rename_i heq
    rw [heq] at k
    exact k.trans (aside_setPlane _ _)

section

include hconv

theorem reaches_executeCommands (hs : Shape r) (e : Endian)
    (kinds : List CommandKind) (stimulus : Stimulus) :
    Reaches fakeipOk P r .idle (executeCommands e conv w kinds stimulus r) := by
  unfold executeCommands
  split
  · exact Reaches.some (acts_requestShutdown w r)
  split
  · exact Reaches.some (acts_deactivateRuntime e w r)
  simp only
  have kfreeze : Aside r (if kinds.contains .publishInactive then freeze w r else r) := by
    split
    · exact freeze_aside w r
    · exact .refl r
  refine kfreeze.reaches ?_
  replace hs := hs.aside kfreeze
  generalize (if kinds.contains .publishInactive then freeze w r else r) = r₁ at hs
  have hcancel : Acts fakeipOk P r₁ .idle
      (if kinds.contains .stopEngine || kinds.contains .restartWithBackoff then
        cancelEngineWork { r₁ with engineCancelRequested := true } else r₁) .idle := by
    split
    · exact (Act.cancel r₁).one
    · exact Acts.refl
  generalize (if kinds.contains .stopEngine || kinds.contains .restartWithBackoff then
    cancelEngineWork { r₁ with engineCancelRequested := true } else r₁) = r₂ at hcancel ⊢
  refine hcancel.reaches ?_
  split
  · exact hconv r₂ (hcancel.shape hs)
  · exact Reaches.some Acts.refl

theorem reaches_applyStimulus (hs : Shape r) (e : Endian) (stimulus : Stimulus) :
    Reaches fakeipOk P r .idle (applyStimulus e conv w stimulus r) := by
  unfold applyStimulus
  simp only
  have k : Aside r { r with planner := (plan r.planner stimulus).1 } := .of_kept rfl id
  split
  · exact Reaches.some (Aside.acts (.of_kept rfl id))
  split
  · exact Reaches.some (Aside.acts k)
  · refine k.reaches (Reaches.map ?_ fun r' => Aside.acts (aside_refresh r'))
    exact reaches_executeCommands hconv (hs.aside k) e _ stimulus

end

theorem reaped_terminate (child : EngineChild) (r : Reactor)
    (h : (w.exited || w.terminates) = false → P .unreaped) : Reaped P child r (terminate w child r) := by
  unfold terminate
  by_cases hx : (w.exited || w.terminates) = true
  · simp only [hx, if_true]
    exact .inl rfl
  · simp only [hx, Bool.false_eq_true, if_false]
    exact .inr ⟨h (by simpa using hx), rfl⟩

/-- Nothing else in the plan of a failing candidate matters to its recovery. -/
def Recovers (P : Fault → Prop) (w : Outside) (r : Reactor) (plan : SwitchPlan) : Prop :=
  ∀ old error, plan.old = some old → r.engineCancelRequested = false →
    w.recoverySpawn = .failed error → P .recoverySpawn

include hconv

theorem reaches_finishWaitingExit {child : EngineChild} {role : WaitRole}
    (hs : ShapeAt r (.holding (.waiting child role))) (hexit : w.exited = true)
    (hcand : ∀ plan, role = .candidate plan → Recovers P w r plan)
    (hrec : ∀ error, role = .recovery error → P .recoveryExit) :
    Reaches fakeipOk P r (.holding (.waiting child role)) (finishWaitingExit conv w child role r) := by
  have hreap : Reaped P child r (terminate w child r) :=
    reaped_terminate child r fun hx => by simp [hexit] at hx
  have hb : Bare (terminate w child { r with diagProbe := false }) := ⟨hs.1, hs.2.1, rfl⟩
  unfold finishWaitingExit
  simp only
  split
  · rename_i plan
    refine (Act.candidateExit hreap).reaches ?_
    exact reaches_beginCandidateFailure hconv hb _ (hcand plan rfl)
  · rename_i error
    refine (Act.recoveryExit hreap (hrec error rfl)).reaches ?_
    exact reaches_finishTransactionError hconv hb _

theorem reaches_advanceWaiting {child : EngineChild} {role : WaitRole}
    (hs : ShapeAt r (.holding (.waiting child role)))
    (hcand : ∀ plan, role = .candidate plan → Recovers P w r plan)
    (hrec : ∀ error, role = .recovery error → r.engineCancelRequested = false → w.exited = true →
      P .recoveryExit) :
    Reaches fakeipOk P r (.holding (.waiting child role)) (advanceWaiting conv w child role r) := by
  unfold advanceWaiting
  split
  · rename_i hc
    exact (Act.waitCancelled hc).reaches_some
  rename_i hc
  split
  · rename_i hexit
    exact reaches_finishWaitingExit hconv hs hexit hcand
      fun error heq => hrec error heq (by simpa using hc) hexit
  split
  · exact (Act.waitFailed r child role .notReady).reaches_some
  split
  · exact (Act.waitFailed r child role .io).reaches_some
  · exact (Act.rewait r child role false).reaches_some
  · split
    · exact (Act.rewait r child role r.diagProbe).reaches_some
    split
    · exact (Act.rewait r child role true).reaches_some
    · exact (Act.waitFailed r child role .io).reaches_some

theorem reaches_completeStopped {child : EngineChild} {next : StopNext} {killSent : Bool}
    (hs : ShapeAt r (.holding (.stopping child next killSent)))
    (hreap : (w.exited || w.terminates) = false → P .unreaped)
    (hstart : ∀ plan, next = .startCandidate plan → Recovers P w r plan)
    (hrecover : ∀ plan error, next = .recover plan error → Recovers P w r plan) :
    Reaches fakeipOk P r (.holding (.stopping child next killSent))
      (completeStopped conv w child next r) := by
  have hreaped := reaped_terminate child r hreap
  have hb : Bare (terminate w child r) := hs.1.congr rfl rfl rfl
  have hremoved : Bare (removeEffective child.params.generation (terminate w child r)) :=
    hs.1.congr rfl rfl rfl
  unfold completeStopped
  simp only
  split
  · rename_i plan
    split
    · rename_i hc
      have hc' : r.engineCancelRequested = true := hc
      refine (Act.stopOvertaken hreaped hc').reaches (reaches_finishCancelled hconv ?_)
      exact hs.1.congr rfl rfl rfl
    · rename_i hc
      have hc' : r.engineCancelRequested = false := by simpa [terminate] using hc
      exact (Act.stopped hreaped hc').reaches (reaches_startCandidate hconv hb (hstart plan rfl))
  · rename_i plan error
    refine (Act.stopRecovers hreaped).reaches ?_
    exact reaches_beginCandidateFailure hconv hremoved error (hrecover plan error rfl)
  · exact (Act.stopEnds hreaped).reaches (reaches_finishTransactionError hconv hremoved _)
  · exact (Act.stopCancelled hreaped).reaches (reaches_finishCancelled hconv hremoved)

omit hconv in
theorem reaches_stopConfirmationFailed {child : EngineChild} {next : StopNext} {killSent : Bool}
    (hP : P (.unconfirmed r child next)) :
    Reaches fakeipOk P r (.holding (.stopping child next killSent))
      (some (stopConfirmationFailed w child next r)) :=
  (Act.kept hP).reaches ((Act.resume _ w).reaches (Reaches.some (Aside.acts (.of_kept rfl id))))

theorem reaches_completeCheck {plan : SwitchPlan} {d d' : CheckDisposition}
    (hd : d' = .cancelled → d = .cancelled) (hs : ShapeAt r (.holding (.checking plan d)))
    (hrec : Recovers P w r plan) (error : Option EngineError) :
    Reaches fakeipOk P r (.holding (.checking plan d)) (completeCheck conv w plan d' error r) := by
  have hremoved : Bare (removeEffective plan.params.generation r) := Bare.congr hs rfl rfl rfl
  have hfail : ∀ error, Reaches fakeipOk P r (.holding (.checking plan d))
      (finishTransactionError conv w error (removeEffective plan.params.generation r)) :=
    fun error => (Act.checkFailed r plan d).reaches
      (reaches_finishTransactionError hconv hremoved error)
  have hcancelled : d = .cancelled ∨ r.engineCancelRequested = true →
      Reaches fakeipOk P r (.holding (.checking plan d))
        (finishCancelled conv (removeEffective plan.params.generation r)) :=
    fun hc => (Act.checkCancelled r hc).reaches (reaches_finishCancelled hconv hremoved)
  unfold completeCheck
  simp only
  split
  · exact hcancelled (.inl (hd rfl))
  · exact hfail _
  · exact hfail _
  split
  · exact hfail _
  split
  · rename_i hc
    exact hcancelled (.inr hc)
  rename_i hc
  have hc' : r.engineCancelRequested = false := by simpa using hc
  split
  · rename_i he
    exact (Act.checked he hc').reaches (reaches_startCandidate hconv hs hrec)
  · rename_i child he
    split
    · rename_i r₁ heq
      -- the capture cannot be frozen: the running child stays
      obtain rfl : (publishInactive w { r with engine := none }).2 = r₁ := congrArg Prod.snd heq
      have hb : Bare { removeEffective plan.params.generation
          (publishInactive w { r with engine := none }).2 with engine := some child } :=
        Bare.congr hs rfl rfl rfl
      refine (Act.checkFailed r plan _).reaches
        (Aside.reaches ?_ (reaches_finishTransactionError hconv hb _))
      exact ⟨he.symm, rfl, rfl, rfl, rfl, rfl, rfl, rfl, rfl, rfl, id⟩
    · rename_i r₁ heq
      obtain rfl : (publishInactive w { r with engine := none }).2 = r₁ := congrArg Prod.snd heq
      exact (Act.switched he hc').reaches (Reaches.some (Aside.acts (aside_setPlane _ _)))

theorem reaches_promoteReadyChild {child : EngineChild} {role : WaitRole}
    (hs : ShapeAt r (.holding (.waiting child role))) (hc : r.engineCancelRequested = false)
    (hbeside : ∀ plan policy, role = .candidate plan → w.retags = true →
      r.currentPolicy = some policy → P (.beside policy plan))
    (hsplit : ∀ plan, role = .candidate plan → w.retags = true →
      ¬ Uniform r.subscription r.nodes (some plan.params.generation) w.commit → P .splitCommit)
    (e : Endian) :
    Reaches fakeipOk P r (.holding (.waiting child role))
      (promoteReadyChild e conv w child role r) := by
  unfold promoteReadyChild
  simp only
  split
  · exact (Act.waitFailed r child role .io).reaches_some
  · rename_i hretags
    have hretags : w.retags = true := by simpa using hretags
    have hw : Commits P w { r with
        diagProbe := false, engine := some child, activationRole := some role
        engineCancelRequested := false } :=
      ⟨fun plan policy hrole => hbeside plan policy (Option.some.inj hrole) hretags,
        fun plan hrole => hsplit plan (Option.some.inj hrole) hretags⟩
    exact (Act.promote hc).reaches
      (reaches_startPhase6 hconv (.inr ⟨by simp, rfl⟩) hw rfl hs.1 rfl e child.params)

end Handlers

/-! ### Events -/

/-- The events whose handlers take the transaction out of its slot. -/
def EventKind.takes : EventKind → Bool
  | .engineTimer | .transactionPidfd | .checkExit | .sockDiag => true
  | _ => false

/-- A child is being stopped. -/
def isStopping : Option EngineTransaction → Bool
  | some (.stopping _ _ _) => true
  | _ => false

/-- The handler reaps a child on the word of a pidfd. -/
def EventKind.reaps (kind : EventKind) (r : Reactor) : Prop :=
  kind = .transactionPidfd ∧ isStopping r.engineTransaction = true ∨
    kind = .engineExit ∧ r.engine ≠ none

instance (kind : EventKind) (r : Reactor) : Decidable (kind.reaps r) :=
  inferInstanceAs (Decidable (_ ∧ _ ∨ _ ∧ _))

/-- The candidate whose child the handler is about to promote. -/
def promoted (r : Reactor) (kind : EventKind) (w : Outside) : Option SwitchPlan :=
  match kind, r.engineTransaction with
  | .sockDiag, some (.waiting _ (.candidate plan)) =>
    if r.diagProbe && !r.engineCancelRequested && !w.exited && !w.deadlinePassed && w.probe == .ready &&
      w.retags then some plan else none
  | _, _ => none

/-- `P` covers every fault that the event can meet. -/
structure Grants (P : Fault → Prop) (r : Reactor) (kind : EventKind) (w : Outside) : Prop where
  take : kind.takes = true → r.engineTransaction ≠ none → P (.take r) := by intros; trivial
  unreaped : kind.reaps r → (w.exited || w.terminates) = false → P .unreaped := by intros; trivial
  recoverySpawn : kind.takes = true → ∀ plan, r.candidate = some plan → ∀ old error,
    plan.old = some old → r.engineCancelRequested = false → w.recoverySpawn = .failed error →
    P .recoverySpawn := by intros; trivial
  recoveryExit : kind.takes = true → ∀ child error,
    r.engineTransaction = some (.waiting child (.recovery error)) → r.engineCancelRequested = false →
    w.exited = true → P .recoveryExit := by intros; trivial
  unconfirmed : kind = .engineTimer → ∀ child next,
    r.engineTransaction = some (.stopping child next true) → w.exited = false →
    w.deadlinePassed = true →
    P (.unconfirmed { r with engineTransaction := none } child next) := by intros; trivial
  beside : ∀ plan policy, promoted r kind w = some plan → r.currentPolicy = some policy →
    P (.beside policy plan) := by intros; trivial
  split : ∀ plan, promoted r kind w = some plan →
    ¬ Uniform r.subscription r.nodes (some plan.params.generation) w.commit →
    P .splitCommit := by intros; trivial
  queuedBeside : ∀ answers, kind = .subscription answers → r.convergenceBusy = false →
    (handleSubscriptionResult w answers r).1 = .accepted →
    (handleSubscriptionResult w answers r).2.subscription.fetchQueued = true →
    P (.queuedBeside r) := by intros; trivial

section Events

variable {fakeipOk : PolicyCandidate → UserConfig → Bool} {P : Fault → Prop}
variable {conv : Reactor → Option Reactor} {r : Reactor} {w : Outside}
variable (hconv : Converges fakeipOk P conv) {kind : EventKind} (hs : Shape r)
variable (ha : Grants P r kind w)

include hconv hs ha

theorem reaches_handleCheckExit (hk : kind = .checkExit) :
    Reaches fakeipOk P r .idle (handleCheckExit conv w r) := by
  have htake : kind.takes = true := by rw [hk]; rfl
  unfold handleCheckExit
  split
  · rename_i plan d ht
    have hact : Act fakeipOk P r .idle { r with engineTransaction := none }
      (.holding (.checking plan d)) := .take ht (ha.take htake (by simp [ht]))
    split
    · refine hact.reaches (reaches_completeCheck hconv id (hs.taken ht) ?_ _)
      exact ha.recoverySpawn htake plan (by simp [Reactor.candidate, ht, EngineTransaction.candidate])
    · exact Reaches.some Acts.refl
    · exact hact.reaches (Act.recheck _ (by simp)).reaches_some
  · exact Reaches.some Acts.refl

omit hconv hs in
theorem Grants.waiting {child : EngineChild} {role : WaitRole} {plan : SwitchPlan}
    (htake : kind.takes = true) (ht : r.engineTransaction = some (.waiting child role))
    (hrole : role = .candidate plan) : Recovers P w r plan :=
  ha.recoverySpawn htake plan (by simp [Reactor.candidate, ht, hrole, EngineTransaction.candidate])

omit hconv hs in
theorem Grants.stopping {child : EngineChild} {next : StopNext} {killSent : Bool} {plan : SwitchPlan}
    (htake : kind.takes = true) (ht : r.engineTransaction = some (.stopping child next killSent))
    (hnext : next = .startCandidate plan ∨ ∃ error, next = .recover plan error) :
    Recovers P w r plan := by
  refine ha.recoverySpawn htake plan ?_
  rcases hnext with rfl | ⟨error, rfl⟩
  · simp [Reactor.candidate, ht, EngineTransaction.candidate]
  · simp [Reactor.candidate, ht, EngineTransaction.candidate]

theorem reaches_takeWaiting {child : EngineChild} {role : WaitRole} (htake : kind.takes = true)
    (ht : r.engineTransaction = some (.waiting child role)) :
    Reaches fakeipOk P r .idle
      (advanceWaiting conv w child role { r with engineTransaction := none }) := by
  refine (Act.take ht (ha.take htake (by simp [ht]))).reaches ?_
  refine reaches_advanceWaiting hconv (hs.taken ht) (fun plan heq => ha.waiting htake ht heq) ?_
  intro error heq hc hx
  exact ha.recoveryExit htake child error (by rw [ht, heq]) hc hx

theorem reaches_takeStopping {child : EngineChild} {next : StopNext} {killSent : Bool}
    (htake : kind.takes = true) (ht : r.engineTransaction = some (.stopping child next killSent))
    (hreap : (w.exited || w.terminates) = false → P .unreaped) :
    Reaches fakeipOk P r .idle
      (completeStopped conv w child next { r with engineTransaction := none }) :=
  (Act.take ht (ha.take htake (by simp [ht]))).reaches
    (reaches_completeStopped hconv (hs.taken ht) hreap (fun plan heq => ha.stopping htake ht (.inl heq))
      fun plan error heq => ha.stopping htake ht (.inr ⟨error, heq⟩))

theorem reaches_handleEngineTimer (hk : kind = .engineTimer) :
    Reaches fakeipOk P r .idle (handleEngineTimer conv w r) := by
  have htake : kind.takes = true := by rw [hk]; rfl
  unfold handleEngineTimer
  simp only
  split
  · exact Reaches.some Acts.refl
  · rename_i plan d ht
    refine (Act.take ht (ha.take htake (by simp [ht]))).reaches ?_
    have hd : ∀ d' : CheckDisposition, d' = (if d == .normal && w.deadlinePassed then .timedOut else d) →
        d' = .cancelled → d = .cancelled := by
      rintro d' rfl hc
      split at hc
      · cases hc
      · exact hc
    split
    · refine reaches_completeCheck hconv (hd _ rfl) (hs.taken ht) ?_ _
      exact ha.recoverySpawn htake plan (by simp [Reactor.candidate, ht, EngineTransaction.candidate])
    · exact (Act.recheck _ (hd _ rfl)).reaches_some
    · exact (Act.recheck _ (by simp)).reaches_some
  · rename_i child role ht
    exact reaches_takeWaiting hconv hs ha htake ht
  · rename_i child next killSent ht
    have hact : Act fakeipOk P r .idle { r with engineTransaction := none }
      (.holding (.stopping child next killSent)) := .take ht (ha.take htake (by simp [ht]))
    split
    · rename_i hexit
      exact reaches_takeStopping hconv hs ha htake ht fun hx => by simp [hexit] at hx
    rename_i hexit
    split
    · exact Reaches.some Acts.refl
    rename_i hdead
    split
    · exact hact.reaches (Act.restop _ child next killSent true).reaches_some
    · rename_i hkill
      refine hact.reaches (reaches_stopConfirmationFailed (ha.unconfirmed hk child next ?_ ?_ ?_))
      · rw [ht]
        simpa using hkill
      · simpa using hexit
      · simpa using hdead

theorem reaches_handleTransactionPidfd (hk : kind = .transactionPidfd) :
    Reaches fakeipOk P r .idle (handleTransactionPidfd conv w r) := by
  have htake : kind.takes = true := by rw [hk]; rfl
  unfold handleTransactionPidfd
  simp only
  split
  · rename_i child role ht
    exact reaches_takeWaiting hconv hs ha htake ht
  · rename_i child next killSent ht
    exact reaches_takeStopping hconv hs ha htake ht (ha.unreaped (.inl ⟨hk, by rw [ht]; rfl⟩))
  · exact Reaches.some Acts.refl

theorem reaches_handleSockDiag (hk : kind = .sockDiag) (e : Endian) :
    Reaches fakeipOk P r .idle (handleSockDiag e conv w r) := by
  have htake : kind.takes = true := by rw [hk]; rfl
  unfold handleSockDiag
  split
  · exact Reaches.some Acts.refl
  rename_i hprobe
  simp only
  split
  · rename_i child role ht
    refine (Act.take ht (ha.take htake (by simp [ht]))).reaches ?_
    have hs' := hs.taken ht
    have hrewait : ∀ probe, Reaches fakeipOk P { r with engineTransaction := none }
        (.holding (.waiting child role))
        (some (waitForChild child role { r with diagProbe := probe, engineTransaction := none })) :=
      fun probe => (Act.rewait { r with engineTransaction := none } child role probe).reaches_some
    split
    · rename_i hc
      have hc' : { r with engineTransaction := none }.engineCancelRequested = true := hc
      exact (Act.waitCancelled hc').reaches_some
    rename_i hc
    have hc' : r.engineCancelRequested = false := by simpa using hc
    split
    · rename_i hexit
      exact reaches_finishWaitingExit (r := { r with engineTransaction := none }) hconv hs' hexit
        (fun plan heq => ha.waiting htake ht heq)
        fun error heq => ha.recoveryExit htake child error (by rw [ht, heq]) hc' hexit
    rename_i hexit
    split
    · exact (Act.waitFailed { r with engineTransaction := none } child role .notReady).reaches_some
    rename_i hdead
    split
    · exact hrewait true
    · exact hrewait false
    · rename_i hready
      have hpromoted : ∀ plan, role = .candidate plan → w.retags = true →
          promoted r kind w = some plan := by
        rintro plan rfl hretags
        have hprobe' : r.diagProbe = true := by simpa using hprobe
        simp [promoted, hk, ht, hready, hc', hretags, hprobe', hexit, hdead]
      exact reaches_promoteReadyChild (r := { r with engineTransaction := none }) hconv hs' hc'
        (fun plan policy heq hretags => ha.beside plan policy (hpromoted plan heq hretags))
        (fun plan heq hretags => ha.split plan (hpromoted plan heq hretags)) e
    · rename_i error _
      exact (Act.waitFailed { r with engineTransaction := none } child role error).reaches_some
  · -- a probe belongs to a waiting child
    rename_i hno
    obtain ⟨child, role, ht⟩ := hs.probe (by simpa using hprobe)
    exact absurd ht (hno child role)

omit hconv in
theorem reaches_reapEngine {r' : Reactor} (k : Aside r r') (hk : kind = .engineExit) :
    Reaches fakeipOk P r' .idle (reapEngine conv w r') := by
  have hrole := (hs.aside k).role
  unfold reapEngine
  split
  · exact Reaches.some Acts.refl
  · rename_i child he
    have hreap := reaped_terminate child r' (ha.unreaped (.inr ⟨hk, by simp [← k.engine, he]⟩))
    simp only
    split
    · rename_i plan heq
      cases hrole.symm.trans heq
    · rename_i error heq
      cases hrole.symm.trans heq
    · refine (Act.exitEngine he hreap).reaches (Reaches.some (Aside.acts ?_))
      split
      · exact .of_kept rfl id
      · exact .of_kept rfl id

end Events

section Kinds

variable {fakeipOk : PolicyCandidate → UserConfig → Bool} {P : Fault → Prop}
variable {conv : Reactor → Option Reactor} {r : Reactor} {w : Outside}

theorem freezeForExit_aside (w : Outside) (kinds : List CommandKind) (r : Reactor) :
    Aside r (freezeForExit w kinds r) := by
  unfold freezeForExit
  split
  · exact .refl r
  split
  · exact aside_setPlane r _
  · exact .refl r

theorem acts_startScheduled (env : FetchEnv) (r : Reactor) :
    Acts fakeipOk P r .idle (startScheduledSubscriptionFetch w env r) .idle := by
  unfold startScheduledSubscriptionFetch
  split
  · exact Acts.refl
  · rename_i nodes _
    exact (Act.feed (.fetch nodes env)).one

theorem acts_startSubscriptionFetch (env : FetchEnv) (r : Reactor) :
    Acts fakeipOk P r .idle (startSubscriptionFetch w env r) .idle := by
  unfold startSubscriptionFetch
  split
  · exact Acts.refl
  · rename_i config _
    exact (Act.feed (.fetch config.nodes env)).one

theorem acts_maybeRetry (r : Reactor) :
    Acts fakeipOk P r .idle (maybeRetrySubscriptionOnRoute w r) .idle := by
  have hroute : Acts fakeipOk P r .idle
      { r with subscription := r.subscription.observeRoute w.route } .idle := (Act.feed (.route w.route)).one
  unfold maybeRetrySubscriptionOnRoute
  simp only
  by_cases hno : (!(r.subscription.observeRoute w.route).retryOnRoute ||
      (r.subscription.observeRoute w.route).routeRecoveryEpoch == r.subscription.routeRecoveryEpoch) = true
  · rw [if_pos hno]
    exact hroute
  · rw [if_neg hno]
    exact hroute.trans ((Act.feed .retried).one.trans (acts_startScheduled w.retry _))

theorem takeDebounceStimulus_aside (w : Outside) (r : Reactor) :
    Aside r (takeDebounceStimulus w r).2 := by
  unfold takeDebounceStimulus
  split
  · obtain ⟨paused, changed, heq⟩ := evaluateSsid_eq w r.currentPolicy r
    simp only [heq]
    exact .of_kept rfl id
  split
  · exact .refl r
  · exact .refl r

/-- **Every handler is a sequence of steps.** -/
theorem reaches_handleKind (hconv : Converges fakeipOk P conv) (hs : Shape r) (e : Endian)
    {kind : EventKind} (ha : Grants P r kind w) :
    Reaches fakeipOk P r .idle (handleKind e conv w r kind) := by
  have hstim : ∀ {r' : Reactor} (s : Stimulus), Aside r r' →
      Reaches fakeipOk P r .idle (applyStimulus e conv w s r') :=
    fun s k => k.reaches (reaches_applyStimulus hconv (hs.aside k) e s)
  cases kind with
  | enable written =>
    simp only [handleKind]
    split
    · exact hstim .enable (.of_kept rfl id)
    · exact Reaches.some Acts.refl
  | disable written =>
    simp only [handleKind]
    split
    · exact hstim .disable (.of_kept rfl id)
    · exact Reaches.some Acts.refl
  | reload => exact hstim .reload (.of_kept rfl id)
  | stop => exact (hstim .stop (.refl r)).map (acts_requestShutdown w)
  | sighup => exact hstim .sighup (.of_kept rfl id)
  | sigterm => exact hstim .sigterm (.refl r)
  | inotify switch policy engineConfig =>
    simp only [handleKind]
    refine Reaches.map ?_ fun r' => Aside.acts (.of_kept rfl id)
    split
    · exact hstim _ (.refl r)
    · exact Reaches.some Acts.refl
  | rtnetlink => exact Reaches.some (Aside.acts (.of_kept rfl id))
  | nl80211 =>
    simp only [handleKind]
    split
    · exact Reaches.some Acts.refl
    · exact Reaches.some (Aside.acts (.of_kept rfl id))
  | debounce =>
    simp only [handleKind]
    refine (hstim _ (takeDebounceStimulus_aside w r)).map fun r' => ?_
    split
    · exact acts_maybeRetry r'
    · exact Acts.refl
  | backoff =>
    simp only [handleKind]
    split
    · have k : Aside r { r with backoffArmed := false } := .of_kept rfl id
      exact k.reaches (Reaches.some (Act.cancel _).one)
    · exact hstim .backoffExpired (.of_kept rfl id)
  | engineExit =>
    have k : Aside r (cancelAttachment (freezeForExit w ((plan r.planner .engineExited).2.map Command.kind)
        { r with planner := (plan r.planner .engineExited).1 })) := by
      refine (Aside.trans ?_ (freezeForExit_aside w _ _)).trans (aside_setPlane _ _)
      exact .of_kept rfl id
    exact k.reaches ((reaches_reapEngine hs ha k rfl).map fun r' => Aside.acts (aside_refresh r'))
  | engineTimer => exact reaches_handleEngineTimer hconv hs ha rfl
  | transactionPidfd => exact reaches_handleTransactionPidfd hconv hs ha rfl
  | checkExit => exact reaches_handleCheckExit hconv hs ha rfl
  | sockDiag => exact reaches_handleSockDiag hconv hs ha rfl e
  | subscription answers =>
    simp only [handleKind]
    split
    · rename_i r' heq
      obtain rfl : (handleSubscriptionResult w answers r).2 = r' := congrArg Prod.snd heq
      exact (Act.discardedResult (congrArg Prod.fst heq)).reaches_some
    · rename_i r' heq
      obtain rfl : (handleSubscriptionResult w answers r).2 = r' := congrArg Prod.snd heq
      exact (Act.emptyResult (congrArg Prod.fst heq)).reaches (Act.resume _ w).reaches_some
    · rename_i r' heq
      obtain rfl : (handleSubscriptionResult w answers r).2 = r' := congrArg Prod.snd heq
      have hv : (handleSubscriptionResult w answers r).1 = .accepted := congrArg Prod.fst heq
      refine (Act.acceptedResult hv fun hq hbusy => ha.queuedBeside answers rfl hbusy hv hq).reaches ?_
      have hshape : Shape (handleSubscriptionResult w answers r).2 := hs.congr rfl rfl rfl rfl
      have k : Aside (handleSubscriptionResult w answers r).2
          { (handleSubscriptionResult w answers r).2 with
            policyChanged := true, policyRetryAvailable := true, engineConfigChanged := true } := .of_kept rfl id
      exact k.reaches (hconv _ (hshape.aside k))
  | subscribe => exact Reaches.some (acts_startSubscriptionFetch w.schedule r)
  | subscriptionTimer => exact Reaches.some (acts_startScheduled w.schedule r)
  | other => exact Reaches.some Acts.refl

variable (e : Endian) (srt : Sorter)

theorem reaches_handle {ev : Event} (hs : Shape r) (ha : Grants P (ev.enter r) ev.kind ev.outside) :
    Reaches fakeipOk P (ev.enter r) .idle (handle e srt fakeipOk r ev) := by
  have hs' : Shape (ev.enter r) := hs.congr rfl rfl rfl rfl
  exact reaches_handleKind (converges_converge e srt ev.nested) hs' e ha

/-- The state that the prologue of `run` starts from. -/
def Event.boot (ev : Event) (dataplane : Plane) (badPageSize : Bool) : Reactor :=
  { Reactor.new dataplane badPageSize with
    disabled := ev.disabled
    subscription := .new ev.cache
    host := { Host.new with stuck := ev.stuck } }

theorem reaches_start (ev : Event) (dataplane : Plane) (badPageSize : Bool) :
    Reaches fakeipOk P (ev.boot dataplane badPageSize) .idle
      (start e srt fakeipOk dataplane badPageSize ev) := by
  have hs : Shape (ev.boot dataplane badPageSize) := Bare.shape ⟨rfl, rfl, rfl⟩
  have k := aside_refresh (ev.boot dataplane badPageSize)
  refine k.reaches ?_
  unfold start
  simp only
  split
  · exact Reaches.some ((acts_deactivateRuntime e ev.outside _).trans (Aside.acts (aside_refresh _)))
  · exact reaches_applyStimulus (converges_converge e srt ev.nested) (hs.aside k) e .bootstrap

/-- **The run rule.**  What holds at the start, survives the entry of a handler and is kept by every
step holds after every run whose events meet `C`, if `C` covers the faults that `P` leaves out. -/
theorem run_keeps {I : Reactor → Control → Prop} {C : Reactor → Event → Prop}
    (hact : ∀ {r c r' c'}, Act fakeipOk P r c r' c' → ShapeAt r c → I r c → I r' c')
    (henter : ∀ r ev, C r ev → I r .idle → I (ev.enter r) .idle)
    (hgrants : ∀ r ev, C r ev → Shape r → I r .idle → Grants P (ev.enter r) ev.kind ev.outside)
    {dataplane : Plane} {badPageSize : Bool} {first : Event} {evs : List Event} {r₀ r : Reactor}
    (hboot : I (first.boot dataplane badPageSize) .idle)
    (hstart : start e srt fakeipOk dataplane badPageSize first = some r₀)
    (hsteps : AllStepsOption (handle e srt fakeipOk) C r₀ evs)
    (hrun : runOption (handle e srt fakeipOk) r₀ evs = some r) : Shape r ∧ I r .idle := by
  have hall : ∀ {r r' : Reactor}, Acts fakeipOk P r .idle r' .idle → Shape r ∧ I r .idle →
      Shape r' ∧ I r' .idle := by
    intro r r' hacts h
    exact hacts.inv (I := fun r c => ShapeAt r c ∧ I r c)
      (fun hact' hi => ⟨hact'.shape hi.1, hact hact' hi.1 hi.2⟩) h
  have h₀ : Shape r₀ ∧ I r₀ .idle :=
    hall (reaches_start e srt first dataplane badPageSize r₀ hstart)
      ⟨Bare.shape ⟨rfl, rfl, rfl⟩, hboot⟩
  refine runOption_inv (I := fun r => Shape r ∧ I r .idle) (fun r ev r' h hc heq => ?_) h₀ hsteps hrun
  exact hall (reaches_handle e srt h.1 (hgrants r ev hc h.1 h.2) r' heq)
    ⟨h.1.congr rfl rfl rfl rfl, henter r ev hc h.2⟩

/-- The shape holds in every state of every run. -/
theorem run_shape {dataplane : Plane} {badPageSize : Bool} {first : Event} {evs : List Event}
    {r₀ r : Reactor} (hstart : start e srt fakeipOk dataplane badPageSize first = some r₀)
    (hrun : runOption (handle e srt fakeipOk) r₀ evs = some r) : Shape r :=
  (run_keeps (P := fun _ => True) (I := fun _ _ => True) (C := fun _ _ => True) e srt
    (fun _ _ _ => trivial) (fun _ _ _ _ => trivial) (fun _ _ _ _ _ => {}) trivial hstart
    (allStepsOption_of_mem fun _ _ => trivial) hrun).1

end Kinds

end FluxRs.Daemon
