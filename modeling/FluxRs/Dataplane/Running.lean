import FluxRs.Dataplane.Arming

/-!
# FluxRs.Dataplane.Running — what an active plane runs and publishes

`active` is a flag of the manager.  It is up only over a module that runs with its symbols, whatever the
operations; the module holds the table of the selected UIDs as long as each commit point finds it filled.
-/

namespace FluxRs.Dataplane

open FluxRs.Lib FluxRs.Net FluxRs.Kmod
open Std (ExtTreeMap ExtTreeSet)

variable (e : Endian) (srt : Sorter)

/-! ### A live plane runs its module -/

/-- The readiness flags and `active` are up only over a module that runs with its symbols. -/
structure LiveInv (p : Plane) : Prop where
  flags : p.mgr.kmod = false → p.mgr.status.topologyReady = false ∧
    p.mgr.status.bpfReady = false ∧ p.mgr.status.attachmentReady = false
  ready : p.mgr.status.topologyReady = true ∨ p.mgr.status.attachmentReady = true →
    p.kernel.symReady = true ∧ p.mgr.reconciledOnce = true
  running : p.mgr.status.active = true →
    p.mgr.kmod = true ∧ p.kernel.symReady = true ∧ p.mgr.reconciledOnce = true

/-- An inactive plane with its flags down owes nothing. -/
theorem LiveInv.of_down {p : Plane} (ht : p.mgr.status.topologyReady = false)
    (hb : p.mgr.status.bpfReady = false) (hr : p.mgr.status.attachmentReady = false)
    (ha : p.mgr.status.active = true →
      p.mgr.kmod = true ∧ p.kernel.symReady = true ∧ p.mgr.reconciledOnce = true) : LiveInv p where
  flags _ := ⟨ht, hb, hr⟩
  ready h := by
    rcases h with h | h
    · exact absurd (ht.symm.trans h) (by decide)
    · exact absurd (hr.symm.trans h) (by decide)
  running := ha

/-- An operation that moves neither the module nor the flags keeps the invariant, `active` or not. -/
theorem LiveInv.congr {p p' : Plane} (h : LiveInv p) (hk : p'.mgr.kmod = p.mgr.kmod)
    (hsym : p'.kernel.symReady = p.kernel.symReady)
    (honce : p'.mgr.reconciledOnce = p.mgr.reconciledOnce)
    (ht : p'.mgr.status.topologyReady = p.mgr.status.topologyReady)
    (hb : p'.mgr.status.bpfReady = p.mgr.status.bpfReady)
    (hr : p'.mgr.status.attachmentReady = p.mgr.status.attachmentReady)
    (ha : p'.mgr.status.active = true → p.mgr.status.active = true) : LiveInv p' where
  flags := by
    rw [hk, ht, hb, hr]
    exact h.flags
  ready := by
    rw [ht, hr, hsym, honce]
    exact h.ready
  running h' := by
    rw [hk, hsym, honce]
    exact h.running (ha h')

theorem LiveInv.init (resident : Bool) (k : Kernel) : LiveInv (Plane.open resident k) :=
  .of_down rfl rfl rfl fun h => by cases h

theorem LiveInv.cancelAttachment {p : Plane} (h : LiveInv p) : LiveInv (cancelAttachment p) where
  flags hk := ⟨(h.flags hk).1, (h.flags hk).2.1, rfl⟩
  ready hf := by
    rcases hf with hf | hf
    · exact h.ready (.inl hf)
    · cases hf
  running := h.running

theorem LiveInv.publishInactive {p : Plane} (h : LiveInv p) (fault : Option Errno) :
    LiveInv (publishInactive fault p).2 := by
  unfold Dataplane.publishInactive
  split
  · exact h.congr rfl rfl rfl rfl rfl rfl fun ha => by cases ha
  simp only
  split
  · split
    · exact h.congr rfl rfl rfl rfl rfl rfl id
    · exact h.congr rfl rfl rfl rfl rfl rfl fun ha => by cases ha
  · exact h.congr rfl rfl rfl rfl rfl rfl fun ha => by cases ha

theorem LiveInv.apply {p : Plane} (h : LiveInv p) (env : ApplyEnv) (desired : DesiredPolicy) :
    LiveInv (applyPolicy e srt env desired p).2 := by
  have hres := applyPolicy_result e srt env desired p
  generalize applyPolicy e srt env desired p = r at hres
  cases hres with
  | refused err book => exact h.congr rfl rfl rfl rfl rfl rfl id
  | undone err book s hs => exact h.congr rfl rfl rfl rfl rfl rfl id
  | halfway err err' book s hroll => exact h.congr rfl rfl rfl rfl rfl rfl id
  | done book c => exact h.congr rfl rfl rfl rfl rfl rfl id

theorem LiveInv.prepare {p : Plane} (h : LiveInv p) (fault : Option Errno) (generation : ℕ)
    (portV4 portV6 : U16) : LiveInv (prepareGeneration e fault generation portV4 portV6 p).2 := by
  unfold prepareGeneration
  simp only
  split
  · exact h
  split
  · exact h
  · exact h.congr rfl rfl rfl rfl rfl rfl fun ha => by cases ha

theorem LiveInv.publishActive {p : Plane} (h : LiveInv p) : LiveInv (publishActive p).2 := by
  rcases publishActive_spec p with heq | ⟨hready, control, heq⟩
  · rwa [heq]
  · rw [heq]
    have hkmod : p.mgr.kmod = true := by
      by_contra hk
      have hflag := (h.flags (by simpa using hk)).2.2
      exact absurd (hready.symm.trans hflag) (by decide)
    exact ⟨h.flags, h.ready, fun _ => ⟨hkmod, h.ready (.inr hready)⟩⟩

theorem LiveInv.beginAttachment {p : Plane} (h : LiveInv p) : LiveInv (beginAttachment p).2 := by
  rcases beginAttachment_spec p with heq | ⟨hkmod, htop, heq⟩
  · rwa [heq]
  · rw [heq]
    exact ⟨fun hk => absurd (hkmod.symm.trans hk) (by decide), fun _ => h.ready (.inl htop), h.running⟩

/-- A running module with its symbols is left as it is. -/
theorem ensureKmod_running {p : Plane} (env : ConvergeEnv) (hkmod : p.mgr.kmod = true)
    (hsym : p.kernel.symReady = true) :
    (ensureKmod e env p).2.kernel = p.kernel ∧ (ensureKmod e env p).2.mgr.kmod = true ∧
      (ensureKmod e env p).2.mgr.reconciledOnce = p.mgr.reconciledOnce ∧
      (env.statusFault = none → (ensureKmod e env p).1 = .ok ()) := by
  unfold ensureKmod
  cases hs : env.statusFault <;> simp [hkmod, hsym]

theorem ensureKmod_once (env : ConvergeEnv) (p : Plane) :
    (ensureKmod e env p).2.mgr.reconciledOnce = p.mgr.reconciledOnce := by
  unfold ensureKmod
  have hload : (if p.mgr.kmod then (Except.ok (), p) else loadModule env.load p).2.mgr.reconciledOnce =
      p.mgr.reconciledOnce := by
    split
    · rfl
    · unfold loadModule
      split
      · rfl
      · simp only
        split <;> rfl
      · rfl
  generalize (if p.mgr.kmod then (Except.ok (), p) else loadModule env.load p) = r at hload
  obtain ⟨result, p'⟩ := r
  simp only at hload ⊢
  split
  · exact hload
  split
  · exact hload
  split
  · exact hload
  · exact hload

theorem LiveInv.converge {p : Plane} (h : LiveInv p) (env : ConvergeEnv) (enabled : Bool) :
    LiveInv (converge e env enabled p) := by
  unfold Dataplane.converge
  simp only
  split
  · exact .of_down rfl rfl rfl h.running
  split
  · split
    · rename_i heq
      have hok := (publishInactive_closed
        (p := dropKmod { p with mgr := { p.mgr with reconciledOnce := true } }) env.clearFault rfl).1
      rw [heq] at hok
      cases hok
    · exact .of_down rfl rfl rfl fun ha => by cases ha
  · have honce := ensureKmod_once e env { p with mgr := { p.mgr with reconciledOnce := true } }
    have hact : p.mgr.status.active = true → _ := fun ha =>
      ensureKmod_running e env (p := { p with mgr := { p.mgr with reconciledOnce := true } })
        (h.running ha).1 (h.running ha).2.1
    split
    · rename_i heq
      rw [heq] at honce hact
      refine .of_down rfl rfl rfl fun ha => ⟨(hact ha).2.1, ?_, honce⟩
      exact (congrArg Kernel.symReady (hact ha).1).trans (h.running ha).2.1
    · rename_i heq
      obtain ⟨hkmod, hsym, -⟩ := ensureKmod_ok_kmod e heq
      rw [heq] at honce
      exact ⟨fun hk => absurd (hkmod.symm.trans hk) (by decide), fun _ => ⟨hsym, honce⟩,
        fun _ => ⟨hkmod, hsym, honce⟩⟩

/-- Disabling a live plane leaves it inactive. -/
theorem LiveInv.converge_down {p : Plane} (h : LiveInv p) (env : ConvergeEnv) :
    (Dataplane.converge e env false p).mgr.status.active = false := by
  unfold Dataplane.converge
  simp only
  split
  · rename_i hclean
    cases ha : p.mgr.status.active with
    | false => rfl
    | true =>
      rw [(h.running ha).2.2] at hclean
      simp at hclean
  · simp only [Bool.not_false, if_true]
    split
    · rename_i heq
      have hok := (publishInactive_closed
        (p := dropKmod { p with mgr := { p.mgr with reconciledOnce := true } }) env.clearFault rfl).1
      rw [heq] at hok
      cases hok
    · rfl

/-- Enabling never moves `active`. -/
theorem converge_up_active (env : ConvergeEnv) (p : Plane) :
    (converge e env true p).mgr.status.active = p.mgr.status.active := by
  unfold converge
  simp only [Bool.not_true, Bool.false_eq_true, if_false]
  split
  · rfl
  · split <;> rfl

/-- While active, a convergence can fail only in `GET_STATUS`. -/
theorem LiveInv.converge_up_error {p : Plane} (h : LiveInv p) (ha : p.mgr.status.active = true)
    {env : ConvergeEnv} (hs : env.statusFault = none) :
    (Dataplane.converge e env true p).mgr.status.error = none := by
  obtain ⟨hkmod, hsym, honce⟩ := h.running ha
  obtain ⟨-, -, -, hok⟩ := ensureKmod_running e env
    (p := { p with mgr := { p.mgr with reconciledOnce := true } }) hkmod hsym
  unfold Dataplane.converge
  simp only [honce, if_true, Bool.not_true, Bool.false_eq_true, if_false]
  split
  · rename_i heq
    have := hok hs
    rw [heq] at this
    cases this
  · rfl

/-! ### An active plane publishes its selection -/

/-- The table holds the app UIDs the manager has stored as selected. -/
def Installed (p : Plane) : Prop :=
  ∀ uid, uid ∈ p.kernel.published ↔ p.mgr.uidModes[uid]? = some UidMode.selected.asU8 ∧ AppUid uid

/-- A commit point finds the table filled, or nothing to fill it with. -/
def FillsFirst (p : Plane) : PlaneOp → Prop
  | .publishActive => p.kernel.uidN ≠ 0 ∨ ∀ uid ∈ p.mgr.liveEpoch.selected.toList, ¬ AppUid uid
  | _ => True

instance (p : Plane) : (op : PlaneOp) → Decidable (FillsFirst p op)
  | .publishActive => inferInstanceAs (Decidable (_ ∨ _))
  | .converge _ _ | .stage _ | .apply _ _ | .prepare _ _ _ _ | .publishInactive _
  | .beginAttachment | .cancelAttachment | .traffic _ => isTrue trivial

structure InstalledInv (p : Plane) : Prop where
  plane : PlaneInv Represents p
  live : LiveInv p
  installed : p.mgr.status.active = true → Installed p

theorem installed_iff {p : Plane} : Installed p ↔
    ∀ uid, uid ∈ p.kernel.published ↔ uid ∈ p.mgr.liveEpoch.selected ∧ AppUid uid := by
  have hmem : ∀ uid, uid ∈ p.mgr.liveEpoch.selected ↔
      p.mgr.uidModes[uid]? = some UidMode.selected.asU8 := fun uid => mem_uidsWithMode
  simp only [Installed, hmem]

theorem Installed.congr {p p' : Plane} (h : Installed p) (hn : p'.kernel.uidN = p.kernel.uidN)
    (ht : p'.kernel.uidSorted = p.kernel.uidSorted)
    (hl : p'.mgr.liveEpoch = p.mgr.liveEpoch) : Installed p' := by
  rw [installed_iff] at h ⊢
  simpa only [Kernel.published, hn, ht, hl] using h

/-- A convergence leaves the table of an active plane alone. -/
theorem converge_active_kernel {p : Plane} (h : LiveInv p) {env : ConvergeEnv} {enabled : Bool}
    (ha : (converge e env enabled p).mgr.status.active = true) :
    p.mgr.status.active = true ∧ (converge e env enabled p).kernel = p.kernel := by
  cases enabled with
  | false => exact absurd ((h.converge_down e env).symm.trans ha) (by decide)
  | true =>
    rw [converge_up_active] at ha
    refine ⟨ha, ?_⟩
    obtain ⟨hkmod, hsym, honce⟩ := h.running ha
    obtain ⟨hkernel, -⟩ := ensureKmod_running e env
      (p := { p with mgr := { p.mgr with reconciledOnce := true } }) hkmod hsym
    unfold converge
    simp only [honce, if_true, Bool.not_true, Bool.false_eq_true, if_false]
    split
    · rename_i heq
      rw [heq] at hkernel
      exact hkernel
    · rename_i heq
      rw [heq] at hkernel
      exact hkernel

theorem installed_apply {p : Plane} (h : p.mgr.status.active = true → Installed p) {env : ApplyEnv}
    {desired : DesiredPolicy} :
    (applyPolicy e srt env desired p).2.mgr.status.active = true →
      Installed (applyPolicy e srt env desired p).2 := by
  have hres := applyPolicy_result e srt env desired p
  generalize applyPolicy e srt env desired p = r at hres
  cases hres with
  | refused err book => exact h
  | undone err book s hs => exact h
  | halfway err err' book s hfail => exact h
  | done book c =>
    refine fun _ => installed_iff.mpr fun uid => ?_
    have hlive : ((p.withBook book).mgr.store desired c.next).liveEpoch = c.next := by
      rw [c.next_eq]
      exact liveEpoch_store _ _ _ _ _
    rw [setUids_published, c.mem_table, hlive]

/-- A filled table is already the selection; an empty one is when nothing is selected. -/
theorem installed_of_fillsFirst {p : Plane} (h : PlaneInv Represents p) (hc : FillsFirst p .publishActive) :
    Installed p := by
  by_cases hn : p.kernel.uidN = 0
  · have hnone := hc.resolve_left (absurd hn)
    refine installed_iff.mpr fun uid => ⟨fun hu => absurd hn (published_ne_zero hu), fun hu => ?_⟩
    exact absurd hu.2 (hnone uid (ExtTreeSet.mem_toList.mpr hu.1))
  · exact installed_iff.mpr (h.agrees hn).2

/-- A successful `publish_inactive` leaves the plane inactive. -/
theorem publishInactive_none_active (p : Plane) :
    (publishInactive none p).2.mgr.status.active = false := by
  unfold publishInactive
  split
  · rfl
  simp only
  split <;> rfl

/-- A failed one leaves the flag as it was. -/
theorem publishInactive_error {p p' : Plane} {fault : Option Errno} {err : DataplaneError}
    (h : publishInactive fault p = (.error err, p')) :
    p'.mgr.status.active = p.mgr.status.active := by
  unfold publishInactive at h
  split at h
  · cases h
  simp only at h
  split at h
  · split at h
    · cases h
      rfl
    · cases h
  · cases h

theorem prepareGeneration_cases (fault : Option Errno) (generation : ℕ) (portV4 portV6 : U16)
    (p : Plane) : (prepareGeneration e fault generation portV4 portV6 p).2 = p ∨
      (prepareGeneration e fault generation portV4 portV6 p).1 = .ok () ∧
      (prepareGeneration e fault generation portV4 portV6 p).2.mgr.status.active = false := by
  unfold prepareGeneration
  simp only
  split
  · exact .inl rfl
  split
  · exact .inl rfl
  · exact .inr ⟨rfl, rfl⟩

theorem InstalledInv.exec {p : Plane} (h : InstalledInv p) {op : PlaneOp} (hok : op.IoctlsSucceed)
    (hc : FillsFirst p op) : InstalledInv (exec e srt p op) := by
  refine ⟨h.plane.exec e srt hok.compensates, ?_, ?_⟩
  · cases op with
    | converge env enabled => exact h.live.converge e env enabled
    | stage desired => exact h.live.congr rfl rfl rfl rfl rfl rfl id
    | apply env desired => exact h.live.apply e srt env desired
    | prepare fault generation portV4 portV6 => exact h.live.prepare e fault generation portV4 portV6
    | publishActive => exact h.live.publishActive
    | publishInactive fault => exact h.live.publishInactive fault
    | beginAttachment => exact h.live.beginAttachment
    | cancelAttachment => exact h.live.cancelAttachment
    | traffic ev =>
      obtain ⟨q, hq⟩ := hookStep_onlyQueue e p.kernel ev
      change LiveInv { p with kernel := hookStep e p.kernel ev }
      rw [hq]
      exact h.live.congr rfl rfl rfl rfl rfl rfl id
  · cases op with
    | converge env enabled =>
      intro ha
      obtain ⟨ha', hkernel⟩ := converge_active_kernel e h.live ha
      exact (h.installed ha').congr (congrArg Kernel.uidN hkernel) (congrArg Kernel.uidSorted hkernel)
        (converge_liveEpoch e env enabled p)
    | stage desired => exact h.installed
    | apply env desired => exact installed_apply e srt h.installed
    | prepare fault generation portV4 portV6 =>
      intro ha
      change (prepareGeneration e fault generation portV4 portV6 p).2.mgr.status.active = true at ha
      change Installed (prepareGeneration e fault generation portV4 portV6 p).2
      rcases prepareGeneration_cases e fault generation portV4 portV6 p with heq | ⟨-, hdown⟩
      · rw [heq] at ha ⊢
        exact h.installed ha
      · exact absurd (hdown.symm.trans ha) (by decide)
    | publishActive =>
      intro _
      have hp := installed_of_fillsFirst h.plane hc
      change Installed (publishActive p).2
      rcases publishActive_spec p with heq | ⟨-, control, heq⟩
      · rwa [heq]
      · rw [heq]
        exact hp.congr rfl rfl rfl
    | publishInactive fault =>
      cases hok
      exact fun ha => absurd ((publishInactive_none_active p).symm.trans ha) (by decide)
    | beginAttachment =>
      change (beginAttachment p).2.mgr.status.active = true → Installed (beginAttachment p).2
      rcases beginAttachment_spec p with heq | ⟨-, -, heq⟩
      · rw [heq]
        exact h.installed
      · rw [heq]
        exact h.installed
    | cancelAttachment => exact h.installed
    | traffic ev =>
      obtain ⟨q, hq⟩ := hookStep_onlyQueue e p.kernel ev
      change _ → Installed { p with kernel := hookStep e p.kernel ev }
      rw [hq]
      exact fun ha => (h.installed ha).congr rfl rfl rfl

theorem InstalledInv.init {k : Kernel} (hk : k.Closed) (resident : Bool) :
    InstalledInv (Plane.open resident k) :=
  ⟨.init hk resident, .init resident k, fun h => by cases h⟩

end FluxRs.Dataplane
