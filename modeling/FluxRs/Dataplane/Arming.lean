import FluxRs.Dataplane.Commits

/-!
# FluxRs.Dataplane.Arming — when the hook is armed

The hook looks at no `active` flag: it steals whenever a UID table and a listener are published.  The
invariant of the sequences of operations that keep an inactive plane disarmed, and the cold start, which
is not one of them.
-/

namespace FluxRs.Dataplane

open FluxRs.Lib FluxRs.Net FluxRs.Kmod
open Std (ExtTreeMap ExtTreeSet)

variable (e : Endian) (srt : Sorter)

/-- Every ioctl of the operation succeeds. -/
def PlaneOp.IoctlsSucceed : PlaneOp → Prop
  | .converge env _ => env.statusFault = none ∧ env.clearFault = none
  | .apply env _ => env.bypass = {} ∧ env.uids = {} ∧ env.rollback = {}
  | .prepare fault _ _ _ => fault = none
  | .publishInactive fault => fault = none
  | _ => True

theorem PlaneOp.IoctlsSucceed.compensates {op : PlaneOp} (h : op.IoctlsSucceed) :
    op.Compensates := by
  cases op with
  | apply env desired => exact h.2.2
  | _ => trivial

/-! ### Convergence, seen from the table -/

/-- Loading leaves the table of a closed module empty, and a failed load leaves the node closed. -/
theorem loadModule_idle {p : Plane} (hclosed : p.kernel.Closed) (hkmod : p.mgr.kmod = false)
    (outcome : LoadOutcome) :
    (loadModule outcome p).2.kernel.uidN = 0 ∧
      ∀ err, (loadModule outcome p).1 = .error err → (loadModule outcome p).2.mgr.kmod = false := by
  unfold loadModule
  split
  · exact ⟨hclosed.uidN, fun _ _ => hkmod⟩
  · refine ⟨?_, fun _ _ => ?_⟩
    · simp only
      split
      · rfl
      · cases p.resident <;> simp [Kernel.init, hclosed.uidN]
    · simp only
      split <;> exact hkmod
  · refine ⟨?_, fun err herr => by cases herr⟩
    cases p.resident <;> simp [Kernel.init, Kernel.setLive, hclosed.uidN]

theorem dropKmod_uidN {p : Plane} (h : PlaneInv Represents p) : (dropKmod p).kernel.uidN = 0 :=
  (h.dropKmod.closed rfl).uidN

/-- Where the table and the control record stand after `ensure_kmod`. -/
theorem ensureKmod_cases {p : Plane} (h : PlaneInv Represents p) {env : ConvergeEnv}
    (hs : env.statusFault = none) :
    ((ensureKmod e env p).2.kernel.uidN = 0 ∨ (ensureKmod e env p).2.kernel = p.kernel) ∧
      ((ensureKmod e env p).2.mgr.kmod = true → (ensureKmod e env p).2.mgr.lastControl ≠ none) := by
  unfold ensureKmod
  rw [hs]
  cases hkmod : p.mgr.kmod with
  | true =>
    simp only [if_true]
    split
    · refine ⟨.inl (dropKmod_uidN h), fun hk => ?_⟩
      simp [dropKmod, Manager.dropKmod] at hk
    · exact ⟨.inr rfl, fun _ => by simp⟩
  | false =>
    have hload := h.loadModule hkmod env.load
    obtain ⟨hn, hk⟩ := loadModule_idle (h.closed hkmod) hkmod env.load
    simp only [Bool.false_eq_true, if_false]
    generalize loadModule env.load p = r at hload hn hk
    obtain ⟨result, p'⟩ := r
    simp only at hload hn hk ⊢
    split
    · rename_i err
      exact ⟨.inl hn, fun ht => absurd ((hk err rfl).symm.trans ht) (by decide)⟩
    · split
      · refine ⟨.inl (dropKmod_uidN hload), fun hk => ?_⟩
        simp [dropKmod, Manager.dropKmod] at hk
      · exact ⟨.inl hn, fun _ => by simp⟩

/-- Without an open node an inactive publication touches only the manager. -/
theorem publishInactive_closed {p : Plane} (fault : Option Errno) (hk : p.mgr.kmod = false) :
    (publishInactive fault p).1 = .ok () ∧ (publishInactive fault p).2.kernel = p.kernel ∧
      (publishInactive fault p).2.mgr.kmod = false := by
  unfold publishInactive
  split
  · exact ⟨rfl, rfl, hk⟩
  · simp only [hk, Bool.false_eq_true, if_false]
    exact ⟨trivial, trivial, trivial⟩

/-- What a convergence does to everything the hook's table and the `active` flag rest on. -/
structure ConvergeSpec (p p' : Plane) : Prop where
  table : p'.kernel.uidN = 0 ∨ p'.kernel = p.kernel
  inactive : p'.mgr.status.active = false → p.mgr.status.active = false ∨ p'.kernel.uidN = 0
  control : p'.mgr.kmod = true → p'.mgr.lastControl ≠ none

theorem converge_spec {p : Plane} (h : PlaneInv Represents p)
    (hc : p.mgr.kmod = true → p.mgr.lastControl ≠ none) {env : ConvergeEnv} {enabled : Bool}
    (hs : env.statusFault = none) : ConvergeSpec p (converge e env enabled p) := by
  unfold converge
  simp only
  split
  · exact ⟨.inr rfl, .inl, hc⟩
  have h' : PlaneInv Represents { p with mgr := { p.mgr with reconciledOnce := true } } :=
    h.reshape rfl rfl rfl h.flags
  split
  · -- disabling closes the control node before it publishes
    have hclosed := dropKmod_uidN h'
    obtain ⟨hok, hkernel, hk⟩ := publishInactive_closed
      (p := dropKmod { p with mgr := { p.mgr with reconciledOnce := true } }) env.clearFault rfl
    split
    · rename_i heq
      rw [heq] at hok
      cases hok
    · rename_i heq
      rw [heq] at hkernel hk
      have hn := (congrArg Kernel.uidN hkernel).trans hclosed
      exact ⟨.inl hn, fun _ => .inr hn, fun ht => absurd (hk.symm.trans ht) (by decide)⟩
  · obtain ⟨htable, hkmod⟩ := ensureKmod_cases e h' hs
    split
    · rename_i heq
      rw [heq] at htable hkmod
      exact ⟨htable, .inl, hkmod⟩
    · rename_i heq
      rw [heq] at htable hkmod
      exact ⟨htable, .inl, hkmod⟩

/-! ### The steps of an activation -/

/-- A commit point that is reached only sets the flag; one that is refused changes nothing. -/
theorem publishActive_spec (p : Plane) :
    (publishActive p).2 = p ∨ p.mgr.status.attachmentReady = true ∧ ∃ control,
      (publishActive p).2 = { p with mgr := { p.mgr with
        lastControl := some control, status := { p.mgr.status with active := true } } } := by
  unfold publishActive
  split
  · exact .inl rfl
  · rename_i hready
    split
    · exact .inl rfl
    · exact .inr ⟨by simpa using hready, _, rfl⟩

theorem publishActive_error {p p' : Plane} {err : DataplaneError}
    (h : publishActive p = (.error err, p')) : p' = p := by
  unfold publishActive at h
  split at h
  · exact (congrArg Prod.snd h).symm
  · split at h
    · exact (congrArg Prod.snd h).symm
    · cases h

theorem publishActive_ok {p p' : Plane} (h : publishActive p = (.ok (), p')) :
    p'.mgr.status.active = true := by
  unfold publishActive at h
  split at h
  · cases h
  · split at h
    · cases h
    · cases h
      rfl

theorem beginAttachment_spec (p : Plane) :
    (beginAttachment p).2 = p ∨ p.mgr.kmod = true ∧ p.mgr.status.topologyReady = true ∧
      (beginAttachment p).2 = p.setStatus { p.mgr.status with attachmentReady := true } := by
  unfold beginAttachment
  split
  · rename_i hkmod
    split
    · exact .inl rfl
    · rename_i hready
      simp only [Bool.or_eq_true, Bool.not_eq_true', not_or, Bool.not_eq_false] at hready
      exact .inr ⟨hkmod, hready.1, rfl⟩
  · split <;> exact .inl rfl

/-! ### An inactive plane is disarmed -/

/-- No listener is published for either family. -/
def NoPorts (portV4 portV6 : U16) : Prop := portV4 = 0 ∧ portV6 = 0

instance (portV4 portV6 : U16) : Decidable (NoPorts portV4 portV6) :=
  inferInstanceAs (Decidable (_ ∧ _))

/-- An order of operations that never arms the hook early: no table is filled under published
listeners while inactive, and no listener is published over a filled table. -/
def ArmsLast (p : Plane) : PlaneOp → Prop
  | .apply _ desired => p.mgr.status.active = false →
      p.kernel.listenersSet = false ∨ ∀ uid ∈ desired.selectedUids.toList, ¬ AppUid uid
  | .prepare _ _ portV4 portV6 => p.kernel.uidN = 0 ∨ NoPorts portV4 portV6
  | _ => True

instance (p : Plane) : (op : PlaneOp) → Decidable (ArmsLast p op)
  | .apply _ _ => inferInstanceAs (Decidable (_ → _ ∨ _))
  | .prepare _ _ _ _ => inferInstanceAs (Decidable (_ ∨ _))
  | .converge _ _ | .stage _ | .publishActive | .publishInactive _ | .beginAttachment
  | .cancelAttachment | .traffic _ => isTrue trivial

structure DisarmInv (p : Plane) : Prop where
  plane : PlaneInv Represents p
  disarmed : p.mgr.status.active = false → p.kernel.uidN = 0 ∨ p.kernel.listenersSet = false
  control : p.mgr.kmod = true → p.mgr.lastControl ≠ none

theorem DisarmInv.accept {p : Plane} (h : DisarmInv p) (ha : p.mgr.status.active = false)
    (skb : Skb) : (localOut e p.kernel skb).2 = .accept := by
  rw [localOut_accept_iff, steals_iff]
  rintro ⟨hel, -, -⟩
  obtain ⟨sk, -, -, -, hsel⟩ := hel.owner
  rcases h.disarmed ha with hn | hl
  · exact published_ne_zero ((uidSelected_iff h.plane.tableOk).mp hsel).2 hn
  · exact absurd (hel.ready.1.symm.trans hl) (by decide)

theorem portToBe_zero : portToBe e 0 = 0 := by
  cases e <;> rfl

theorem DisarmInv.apply {p : Plane} (h : DisarmInv p) {env : ApplyEnv} {desired : DesiredPolicy}
    (hok : (PlaneOp.apply env desired).IoctlsSucceed)
    (hc : ArmsLast p (.apply env desired)) : DisarmInv (applyPolicy e srt env desired p).2 := by
  have hplane : PlaneInv Represents (applyPolicy e srt env desired p).2 := h.plane.apply e srt (fun _ _ hs => hs) (.inl hok.2.2)
  have hres := applyPolicy_result e srt env desired p
  generalize applyPolicy e srt env desired p = r at hres hplane
  cases hres with
  | refused err book => exact ⟨hplane, h.disarmed, h.control⟩
  | undone err book s hs => exact ⟨hplane, h.disarmed, h.control⟩
  | halfway err err' book s hroll => exact ⟨hplane, h.disarmed, h.control⟩
  | done book c =>
    refine ⟨hplane, fun ha => ?_, fun hk => ?_⟩
    · rcases hc ha with hl | hnone
      · exact .inr hl
      · -- the table of a selection without app UIDs is empty
        left
        refine List.length_eq_zero_iff.mpr (List.eq_nil_iff_forall_not_mem.mpr fun uid hu => ?_)
        obtain ⟨hsel, happ⟩ := (c.mem_table uid).mp hu
        rw [c.next_eq, committed_selected] at hsel
        exact hnone uid (ExtTreeSet.mem_toList.mpr hsel) happ
    · obtain ⟨last, hlast⟩ := Option.ne_none_iff_exists'.mp (h.control c.kmod)
      simp [Manager.store, Plane.withBook, hlast]

theorem DisarmInv.prepare {p : Plane} (h : DisarmInv p) {fault : Option Errno} {generation : ℕ}
    {portV4 portV6 : U16} (hc : ArmsLast p (.prepare fault generation portV4 portV6)) :
    DisarmInv (prepareGeneration e fault generation portV4 portV6 p).2 := by
  have hplane := h.plane.prepare e fault generation portV4 portV6
  revert hplane
  unfold prepareGeneration
  simp only
  split
  · exact fun _ => h
  split
  · exact fun _ => h
  · refine fun hplane => ⟨hplane, fun _ => ?_, fun _ => by simp⟩
    rcases hc with hn | ⟨rfl, rfl⟩
    · exact .inl hn
    · right
      simp only [Kernel.setListeners, abiListeners, portToBe_zero]
      rfl

theorem DisarmInv.publishInactive {p : Plane} (h : DisarmInv p) :
    DisarmInv (publishInactive none p).2 := by
  have hplane := h.plane.publishInactive none
  revert hplane
  unfold Dataplane.publishInactive
  split
  · rename_i hlast
    have hkmod : p.mgr.kmod = false := by
      by_contra hk
      exact h.control (by simpa using hk) hlast
    exact fun hplane => ⟨hplane, fun _ => .inl (h.plane.closed hkmod).uidN, h.control⟩
  · simp only
    split
    · exact fun hplane => ⟨hplane, fun _ => .inl rfl, fun _ => by simp⟩
    · rename_i hkmod
      exact fun hplane => ⟨hplane, fun _ => .inl (h.plane.closed (by simpa using hkmod)).uidN,
        fun hk => absurd hk hkmod⟩

theorem DisarmInv.converge {p : Plane} (h : DisarmInv p) {env : ConvergeEnv} {enabled : Bool}
    (hs : env.statusFault = none) : DisarmInv (converge e env enabled p) := by
  have hspec : ConvergeSpec p (Dataplane.converge e env enabled p) :=
    converge_spec e h.plane h.control hs
  refine ⟨h.plane.converge e env enabled, fun ha => ?_, hspec.control⟩
  rcases hspec.inactive ha with ha' | hn
  · rcases hspec.table with hn | hk
    · exact .inl hn
    · rw [hk]
      exact h.disarmed ha'
  · exact .inl hn

theorem DisarmInv.exec {p : Plane} (h : DisarmInv p) {op : PlaneOp} (hok : op.IoctlsSucceed)
    (hc : ArmsLast p op) : DisarmInv (exec e srt p op) := by
  cases op with
  | converge env enabled => exact h.converge e hok.1
  | stage desired =>
    have hplane : PlaneInv Represents (Dataplane.exec e srt p (.stage desired)) := h.plane.exec e srt trivial
    exact ⟨hplane, h.disarmed, h.control⟩
  | apply env desired => exact h.apply e srt hok hc
  | prepare fault generation portV4 portV6 => exact h.prepare e hc
  | publishActive =>
    have hplane : PlaneInv Represents (Dataplane.exec e srt p .publishActive) := h.plane.exec e srt trivial
    change DisarmInv (publishActive p).2
    rcases publishActive_spec p with heq | ⟨-, control, heq⟩
    · rwa [heq]
    · refine ⟨hplane, ?_, ?_⟩ <;> rw [heq] <;> simp
  | publishInactive fault =>
    cases hok
    exact h.publishInactive
  | beginAttachment =>
    have hplane : PlaneInv Represents (Dataplane.exec e srt p .beginAttachment) := h.plane.exec e srt trivial
    change DisarmInv (beginAttachment p).2
    rcases beginAttachment_spec p with heq | ⟨-, -, heq⟩
    · rwa [heq]
    · refine ⟨hplane, ?_, ?_⟩ <;> rw [heq]
      · exact h.disarmed
      · exact h.control
  | cancelAttachment =>
    have hplane : PlaneInv Represents (Dataplane.exec e srt p .cancelAttachment) := h.plane.exec e srt trivial
    exact ⟨hplane, h.disarmed, h.control⟩
  | traffic ev =>
    have hplane : PlaneInv Represents (Dataplane.exec e srt p (.traffic ev)) := h.plane.exec e srt trivial
    obtain ⟨q, hq⟩ := hookStep_onlyQueue e p.kernel ev
    refine ⟨hplane, fun ha => ?_, h.control⟩
    change (hookStep e p.kernel ev).uidN = 0 ∨ (hookStep e p.kernel ev).listenersSet = false
    rw [hq]
    exact h.disarmed ha

theorem DisarmInv.init {k : Kernel} (hk : k.Closed) (resident : Bool) :
    DisarmInv (Plane.open resident k) :=
  ⟨.init hk resident, fun _ => .inl hk.uidN, fun h => by cases h⟩

/-- **An inactive plane passes every packet**, in every state of every run that arms the hook last. -/
theorem inactive_accepts {k : Kernel} (hk : k.Closed) (resident : Bool) {ops : List PlaneOp}
    (hok : ∀ op ∈ ops, op.IoctlsSucceed)
    (horder : AllSteps (exec e srt) ArmsLast (Plane.open resident k) ops)
    (ha : (run (exec e srt) (Plane.open resident k) ops).mgr.status.active = false) (skb : Skb) :
    (localOut e (run (exec e srt) (Plane.open resident k) ops).kernel skb).2 = .accept := by
  have hinv := run_inv (C := fun p op => op.IoctlsSucceed ∧ ArmsLast p op)
    (fun p op h hc => DisarmInv.exec e srt h hc.1 hc.2) (DisarmInv.init hk resident)
    ((allSteps_of_mem e srt hok).and horder)
  exact hinv.accept e ha skb

/-- The listeners first and the policy after the commit: the table is filled while active. -/
def listenersFirst : List PlaneOp :=
  [.converge {} true, .prepare none 1 61000 61000, .beginAttachment, .publishActive,
    .apply {} (selectPolicy [10123]), .publishInactive none]

theorem inactive_accepts_listenersFirst :
    (localOut .little (run (exec .little insertionSorter) (Plane.open false (.init false))
      listenersFirst).kernel segmentToResolver).2 = .accept :=
  inactive_accepts .little insertionSorter (k := .init false) ⟨rfl, rfl, rfl⟩ false
    (by simp [listenersFirst, PlaneOp.IoctlsSucceed]) (by decide +kernel) (by decide +kernel) _

/-- A cold start fills the table, then publishes the listeners: until the commit the inactive plane
steals. -/
theorem inactive_plane_steals :
    ¬ ∀ (ops : List PlaneOp), (∀ op ∈ ops, op.IoctlsSucceed) →
      (run (exec .little insertionSorter) (Plane.open false (.init false)) ops).mgr.status.active = false →
      ∀ skb, (localOut .little
        (run (exec .little insertionSorter) (Plane.open false (.init false)) ops).kernel skb).2 =
          .accept := by
  intro h
  have hsteal := h ((coldStart (selectPolicy [10123]) 1).take 4)
    (by simp [coldStart, PlaneOp.IoctlsSucceed]) (by decide +kernel) segmentToResolver
  revert hsteal
  decide +kernel

end FluxRs.Dataplane
