import FluxRs.Lib.Run
import FluxRs.Dataplane.Apply

/-!
# FluxRs.Dataplane.Plane — sequences of manager operations

The operations the reactor calls, as inputs of one step function, and what holds of the manager and
the module after every sequence of them: a closed control node means an idle hook, and a table that
holds any UID is the live epoch's, beside the live epoch's bypass set.
-/

namespace FluxRs.Dataplane

open FluxRs.Lib FluxRs.Net FluxRs.Kmod
open Std (ExtTreeMap ExtTreeSet)

/-- One manager operation with what the environment answers during it. -/
inductive PlaneOp where
  | converge (env : ConvergeEnv) (enabled : Bool)
  | stage (desired : DesiredPolicy)
  | apply (env : ApplyEnv) (desired : DesiredPolicy)
  | prepare (fault : Option Errno) (generation : ℕ) (portV4 portV6 : U16)
  | publishActive
  | publishInactive (fault : Option Errno)
  | beginAttachment
  | cancelAttachment
  /-- Packets and the worker between two operations. -/
  | traffic (ev : HookEvent)

variable (e : Endian) (srt : Sorter)

def exec (p : Plane) : PlaneOp → Plane
  | .converge env enabled => converge e env enabled p
  | .stage desired => stageInterfacePolicy desired p
  | .apply env desired => (applyPolicy e srt env desired p).2
  | .prepare fault generation portV4 portV6 => (prepareGeneration e fault generation portV4 portV6 p).2
  | .publishActive => (publishActive p).2
  | .publishInactive fault => (publishInactive fault p).2
  | .beginAttachment => (beginAttachment p).2
  | .cancelAttachment => cancelAttachment p
  | .traffic ev => { p with kernel := hookStep e p.kernel ev }

/-- A failed `SET_UIDS` is undone. -/
def PlaneOp.Compensates : PlaneOp → Prop
  | .apply env _ => env.rollback = {}
  | _ => True

/-! ### The invariant -/

/-- What a bypass set has to do with the epoch: `Represents`, or nothing after an undo that failed. -/
abbrev SetRelation : Type := PolicyEpoch → FluxrsSet → Prop

/-- After an undo that failed, the kernel keeps the set of an epoch that was never committed. -/
def AnySet : SetRelation := fun _ _ => True

/-- A kernel whose table holds a UID publishes the UIDs of the epoch, beside a set related to it. -/
def InStep (B : SetRelation) (k : Kernel) (ep : PolicyEpoch) : Prop :=
  k.uidN ≠ 0 →
    (∃ s, k.bypassLive = some s ∧ B ep s) ∧
      ∀ uid, uid ∈ k.published ↔ uid ∈ ep.selected ∧ AppUid uid

/-- The draining ledger of the epoch fits the policy map. -/
def LedgerFits (ep : PolicyEpoch) : Prop := ep.selected.size + ep.draining.size ≤ uidPolicyMaxEntries

instance (ep : PolicyEpoch) : Decidable (LedgerFits ep) := inferInstanceAs (Decidable (_ ≤ _))

structure PlaneInv (B : SetRelation) (p : Plane) : Prop where
  tableOk : p.kernel.TableOk
  closed : p.mgr.kmod = false → p.kernel.Closed
  opened : p.mgr.kmod = true → p.kernel.live = true
  flags : p.mgr.kmod = false → p.mgr.status.topologyReady = false ∧
    p.mgr.status.bpfReady = false ∧ p.mgr.status.attachmentReady = false
  agrees : InStep B p.kernel p.mgr.liveEpoch
  admitted : Admitted p.mgr.liveEpoch
  fits : LedgerFits p.mgr.liveEpoch

section Invariant

variable {B : SetRelation}

theorem tableOk_of_uidN {k : Kernel} (h : k.uidN = 0) : k.TableOk where
  sorted := by simp [Kernel.published, h]
  bound := by omega

theorem InStep.of_uidN {k : Kernel} (h : k.uidN = 0) (ep : PolicyEpoch) :
    InStep B k ep := fun hne => absurd h hne

theorem PlaneInv.init {k : Kernel} (hk : k.Closed) (resident : Bool) :
    PlaneInv B (Plane.open resident k) where
  tableOk := tableOk_of_uidN hk.uidN
  closed _ := hk
  opened h := by cases h
  flags _ := ⟨rfl, rfl, rfl⟩
  agrees := .of_uidN hk.uidN _
  admitted := by
    change Admitted Manager.open.liveEpoch
    decide
  fits := by
    change LedgerFits Manager.open.liveEpoch
    decide

/-- Control record, status, staged interfaces and address book are outside the invariant. -/
theorem PlaneInv.reshape {p p' : Plane} (h : PlaneInv B p) (hk : p'.kernel = p.kernel)
    (hkmod : p'.mgr.kmod = p.mgr.kmod) (hlive : p'.mgr.liveEpoch = p.mgr.liveEpoch)
    (hflags : p.mgr.kmod = false → p'.mgr.status.topologyReady = false ∧
      p'.mgr.status.bpfReady = false ∧ p'.mgr.status.attachmentReady = false) : PlaneInv B p' where
  tableOk := hk ▸ h.tableOk
  closed hc := by
    rw [hk]
    exact h.closed (hkmod ▸ hc)
  opened ho := by
    rw [hk]
    exact h.opened (hkmod ▸ ho)
  flags hc := hflags (hkmod ▸ hc)
  agrees := by
    rw [hk, hlive]
    exact h.agrees
  admitted := hlive ▸ h.admitted
  fits := hlive ▸ h.fits

/-- Emptying the table under an open node keeps the invariant. -/
theorem PlaneInv.idle {p p' : Plane} (h : PlaneInv B p) (hn : p'.kernel.uidN = 0)
    (hopen : p'.mgr.kmod = true → p'.kernel.live = true)
    (hclosed : p'.mgr.kmod = false → p'.kernel.Closed)
    (hlive : p'.mgr.liveEpoch = p.mgr.liveEpoch)
    (hflags : p'.mgr.kmod = false → p'.mgr.status.topologyReady = false ∧
      p'.mgr.status.bpfReady = false ∧ p'.mgr.status.attachmentReady = false) : PlaneInv B p' where
  tableOk := tableOk_of_uidN hn
  closed := hclosed
  opened := hopen
  flags := hflags
  agrees := .of_uidN hn _
  admitted := hlive ▸ h.admitted
  fits := hlive ▸ h.fits

theorem PlaneInv.queue {p : Plane} (h : PlaneInv B p) {k : Kernel} (hk : OnlyQueue p.kernel k) :
    PlaneInv B { p with kernel := k } := by
  obtain ⟨q, rfl⟩ := hk
  exact
    { tableOk := ⟨h.tableOk.sorted, h.tableOk.bound⟩
      closed := fun hc => ⟨(h.closed hc).live, (h.closed hc).uidN, (h.closed hc).listenersSet⟩
      opened := h.opened
      flags := h.flags
      agrees := h.agrees
      admitted := h.admitted
      fits := h.fits }

/-! ### One operation -/

theorem PlaneInv.apply {env : ApplyEnv} {desired : DesiredPolicy} {p : Plane} (h : PlaneInv B p)
    (hB : ∀ ep s, Represents ep s → B ep s) (hroll : env.rollback = {} ∨ ∀ ep s, B ep s) :
    PlaneInv B (applyPolicy e srt env desired p).2 := by
  have hres := applyPolicy_result e srt env desired p
  generalize applyPolicy e srt env desired p = r at hres
  cases hres with
  | refused err book => exact h.reshape rfl rfl rfl h.flags
  | undone err book s hs =>
    exact
      { tableOk := ⟨h.tableOk.sorted, h.tableOk.bound⟩
        closed := fun hc => ⟨(h.closed hc).live, (h.closed hc).uidN, (h.closed hc).listenersSet⟩
        opened := h.opened
        flags := h.flags
        agrees := fun hn => ⟨⟨s, rfl, hB _ _ hs⟩, (h.agrees hn).2⟩
        admitted := h.admitted
        fits := h.fits }
  | halfway err err' book s hfail =>
    rcases hroll with hroll | hany
    · -- an admitted epoch is always taken back
      obtain ⟨s', hs', -⟩ := moduleSetBypass_admitted e srt (p.kernel.setBypass s) h.admitted
      rw [hroll, hs'] at hfail
      cases hfail
    · exact
        { tableOk := ⟨h.tableOk.sorted, h.tableOk.bound⟩
          closed := fun hc => ⟨(h.closed hc).live, (h.closed hc).uidN, (h.closed hc).listenersSet⟩
          opened := h.opened
          flags := h.flags
          agrees := fun hn => ⟨⟨s, rfl, hany _ _⟩, (h.agrees hn).2⟩
          admitted := h.admitted
          fits := h.fits }
  | done book c =>
    have hlive : ((p.withBook book).mgr.store desired c.next).liveEpoch = c.next := by
      rw [c.next_eq]
      exact liveEpoch_store _ _ _ _ _
    have hkmod := c.kmod
    exact
      { tableOk := setUids_tableOk _ c.sorted
        closed := fun hc => absurd (hkmod.symm.trans hc) (by decide)
        opened := fun _ => h.opened hkmod
        flags := fun hc => absurd (hkmod.symm.trans hc) (by decide)
        agrees := fun _ => by
          rw [hlive]
          refine ⟨⟨c.set, rfl, hB _ _ c.represents⟩, fun uid => ?_⟩
          rw [setUids_published, c.mem_table]
        admitted := by
          rw [hlive]
          exact c.admitted
        fits := by
          rw [hlive]
          exact c.fits }

theorem PlaneInv.publishActive {p : Plane} (h : PlaneInv B p) : PlaneInv B (publishActive p).2 := by
  unfold Dataplane.publishActive
  split
  · exact h
  split
  · exact h
  · exact h.reshape rfl rfl rfl h.flags

theorem PlaneInv.publishInactive {p : Plane} (h : PlaneInv B p) (fault : Option Errno) :
    PlaneInv B (publishInactive fault p).2 := by
  unfold Dataplane.publishInactive
  split
  · exact h.reshape rfl rfl rfl h.flags
  simp only
  split
  · rename_i hkmod
    split
    · exact h.reshape rfl rfl rfl h.flags
    · refine h.idle rfl (fun _ => h.opened hkmod) (fun hc => ?_) rfl (fun hc => h.flags hc)
      exact absurd (hkmod.symm.trans hc) (by decide)
  · exact h.reshape rfl rfl rfl h.flags

theorem PlaneInv.prepare {p : Plane} (h : PlaneInv B p) (fault : Option Errno) (generation : ℕ)
    (portV4 portV6 : U16) : PlaneInv B (prepareGeneration e fault generation portV4 portV6 p).2 := by
  unfold prepareGeneration
  simp only
  split
  · exact h
  rename_i hkmod
  split
  · exact h
  · have hkmod' : p.mgr.kmod = true := by simpa using hkmod
    exact
      { tableOk := ⟨h.tableOk.sorted, h.tableOk.bound⟩
        closed := fun hc => absurd (hkmod'.symm.trans hc) (by decide)
        opened := h.opened
        flags := fun hc => absurd (hkmod'.symm.trans hc) (by decide)
        agrees := h.agrees
        admitted := h.admitted
        fits := h.fits }

theorem PlaneInv.dropKmod {p : Plane} (h : PlaneInv B p) : PlaneInv B (dropKmod p) := by
  have hk : (Dataplane.dropKmod p).kernel.Closed := by
    unfold Dataplane.dropKmod
    cases hkmod : p.mgr.kmod with
    | true => exact ⟨rfl, rfl, rfl⟩
    | false => simpa using h.closed hkmod
  exact h.idle hk.uidN (fun hc => by cases hc) (fun _ => hk) rfl fun _ => ⟨rfl, rfl, rfl⟩

theorem PlaneInv.loadModule {p : Plane} (h : PlaneInv B p) (hkmod : p.mgr.kmod = false)
    (outcome : LoadOutcome) : PlaneInv B (loadModule outcome p).2 := by
  have hclosed := h.closed hkmod
  have hk : ∀ b, (if p.resident then p.kernel else .init b : Kernel).Closed := by
    intro b
    cases p.resident with
    | true => exact hclosed
    | false => exact ⟨rfl, rfl, rfl⟩
  unfold Dataplane.loadModule
  split
  · exact h
  · simp only
    split
    · exact h.idle rfl (fun ho => absurd (hkmod.symm.trans ho) (by decide))
        (fun _ => ⟨rfl, rfl, rfl⟩) rfl h.flags
    · rename_i symReady _ _ _
      exact h.idle (hk symReady).uidN (fun ho => absurd (hkmod.symm.trans ho) (by decide))
        (fun _ => hk symReady) rfl h.flags
  · rename_i symReady
    refine h.idle (by simpa [Kernel.setLive] using (hk symReady).uidN) (fun _ => rfl)
      (fun hc => by cases hc) rfl (fun hc => by cases hc)

theorem PlaneInv.ensureKmod {p : Plane} (h : PlaneInv B p) (env : ConvergeEnv) :
    PlaneInv B (ensureKmod e env p).2 := by
  unfold Dataplane.ensureKmod
  have hload : PlaneInv B (if p.mgr.kmod then (Except.ok (), p) else Dataplane.loadModule env.load p).2 := by
    cases hkmod : p.mgr.kmod with
    | true => simpa using h
    | false => simpa using h.loadModule hkmod env.load
  generalize (if p.mgr.kmod then (Except.ok (), p) else Dataplane.loadModule env.load p) = r at hload
  obtain ⟨result, p'⟩ := r
  simp only at hload ⊢
  split
  · exact hload
  split
  · exact hload
  split
  · exact hload.dropKmod
  · exact hload.reshape rfl rfl rfl hload.flags

/-- A status without readiness flags fits any plane. -/
theorem PlaneInv.setStatus {p : Plane} (h : PlaneInv B p) {status : DataplaneStatus}
    (hs : p.mgr.kmod = false → status.topologyReady = false ∧ status.bpfReady = false ∧
      status.attachmentReady = false) : PlaneInv B (p.setStatus status) :=
  h.reshape rfl rfl rfl hs

theorem ensureKmod_ok_kmod {env : ConvergeEnv} {p p' : Plane}
    (h : ensureKmod e env p = (.ok (), p')) : p'.mgr.kmod = true ∧ p'.kernel.symReady = true ∧
      p'.mgr.lastControl ≠ none := by
  unfold ensureKmod at h
  have hload : ∀ p₁, (if p.mgr.kmod then (Except.ok (), p) else loadModule env.load p) =
      (Except.ok (), p₁) → p₁.mgr.kmod = true := by
    intro p₁ heq
    cases hkmod : p.mgr.kmod with
    | true =>
      rw [hkmod, if_pos rfl] at heq
      obtain ⟨-, rfl⟩ := Prod.mk.inj heq
      exact hkmod
    | false =>
      rw [hkmod, if_neg (by decide)] at heq
      unfold loadModule at heq
      split at heq
      · cases heq
      · cases heq
      · obtain ⟨-, rfl⟩ := Prod.mk.inj heq
        rfl
  generalize (if p.mgr.kmod then (Except.ok (), p) else loadModule env.load p) = r at h hload
  obtain ⟨result, p₁⟩ := r
  simp only at h
  split at h
  · cases h
  split at h
  · cases h
  split at h
  · cases h
  rename_i hsym
  obtain ⟨-, rfl⟩ := Prod.mk.inj h
  exact ⟨hload p₁ rfl, by simpa using hsym, by simp⟩

theorem PlaneInv.converge {p : Plane} (h : PlaneInv B p) (env : ConvergeEnv) (enabled : Bool) :
    PlaneInv B (converge e env enabled p) := by
  unfold Dataplane.converge
  simp only
  split
  · exact h.setStatus fun _ => ⟨rfl, rfl, rfl⟩
  have h' : PlaneInv B { p with mgr := { p.mgr with reconciledOnce := true } } :=
    h.reshape rfl rfl rfl h.flags
  split
  · have hp := h'.dropKmod.publishInactive env.clearFault
    split
    · rename_i heq
      rw [heq] at hp
      exact hp.setStatus fun _ => ⟨rfl, rfl, rfl⟩
    · rename_i heq
      rw [heq] at hp
      exact hp.setStatus fun _ => ⟨rfl, rfl, rfl⟩
  · have hp := h'.ensureKmod e env
    split
    · rename_i heq
      rw [heq] at hp
      exact hp.setStatus fun _ => ⟨rfl, rfl, rfl⟩
    · rename_i heq
      have hk := (ensureKmod_ok_kmod e heq).1
      rw [heq] at hp
      exact hp.setStatus fun hc => absurd (hk.symm.trans hc) (by decide)

theorem PlaneInv.beginAttachment {p : Plane} (h : PlaneInv B p) :
    PlaneInv B (beginAttachment p).2 := by
  unfold Dataplane.beginAttachment
  split
  · rename_i hkmod
    split
    · exact h
    · exact h.setStatus fun hc => absurd (hkmod.symm.trans hc) (by decide)
  · split <;> exact h

theorem PlaneInv.exec_of {p : Plane} (h : PlaneInv B p) {op : PlaneOp}
    (hB : ∀ ep s, Represents ep s → B ep s) (hop : op.Compensates ∨ ∀ ep s, B ep s) :
    PlaneInv B (exec e srt p op) := by
  cases op with
  | converge env enabled => exact h.converge e env enabled
  | stage desired => exact h.reshape rfl rfl rfl h.flags
  | apply env desired => exact h.apply e srt hB hop
  | prepare fault generation portV4 portV6 => exact h.prepare e fault generation portV4 portV6
  | publishActive => exact h.publishActive
  | publishInactive fault => exact h.publishInactive fault
  | beginAttachment => exact h.beginAttachment
  | cancelAttachment => exact h.setStatus fun hc => ⟨(h.flags hc).1, (h.flags hc).2.1, rfl⟩
  | traffic ev => exact h.queue (hookStep_onlyQueue e p.kernel ev)

end Invariant

/-- **The invariant survives every operation whose failed commits are undone.** -/
theorem PlaneInv.exec {p : Plane} (h : PlaneInv Represents p) {op : PlaneOp} (hop : op.Compensates) :
    PlaneInv Represents (Dataplane.exec e srt p op) :=
  h.exec_of e srt (fun _ _ hs => hs) (.inl hop)

/-- All but the bypass set survives every operation. -/
theorem PlaneInv.exec_any {p : Plane} (h : PlaneInv AnySet p) (op : PlaneOp) :
    PlaneInv AnySet (Dataplane.exec e srt p op) :=
  h.exec_of e srt (fun _ _ _ => trivial) (.inr fun _ _ => trivial)

/-- A plane that some sequence of operations leads to from a closed module, whatever fails. -/
def Reachable (p : Plane) : Prop :=
  ∃ (resident : Bool) (k : Kernel) (ops : List PlaneOp), k.Closed ∧
    run (exec e srt) (Plane.open resident k) ops = p

theorem allSteps_of_mem {C : PlaneOp → Prop} {ops : List PlaneOp} :
    ∀ {p : Plane}, (∀ op ∈ ops, C op) → AllSteps (exec e srt) (fun _ op => C op) p ops := by
  induction ops with
  | nil => exact fun _ => trivial
  | cons op ops ih =>
    exact fun h => ⟨h op (by simp), ih fun o ho => h o (List.mem_cons_of_mem _ ho)⟩

theorem Reachable.inv {p : Plane} (h : Reachable e srt p) : PlaneInv AnySet p := by
  obtain ⟨resident, k, ops, hk, rfl⟩ := h
  exact run_inv (C := fun _ _ => True) (fun _ op h _ => h.exec_any e srt op) (PlaneInv.init hk resident)
    (allSteps_of_mem e srt fun _ _ => trivial)

/-- Where every failed commit of a run was undone, the kernel holds the set of the live epoch too. -/
theorem planeInv_run {resident : Bool} {k : Kernel} (hk : k.Closed) {ops : List PlaneOp}
    (hops : ∀ op ∈ ops, op.Compensates) :
    PlaneInv Represents (run (Dataplane.exec e srt) (Plane.open resident k) ops) :=
  run_inv (fun _ _ h hop => h.exec e srt hop) (PlaneInv.init hk resident) (allSteps_of_mem e srt hops)

/-! ### One started plane -/

/-- Blacklist direction, one reserved prefix, the given UIDs. -/
def selectPolicy (uids : List U32) : DesiredPolicy where
  appsMode := .whitelist
  cidrMode := .blacklist
  interfacesMode := .blacklist
  interfaces := ∅
  selectedUids := UidSet.collect uids
  bypassV4 := ExtTreeMap.ofList [((⟨8, 0x0a000000⟩ : LpmKey 32), BypassTag.reserved)]
  bypassV6 := ∅

/-- The order of a cold start: the policy first, then the generation, then the commit. -/
def coldStart (desired : DesiredPolicy) (generation : ℕ) : List PlaneOp :=
  [.converge {} true, .stage desired, .apply {} desired, .prepare none generation 61000 61000,
    .beginAttachment, .publishActive]

def startedPlane : Plane :=
  run (exec .little insertionSorter) (Plane.open false (.init false)) (coldStart (selectPolicy [10123]) 1)

theorem startedPlane_reachable : Reachable .little insertionSorter startedPlane :=
  ⟨false, .init false, coldStart (selectPolicy [10123]) 1, ⟨rfl, rfl, rfl⟩, rfl⟩

theorem startedPlane_inv : PlaneInv Represents startedPlane :=
  planeInv_run .little insertionSorter ⟨rfl, rfl, rfl⟩ (by simp [coldStart, PlaneOp.Compensates])

end FluxRs.Dataplane
