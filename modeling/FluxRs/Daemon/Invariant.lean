import FluxRs.Daemon.Events
import FluxRs.Dataplane.Running

/-!
# FluxRs.Daemon.Invariant — what every handler leaves behind

One invariant for all handlers, by one lemma for each function of the reactor.  Its first part holds
whatever happens; its last, that capture is active only over a committed engine, holds under a condition
`C` on what the handlers meet.  Taking `C` as an argument lets one pass over the functions prove both.
-/

namespace FluxRs.Daemon

open FluxRs.Lib FluxRs.Net FluxRs.Kmod FluxRs.Dataplane

/-! ### The invariant -/

/-- A promoted engine runs, nothing waits for a commit, and nobody has asked to stop it. -/
structure Committed (r : Reactor) : Prop where
  engine : r.engine ≠ none
  role : r.activationRole = none
  kept : r.engineCancelRequested = false
  running : r.shutdownRequested = false
  check : ∀ plan, r.engineTransaction ≠ some (.checking plan .cancelled)

/-- What every handler of the loop preserves. -/
structure Inv (C : Prop) (r : Reactor) : Prop where
  live : LiveInv r.dataplane
  /-- Beside a promoted engine only a check may be in flight. -/
  single : r.engine ≠ none → ∀ t, r.engineTransaction = some t → ∃ plan d, t = .checking plan d
  role : r.activationRole ≠ none → r.engine ≠ none ∧ r.engineTransaction = none
  shut : r.shutdownRequested = true →
    r.activationRole = none ∧ (r.engineTransaction ≠ none → r.engineCancelRequested = true)
  capture : C → r.active = true → Committed r

/-- An end that the answers describe keeps the invariant. -/
def Ends (C : Prop) (x : Option Reactor) : Prop := ∀ r, x = some r → Inv C r

variable {C : Prop} {r : Reactor}

@[simp] theorem ends_some : Ends C (some r) ↔ Inv C r :=
  ⟨fun h => h r rfl, fun h _ heq => Option.some.inj heq ▸ h⟩

theorem ends_none : Ends C none := fun _ h => by cases h

/-- Only six fields matter. -/
theorem Inv.congr {r' : Reactor} (h : Inv C r) (hp : r'.dataplane = r.dataplane)
    (he : r'.engine = r.engine) (ht : r'.engineTransaction = r.engineTransaction)
    (hr : r'.activationRole = r.activationRole)
    (hc : r'.engineCancelRequested = r.engineCancelRequested)
    (hs : r'.shutdownRequested = r.shutdownRequested) : Inv C r' where
  live := hp ▸ h.live
  single := by
    rw [he, ht]
    exact h.single
  role := by
    rw [hr, he, ht]
    exact h.role
  shut := by
    rw [hs, hr, ht, hc]
    exact h.shut
  capture hC ha := by
    have ha' : r.active = true := by
      unfold Reactor.active at ha ⊢
      rwa [hp] at ha
    have h' := h.capture hC ha'
    exact ⟨he ▸ h'.engine, hr ▸ h'.role, hc ▸ h'.kept, hs ▸ h'.running, ht ▸ h'.check⟩

theorem Inv.refresh (h : Inv C r) : Inv C r.refresh := h.congr rfl rfl rfl rfl rfl rfl

theorem Ends.refresh {x : Option Reactor} (h : Ends C x) : Ends C (x.map Reactor.refresh) := by
  intro r hr
  obtain ⟨r', hr', rfl⟩ := Option.map_eq_some_iff.mp hr
  exact (h r' hr').refresh

/-- Outside of a committed state nothing is captured. -/
theorem Inv.frozen_of (h : Inv C r) (hC : C) (hn : ¬ Committed r) : r.active = false := by
  cases ha : r.active with
  | false => rfl
  | true => exact absurd (h.capture hC ha) hn

theorem Inv.frozen_of_shutdown (h : Inv C r) (hC : C) (hs : r.shutdownRequested = true) :
    r.active = false :=
  h.frozen_of hC fun c => absurd (c.running.symm.trans hs) (by decide)

/-- Another plane that is live, and active only where the old one was. -/
theorem Inv.setPlane (h : Inv C r) {p : Plane} (hp : LiveInv p)
    (ha : C → p.mgr.status.active = true → r.active = true) : Inv C { r with dataplane := p } where
  live := hp
  single := h.single
  role := h.role
  shut := h.shut
  capture hC hact :=
    let h' := h.capture hC (ha hC hact)
    ⟨h'.engine, h'.role, h'.kept, h'.running, h'.check⟩

theorem Inv.cancelAttachment (h : Inv C r) : Inv C (cancelAttachment r) :=
  h.setPlane h.live.cancelAttachment fun _ ha => ha

theorem Inv.recordDataplaneError (h : Inv C r) : Inv C (recordDataplaneError r) := h.cancelAttachment

section Plane

variable {w : Outside} (hw : C → w.publishFault = none)

include hw

/-- A publication that succeeds ends the capture. -/
theorem publishInactive_frozen (hC : C) (r : Reactor) : (publishInactive w r).2.active = false := by
  unfold publishInactive
  rw [hw hC]
  exact publishInactive_none_active r.dataplane

theorem Inv.publishInactive (h : Inv C r) : Inv C (publishInactive w r).2 :=
  h.setPlane (h.live.publishInactive w.publishFault) fun hC ha =>
    absurd ((publishInactive_frozen hw hC r).symm.trans ha) (by decide)

end Plane

/-! ### A reactor whose capture is down -/

/-- No role, and frozen: what is left of the invariant while a transaction is out of its slot. -/
structure Halted (C : Prop) (r : Reactor) : Prop where
  live : LiveInv r.dataplane
  role : r.activationRole = none
  frozen : C → r.active = false
  shut : r.shutdownRequested = true → r.engineCancelRequested = true

/-- A halted reactor without an engine may hold any transaction. -/
theorem Halted.hold (h : Halted C r) {r' : Reactor} (hp : r'.dataplane = r.dataplane)
    (hr : r'.activationRole = r.activationRole) (he : r'.engine = none)
    (hc : r'.engineCancelRequested = r.engineCancelRequested)
    (hs : r'.shutdownRequested = r.shutdownRequested) : Inv C r' where
  live := hp ▸ h.live
  single hne := absurd he hne
  role hne := absurd (hr.trans h.role) hne
  shut hs' := ⟨hr.trans h.role, fun _ => hc.trans (h.shut (hs.symm.trans hs'))⟩
  capture hC ha := by
    have hf := h.frozen hC
    unfold Reactor.active at ha hf
    rw [hp, hf] at ha
    cases ha

theorem Halted.beginStop (h : Halted C r) (he : r.engine = none) (child : EngineChild)
    (next : StopNext) : Inv C (beginStop child next r) := h.hold rfl rfl he rfl rfl

theorem Halted.waitForChild (h : Halted C r) (he : r.engine = none) (child : EngineChild)
    (role : WaitRole) : Inv C (waitForChild child role r) := h.hold rfl rfl he rfl rfl

/-- Emptying the slot of a halted reactor restores the invariant. -/
theorem Halted.clear (h : Halted C r) {r' : Reactor} (hp : r'.dataplane = r.dataplane)
    (hr : r'.activationRole = r.activationRole) (ht : r'.engineTransaction = none) : Inv C r' where
  live := hp ▸ h.live
  single _ t ht' := by cases ht.symm.trans ht'
  role hne := absurd (hr.trans h.role) hne
  shut _ := ⟨hr.trans h.role, fun hne => absurd ht hne⟩
  capture hC ha := by
    have hf := h.frozen hC
    unfold Reactor.active at ha hf
    rw [hp, hf] at ha
    cases ha

/-- A transaction excludes an activation. -/
theorem Inv.role_none (h : Inv C r) (ht : r.engineTransaction ≠ none) : r.activationRole = none := by
  by_contra hne
  exact ht (h.role hne).2

/-- With a child outside its promoted place, the transaction taken out leaves a halted reactor. -/
theorem Inv.halted_taken (h : Inv C r) (he : r.engine = none) (ht : r.engineTransaction ≠ none) :
    Halted C { r with engineTransaction := none } where
  live := h.live
  role := h.role_none ht
  frozen hC := h.frozen_of hC fun c => c.engine he
  shut hs := (h.shut hs).2 ht

/-- A check keeps the invariant under another disposition, unless it becomes a cancelled one. -/
theorem Inv.setCheck (h : Inv C r) {plan : SwitchPlan} {d d' : CheckDisposition}
    (ht : r.engineTransaction = some (.checking plan d)) (hd : d' = .cancelled → d = .cancelled) :
    Inv C { r with engineTransaction := some (.checking plan d') } where
  live := h.live
  single _ t ht' := ⟨plan, d', (Option.some.inj ht').symm⟩
  role hne := by cases ht.symm.trans (h.role hne).2
  shut hs := ⟨(h.shut hs).1, fun _ => (h.shut hs).2 (by simp [ht])⟩
  capture hC ha :=
    let h' := h.capture hC ha
    ⟨h'.engine, h'.role, h'.kept, h'.running, fun plan' heq => by
      cases heq
      exact h'.check plan (by rw [ht, hd rfl])⟩

/-- Nothing is lost with the transaction. -/
theorem Inv.drop (h : Inv C r) : Inv C { r with engineTransaction := none } where
  live := h.live
  single _ t ht := by cases ht
  role hne := ⟨(h.role hne).1, rfl⟩
  shut hs := ⟨(h.shut hs).1, fun hne => absurd rfl hne⟩
  capture hC ha :=
    let h' := h.capture hC ha
    ⟨h'.engine, h'.role, h'.kept, h'.running, fun _ ht => by cases ht⟩

/-- While a child waits no engine is in its slot. -/
theorem Inv.engine_none_of_waiting (h : Inv C r) {child : EngineChild} {role : WaitRole}
    (ht : r.engineTransaction = some (.waiting child role)) : r.engine = none := by
  by_contra hne
  obtain ⟨plan, d, heq⟩ := h.single hne _ ht
  cases heq

/-- While a child is stopped none is either. -/
theorem Inv.engine_none_of_stopping (h : Inv C r) {child : EngineChild} {next : StopNext} {k : Bool}
    (ht : r.engineTransaction = some (.stopping child next k)) : r.engine = none := by
  by_contra hne
  obtain ⟨plan, d, heq⟩ := h.single hne _ ht
  cases heq

/-- Cancelling from a frozen state restores the whole invariant, also under a shutdown just asked. -/
theorem inv_cancelEngineWork (live : LiveInv r.dataplane)
    (single : r.engine ≠ none → ∀ t, r.engineTransaction = some t → ∃ plan d, t = .checking plan d)
    (role : r.activationRole ≠ none → r.engine ≠ none ∧ r.engineTransaction = none)
    (frozen : C → r.active = false) (hcancel : r.engineCancelRequested = true) :
    Inv C (cancelEngineWork r) := by
  have hrole : r.engineTransaction ≠ none → r.activationRole = none := by
    intro ht
    by_contra hne
    exact ht (role hne).2
  have htaken : ∀ t, r.engineTransaction = some t → (∀ plan d, t ≠ .checking plan d) →
      r.engine = none := by
    intro t ht hno
    by_contra hne
    obtain ⟨plan, d, heq⟩ := single hne t ht
    exact hno plan d heq
  unfold cancelEngineWork
  simp only
  split
  · rename_i ht
    split
    · have h : Halted C { r with activationRole := none } := ⟨live, rfl, frozen, fun _ => hcancel⟩
      exact h.hold rfl rfl rfl rfl rfl
    · exact
        { live := live
          single := fun _ t ht' => by cases ht.symm.trans ht'
          role := fun hne => absurd rfl hne
          shut := fun _ => ⟨rfl, fun hne => absurd ht hne⟩
          capture := fun hC ha => absurd ((frozen hC).symm.trans ha) (by decide) }
  · rename_i plan d ht
    exact
      { live := live
        single := fun _ t ht' => ⟨plan, .cancelled, (Option.some.inj ht').symm⟩
        role := fun hne => absurd (hrole (by simp [ht])) hne
        shut := fun _ => ⟨hrole (by simp [ht]), fun _ => hcancel⟩
        capture := fun hC ha => absurd ((frozen hC).symm.trans ha) (by decide) }
  · rename_i child role' ht
    have h : Halted C r := ⟨live, hrole (by simp [ht]), frozen, fun _ => hcancel⟩
    exact h.hold rfl rfl (htaken _ ht fun _ _ h => by cases h) rfl rfl
  · rename_i child next killSent ht
    have h : Halted C r := ⟨live, hrole (by simp [ht]), frozen, fun _ => hcancel⟩
    exact h.hold rfl rfl (htaken _ ht fun _ _ h => by cases h) rfl rfl

/-- Work is cancelled where nothing is captured. -/
theorem Inv.cancelEngineWork (h : Inv C r) (frozen : C → r.active = false) :
    Inv C (cancelEngineWork { r with engineCancelRequested := true }) :=
  inv_cancelEngineWork h.live h.single h.role frozen rfl

theorem Inv.deactivateRuntime (h : Inv C r) (e : Endian) (w : Outside) :
    Inv C (deactivateRuntime e w r) := by
  have hp := h.live.cancelAttachment.converge e w.down false
  have hdown := h.live.cancelAttachment.converge_down e w.down
  have hr : Inv C (Daemon.cancelEngineWork
      { r with
        dataplane := Dataplane.converge e w.down false (Dataplane.cancelAttachment r.dataplane)
        engineCancelRequested := true }) :=
    inv_cancelEngineWork hp h.single h.role (fun _ => hdown) rfl
  exact hr.congr rfl rfl rfl rfl rfl rfl

theorem Inv.requestShutdown (h : Inv C r) {w : Outside} (hw : C → w.publishFault = none) :
    Inv C (requestShutdown w r) := by
  unfold Daemon.requestShutdown
  split
  · exact h
  · exact inv_cancelEngineWork (h.live.publishInactive w.publishFault).cancelAttachment h.single h.role
      (fun hC => publishInactive_frozen hw hC { r with shutdownRequested := true }) rfl

end FluxRs.Daemon
