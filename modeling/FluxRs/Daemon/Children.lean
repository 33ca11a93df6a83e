import FluxRs.Daemon.Simulation

/-!
# FluxRs.Daemon.Children — engine processes and who owns them

A child is owned by the place that holds it: the promoted engine, a waiting or stopping transaction, or the
handler that has taken that transaction.  Whatever runs is owned and only one thing does, as long as every
child that is dropped is reaped.
-/

namespace FluxRs.Daemon

open FluxRs.Lib FluxRs.Net FluxRs.Kmod FluxRs.Dataplane

/-! ### Ownership -/

/-- The child inside a transaction. -/
def EngineTransaction.children : EngineTransaction → List EngineParams
  | .waiting child _ | .stopping child _ _ => [child.params]
  | .checking _ _ => []

/-- The children that the reactor owns. -/
def Reactor.children (r : Reactor) : List EngineParams :=
  (r.engine.map (·.params)).toList ++ (r.engineTransaction.map (·.children)).getD []

/-- The children that a handler has in its hands. -/
def Control.children : Control → List EngineParams
  | .holding t => t.children
  | _ => []

/-- What runs is what is owned, and whatever was started found nothing running. -/
structure Supervised (r : Reactor) (c : Control) : Prop where
  processes : r.host.processes = r.children ++ c.children
  alone : ∀ found ∈ r.host.spawns, found = []

namespace Host

variable (h : Host)

/-- Same processes, and the same history of them. -/
def SameProcesses (h h' : Host) : Prop := h'.processes = h.processes ∧ h'.spawns = h.spawns

variable {h} in
theorem SameProcesses.trans {h' h'' : Host} (hh : SameProcesses h h') (hh' : SameProcesses h' h'') :
    SameProcesses h h'' := ⟨hh'.1.trans hh.1, hh'.2.trans hh.2⟩

variable {h} in
theorem SameProcesses.spawn {h' : Host} (hh : SameProcesses h h') (params : EngineParams) :
    SameProcesses (h.spawn params) (h'.spawn params) := by
  refine ⟨?_, ?_⟩
  · simp only [Host.spawn, hh.1]
  · simp only [Host.spawn, hh.1, hh.2]

theorem sameProcesses_remove (g : ℕ) : SameProcesses h (h.remove g) := by
  unfold remove
  split
  · exact ⟨rfl, rfl⟩
  · exact ⟨rfl, rfl⟩

theorem sameProcesses_removeOld (plan : SwitchPlan) : SameProcesses h (h.removeOld plan) := by
  unfold removeOld
  split
  · exact sameProcesses_remove h _
  · exact ⟨rfl, rfl⟩

/-- Removing files does not touch processes. -/
theorem sameProcesses_cleanupWaitRole (role : WaitRole) :
    SameProcesses h (h.cleanupWaitRole role) := by
  cases role with
  | candidate plan => exact sameProcesses_removeOld h plan
  | recovery error => exact ⟨rfl, rfl⟩

theorem sameProcesses_cleanupStopNext (next : StopNext) :
    SameProcesses h (h.cleanupStopNext next) := by
  cases next with
  | startCandidate plan => exact sameProcesses_remove h _
  | recover plan error => exact sameProcesses_removeOld h plan
  | finishRecoveryFailure error error' => exact ⟨rfl, rfl⟩
  | cancelled => exact ⟨rfl, rfl⟩

theorem sameProcesses_commitHost (role : Option WaitRole) : SameProcesses h (commitHost role h) := by
  unfold commitHost
  split
  · exact sameProcesses_removeOld h _
  · exact ⟨rfl, rfl⟩

end Host

variable {r r' : Reactor} {c c' : Control}

/-- The children move from hand to hand and no process changes. -/
theorem Supervised.move (h : Supervised r c) (hh : Host.SameProcesses r.host r'.host)
    (hc : r'.children ++ c'.children = r.children ++ c.children) : Supervised r' c' where
  processes := by rw [hh.1, hc, h.processes]
  alone := by
    rw [hh.2]
    exact h.alone

/-- The one child is dead and reaped. -/
theorem Supervised.reaped {child : EngineChild} (h : Supervised r c)
    (hone : r.children ++ c.children = [child.params]) (hh : Host.SameProcesses
      (r.host.reap child.params) r'.host) (hc : r'.children ++ c'.children = []) : Supervised r' c' where
  processes := by
    rw [hh.1, hc, Host.reap, h.processes, hone]
    simp
  alone := by
    rw [hh.2]
    exact h.alone

/-- The child in the handler's hands is dead and reaped, and nothing else was owned. -/
theorem Supervised.gone {t : EngineTransaction} {child : EngineChild} (h : Supervised r (.holding t))
    (ht : t.children = [child.params]) (hnone : r.children = [])
    (hh : Host.SameProcesses (r.host.reap child.params) r'.host) (hr : r'.children = r.children)
    (hc : c'.children = []) : Supervised r' c' := by
  refine h.reaped ?_ hh ?_
  · rw [hnone, Control.children, ht, List.nil_append]
  · rw [hr, hnone, hc, List.nil_append]

/-- A child is started where there is none. -/
theorem Supervised.spawned {params : EngineParams} (h : Supervised r c)
    (hnone : r.children ++ c.children = []) (hh : Host.SameProcesses (r.host.spawn params) r'.host)
    (hc : r'.children ++ c'.children = [params]) : Supervised r' c' where
  processes := by
    rw [hh.1, hc, Host.spawn, h.processes, hnone]
  alone := by
    rw [hh.2, Host.spawn]
    intro found hmem
    rcases List.mem_cons.mp hmem with rfl | hmem
    · rw [h.processes, hnone]
    · exact h.alone found hmem

/-- Without a transaction and an engine nothing is owned. -/
theorem Bare.no_children (h : Bare r ∧ r.engine = none) : r.children = [] := by
  simp [Reactor.children, h.1.transaction, h.2]

/-- A cancelled child is owned until it is reaped. -/
theorem children_cancelEngineWork (r : Reactor) :
    (cancelEngineWork { r with engineCancelRequested := true }).children = r.children := by
  unfold cancelEngineWork
  simp only
  split
  · rename_i ht
    split
    · rename_i child he
      simp [beginStop, Reactor.children, ht, he, EngineTransaction.children]
    · rfl
  · rename_i plan d ht
    simp [Reactor.children, ht, EngineTransaction.children]
  · rename_i child role ht
    simp [beginStop, cleanupCancelledWaitRole, Reactor.children, ht, EngineTransaction.children]
  · rename_i child next killSent ht
    simp [beginStop, cleanupCancelledStopNext, Reactor.children, ht, EngineTransaction.children]

theorem sameProcesses_cancelEngineWork (r : Reactor) :
    Host.SameProcesses r.host (cancelEngineWork { r with engineCancelRequested := true }).host := by
  unfold cancelEngineWork
  simp only
  split
  · have hrole : Host.SameProcesses r.host (r.activationRole.elim r.host r.host.cleanupWaitRole) := by
      cases r.activationRole with
      | none => exact ⟨rfl, rfl⟩
      | some role => exact Host.sameProcesses_cleanupWaitRole _ role
    split
    · exact hrole
    · exact hrole
  · exact ⟨rfl, rfl⟩
  · exact Host.sameProcesses_cleanupWaitRole _ _
  · exact Host.sameProcesses_cleanupStopNext _ _

/-! ### One step -/

section Step

variable {fakeipOk : PolicyCandidate → UserConfig → Bool} {P : Fault → Prop}

/-- Where a dead child is known to be reaped the host has one process less. -/
theorem Reaped.sure {child : EngineChild} (h : Reaped P child r r') (hP : ¬ P .unreaped) :
    r' = { r with host := r.host.reap child.params } := by
  rcases h with heq | ⟨hbad, -⟩
  · exact heq
  · exact absurd hbad hP

theorem Supervised.aside (h : Supervised r c) (k : Aside r r') : Supervised r' c := by
  refine h.move ⟨by rw [k.host], by rw [k.host]⟩ ?_
  simp only [Reactor.children, k.engine, k.transaction]

/-- A check ends, or goes on. -/
theorem Act.supervised_checking {plan : SwitchPlan} {d : CheckDisposition}
    (h : Act fakeipOk P r (.holding (.checking plan d)) r' c') (hs : Bare r)
    (hi : Supervised r (.holding (.checking plan d))) : Supervised r' c' := by
  cases h with
  | aside k => exact hi.aside k
  | recheck _ =>
    refine hi.move ⟨rfl, rfl⟩ ?_
    simp [Reactor.children, Control.children, EngineTransaction.children, hs.transaction]
  | checkFailed _ _ => exact hi.move (Host.sameProcesses_remove _ _) rfl
  | checkCancelled _ => exact hi.move (Host.sameProcesses_remove _ _) rfl
  | checked _ _ => exact hi.move ⟨rfl, rfl⟩ rfl
  | switched he _ =>
    refine hi.move ⟨rfl, rfl⟩ ?_
    simp [Reactor.children, Control.children, EngineTransaction.children, beginStop, hs.transaction, he]

/-- A child that waits goes on, is stopped, dies or is promoted. -/
theorem Act.supervised_waiting {child : EngineChild} {role : WaitRole} (hP : ¬ P .unreaped)
    (h : Act fakeipOk P r (.holding (.waiting child role)) r' c')
    (hs : ShapeAt r (.holding (.waiting child role))) (hi : Supervised r (.holding (.waiting child role))) :
    Supervised r' c' := by
  cases h with
  | aside k => exact hi.aside k
  | rewait _ _ _ =>
    refine hi.move ⟨rfl, rfl⟩ ?_
    simp [Reactor.children, Control.children, EngineTransaction.children, waitForChild, hs.1]
  | waitCancelled _ =>
    refine hi.move (Host.sameProcesses_cleanupWaitRole _ _) ?_
    simp [Reactor.children, Control.children, EngineTransaction.children, beginStop,
      cleanupCancelledWaitRole, hs.1]
  | waitFailed _ _ _ =>
    refine hi.move ⟨rfl, rfl⟩ ?_
    simp [Reactor.children, Control.children, EngineTransaction.children, beginStop, hs.1]
  | candidateExit h =>
    obtain rfl := h.sure hP
    refine hi.gone rfl ?_ ⟨rfl, rfl⟩ rfl rfl
    simp [Reactor.children, hs.1, hs.2.2]
  | recoveryExit h _ =>
    obtain rfl := h.sure hP
    refine hi.gone rfl ?_ ⟨rfl, rfl⟩ rfl rfl
    simp [Reactor.children, hs.1, hs.2.2]
  | promote _ =>
    refine hi.move ⟨rfl, rfl⟩ ?_
    simp [Reactor.children, Control.children, EngineTransaction.children, hs.1, hs.2.2]

/-- A child that stops dies, or is kept. -/
theorem Act.supervised_stopping {child : EngineChild} {next : StopNext} {killSent : Bool} (hP : ¬ P .unreaped)
    (h : Act fakeipOk P r (.holding (.stopping child next killSent)) r' c') (hs : Bare r ∧ r.engine = none)
    (hi : Supervised r (.holding (.stopping child next killSent))) : Supervised r' c' := by
  cases h with
  | aside k => exact hi.aside k
  | restop _ _ _ _ =>
    refine hi.move ⟨rfl, rfl⟩ ?_
    simp [Reactor.children, Control.children, EngineTransaction.children, hs.1.transaction]
  | stopped h _ =>
    obtain rfl := h.sure hP
    exact hi.gone rfl (Bare.no_children hs) ⟨rfl, rfl⟩ rfl rfl
  | stopOvertaken h _ =>
    obtain rfl := h.sure hP
    exact hi.gone rfl (Bare.no_children hs)
      ((Host.sameProcesses_remove _ _).trans (Host.sameProcesses_remove _ _)) rfl rfl
  | stopRecovers h =>
    obtain rfl := h.sure hP
    exact hi.gone rfl (Bare.no_children hs) (Host.sameProcesses_remove _ _) rfl rfl
  | stopEnds h =>
    obtain rfl := h.sure hP
    exact hi.gone rfl (Bare.no_children hs) (Host.sameProcesses_remove _ _) rfl rfl
  | stopCancelled h =>
    obtain rfl := h.sure hP
    exact hi.gone rfl (Bare.no_children hs) (Host.sameProcesses_remove _ _) rfl rfl
  | kept _ =>
    refine hi.move (Host.sameProcesses_cleanupStopNext _ _) ?_
    simp [Reactor.children, Control.children, EngineTransaction.children, keptChild, hs.1.transaction, hs.2]

/-- A candidate is started. -/
theorem Act.supervised_starting {plan : SwitchPlan} (h : Act fakeipOk P r (.starting plan) r' c')
    (hs : Bare r ∧ r.engine = none) (hi : Supervised r (.starting plan)) : Supervised r' c' := by
  cases h with
  | aside k => exact hi.aside k
  | spawnFailed _ => exact hi.move ⟨rfl, rfl⟩ rfl
  | spawned _ =>
    refine hi.spawned (List.append_eq_nil_iff.mpr ⟨Bare.no_children hs, rfl⟩) ⟨rfl, rfl⟩ ?_
    simp [Reactor.children, Control.children, EngineTransaction.children, waitForChild, spawnEngine, hs.2]
  | spawnedUnwatched _ _ =>
    refine hi.spawned (List.append_eq_nil_iff.mpr ⟨Bare.no_children hs, rfl⟩) ⟨rfl, rfl⟩ ?_
    simp [Reactor.children, Control.children, EngineTransaction.children, beginStop, spawnEngine, hs.2]

/-- A candidate has failed, and what it replaced is started again. -/
theorem Act.supervised_failing {plan : SwitchPlan} (h : Act fakeipOk P r (.failing plan) r' c')
    (hs : Bare r ∧ r.engine = none) (hi : Supervised r (.failing plan)) : Supervised r' c' := by
  cases h with
  | aside k => exact hi.aside k
  | failCancelled _ =>
    exact hi.move ((Host.sameProcesses_remove _ _).trans (Host.sameProcesses_removeOld _ _)) rfl
  | failCold _ => exact hi.move (Host.sameProcesses_remove _ _) rfl
  | failLost _ _ => exact hi.move (Host.sameProcesses_remove _ _) rfl
  | recovered _ _ =>
    refine hi.spawned (List.append_eq_nil_iff.mpr ⟨Bare.no_children hs, rfl⟩)
      ((Host.sameProcesses_remove _ _).spawn _) ?_
    simp [Reactor.children, Control.children, EngineTransaction.children, waitForChild, spawnEngine,
      dropCandidate, hs.2]
  | recoveredUnwatched _ _ _ =>
    refine hi.spawned (List.append_eq_nil_iff.mpr ⟨Bare.no_children hs, rfl⟩)
      ((Host.sameProcesses_remove _ _).spawn _) ?_
    simp [Reactor.children, Control.children, EngineTransaction.children, beginStop, spawnEngine,
      dropCandidate, hs.2]

/-- A promoted child is committed or stopped. -/
theorem Act.supervised_activating (h : Act fakeipOk P r .activating r' c') (hi : Supervised r .activating) :
    Supervised r' c' := by
  cases h with
  | aside k => exact hi.aside k
  | commitCandidate _ _ _ _ _ => exact hi.move (Host.sameProcesses_commitHost _ _) rfl
  | commitRefused _ he ht _ _ _ =>
    refine hi.move ⟨rfl, rfl⟩ ?_
    simp [Reactor.children, Control.children, EngineTransaction.children, beginStop, takeEngine, he, ht]
  | commitRecovery _ _ _ => exact hi.move (Host.sameProcesses_commitHost _ _) rfl
  | roleFailed _ he ht _ =>
    refine hi.move ⟨rfl, rfl⟩ ?_
    simp [Reactor.children, Control.children, EngineTransaction.children, beginStop, takeEngine, he, ht]

/-- The steps of a reactor that holds no transaction. -/
theorem Act.supervised_idle (hP : ¬ P .unreaped) (h : Act fakeipOk P r .idle r' c') (hs : Shape r)
    (hi : Supervised r .idle) : Supervised r' c' := by
  cases h with
  | aside k => exact hi.aside k
  | cancel =>
    refine hi.move (sameProcesses_cancelEngineWork r) ?_
    rw [children_cancelEngineWork]
  | take ht _ =>
    refine hi.move ⟨rfl, rfl⟩ ?_
    simp [Reactor.children, Control.children, ht]
  | recommit _ _ => exact hi.move (Host.sameProcesses_commitHost _ _) rfl
  | exitEngine he h =>
    obtain rfl := h.sure hP
    have hslot : (r.engineTransaction.map (·.children)).getD [] = [] := by
      cases ht : r.engineTransaction with
      | none => rfl
      | some t =>
        obtain ⟨plan, d, rfl⟩ := hs.single (by simp [he]) t ht
        rfl
    refine hi.reaped ?_ (Host.sameProcesses_remove _ _) ?_
    · simp [Reactor.children, Control.children, he, hslot]
    · simp [Reactor.children, Control.children, removeEffective, hslot]
  | policy _ _ _ _ => exact hi.move ⟨rfl, rfl⟩ rfl
  | generation _ _ _ _ _ hbusy =>
    refine hi.move ⟨rfl, rfl⟩ ?_
    simp [Reactor.children, Control.children, EngineTransaction.children, (idle_of_not_busy hbusy).1]
  | generationFailed _ => exact hi.move ⟨rfl, rfl⟩ rfl
  | settle _ _ _ => exact hi.move ⟨rfl, rfl⟩ rfl
  | feed _ => exact hi.move ⟨rfl, rfl⟩ rfl
  | discardedResult _ => exact hi.move ⟨rfl, rfl⟩ rfl
  | emptyResult _ => exact hi.move ⟨rfl, rfl⟩ rfl
  | acceptedResult _ _ => exact hi.move ⟨rfl, rfl⟩ rfl

/-- Every step keeps what runs and who owns it together. -/
theorem Act.supervised (hP : ¬ P .unreaped) (h : Act fakeipOk P r c r' c') (hs : ShapeAt r c)
    (hi : Supervised r c) : Supervised r' c' := by
  match c with
  | .idle => exact h.supervised_idle hP hs hi
  | .holding (.checking _ _) => exact h.supervised_checking hs hi
  | .holding (.waiting _ _) => exact h.supervised_waiting hP hs hi
  | .holding (.stopping _ _ _) => exact h.supervised_stopping hP hs hi
  | .starting _ => exact h.supervised_starting hs hi
  | .failing _ => exact h.supervised_failing hs hi
  | .activating => exact h.supervised_activating hi
  | .erring =>
    cases h with
    | aside k => exact hi.aside k
    | err _ =>
      refine hi.move ⟨rfl, rfl⟩ ?_
      simp [Reactor.children, Control.children, hs.transaction]
  | .cancelling =>
    cases h with
    | aside k => exact hi.aside k
    | cancelStops he _ =>
      refine hi.move ⟨rfl, rfl⟩ ?_
      simp [Reactor.children, Control.children, EngineTransaction.children, beginStop, hs.transaction, he]
    | cancelEnds _ _ =>
      refine hi.move ⟨rfl, rfl⟩ ?_
      simp [Reactor.children, Control.children, hs.transaction]
  | .resuming =>
    cases h with
    | aside k => exact hi.aside k
    | resume w =>
      obtain ⟨changed, s, heq, -⟩ := resumeQueued_eq w r
      rw [heq]
      exact hi.move ⟨rfl, rfl⟩ rfl

end Step

/-! ### Runs -/

/-- A child that a handler reaps on the word of a pidfd has exited, or dies within its `SIGKILL` window. -/
def ReapsDead (r : Reactor) (ev : Event) : Prop :=
  ev.kind.reaps r → (ev.outside.exited || ev.outside.terminates) = true

instance (r : Reactor) (ev : Event) : Decidable (ReapsDead r ev) := inferInstanceAs (Decidable (_ → _))

/-- Every fault but a child that is dropped alive. -/
def Fault.reaped : Fault → Prop
  | .unreaped => False
  | _ => True

theorem ReapsDead.grants {ev : Event} (h : ReapsDead r ev) :
    Grants Fault.reaped (ev.enter r) ev.kind ev.outside where
  unreaped hreaps hx := absurd (hx.symm.trans (h hreaps)) (by decide)

/-- The slots of a reactor hold one child at most. -/
theorem Shape.children_length (h : Shape r) : r.children.length ≤ 1 := by
  unfold Reactor.children
  cases he : r.engine with
  | none =>
    match r.engineTransaction with
    | none | some (.checking _ _) | some (.waiting _ _) | some (.stopping _ _ _) =>
      simp [EngineTransaction.children]
  | some child =>
    cases ht : r.engineTransaction with
    | none => simp
    | some t =>
      obtain ⟨plan, d, rfl⟩ := h.single (by simp [he]) t ht
      simp [EngineTransaction.children]

section Run

variable {e : Endian} {srt : Sorter} {fakeipOk : PolicyCandidate → UserConfig → Bool}

/-- **One engine child.**  In every state of every run a promoted engine leaves room for a check only and
a role belongs to a promoted engine, so that one child is owned at most; if every child that is reaped on
the word of a pidfd is dead or dies, exactly the owned child runs, and every engine that was ever started
found none running. -/
theorem owns_one_child {dataplane : Plane} {badPageSize : Bool} {first : Event} {evs : List Event}
    {r₀ r : Reactor} (hstart : start e srt fakeipOk dataplane badPageSize first = some r₀)
    (hrun : runOption (handle e srt fakeipOk) r₀ evs = some r) :
    (r.engine ≠ none → ∀ t, r.engineTransaction = some t → ∃ plan d, t = .checking plan d) ∧
      (r.activationRole ≠ none → r.engine ≠ none ∧ r.engineTransaction = none) ∧
      r.children.length ≤ 1 ∧
      (AllStepsOption (handle e srt fakeipOk) ReapsDead r₀ evs →
        r.host.processes = r.children ∧ ∀ found ∈ r.host.spawns, found = []) := by
  have hs := run_shape e srt hstart hrun
  refine ⟨hs.single, fun hne => absurd hs.role hne, hs.children_length, fun hsteps => ?_⟩
  have h : Supervised r .idle := (run_keeps (I := Supervised) e srt
    (fun hact hs hi => hact.supervised id hs hi) (fun _ _ _ hi => hi.move ⟨rfl, rfl⟩ rfl)
    (fun _ _ hc _ _ => hc.grants) ⟨rfl, fun _ hmem => by cases hmem⟩ hstart hsteps hrun).2
  refine ⟨?_, h.alone⟩
  simpa [Control.children] using h.processes

end Run

/-- The engine is running under another configuration, and the check of its replacement has passed. -/
def switchEvents (user : UserConfig) : List Event :=
  readyEvents ++
  [{ disabled := false, kind := .inotify false false true },
    { disabled := false, kind := .debounce, nested := [{ user := some user }] },
    { disabled := false, kind := .checkExit, outside := { check := .finished none } }]

/-- The old child exits in time and its replacement comes up. -/
def switchedEvents : List Event :=
  switchEvents "next" ++ [{ disabled := false, kind := .transactionPidfd, outside := { exited := true } },
    { disabled := false, kind := .engineTimer },
    { disabled := false, kind := .sockDiag, outside := { probe := .ready } }]

def switchedRun : ColdRun ReapsDead fun r => decide (r.host.spawns = [[], []]) :=
  ⟨switchedEvents, by decide +kernel⟩

theorem owns_one_child_switched :
    ∃ r, coldRun switchedEvents = some r ∧ r.host.processes = r.children ∧ r.children.length ≤ 1 ∧
      r.host.spawns = [[], []] := by
  obtain ⟨r₀, r, hstart, hsteps, hr, hcold, hspawns⟩ := exists_of_coldMeets switchedRun.meets
  obtain ⟨-, -, hlength, hprocesses⟩ := owns_one_child hstart hr
  exact ⟨r, hcold, (hprocesses hsteps).1, hlength, of_decide_eq_true hspawns⟩

/-- The timer completes the stop of the old child and starts a candidate that cannot be registered; the
pidfd event of the old child, from the same batch, then stands for the candidate's. -/
def stalePidfdEvents : List Event :=
  switchEvents "next" ++
  [{ disabled := false, kind := .engineTimer, outside := { exited := true, spawn := .unregistered } },
    { disabled := false, kind := .transactionPidfd, outside := { terminates := false } }]

/-- The candidate survives its `SIGKILL` window and is forgotten, and the old generation is started
again beside it. -/
theorem stale_pidfd_forgets_child :
    ∃ r, coldRun stalePidfdEvents = some r ∧ r.children.length = 1 ∧ r.host.processes.length = 2 ∧
      ∃ found ∈ r.host.spawns, found ≠ [] := by
  have hrun : (coldRun stalePidfdEvents).any (fun r => decide (r.children.length = 1) &&
      decide (r.host.processes.length = 2) && decide (∃ found ∈ r.host.spawns, found ≠ [])) = true := by
    decide +kernel
  obtain ⟨r, hr, h⟩ := (Option.any_eq_true _ _).mp hrun
  simp only [Bool.and_eq_true, decide_eq_true_eq] at h
  exact ⟨r, hr, h.1.1, h.1.2, h.2⟩

end FluxRs.Daemon
