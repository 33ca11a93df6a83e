import FluxRs.Daemon.Capture
import Mathlib.Logic.Relation

/-!
# FluxRs.Daemon.Machine — the handlers as small steps

Between two states a handler holds a transaction, a plan or a promise in its local variables.  `Control`
says which, and `Act` what the code may do from there: one constructor for each branch that touches the
engine, its files and processes, the policy, or the coordinator.  Invariants are proved over `Act`; that
every handler is a sequence of them is `FluxRs.Daemon.Simulation`.

Branches that a result has to exclude carry a `Fault`, which must satisfy the parameter `P`.
-/

namespace FluxRs.Daemon

open FluxRs.Lib FluxRs.Net FluxRs.Kmod FluxRs.Dataplane

/-! ### Control and faults -/

/-- What the handler has in hand while the transaction's slot is empty. -/
inductive Control where
  /-- Nothing. -/
  | idle
  /-- The transaction, taken out of its slot. -/
  | holding (transaction : EngineTransaction)
  /-- `start_candidate` is next. -/
  | starting (plan : SwitchPlan)
  /-- `begin_candidate_failure` is next. -/
  | failing (plan : SwitchPlan)
  /-- `finish_transaction_error` is next. -/
  | erring
  /-- `finish_cancelled` is next. -/
  | cancelling
  /-- A child has been promoted; its activation is next. -/
  | activating
  /-- `resume_queued_subscription_work` is next. -/
  | resuming

/-- The candidate of a transaction. -/
def EngineTransaction.candidate : EngineTransaction → Option SwitchPlan
  | .checking plan _ | .waiting _ (.candidate plan) | .stopping _ (.startCandidate plan) _
  | .stopping _ (.recover plan _) _ => some plan
  | _ => none

/-- The candidate in flight. -/
def Reactor.candidate (r : Reactor) : Option SwitchPlan := r.engineTransaction.bind (·.candidate)

/-- A step that a claim about runs may have to exclude. -/
inductive Fault where
  /-- A handler takes the transaction out of its slot in this state. -/
  | take (r : Reactor)
  /-- A child that is dropped has not been reaped. -/
  | unreaped
  /-- The old generation cannot be started again. -/
  | recoverySpawn
  /-- The child of a recovery exits before it is ready. -/
  | recoveryExit
  /-- A child survives its `SIGKILL` window in this state. -/
  | unconfirmed (r : Reactor) (child : EngineChild) (next : StopNext)
  /-- A candidate commits beside this policy. -/
  | beside (policy : PolicyCandidate) (plan : SwitchPlan)
  /-- A bound batch may go to the cache in part. -/
  | splitCommit
  /-- A result leaves a fetch queued beside the bytes it brings. -/
  | queuedBeside (r : Reactor)

/-! ### Steps -/

/-- Nothing moves that the engine, its files, the policy or the coordinator depend on. -/
structure Aside (r r' : Reactor) : Prop where
  engine : r'.engine = r.engine
  transaction : r'.engineTransaction = r.engineTransaction
  role : r'.activationRole = r.activationRole
  probe : r'.diagProbe = r.diagProbe
  cancel : r'.engineCancelRequested = r.engineCancelRequested
  generations : r'.generations = r.generations
  policy : r'.currentPolicy = r.currentPolicy
  user : r'.currentEngineUser = r.currentEngineUser
  subscription : r'.subscription = r.subscription
  host : r'.host = r.host
  /-- A shutdown is not taken back. -/
  shutdown : r.shutdownRequested = true → r'.shutdownRequested = true

/-- What `Aside` keeps. -/
def Reactor.kept (r : Reactor) :=
  (r.engine, r.engineTransaction, r.activationRole, r.diagProbe, r.engineCancelRequested,
    r.generations, r.currentPolicy, r.currentEngineUser, r.subscription, r.host)

theorem Aside.of_kept {r r' : Reactor} (h : r'.kept = r.kept)
    (hs : r.shutdownRequested = true → r'.shutdownRequested = true) : Aside r r' := by
  simp only [Reactor.kept, Prod.mk.injEq] at h
  obtain ⟨h₁, h₂, h₃, h₄, h₅, h₆, h₇, h₈, h₉, h₁₀⟩ := h
  exact ⟨h₁, h₂, h₃, h₄, h₅, h₆, h₇, h₈, h₉, h₁₀, hs⟩

/-- The promoted child is taken out and its role with it. -/
def takeEngine (r : Reactor) : Reactor := { r with activationRole := none, engine := none }

/-- The bookkeeping of a committed child. -/
def committed (child : EngineChild) (r : Reactor) : Reactor :=
  { r with
    generations := r.generations.commit child.params.generation
    host := commitHost r.activationRole (r.host.publish child.params.generation)
    currentEngineUser := match r.activationRole with
      | some (.candidate plan) => some plan.user
      | _ => r.currentEngineUser
    activationRole := none
    engineCancelRequested := false }

/-- What an unconfirmed stop leaves before queued work is resumed. -/
def keptChild (child : EngineChild) (next : StopNext) (r : Reactor) : Reactor :=
  { r with
    subscription := next.discard r.subscription
    host := r.host.cleanupStopNext next
    generations := r.generations.commit child.params.generation
    engine := some child
    engineTransaction := none
    engineCancelRequested := false }

/-- A dead child is reaped, or its handler goes on without. -/
def Reaped (P : Fault → Prop) (child : EngineChild) (r r' : Reactor) : Prop :=
  r' = { r with host := r.host.reap child.params } ∨ P .unreaped ∧ r' = r

/-- The cache takes all that a commit has to write, or nothing of it. -/
def Uniform (s : Subscription) (nodes : Option NodeConfig) (generation : Option ℕ) (env : CommitEnv) :
    Prop :=
  (∀ entry ∈ s.outstanding nodes generation env, env.replacement entry.1 = .replaced) ∨
    ∀ entry ∈ s.outstanding nodes generation env, env.replacement entry.1 = .failed

/-- What the coordinator does on its own. -/
inductive Feed (disabled : Bool) (nodes : Option NodeConfig) (s : Subscription) : Subscription → Prop
  | schedule (config : NodeConfig) (env : FetchEnv) : Feed disabled nodes s (s.ensureSchedule disabled config env)
  | configure (config : NodeConfig) (changed : Bool) (env : FetchEnv) (h : nodes = some config) :
    Feed disabled nodes s (s.configure disabled config changed env)
  | fetch (config : NodeConfig) (env : FetchEnv) : Feed disabled nodes s (s.startFetchWith disabled config env)
  | route (answer : Option Bool) : Feed disabled nodes s (s.observeRoute answer)
  | retried : Feed disabled nodes s { s with retryOnRoute := false }
  | refused : Feed disabled nodes s s.dropUntagged
  | reset : Feed disabled nodes s s.resetOnDisable

theorem Feed.quiet {disabled : Bool} {nodes : Option NodeConfig} {s s' : Subscription}
    (h : Feed disabled nodes s s') : Quiet s s' := by
  cases h with
  | schedule config env => exact .ensureSchedule s disabled config env
  | configure config changed env _ => exact .configure s disabled config changed env
  | fetch config env => exact .startFetchWith s disabled config env
  | route answer => exact .observeRoute s answer
  | retried => exact .of_eq rfl rfl rfl rfl rfl
  | refused => exact .dropUntagged s
  | reset => exact .resetOnDisable s

/-- The nodes of the installed policy. -/
def Reactor.nodes (r : Reactor) : Option NodeConfig := r.currentPolicy.map (·.nodes)

section

variable (fakeipOk : PolicyCandidate → UserConfig → Bool) (P : Fault → Prop)

/-- **One step of the reactor**, between the places of `Control`; the simulation shows that each handler is a
sequence of these. -/
inductive Act : Reactor → Control → Reactor → Control → Prop
  | aside {r r' : Reactor} {c : Control} (h : Aside r r') : Act r c r' c
  | cancel (r : Reactor) : Act r .idle (cancelEngineWork { r with engineCancelRequested := true }) .idle
  | take {r : Reactor} {t : EngineTransaction} (h : r.engineTransaction = some t) (ht : P (.take r)) :
    Act r .idle { r with engineTransaction := none } (.holding t)
  -- a check
  | recheck (r : Reactor) {plan : SwitchPlan} {d d' : CheckDisposition}
      (hd : d' = .cancelled → d = .cancelled) :
    Act r (.holding (.checking plan d)) { r with engineTransaction := some (.checking plan d') } .idle
  | checkFailed (r : Reactor) (plan : SwitchPlan) (d : CheckDisposition) :
    Act r (.holding (.checking plan d)) (removeEffective plan.params.generation r) .erring
  | checkCancelled (r : Reactor) {plan : SwitchPlan} {d : CheckDisposition}
      (h : d = .cancelled ∨ r.engineCancelRequested = true) :
    Act r (.holding (.checking plan d)) (removeEffective plan.params.generation r) .cancelling
  | checked {r : Reactor} {plan : SwitchPlan} {d : CheckDisposition} (he : r.engine = none)
      (hc : r.engineCancelRequested = false) : Act r (.holding (.checking plan d)) r (.starting plan)
  | switched {r : Reactor} {plan : SwitchPlan} {d : CheckDisposition} {child : EngineChild}
      (he : r.engine = some child) (hc : r.engineCancelRequested = false) :
    Act r (.holding (.checking plan d))
      (beginStop child (.startCandidate { plan with old := some child.params }) { r with engine := none })
      .idle
  -- a waiting child
  | rewait (r : Reactor) (child : EngineChild) (role : WaitRole) (probe : Bool) :
    Act r (.holding (.waiting child role))
      (waitForChild child role { r with diagProbe := probe }) .idle
  | waitCancelled {r : Reactor} {child : EngineChild} {role : WaitRole}
      (hc : r.engineCancelRequested = true) :
    Act r (.holding (.waiting child role))
      (beginStop child .cancelled (cleanupCancelledWaitRole role r)) .idle
  | waitFailed (r : Reactor) (child : EngineChild) (role : WaitRole) (error : EngineError) :
    Act r (.holding (.waiting child role)) (beginStop child (role.failed error) r) .idle
  | candidateExit {r r' : Reactor} {child : EngineChild} {plan : SwitchPlan} (h : Reaped P child r r') :
    Act r (.holding (.waiting child (.candidate plan))) { r' with diagProbe := false } (.failing plan)
  | recoveryExit {r r' : Reactor} {child : EngineChild} {error : EngineError} (h : Reaped P child r r')
      (hP : P .recoveryExit) :
    Act r (.holding (.waiting child (.recovery error))) { r' with diagProbe := false } .erring
  | promote {r : Reactor} {child : EngineChild} {role : WaitRole}
      (hc : r.engineCancelRequested = false) :
    Act r (.holding (.waiting child role))
      { r with
        diagProbe := false, engine := some child, activationRole := some role
        engineCancelRequested := false } .activating
  -- a stopping child
  | restop (r : Reactor) (child : EngineChild) (next : StopNext) (killSent killSent' : Bool) :
    Act r (.holding (.stopping child next killSent))
      { r with engineTransaction := some (.stopping child next killSent') } .idle
  | stopped {r r' : Reactor} {child : EngineChild} {plan : SwitchPlan} {killSent : Bool}
      (h : Reaped P child r r') (hc : r.engineCancelRequested = false) :
    Act r (.holding (.stopping child (.startCandidate plan) killSent)) r' (.starting plan)
  | stopOvertaken {r r' : Reactor} {child : EngineChild} {plan : SwitchPlan} {killSent : Bool}
      (h : Reaped P child r r') (hc : r.engineCancelRequested = true) :
    Act r (.holding (.stopping child (.startCandidate plan) killSent))
      (removeEffective plan.params.generation (removeEffective child.params.generation r')) .cancelling
  | stopRecovers {r r' : Reactor} {child : EngineChild} {plan : SwitchPlan} {error : EngineError}
      {killSent : Bool} (h : Reaped P child r r') :
    Act r (.holding (.stopping child (.recover plan error) killSent))
      (removeEffective child.params.generation r') (.failing plan)
  | stopEnds {r r' : Reactor} {child : EngineChild} {error error' : EngineError} {killSent : Bool}
      (h : Reaped P child r r') :
    Act r (.holding (.stopping child (.finishRecoveryFailure error error') killSent))
      (removeEffective child.params.generation r') .erring
  | stopCancelled {r r' : Reactor} {child : EngineChild} {killSent : Bool} (h : Reaped P child r r') :
    Act r (.holding (.stopping child .cancelled killSent))
      (removeEffective child.params.generation r') .cancelling
  | kept {r : Reactor} {child : EngineChild} {next : StopNext} {killSent : Bool}
      (hP : P (.unconfirmed r child next)) :
    Act r (.holding (.stopping child next killSent)) (keptChild child next r) .resuming
  -- a candidate
  | spawnFailed (r : Reactor) (plan : SwitchPlan) : Act r (.starting plan) r (.failing plan)
  | spawned (r : Reactor) (plan : SwitchPlan) :
    Act r (.starting plan)
      (waitForChild ⟨plan.params⟩ (.candidate plan) (spawnEngine plan.params r)) .idle
  | spawnedUnwatched (r : Reactor) (plan : SwitchPlan) (error : EngineError) :
    Act r (.starting plan)
      (beginStop ⟨plan.params⟩ (.recover plan error) (spawnEngine plan.params r)) .idle
  | failCancelled {r : Reactor} {plan : SwitchPlan} (hc : r.engineCancelRequested = true) :
    Act r (.failing plan)
      { dropCandidate plan r with host := (dropCandidate plan r).host.removeOld plan } .cancelling
  | failCold {r : Reactor} {plan : SwitchPlan} (h : plan.old = none) :
    Act r (.failing plan) (dropCandidate plan r) .erring
  | failLost {r : Reactor} {plan : SwitchPlan} {old : EngineParams} (h : plan.old = some old)
      (hP : P .recoverySpawn) : Act r (.failing plan) (dropCandidate plan r) .erring
  | recovered {r : Reactor} {plan : SwitchPlan} {old : EngineParams} (h : plan.old = some old)
      (error : EngineError) :
    Act r (.failing plan)
      (waitForChild ⟨old⟩ (.recovery error) (spawnEngine old (dropCandidate plan r))) .idle
  | recoveredUnwatched {r : Reactor} {plan : SwitchPlan} {old : EngineParams} (h : plan.old = some old)
      (error error' : EngineError) :
    Act r (.failing plan)
      (beginStop ⟨old⟩ (.finishRecoveryFailure error error') (spawnEngine old (dropCandidate plan r)))
      .idle
  -- ends
  | err {r : Reactor} (hrole : r.activationRole = none) :
    Act r .erring { r with subscription := r.subscription.dropTagged, engineTransaction := none }
      .resuming
  | cancelStops {r : Reactor} {child : EngineChild} (he : r.engine = some child)
      (hrole : r.activationRole = none) :
    Act r .cancelling
      (beginStop child .cancelled { r with diagProbe := false, engineTransaction := none, engine := none })
      .idle
  | cancelEnds {r : Reactor} (he : r.engine = none) (hrole : r.activationRole = none) :
    Act r .cancelling
      { r with diagProbe := false, engineTransaction := none, engineCancelRequested := false } .idle
  | resume (r : Reactor) (w : Outside) : Act r .resuming (resumeQueuedSubscriptionWork w r) .idle
  -- a promoted child
  | commitCandidate {r : Reactor} {child : EngineChild} {plan : SwitchPlan} {env : CommitEnv}
      (he : r.engine = some child) (ht : r.engineTransaction = none)
      (hrole : r.activationRole = some (.candidate plan))
      (hok : (r.subscription.commitPending r.nodes (some plan.params.generation) env).1 = true)
      (hP : ∀ policy, r.currentPolicy = some policy → P (.beside policy plan)) :
    Act r .activating
      (committed child { r with subscription :=
          (r.subscription.commitPending r.nodes (some plan.params.generation) env).2 }) .resuming
  | commitRefused {r : Reactor} {child : EngineChild} {plan : SwitchPlan} {env : CommitEnv}
      (error : EngineError) (he : r.engine = some child) (ht : r.engineTransaction = none)
      (hrole : r.activationRole = some (.candidate plan))
      (hok : (r.subscription.commitPending r.nodes (some plan.params.generation) env).1 = false)
      (hP : P .splitCommit ∨ Uniform r.subscription r.nodes (some plan.params.generation) env) :
    Act r .activating
      (beginStop child (.recover plan error) (takeEngine { r with subscription :=
          (r.subscription.commitPending r.nodes (some plan.params.generation) env).2 })) .idle
  | commitRecovery {r : Reactor} {child : EngineChild} {error : EngineError}
      (he : r.engine = some child) (ht : r.engineTransaction = none)
      (hrole : r.activationRole = some (.recovery error)) :
    Act r .activating (committed child r) .resuming
  | roleFailed {r : Reactor} {child : EngineChild} {role : WaitRole} (error : EngineError)
      (he : r.engine = some child) (ht : r.engineTransaction = none)
      (hrole : r.activationRole = some role) :
    Act r .activating (beginStop child (role.failed error) (takeEngine r)) .idle
  | recommit {r : Reactor} {child : EngineChild} (he : r.engine = some child)
      (ht : r.engineTransaction = none) : Act r .idle (committed child r) .resuming
  | exitEngine {r r' : Reactor} {child : EngineChild} (he : r.engine = some child)
      (h : Reaped P child r r') :
    Act r .idle { removeEffective child.params.generation r' with engine := none } .idle
  -- a convergence
  | policy {r : Reactor} (policy : PolicyCandidate) (changed : Bool) (env : FetchEnv)
      (huser : ∀ user, r.currentEngineUser = some user → fakeipOk policy user = true) :
    Act r .idle
      (configureSubscription env changed { r with currentPolicy := some policy }) .idle
  | generation {r : Reactor} (user : UserConfig) (params : EngineParams) (d : CheckDisposition)
      (hg : params.generation = r.generations.next) (hd : d ≠ .cancelled)
      (hbusy : r.convergenceBusy = false) :
    Act r .idle { r with
      generations := r.generations.allocate.2
      subscription := r.subscription.bindGeneration r.nodes params.generation
      host := r.host.write params.generation user
      engineTransaction := some (.checking ⟨params, user, none⟩ d) } .idle
  | generationFailed {r : Reactor} (hbusy : r.convergenceBusy = false) :
    Act r .idle { r with
      generations := r.generations.allocate.2
      subscription := r.subscription.bindGeneration r.nodes r.generations.next } .erring
  | settle {r : Reactor} (w : Outside) (user : Option UserConfig) (hbusy : r.convergenceBusy = false) :
    Act r .idle (settlePending w user r) .idle
  -- the coordinator
  | feed {r : Reactor} {s : Subscription} (h : Feed r.disabled r.nodes r.subscription s) :
    Act r .idle { r with subscription := s } .idle
  | discardedResult {r : Reactor} {answers : List FetchAnswer} {w : Outside}
      (h : (handleSubscriptionResult w answers r).1 = .discarded) :
    Act r .idle (handleSubscriptionResult w answers r).2 .idle
  | emptyResult {r : Reactor} {answers : List FetchAnswer} {w : Outside}
      (h : (handleSubscriptionResult w answers r).1 = .empty) :
    Act r .idle (handleSubscriptionResult w answers r).2 .resuming
  | acceptedResult {r : Reactor} {answers : List FetchAnswer} {w : Outside}
      (h : (handleSubscriptionResult w answers r).1 = .accepted)
      (hP : (handleSubscriptionResult w answers r).2.subscription.fetchQueued = true →
        r.convergenceBusy = false → P (.queuedBeside r)) :
    Act r .idle (handleSubscriptionResult w answers r).2 .idle

/-- A sequence of steps. -/
def Acts (r : Reactor) (c : Control) (r' : Reactor) (c' : Control) : Prop :=
  Relation.ReflTransGen (fun x y : Reactor × Control => Act fakeipOk P x.1 x.2 y.1 y.2) (r, c) (r', c')

end

section

variable {fakeipOk : PolicyCandidate → UserConfig → Bool} {P : Fault → Prop}
variable {r r' r'' : Reactor} {c c' c'' : Control}

theorem Acts.refl : Acts fakeipOk P r c r c := Relation.ReflTransGen.refl

theorem Acts.trans (h : Acts fakeipOk P r c r' c') (h' : Acts fakeipOk P r' c' r'' c'') :
    Acts fakeipOk P r c r'' c'' := Relation.ReflTransGen.trans h h'

theorem Act.one (h : Act fakeipOk P r c r' c') : Acts fakeipOk P r c r' c' := .single h

/-- **The invariant rule**: what every step preserves, a sequence of steps preserves. -/
theorem Acts.inv {I : Reactor → Control → Prop}
    (hstep : ∀ {r c r' c'}, Act fakeipOk P r c r' c' → I r c → I r' c')
    (h : Acts fakeipOk P r c r' c') (h₀ : I r c) : I r' c' := by
  have hall : ∀ x : Reactor × Control,
      Relation.ReflTransGen (fun x y : Reactor × Control => Act fakeipOk P x.1 x.2 y.1 y.2) (r, c) x →
      I x.1 x.2 := by
    intro x hx
    induction hx with
    | refl => exact h₀
    | tail _ hact ih => exact hstep hact ih
  exact hall (r', c') h

theorem Aside.refl (r : Reactor) : Aside r r := .of_kept rfl id

theorem Aside.trans (h : Aside r r') (h' : Aside r' r'') : Aside r r'' where
  engine := h'.engine.trans h.engine
  transaction := h'.transaction.trans h.transaction
  role := h'.role.trans h.role
  probe := h'.probe.trans h.probe
  cancel := h'.cancel.trans h.cancel
  generations := h'.generations.trans h.generations
  policy := h'.policy.trans h.policy
  user := h'.user.trans h.user
  subscription := h'.subscription.trans h.subscription
  host := h'.host.trans h.host
  shutdown hs := h'.shutdown (h.shutdown hs)

/-! ### The shape of a state -/

/-- A promoted engine leaves room for a check only, no activation is left half way, and a probe belongs
to a waiting child. -/
structure Shape (r : Reactor) : Prop where
  single : r.engine ≠ none → ∀ t, r.engineTransaction = some t → ∃ plan d, t = .checking plan d
  role : r.activationRole = none
  probe : r.diagProbe = true → ∃ child role, r.engineTransaction = some (.waiting child role)

/-- The slot, the role and the probe are empty. -/
structure Bare (r : Reactor) : Prop where
  transaction : r.engineTransaction = none
  role : r.activationRole = none
  probe : r.diagProbe = false

/-- `Shape` while the handler holds something. -/
def ShapeAt (r : Reactor) : Control → Prop
  | .idle | .resuming => Shape r
  | .holding (.checking _ _) => Bare r
  | .holding (.waiting _ _) =>
    r.engineTransaction = none ∧ r.activationRole = none ∧ r.engine = none
  | .holding (.stopping _ _ _) | .starting _ | .failing _ => Bare r ∧ r.engine = none
  | .erring | .cancelling => Bare r
  | .activating => r.engine ≠ none ∧ r.engineTransaction = none ∧ r.activationRole ≠ none ∧
    r.diagProbe = false

theorem Bare.shape (h : Bare r) : Shape r where
  single _ t ht := by cases h.transaction.symm.trans ht
  role := h.role
  probe hp := absurd (h.probe.symm.trans hp) (by decide)

theorem Shape.congr (h : Shape r) (he : r'.engine = r.engine)
    (ht : r'.engineTransaction = r.engineTransaction) (hr : r'.activationRole = r.activationRole)
    (hp : r'.diagProbe = r.diagProbe) : Shape r' where
  single := by
    rw [he, ht]
    exact h.single
  role := hr.trans h.role
  probe := by
    rw [hp, ht]
    exact h.probe

theorem Bare.congr (h : Bare r) (ht : r'.engineTransaction = r.engineTransaction)
    (hr : r'.activationRole = r.activationRole) (hp : r'.diagProbe = r.diagProbe) : Bare r' :=
  ⟨ht.trans h.transaction, hr.trans h.role, hp.trans h.probe⟩

theorem ShapeAt.aside (k : Aside r r') (h : ShapeAt r c) : ShapeAt r' c := by
  have hs : Shape r → Shape r' := fun h => h.congr k.engine k.transaction k.role k.probe
  have hb : Bare r → Bare r' := fun h => h.congr k.transaction k.role k.probe
  match c with
  | .idle | .resuming => exact hs h
  | .holding (.checking _ _) => exact hb h
  | .holding (.waiting _ _) =>
    exact ⟨k.transaction.trans h.1, k.role.trans h.2.1, k.engine.trans h.2.2⟩
  | .holding (.stopping _ _ _) | .starting _ | .failing _ => exact ⟨hb h.1, k.engine.trans h.2⟩
  | .erring | .cancelling => exact hb h
  | .activating =>
    exact ⟨k.engine ▸ h.1, k.transaction.trans h.2.1, k.role ▸ h.2.2.1, k.probe.trans h.2.2.2⟩

theorem Reaped.eq {child : EngineChild} (h : Reaped P child r r') : ∃ host, r' = { r with host := host } := by
  rcases h with rfl | ⟨-, rfl⟩
  · exact ⟨_, rfl⟩
  · exact ⟨r'.host, rfl⟩

/-- A stop may follow whatever left no engine. -/
theorem shape_beginStop (child : EngineChild) (next : StopNext) (he : r.engine = none)
    (hr : r.activationRole = none) : Shape (beginStop child next r) where
  single hne := absurd he hne
  role := hr
  probe hp := by cases hp

theorem shape_waitForChild (child : EngineChild) (role : WaitRole) (he : r.engine = none)
    (hr : r.activationRole = none) : Shape (waitForChild child role r) where
  single hne := absurd he hne
  role := hr
  probe _ := ⟨child, role, rfl⟩

theorem Shape.bare (h : Shape r) (ht : r.engineTransaction = none) : Bare r where
  transaction := ht
  role := h.role
  probe := by
    by_contra hp
    obtain ⟨child, role, heq⟩ := h.probe (by simpa using hp)
    cases ht.symm.trans heq

theorem Shape.cancelEngineWork (h : Shape r) :
    Shape (cancelEngineWork { r with engineCancelRequested := true }) := by
  have htaken : ∀ t, r.engineTransaction = some t → (∀ plan d, t ≠ .checking plan d) →
      r.engine = none := by
    intro t ht hno
    by_contra hne
    obtain ⟨plan, d, heq⟩ := h.single hne t ht
    exact hno plan d heq
  unfold Daemon.cancelEngineWork
  simp only
  split
  · rename_i ht
    split
    · exact shape_beginStop _ _ rfl rfl
    · exact Bare.shape ⟨ht, rfl, rfl⟩
  · rename_i plan d ht
    exact
      { single := fun _ t heq => ⟨plan, .cancelled, (Option.some.inj heq).symm⟩
        role := h.role
        probe := fun hp => by cases hp }
  · rename_i child role ht
    exact shape_beginStop _ _ (htaken _ ht fun _ _ h => by cases h) h.role
  · rename_i child next killSent ht
    exact shape_beginStop _ _ (htaken _ ht fun _ _ h => by cases h) h.role

theorem shape_resumeQueued (h : Shape r) (w : Outside) : Shape (resumeQueuedSubscriptionWork w r) := by
  obtain ⟨changed, s, heq, -⟩ := resumeQueued_eq w r
  rw [heq]
  exact h.congr rfl rfl rfl rfl

/-- Without work under way no transaction and no activation is held. -/
theorem idle_of_not_busy (h : r.convergenceBusy = false) :
    r.engineTransaction = none ∧ r.activationRole = none := by
  simpa [Reactor.convergenceBusy] using h

/-- A transaction that is taken out is held by the handler. -/
theorem Shape.taken (h : Shape r) {t : EngineTransaction} (ht : r.engineTransaction = some t) :
    ShapeAt { r with engineTransaction := none } (.holding t) := by
  have hrole := h.role
  have hprobe : (∀ child role, t ≠ .waiting child role) → r.diagProbe = false := by
    intro hno
    by_contra hp
    obtain ⟨child, role, heq⟩ := h.probe (by simpa using hp)
    exact hno child role (Option.some.inj (ht.symm.trans heq))
  have hengine : (∀ plan d, t ≠ .checking plan d) → r.engine = none := by
    intro hno
    by_contra he
    obtain ⟨plan, d, heq⟩ := h.single he t ht
    exact hno plan d heq
  cases t with
  | checking plan d => exact ⟨rfl, hrole, hprobe fun _ _ h => by cases h⟩
  | waiting child role => exact ⟨rfl, hrole, hengine fun _ _ h => by cases h⟩
  | stopping child next k =>
    exact ⟨⟨rfl, hrole, hprobe fun _ _ h => by cases h⟩, hengine fun _ _ h => by cases h⟩

/-- Every step keeps the shape. -/
theorem Act.shape (h : Act fakeipOk P r c r' c') (hs : ShapeAt r c) : ShapeAt r' c' := by
  cases h with
  | aside k => exact hs.aside k
  | cancel => exact Shape.cancelEngineWork hs
  | take ht _ => exact Shape.taken hs ht
  | recheck hd =>
    exact
      { single := fun _ t heq => ⟨_, _, (Option.some.inj heq).symm⟩
        role := hs.role
        probe := fun hp => absurd (hs.probe.symm.trans hp) (by decide) }
  | checkFailed _ _ => exact Bare.congr hs rfl rfl rfl
  | checkCancelled _ => exact Bare.congr hs rfl rfl rfl
  | checked he _ => exact ⟨hs, he⟩
  | switched he _ => exact shape_beginStop _ _ rfl hs.role
  | rewait _ _ _ => exact shape_waitForChild _ _ hs.2.2 hs.2.1
  | waitCancelled _ => exact shape_beginStop _ _ hs.2.2 hs.2.1
  | waitFailed _ _ _ => exact shape_beginStop _ _ hs.2.2 hs.2.1
  | candidateExit h =>
    obtain ⟨host, rfl⟩ := h.eq
    exact ⟨⟨hs.1, hs.2.1, rfl⟩, hs.2.2⟩
  | recoveryExit h _ =>
    obtain ⟨host, rfl⟩ := h.eq
    exact ⟨hs.1, hs.2.1, rfl⟩
  | promote _ => exact ⟨by simp, hs.1, by simp, rfl⟩
  | restop _ _ _ _ =>
    exact
      { single := fun hne => absurd hs.2 hne
        role := hs.1.role
        probe := fun hp => absurd (hs.1.probe.symm.trans hp) (by decide) }
  | stopped h _ =>
    obtain ⟨host, rfl⟩ := h.eq
    exact ⟨hs.1.congr rfl rfl rfl, hs.2⟩
  | stopOvertaken h _ =>
    obtain ⟨host, rfl⟩ := h.eq
    exact hs.1.congr rfl rfl rfl
  | stopRecovers h =>
    obtain ⟨host, rfl⟩ := h.eq
    exact ⟨hs.1.congr rfl rfl rfl, hs.2⟩
  | stopEnds h =>
    obtain ⟨host, rfl⟩ := h.eq
    exact hs.1.congr rfl rfl rfl
  | stopCancelled h =>
    obtain ⟨host, rfl⟩ := h.eq
    exact hs.1.congr rfl rfl rfl
  | kept _ => exact Bare.shape ⟨rfl, hs.1.role, hs.1.probe⟩
  | spawnFailed _ => exact hs
  | spawned _ => exact shape_waitForChild _ _ hs.2 hs.1.role
  | spawnedUnwatched _ _ => exact shape_beginStop _ _ hs.2 hs.1.role
  | failCancelled _ => exact hs.1.congr rfl rfl rfl
  | failCold _ => exact hs.1.congr rfl rfl rfl
  | failLost _ _ => exact hs.1.congr rfl rfl rfl
  | recovered _ _ => exact shape_waitForChild _ _ hs.2 hs.1.role
  | recoveredUnwatched _ _ _ => exact shape_beginStop _ _ hs.2 hs.1.role
  | err _ => exact Bare.shape ⟨rfl, hs.role, hs.probe⟩
  | cancelStops _ _ => exact shape_beginStop _ _ rfl hs.role
  | cancelEnds _ _ => exact Bare.shape ⟨rfl, hs.role, rfl⟩
  | resume w => exact shape_resumeQueued hs w
  | commitCandidate _ ht _ _ _ => exact Bare.shape ⟨ht, rfl, hs.2.2.2⟩
  | commitRefused _ _ _ _ _ _ => exact shape_beginStop _ _ rfl rfl
  | commitRecovery _ ht _ => exact Bare.shape ⟨ht, rfl, hs.2.2.2⟩
  | roleFailed _ _ _ _ => exact shape_beginStop _ _ rfl rfl
  | recommit _ ht =>
    have hb := Shape.bare hs ht
    exact Bare.shape ⟨ht, rfl, hb.probe⟩
  | exitEngine _ h =>
    obtain ⟨host, rfl⟩ := h.eq
    have hs' : Shape r := hs
    exact ⟨fun hne => absurd rfl hne, hs'.role, hs'.probe⟩
  | policy _ _ _ _ => exact Shape.congr hs rfl rfl rfl rfl
  | generation _ _ _ _ _ hbusy =>
    have hb := Shape.bare hs (idle_of_not_busy hbusy).1
    exact
      { single := fun _ t heq => ⟨_, _, (Option.some.inj heq).symm⟩
        role := hb.role
        probe := fun hp => absurd (hb.probe.symm.trans hp) (by decide) }
  | generationFailed hbusy => exact (Shape.bare hs (idle_of_not_busy hbusy).1).congr rfl rfl rfl
  | settle _ _ _ => exact Shape.congr hs rfl rfl rfl rfl
  | feed _ => exact Shape.congr hs rfl rfl rfl rfl
  | discardedResult _ => exact Shape.congr hs rfl rfl rfl rfl
  | emptyResult _ => exact Shape.congr hs rfl rfl rfl rfl
  | acceptedResult _ _ => exact Shape.congr hs rfl rfl rfl rfl

/-- Acts that begin and end idle keep the shape. -/
theorem Acts.shape (h : Acts fakeipOk P r .idle r' .idle) (hs : Shape r) : Shape r' :=
  h.inv (I := ShapeAt) Act.shape hs

end

end FluxRs.Daemon
