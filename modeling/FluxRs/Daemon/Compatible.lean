import FluxRs.Daemon.Checks
import FluxRs.Daemon.Generations

/-!
# FluxRs.Daemon.Compatible — the installed policy beside the running engine

`converge` compares a new policy with `current_engine_user`, and a new configuration with the policy of the same
convergence.  The two are installed apart: the policy at once, the configuration when its child has come up.
-/

namespace FluxRs.Daemon

open FluxRs.Lib FluxRs.Net FluxRs.Kmod FluxRs.Dataplane

/-! ### The check over candidates -/

section Check

variable (flux : PolicyCandidate → FluxConfig) (json : UserConfig → Json)

/-- `validate_fakeip_bypass` of the `flux.toml` behind a policy and the value behind a serialized
configuration. -/
def fakeipCheck (policy : PolicyCandidate) (user : UserConfig) : Bool :=
  (validateFakeipBypass (flux policy) (json user)).isOk

variable {flux json}

/-- The check of the reactor is the one of the configuration files. -/
theorem fakeipCheck_iff {policy : PolicyCandidate} {user : UserConfig} :
    fakeipCheck flux json policy user = true ↔
      validateFakeipBypass (flux policy) (json user) = .ok () := by
  unfold fakeipCheck
  cases h : validateFakeipBypass (flux policy) (json user) with
  | ok u => simp [Except.isOk, Except.toBool]
  | error message => simp [Except.isOk, Except.toBool]

end Check

/-- The installed policy fits the recorded configuration. -/
def Compatible (fakeipOk : PolicyCandidate → UserConfig → Bool) (r : Reactor) : Prop :=
  ∀ policy user, r.currentPolicy = some policy → r.currentEngineUser = some user →
    fakeipOk policy user = true

/-! ### One step -/

section Step

variable {fakeipOk : PolicyCandidate → UserConfig → Bool} {P : Fault → Prop}
variable {r r' : Reactor} {c c' : Control}

theorem Compatible.congr (h : Compatible fakeipOk r) (hp : r'.currentPolicy = r.currentPolicy)
    (hu : r'.currentEngineUser = r.currentEngineUser) : Compatible fakeipOk r' := by
  intro policy user hpolicy huser
  exact h policy user (hp.symm.trans hpolicy) (hu.symm.trans huser)

theorem kept_cancelEngineWork (r : Reactor) :
    (cancelEngineWork r).currentPolicy = r.currentPolicy ∧
      (cancelEngineWork r).currentEngineUser = r.currentEngineUser := by
  unfold cancelEngineWork
  simp only
  split
  · split
    · exact ⟨rfl, rfl⟩
    · exact ⟨rfl, rfl⟩
  · exact ⟨rfl, rfl⟩
  · exact ⟨rfl, rfl⟩
  · exact ⟨rfl, rfl⟩

/-- A commit outside a candidate's activation records nothing. -/
theorem Compatible.commits {child : EngineChild} (h : Compatible fakeipOk r)
    (hrole : ∀ plan, r.activationRole ≠ some (.candidate plan)) :
    Compatible fakeipOk (committed child r) := by
  refine h.congr rfl ?_
  -- `hrole` leaves the second branch
  unfold committed
  simp only

/-- Every step keeps the policy beside the recorded configuration, if a candidate commits only beside a
policy that it fits. -/
theorem Act.compatible
    (hP : ∀ policy plan, P (.beside policy plan) → fakeipOk policy plan.user = true)
    (h : Act fakeipOk P r c r' c') (hs : ShapeAt r c) (hi : Compatible fakeipOk r) :
    Compatible fakeipOk r' := by
  cases h with
  | aside k => exact hi.congr k.policy k.user
  | cancel =>
    obtain ⟨hp, hu⟩ := kept_cancelEngineWork { r with engineCancelRequested := true }
    exact hi.congr hp hu
  | candidateExit h | recoveryExit h _ | stopped h _ | stopOvertaken h _ | stopRecovers h | stopEnds h
  | stopCancelled h | exitEngine _ h =>
    obtain ⟨host, rfl⟩ := h.eq
    exact hi
  | resume w =>
    obtain ⟨changed, s, heq, -⟩ := resumeQueued_eq w r
    rw [heq]
    exact hi
  | commitCandidate _ _ hrole _ hbeside =>
    rename_i child plan env _ _ _
    intro policy user hpolicy huser
    have hplan : user = plan.user := by
      simpa [committed, hrole] using huser.symm
    rw [hplan]
    exact hP policy plan (hbeside policy hpolicy)
  | commitRecovery _ _ hrole =>
    refine hi.commits fun plan heq => ?_
    cases hrole.symm.trans heq
  | recommit _ _ =>
    have hs' : Shape r := hs
    refine hi.commits fun plan heq => ?_
    cases hs'.role.symm.trans heq
  | policy policy changed env huser =>
    intro policy' user hpolicy hcurrent
    obtain rfl : policy = policy' := Option.some.inj hpolicy
    exact huser user hcurrent
  | _ => exact hi

end Step

/-! ### Runs -/

section Run

variable (fakeipOk : PolicyCandidate → UserConfig → Bool)

/-- A candidate is promoted only beside a policy that it fits, and a child that survives its stop was
built from the recorded configuration. -/
def PromotesFitting (r : Reactor) (ev : Event) : Prop :=
  (∀ plan ∈ promoted (ev.enter r) ev.kind ev.outside, ∀ policy ∈ r.currentPolicy,
    fakeipOk policy plan.user = true) ∧ SurvivorRecorded r ev

instance (r : Reactor) (ev : Event) : Decidable (PromotesFitting fakeipOk r ev) :=
  inferInstanceAs (Decidable ((∀ plan ∈ promoted (ev.enter r) ev.kind ev.outside, _) ∧ _))

/-- Every fault, but a candidate commits beside a policy that it fits. -/
def Fault.fits : Fault → Prop
  | .beside policy plan => fakeipOk policy plan.user = true
  | _ => True

variable {fakeipOk}
variable {e : Endian} {srt : Sorter} {dataplane : Plane} {badPageSize : Bool} {first : Event}
variable {evs : List Event} {r₀ r : Reactor}

/-- The condition on an event is what the acts ask of the promotion. -/
theorem grants_fits {ev : Event} (h : PromotesFitting fakeipOk r ev) :
    Grants (Fault.fits fakeipOk) (ev.enter r) ev.kind ev.outside where
  beside plan policy hplan hpolicy := h.1 plan hplan policy hpolicy

/-- The run lemma: the policy and the engine fit each other in every state reached. -/
theorem run_compatible (hstart : start e srt fakeipOk dataplane badPageSize first = some r₀)
    (hsteps : AllStepsOption (handle e srt fakeipOk) (PromotesFitting fakeipOk) r₀ evs)
    (hrun : runOption (handle e srt fakeipOk) r₀ evs = some r) : Compatible fakeipOk r :=
  (run_keeps (I := fun r _ => Compatible fakeipOk r) e srt
    (fun hact hs hi => hact.compatible (fun _ _ => id) hs hi) (fun _ _ _ hi => hi.congr rfl rfl)
    (fun _ _ hc _ _ => grants_fits hc) (fun _ _ h => by cases h) hstart hsteps hrun).2

end Run

/-- **The installed policy fits the running engine.**  In every run that promotes a candidate only beside a
policy that it fits, `validate_fakeip_bypass` accepts the installed policy and the configuration that the
running engine was built from. -/
theorem policy_fits_engine {flux : PolicyCandidate → FluxConfig} {json : UserConfig → Json} {e : Endian}
    {srt : Sorter} {dataplane : Plane} {badPageSize : Bool} {first : Event} {evs : List Event}
    {r₀ r : Reactor}
    (hstart : start e srt (fakeipCheck flux json) dataplane badPageSize first = some r₀)
    (hsteps : AllStepsOption (handle e srt (fakeipCheck flux json))
      (PromotesFitting (fakeipCheck flux json)) r₀ evs)
    (hrun : runOption (handle e srt (fakeipCheck flux json)) r₀ evs = some r) :
    r.active = true → r.activationRole = none →
      ∀ policy child user, r.currentPolicy = some policy → r.engine = some child →
        r.host.userOf child.params.generation = some user →
        validateFakeipBypass (flux policy) (json user) = .ok () := by
  intro _ hrole policy child user hpolicy he huser
  obtain ⟨-, h⟩ := run_truthful (A := False) (U := True) hstart
    (hsteps.mono fun _ _ hc => ⟨False.elim, fun _ => hc.2⟩) hrun
  have hrecorded : r.host.userOf child.params.generation = r.currentEngineUser :=
    h.users trivial (child.params.generation, r.currentEngineUser) (by simp [Reactor.records, he, hrole])
  exact fakeipCheck_iff.mp
    (run_compatible hstart hsteps hrun policy user hpolicy (hrecorded.symm.trans huser))

/-! ### The two commits apart -/

/-- `flux.toml` of a policy whose user prefixes are none of the fixed ones. -/
def listedConfig (policy : PolicyCandidate) : FluxConfig where
  appsMode := policy.desired.appsMode
  cidrMode := policy.desired.cidrMode
  bypassV4 := (policy.desired.bypassV4.toList.filter fun entry => entry.2 == .policy).map (·.1.toCidr)
  bypassV6 := (policy.desired.bypassV6.toList.filter fun entry => entry.2 == .policy).map (·.1.toCidr)
  interfacesMode := policy.desired.interfacesMode
  interfaces := policy.desired.interfaces.toList

/-- The policy that is read from a `flux.toml`. -/
def policyOf (flux : FluxConfig) : PolicyCandidate :=
  { desired := readPolicyConfig flux selectedUid, ssidListed := false }

def fakeipRange : Ipv4Cidr := ⟨0xc6120000#32, 15, by decide, by decide⟩

/-- The bypass lists the fakeip range. -/
def bypassingConfig : FluxConfig := { bareConfig .blacklist with bypassV4 := [fakeipRange] }

/-- An engine configuration without a fakeip server. -/
def emptyText : UserConfig := "\x7b\x7d"

/-- An engine configuration whose fakeip range is in use. -/
def fakeipText : UserConfig :=
  "\x7b\"dns\":\x7b\"servers\":[\x7b\"type\":\"fakeip\",\"inet4_range\":\"198.18.0.0/15\"\x7d]\x7d\x7d"

/-- The values of the two texts. -/
def textValue (text : UserConfig) : Json :=
  if text = fakeipText then fakeipServer "198.18.0.0/15" else .obj []

/-- A cold start under a policy and the empty configuration. -/
def bareStart (policy : PolicyCandidate) : Event where
  disabled := false
  kind := .other
  nested := [{ policy := some policy, user := some emptyText }]

/-- Such a start, under the check itself. -/
def checkedStart (policy : PolicyCandidate) : Option Reactor :=
  start .little insertionSorter (fakeipCheck listedConfig textValue) (.open false (.init false)) false
    (bareStart policy)

/-- A run in which the check of the ranges is the real one. -/
def checkedRun (policy : PolicyCandidate) (evs : List Event) : Option Reactor :=
  (checkedStart policy).bind fun r =>
    runOption (handle .little insertionSorter (fakeipCheck listedConfig textValue)) r evs

/-- A started check succeeds, the old child exits and its replacement comes up; `after` is what the
convergence after the commit meets. -/
def replacedEvents (after : List Outside) : List Event :=
  [{ disabled := false, kind := .checkExit, outside := { check := .finished none } },
    { disabled := false, kind := .transactionPidfd, outside := { exited := true } },
    { disabled := false, kind := .engineTimer },
    { disabled := false, kind := .sockDiag, outside := { probe := .ready }, nested := after }]

/-- The configuration is edited, and while its candidate is being checked the policy. -/
def policyOvertakesEvents : List Event :=
  readyEvents ++
  [{ disabled := false, kind := .inotify false false true },
    { disabled := false, kind := .debounce, nested := [{ user := some fakeipText }] },
    { disabled := false, kind := .inotify false true false },
    { disabled := false, kind := .debounce, nested := [{ policy := some (policyOf bypassingConfig) }] }] ++
  replacedEvents []

/-- The address snapshot that `apply_policy` needs fails. -/
def unapplied : Outside :=
  { policy := some (policyOf (bareConfig .blacklist)), user := some fakeipText,
    apply := { snapshot := .error .ENOMEM } }

/-- Both files are edited, and the new policy cannot be applied, at first and on its one retry. -/
def unappliedEvents : List Event :=
  readyEvents ++
  [{ disabled := false, kind := .inotify false true true },
    { disabled := false, kind := .debounce, nested := [unapplied] }] ++
  replacedEvents [unapplied]

/-- Captured traffic, and a policy that overlaps the running configuration. -/
def Overlapping (r : Reactor) : Prop :=
  r.active = true ∧ r.activationRole = none ∧ ∃ policy child user, r.currentPolicy = some policy ∧
    r.engine = some child ∧ r.host.userOf child.params.generation = some user ∧
    validateFakeipBypass (listedConfig policy) (textValue user) ≠ .ok ()

/-- The same, as it is evaluated. -/
def overlapping (r : Reactor) : Bool :=
  r.active && r.activationRole.isNone && r.currentPolicy.any fun policy => r.engine.any fun child =>
    (r.host.userOf child.params.generation).any fun user => !fakeipCheck listedConfig textValue policy user

theorem overlapping_iff {r : Reactor} (h : overlapping r = true) : Overlapping r := by
  simp only [overlapping, Bool.and_eq_true, Option.isNone_iff_eq_none] at h
  obtain ⟨⟨hact, hrole⟩, hany⟩ := h
  obtain ⟨policy, hpolicy, hany⟩ := (Option.any_eq_true _ _).mp hany
  obtain ⟨child, he, hany⟩ := (Option.any_eq_true _ _).mp hany
  obtain ⟨user, huser, hno⟩ := (Option.any_eq_true _ _).mp hany
  refine ⟨hact, hrole, policy, child, user, hpolicy, he, huser, fun hok => ?_⟩
  rw [fakeipCheck_iff.mpr hok] at hno
  cases hno

/-- A policy that is installed beside a candidate overlaps it once it runs, and so does one that stays
because its successor, which the candidate was compared with, cannot be applied. -/
theorem policies_overlap_candidates :
    (∃ r, checkedRun (policyOf (bareConfig .blacklist)) policyOvertakesEvents = some r ∧ Overlapping r) ∧
      ∃ r, checkedRun (policyOf bypassingConfig) unappliedEvents = some r ∧ Overlapping r := by
  have hovertaken : (checkedRun (policyOf (bareConfig .blacklist)) policyOvertakesEvents).any overlapping = true := by
    decide +kernel
  have hunapplied : (checkedRun (policyOf bypassingConfig) unappliedEvents).any overlapping = true := by
    decide +kernel
  obtain ⟨r, hr, h⟩ := (Option.any_eq_true _ _).mp hovertaken
  obtain ⟨r', hr', h'⟩ := (Option.any_eq_true _ _).mp hunapplied
  exact ⟨⟨r, hr, overlapping_iff h⟩, r', hr', overlapping_iff h'⟩

/-- The configuration is edited under a policy that leaves its range alone. -/
def fittingEvents : List Event :=
  readyEvents ++
  [{ disabled := false, kind := .inotify false false true },
    { disabled := false, kind := .debounce, nested := [{ user := some fakeipText }] }] ++
  replacedEvents []

theorem policy_fits_engine_replaced : ∃ r policy child,
    checkedRun (policyOf (bareConfig .blacklist)) fittingEvents = some r ∧ r.active = true ∧
    r.currentPolicy = some policy ∧ r.engine = some child ∧
    r.host.userOf child.params.generation = some fakeipText ∧
    validateFakeipBypass (listedConfig policy) (textValue fakeipText) = .ok () := by
  have hmeets : (checkedStart (policyOf (bareConfig .blacklist))).any (fun r₀ =>
      decide (AllStepsOption (handle .little insertionSorter (fakeipCheck listedConfig textValue))
        (PromotesFitting (fakeipCheck listedConfig textValue)) r₀ fittingEvents) &&
      (runOption (handle .little insertionSorter (fakeipCheck listedConfig textValue)) r₀ fittingEvents).any
        fun r => r.active && r.activationRole.isNone && r.currentPolicy.isSome && r.engine.any fun child =>
          decide (r.host.userOf child.params.generation = some fakeipText)) = true := by
    decide +kernel
  obtain ⟨r₀, hstart, hmeets⟩ := (Option.any_eq_true _ _).mp hmeets
  obtain ⟨hsteps, hend⟩ := Bool.and_eq_true_iff.mp hmeets
  obtain ⟨r, hr, hend⟩ := (Option.any_eq_true _ _).mp hend
  simp only [Bool.and_eq_true, Option.isNone_iff_eq_none] at hend
  obtain ⟨⟨⟨hact, hrole⟩, hsome⟩, hengine⟩ := hend
  obtain ⟨policy, hpolicy⟩ := Option.isSome_iff_exists.mp hsome
  obtain ⟨child, he, huser⟩ := (Option.any_eq_true _ _).mp hengine
  refine ⟨r, policy, child, ?_, hact, hpolicy, he, of_decide_eq_true huser, ?_⟩
  · rw [checkedRun, hstart]
    exact hr
  · exact policy_fits_engine hstart (of_decide_eq_true hsteps) hr hact hrole policy child _ hpolicy he
      (of_decide_eq_true huser)

end FluxRs.Daemon
