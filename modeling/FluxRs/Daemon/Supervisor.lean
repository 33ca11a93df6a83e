import Mathlib.Data.List.Basic
import FluxRs.Lib.Run

/-!
# FluxRs.Daemon.Supervisor — the process that restarts the reactor

`crates/fluxd/src/supervisor.rs`.  A step is the return of one system call: a spawn, a signal, or the end of a timed
wait, each with the answers of the calls that follow it at once.  Times are nanoseconds of the monotonic clock; a
deadline that the clock cannot represent and the log lines are left out.
-/

namespace FluxRs.Supervisor

open FluxRs.Lib

/-- Clocks are in nanoseconds. -/
def SECOND : ℕ := 1000000000

/-- Another daemon holds the lock. -/
def LOCK_HELD_EXIT_CODE : ℕ := 3

/-- In seconds. -/
def BACKOFF_STEPS : List ℕ := [1, 2, 4, 8, 30]

/-- After so long a run the crashes before it do not count. -/
def BACKOFF_RESET_AFTER : ℕ := 60 * SECOND

/-- What the reactor has for its end before it is killed. -/
def STOP_GRACE : ℕ := 10 * SECOND

/-- `usize::MAX`. -/
def usizeMax : ℕ := 18446744073709551615

/-- How a reactor process has ended. -/
inductive ReactorOutcome where
  | exited (code : ℕ)
  | signaled (signal : ℕ)
  deriving DecidableEq

/-- The exit code that the supervisor passes on. -/
def ReactorOutcome.conservativeExitCode : ReactorOutcome → ℕ
  | .exited code => code
  | .signaled _ => 1

/-- What the supervisor makes of an outcome. -/
inductive Decision where
  | exit (code : ℕ)
  | doNotRestart (code : ℕ)
  | restart (after nextCrashCount : ℕ)
  deriving DecidableEq

/-- `BACKOFF_STEPS[crash_count.min(BACKOFF_STEPS.len() - 1)]`. -/
def backoffStep (crashCount : ℕ) : ℕ := SECOND * BACKOFF_STEPS.getD (min crashCount 4) 0

/-- `decide_reactor_outcome`: a stop or a held lock ends the supervisor, and a crash is followed by a delay. -/
def decideReactorOutcome (outcome : ReactorOutcome) (stopping : Bool) (ranFor crashCount : ℕ) : Decision :=
  if stopping then .doNotRestart outcome.conservativeExitCode
  else if outcome = .exited 0 then .exit 0
  else if outcome = .exited LOCK_HELD_EXIT_CODE then .doNotRestart LOCK_HELD_EXIT_CODE
  else
    let crashCount := if BACKOFF_RESET_AFTER ≤ ranFor then 0 else crashCount
    .restart (backoffStep crashCount) (min (crashCount + 1) usizeMax)

/-! ### The loop -/

/-- What `try_reap` and `decode_wait_status` make of the child. -/
inductive Reaped where
  | ended (outcome : ReactorOutcome)
  | running
  /-- `waitpid` failed, or the wait status is unsupported. -/
  | failed
  deriving DecidableEq

/-- What the supervisor waits for. -/
inductive Event where
  | spawned
  | spawnFailed
  /-- `SIGCHLD`, with what the child is found to be. -/
  | child (reaped : Reaped)
  /-- `SIGTERM` or `SIGINT`. -/
  | stop
  /-- `SIGHUP`, or a signal that is not expected. -/
  | other
  /-- The timed wait ended: the child as it is found, whether `SIGKILL` was sent or the child was gone, and the child
  after that. -/
  | timeout (reaped : Reaped) (killed : Bool) (final : Reaped)
  | waitFailed
  deriving DecidableEq

/-- An event with the time at which it is taken. -/
structure Tick where
  now : ℕ
  event : Event

/-- Where the loop of the supervisor stands. -/
inductive Phase where
  | starting
  /-- The reactor runs since `startedAt`; a deadline stands once a stop was asked for. -/
  | watching (startedAt : ℕ) (stopDeadline : Option ℕ)
  | backoff (deadline : ℕ)
  | done (code : ℕ)
  deriving DecidableEq

/-- A reactor that has ended, or a spawn that failed. -/
structure Attempt where
  start : ℕ
  stop : ℕ
  deriving DecidableEq

/-- The supervisor with the log of its attempts. -/
structure State where
  now : ℕ
  phase : Phase
  crashCount : ℕ
  /-- The attempts that have ended or were left alone, the last one first. -/
  past : List Attempt
  deriving DecidableEq

/-- No reactor has been started. -/
def State.initial (now : ℕ) : State := ⟨now, .starting, 0, []⟩

/-- The reactor is reaped, and the outcome decided. -/
def State.settle (s : State) (now start : ℕ) (outcome : ReactorOutcome) (stopping : Bool) : State :=
  let past := ⟨start, now⟩ :: s.past
  match decideReactorOutcome outcome stopping (now - start) s.crashCount with
  | .exit code => { s with now, past, phase := .done code }
  | .doNotRestart code => { s with now, past, phase := .done code }
  | .restart after next => ⟨now, .backoff (now + after), next, past⟩

/-- The supervisor gives up, and leaves a reactor that may be running. -/
def State.giveUp (s : State) (now start : ℕ) : State :=
  { s with now, past := ⟨start, now⟩ :: s.past, phase := .done 1 }

/-- `force_stop`. -/
def State.forceStop (s : State) (now start : ℕ) (killed : Bool) : Reaped → Reaped → State
  | .ended outcome, _ => s.settle now start outcome true
  | .failed, _ => s.giveUp now start
  | .running, final =>
    match killed, final with
    | true, .ended outcome => s.settle now start outcome true
    | _, _ => s.giveUp now start

/-- An event while the reactor runs. -/
def State.watch (s : State) (now startedAt : ℕ) (stopDeadline : Option ℕ) : Event → Option State
  | .child (.ended outcome) => some (s.settle now startedAt outcome stopDeadline.isSome)
  | .child .running => some { s with now }
  | .child .failed => some (s.giveUp now startedAt)
  | .stop => some { s with now, phase := .watching startedAt (some (stopDeadline.getD (now + STOP_GRACE))) }
  | .other => some { s with now }
  | .timeout reaped killed final =>
    stopDeadline.bind fun deadline =>
      if deadline ≤ now then some (s.forceStop now startedAt killed reaped final) else none
  | .waitFailed => some (s.giveUp now startedAt)
  | .spawned => none
  | .spawnFailed => none

/-- `wait_backoff`. -/
def State.waitBackoff (s : State) (now deadline : ℕ) : Event → Option State
  | .timeout _ _ _ => if deadline ≤ now then some { s with now, phase := .starting } else none
  | .stop => some { s with now, phase := .done 0 }
  | .child _ => some { s with now }
  | .other => some { s with now }
  | .waitFailed => some { s with now, phase := .done 1 }
  | .spawned => none
  | .spawnFailed => none

/-- One event; none is one that cannot come where the loop stands. -/
def step (s : State) (t : Tick) : Option State :=
  if t.now < s.now then none
  else
    match s.phase with
    | .starting =>
      match t.event with
      | .spawned => some { s with now := t.now, phase := .watching t.now none }
      | .spawnFailed => some (s.settle t.now t.now (.exited 1) false)
      | _ => none
    | .watching startedAt stopDeadline => s.watch t.now startedAt stopDeadline t.event
    | .backoff deadline => s.waitBackoff t.now deadline t.event
    | .done _ => none

/-- All attempts, the one that runs included. -/
def State.attempts (s : State) : List Attempt :=
  match s.phase with
  | .watching startedAt _ => ⟨startedAt, s.now⟩ :: s.past
  | _ => s.past

/-! ### What a step can do -/

/-- A forced stop settles with an outcome, or gives up on a child that cannot be reaped. -/
theorem forceStop_cases (s : State) (now start : ℕ) (killed : Bool) (reaped final : Reaped) :
    (∃ outcome, s.forceStop now start killed reaped final = s.settle now start outcome true) ∨
      s.forceStop now start killed reaped final = s.giveUp now start := by
  cases reaped with
  | ended outcome => exact .inl ⟨outcome, rfl⟩
  | failed => exact .inr rfl
  | running =>
    cases killed with
    | false => exact .inr rfl
    | true =>
      cases final with
      | ended outcome => exact .inl ⟨outcome, rfl⟩
      | running => exact .inr rfl
      | failed => exact .inr rfl

/-- A watched reactor goes on, is told to stop, ends, or is left. -/
theorem watch_cases {s s' : State} {now startedAt : ℕ} {stopDeadline : Option ℕ} {event : Event}
    (h : s.watch now startedAt stopDeadline event = some s') :
    s' = { s with now } ∨
      s' = { s with now, phase := .watching startedAt (some (stopDeadline.getD (now + STOP_GRACE))) } ∨
      (∃ outcome stopping, (stopDeadline.isSome = true → stopping = true) ∧
        s' = s.settle now startedAt outcome stopping) ∨
      s' = s.giveUp now startedAt := by
  cases event with
  | spawned => cases h
  | spawnFailed => cases h
  | other => exact .inl (Option.some.inj h).symm
  | stop => exact .inr (.inl (Option.some.inj h).symm)
  | waitFailed => exact .inr (.inr (.inr (Option.some.inj h).symm))
  | child reaped =>
    cases reaped with
    | ended outcome => exact .inr (.inr (.inl ⟨outcome, _, id, (Option.some.inj h).symm⟩))
    | running => exact .inl (Option.some.inj h).symm
    | failed => exact .inr (.inr (.inr (Option.some.inj h).symm))
  | timeout reaped killed final =>
    cases stopDeadline with
    | none => cases h
    | some deadline =>
      have htimeout : (if deadline ≤ now then some (s.forceStop now startedAt killed reaped final) else none) =
        some s' := h
      by_cases hdue : deadline ≤ now
      · rw [if_pos hdue] at htimeout
        rcases forceStop_cases s now startedAt killed reaped final with ⟨outcome, hforce⟩ | hforce
        · exact .inr (.inr (.inl ⟨outcome, true, fun _ => rfl, (Option.some.inj htimeout).symm.trans hforce⟩))
        · exact .inr (.inr (.inr ((Option.some.inj htimeout).symm.trans hforce)))
      · rw [if_neg hdue] at htimeout
        cases htimeout

/-- A wait goes on, ends in a start, or is ended by a stop. -/
theorem waitBackoff_cases {s s' : State} {now deadline : ℕ} {event : Event}
    (h : s.waitBackoff now deadline event = some s') :
    s' = { s with now } ∨ (deadline ≤ now ∧ s' = { s with now, phase := .starting }) ∨
      ∃ code, s' = { s with now, phase := .done code } := by
  cases event with
  | spawned => cases h
  | spawnFailed => cases h
  | child reaped => exact .inl (Option.some.inj h).symm
  | other => exact .inl (Option.some.inj h).symm
  | stop => exact .inr (.inr ⟨0, (Option.some.inj h).symm⟩)
  | waitFailed => exact .inr (.inr ⟨1, (Option.some.inj h).symm⟩)
  | timeout reaped killed final =>
    by_cases hdue : deadline ≤ now
    · rw [State.waitBackoff, if_pos hdue] at h
      exact .inr (.inl ⟨hdue, (Option.some.inj h).symm⟩)
    · rw [State.waitBackoff, if_neg hdue] at h
      cases h

/-- The clock does not go back, and the phase says what comes next. -/
theorem step_cases {s s' : State} {t : Tick} (h : step s t = some s') :
    s.now ≤ t.now ∧
      ((s.phase = .starting ∧ (s' = { s with now := t.now, phase := .watching t.now none } ∨
          s' = s.settle t.now t.now (.exited 1) false)) ∨
        (∃ startedAt stopDeadline, s.phase = .watching startedAt stopDeadline ∧
          s.watch t.now startedAt stopDeadline t.event = some s') ∨
        ∃ deadline, s.phase = .backoff deadline ∧ s.waitBackoff t.now deadline t.event = some s') := by
  unfold step at h
  by_cases hback : t.now < s.now
  · rw [if_pos hback] at h
    cases h
  · rw [if_neg hback] at h
    refine ⟨Nat.not_lt.mp hback, ?_⟩
    cases hphase : s.phase with
    | done code =>
      rw [hphase] at h
      cases h
    | watching startedAt stopDeadline =>
      rw [hphase] at h
      exact .inr (.inl ⟨startedAt, stopDeadline, rfl, h⟩)
    | backoff deadline =>
      rw [hphase] at h
      exact .inr (.inr ⟨deadline, rfl, h⟩)
    | starting =>
      rw [hphase] at h
      cases hevent : t.event with
      | spawned =>
        rw [hevent] at h
        exact .inl ⟨rfl, .inl (Option.some.inj h).symm⟩
      | spawnFailed =>
        rw [hevent] at h
        exact .inl ⟨rfl, .inr (Option.some.inj h).symm⟩
      | child reaped => rw [hevent] at h; cases h
      | stop => rw [hevent] at h; cases h
      | other => rw [hevent] at h; cases h
      | timeout reaped killed final => rw [hevent] at h; cases h
      | waitFailed => rw [hevent] at h; cases h

/-! ### The schedule -/

/-- The reactor ended before it counts as stable. -/
def Attempt.Quick (a : Attempt) : Prop := a.stop - a.start < BACKOFF_RESET_AFTER

instance (a : Attempt) : Decidable a.Quick := inferInstanceAs (Decidable (_ < _))

/-- How many attempts have ended quickly since the last stable one, or since the first. -/
def crashes (past : List Attempt) : ℕ := (past.dropLast.takeWhile (decide ·.Quick)).length

/-- The wait that the schedule prescribes after these attempts. -/
def delayAfter (past : List Attempt) : ℕ := SECOND * BACKOFF_STEPS.getD (min (crashes past) 4) 0

/-- Each attempt starts after the prescribed wait. -/
def Spaced : List Attempt → Prop
  | [] => True
  | b :: past => (∀ a, past.head? = some a → a.stop + delayAfter past ≤ b.start) ∧ Spaced past

theorem crashes_cons (a : Attempt) (past : List Attempt) :
    crashes (a :: past) = if past = [] then 0 else if a.Quick then crashes past + 1 else 0 := by
  cases past with
  | nil => rfl
  | cons b past =>
    rw [if_neg (List.cons_ne_nil b past), crashes, List.dropLast_cons_cons]
    by_cases ha : a.Quick
    · have htake : decide a.Quick = true := decide_eq_true ha
      simp only [if_pos ha, List.takeWhile_cons, htake, if_true, List.length_cons, crashes]
    · have htake : decide a.Quick = false := decide_eq_false ha
      simp only [if_neg ha, List.takeWhile_cons, htake, Bool.false_eq_true, if_false, List.length_nil]

/-- The counter says what the schedule needs of the past. -/
def Counts (crashCount : ℕ) (past : List Attempt) : Prop :=
  min crashCount 4 = min (if past = [] then 0 else crashes past + 1) 4

/-- The phase fits the schedule of the past. -/
def State.OnTime (s : State) : Prop :=
  match s.phase with
  | .starting => Counts s.crashCount s.past ∧ ∀ a, s.past.head? = some a → a.stop + delayAfter s.past ≤ s.now
  | .watching startedAt _ =>
    Counts s.crashCount s.past ∧ ∀ a, s.past.head? = some a → a.stop + delayAfter s.past ≤ startedAt
  | .backoff deadline =>
    Counts s.crashCount s.past ∧ ∀ a, s.past.head? = some a → a.stop + delayAfter s.past ≤ deadline
  | .done _ => True

/-- What every step preserves. -/
structure State.Sound (s : State) : Prop where
  spaced : Spaced s.past
  onTime : s.OnTime

theorem sound_initial (now : ℕ) : (State.initial now).Sound :=
  ⟨trivial, rfl, fun _ h => by cases h⟩

/-- An attempt that ends adds to a past that is on time. -/
theorem State.Sound.settle {s : State} {now start : ℕ} {outcome : ReactorOutcome} {stopping : Bool}
    (hspaced : Spaced s.past) (hcounts : Counts s.crashCount s.past)
    (hstart : ∀ a, s.past.head? = some a → a.stop + delayAfter s.past ≤ start) :
    (s.settle now start outcome stopping).Sound := by
  have hpast : Spaced (⟨start, now⟩ :: s.past) := ⟨hstart, hspaced⟩
  unfold State.settle decideReactorOutcome
  by_cases hstop : stopping = true
  · rw [if_pos hstop]
    exact ⟨hpast, trivial⟩
  · rw [if_neg hstop]
    by_cases hclean : outcome = .exited 0
    · rw [if_pos hclean]
      exact ⟨hpast, trivial⟩
    · rw [if_neg hclean]
      by_cases hlock : outcome = .exited LOCK_HELD_EXIT_CODE
      · rw [if_pos hlock]
        exact ⟨hpast, trivial⟩
      · rw [if_neg hlock]
        -- the count that chooses the wait is the number of quick attempts, as far as the table goes
        have hindex : min (if BACKOFF_RESET_AFTER ≤ now - start then 0 else s.crashCount) 4 =
            min (crashes (⟨start, now⟩ :: s.past)) 4 := by
          rw [crashes_cons]
          unfold Counts at hcounts
          by_cases hlong : BACKOFF_RESET_AFTER ≤ now - start
          · have hquick : ¬(⟨start, now⟩ : Attempt).Quick := Nat.not_lt.mpr hlong
            rw [if_pos hlong, if_neg hquick, ite_self]
          · have hquick : (⟨start, now⟩ : Attempt).Quick := Nat.not_le.mp hlong
            rw [if_neg hlong, if_pos hquick]
            exact hcounts
        refine ⟨hpast, ?_, ?_⟩
        · show Counts (min ((if BACKOFF_RESET_AFTER ≤ now - start then 0 else s.crashCount) + 1) usizeMax)
            (⟨start, now⟩ :: s.past)
          unfold Counts usizeMax
          rw [if_neg (List.cons_ne_nil _ _)]
          omega
        · intro a ha
          obtain rfl := Option.some.inj ha
          have hdelay : delayAfter (⟨start, now⟩ :: s.past) =
              backoffStep (if BACKOFF_RESET_AFTER ≤ now - start then 0 else s.crashCount) := by
            rw [delayAfter, backoffStep, hindex]
          exact Nat.add_le_add_left (Nat.le_of_eq hdelay) now

theorem State.Sound.giveUp {s : State} {now start : ℕ} (hspaced : Spaced s.past)
    (hstart : ∀ a, s.past.head? = some a → a.stop + delayAfter s.past ≤ start) : (s.giveUp now start).Sound :=
  ⟨⟨hstart, hspaced⟩, trivial⟩

/-- Where the supervisor watches, its child was started behind the delay. -/
theorem onTime_watching {s : State} {startedAt : ℕ} {stopDeadline : Option ℕ} (hs : s.OnTime)
    (hphase : s.phase = .watching startedAt stopDeadline) :
    Counts s.crashCount s.past ∧ ∀ a, s.past.head? = some a → a.stop + delayAfter s.past ≤ startedAt := by
  unfold State.OnTime at hs
  rw [hphase] at hs
  exact hs

/-- Where it waits, the deadline lies behind the delay. -/
theorem onTime_backoff {s : State} {deadline : ℕ} (hs : s.OnTime) (hphase : s.phase = .backoff deadline) :
    Counts s.crashCount s.past ∧ ∀ a, s.past.head? = some a → a.stop + delayAfter s.past ≤ deadline := by
  unfold State.OnTime at hs
  rw [hphase] at hs
  exact hs

theorem onTime_starting {s : State} (hs : s.OnTime) (hphase : s.phase = .starting) :
    Counts s.crashCount s.past ∧ ∀ a, s.past.head? = some a → a.stop + delayAfter s.past ≤ s.now := by
  unfold State.OnTime at hs
  rw [hphase] at hs
  exact hs

/-- The step lemma. -/
theorem sound_step {s s' : State} {t : Tick} (hs : s.Sound) (h : step s t = some s') : s'.Sound := by
  obtain ⟨hspaced, honTime⟩ := hs
  obtain ⟨hnow, hcases⟩ := step_cases h
  rcases hcases with ⟨hphase, hstart⟩ | ⟨startedAt, stopDeadline, hphase, hwatch⟩ | ⟨deadline, hphase, hwait⟩
  · obtain ⟨hcounts, hlast⟩ := onTime_starting honTime hphase
    have hlater : ∀ a, s.past.head? = some a → a.stop + delayAfter s.past ≤ t.now := fun a ha =>
      Nat.le_trans (hlast a ha) hnow
    rcases hstart with rfl | rfl
    · exact ⟨hspaced, hcounts, hlater⟩
    · exact State.Sound.settle hspaced hcounts hlater
  · obtain ⟨hcounts, hstart⟩ := onTime_watching honTime hphase
    rcases watch_cases hwatch with rfl | rfl | ⟨outcome, stopping, -, rfl⟩ | rfl
    · refine ⟨hspaced, ?_⟩
      unfold State.OnTime
      rw [hphase]
      exact ⟨hcounts, hstart⟩
    · exact ⟨hspaced, hcounts, hstart⟩
    · exact State.Sound.settle hspaced hcounts hstart
    · exact State.Sound.giveUp hspaced hstart
  · obtain ⟨hcounts, hstart⟩ := onTime_backoff honTime hphase
    rcases waitBackoff_cases hwait with rfl | ⟨hdue, rfl⟩ | ⟨code, rfl⟩
    · refine ⟨hspaced, ?_⟩
      unfold State.OnTime
      rw [hphase]
      exact ⟨hcounts, hstart⟩
    · exact ⟨hspaced, hcounts, fun a ha => Nat.le_trans (hstart a ha) hdue⟩
    · exact ⟨hspaced, trivial⟩

/-- The run lemma. -/
theorem sound_run {now : ℕ} {ticks : List Tick} {s : State}
    (h : runOption step (State.initial now) ticks = some s) : s.Sound :=
  @runOption_inv _ _ step State.Sound (fun _ _ => True) (fun _ _ _ hs _ hstep => sound_step hs hstep) _ _ ticks
    (sound_initial now) (allStepsOption_of_mem fun _ _ => trivial) h

theorem Spaced.at {b : Attempt} {past : List Attempt} : ∀ {later : List Attempt},
    Spaced (later ++ b :: past) → ∀ a, past.head? = some a → a.stop + delayAfter past ≤ b.start
  | [], h => h.1
  | _ :: later, h => @Spaced.at b past later h.2

/-- **The restarts keep the schedule.**  In every run, whatever signals and failures come, an attempt starts no
sooner after the one before it than the schedule says for the crashes up to then. -/
theorem restarts_are_spaced {now : ℕ} {ticks : List Tick} {s : State} {later past : List Attempt} {a b : Attempt}
    (h : runOption step (State.initial now) ticks = some s) (hlist : s.attempts = later ++ b :: a :: past) :
    a.stop + delayAfter (a :: past) ≤ b.start := by
  have hsound := sound_run h
  have hspaced : Spaced s.attempts := by
    unfold State.attempts
    cases hphase : s.phase with
    | watching startedAt stopDeadline => exact ⟨(onTime_watching hsound.onTime hphase).2, hsound.spaced⟩
    | starting => exact hsound.spaced
    | backoff deadline => exact hsound.spaced
    | done code => exact hsound.spaced
  rw [hlist] at hspaced
  exact Spaced.at hspaced a rfl

theorem restarts_are_spaced_twice : 0 + delayAfter [⟨0, 0⟩] ≤ SECOND + 7 := by
  have hrun : runOption step (State.initial 0) [⟨0, .spawned⟩, ⟨0, .child (.ended (.signaled 9))⟩,
      ⟨SECOND, .timeout .running false .running⟩, ⟨SECOND + 7, .spawned⟩] =
        some ⟨SECOND + 7, .watching (SECOND + 7) none, 1, [⟨0, 0⟩]⟩ := by decide
  exact @restarts_are_spaced _ _ _ [] [] ⟨0, 0⟩ ⟨SECOND + 7, SECOND + 7⟩ hrun rfl

/-! ### Stopping -/

/-- The starts of all attempts. -/
def State.starts (s : State) : List ℕ := s.attempts.map Attempt.start

/-- The supervisor is stopping, and waits for the reactor no longer than the limit. -/
def State.StopsBy (limit : ℕ) (s : State) : Prop :=
  (∃ code, s.phase = .done code) ∨ ∃ startedAt deadline, s.phase = .watching startedAt (some deadline) ∧ deadline ≤ limit

/-- A stop deadline is never further away than the grace. -/
def State.Graced (s : State) : Prop :=
  ∀ startedAt deadline, s.phase = .watching startedAt (some deadline) → deadline ≤ s.now + STOP_GRACE

theorem starts_watching {s : State} {startedAt : ℕ} {stopDeadline : Option ℕ}
    (h : s.phase = .watching startedAt stopDeadline) : s.starts = startedAt :: s.past.map Attempt.start := by
  unfold State.starts State.attempts
  rw [h]
  rfl

/-- A supervisor that stops starts nothing, and its limit stands. -/
theorem stopsBy_step {s s' : State} {t : Tick} {limit : ℕ} (hs : s.StopsBy limit) (h : step s t = some s') :
    s'.StopsBy limit ∧ s'.starts = s.starts := by
  obtain ⟨-, hcases⟩ := step_cases h
  rcases hs with ⟨code, hdone⟩ | ⟨startedAt, deadline, hwatching, hlimit⟩
  · rw [hdone] at hcases
    rcases hcases with ⟨hphase, -⟩ | ⟨_, _, hphase, -⟩ | ⟨_, hphase, -⟩ <;> cases hphase
  · rw [starts_watching hwatching]
    rw [hwatching] at hcases
    rcases hcases with ⟨hphase, -⟩ | ⟨startedAt', stopDeadline, hphase, hwatch⟩ | ⟨_, hphase, -⟩
    · cases hphase
    · obtain ⟨rfl, rfl⟩ := Phase.watching.inj hphase
      rcases watch_cases hwatch with rfl | rfl | ⟨outcome, stopping, hstopping, rfl⟩ | rfl
      · exact ⟨.inr ⟨startedAt, deadline, hwatching, hlimit⟩, starts_watching hwatching⟩
      · exact ⟨.inr ⟨startedAt, deadline, rfl, hlimit⟩, rfl⟩
      · rw [hstopping rfl]
        exact ⟨.inl ⟨_, rfl⟩, rfl⟩
      · exact ⟨.inl ⟨1, rfl⟩, rfl⟩
    · cases hphase

/-- After a stop nothing is started, and the deadline stays. -/
theorem stopsBy_run {limit : ℕ} {ticks : List Tick} {s s' : State} (hs : s.StopsBy limit)
    (h : runOption step s ticks = some s') : s'.StopsBy limit ∧ s'.starts = s.starts :=
  @runOption_inv _ _ step (fun x => x.StopsBy limit ∧ x.starts = s.starts) (fun _ _ => True)
    (fun _ _ _ hx _ hstep => ⟨(stopsBy_step hx.1 hstep).1, (stopsBy_step hx.1 hstep).2.trans hx.2⟩) _ _ ticks
    ⟨hs, rfl⟩ (allStepsOption_of_mem fun _ _ => trivial) h

/-- A settled attempt is the last, or waits for its backoff. -/
theorem settle_phase (s : State) (now start : ℕ) (outcome : ReactorOutcome) (stopping : Bool) :
    (∃ code, (s.settle now start outcome stopping).phase = .done code) ∨
      ∃ deadline, (s.settle now start outcome stopping).phase = .backoff deadline := by
  unfold State.settle
  split
  · exact .inl ⟨_, rfl⟩
  · exact .inl ⟨_, rfl⟩
  · exact .inr ⟨_, rfl⟩

theorem graced_settle {s : State} {now start : ℕ} {outcome : ReactorOutcome} {stopping : Bool} :
    (s.settle now start outcome stopping).Graced := by
  intro startedAt deadline hwatching
  rcases settle_phase s now start outcome stopping with ⟨code, hphase⟩ | ⟨deadline', hphase⟩
  · rw [hphase] at hwatching
    cases hwatching
  · rw [hphase] at hwatching
    cases hwatching

theorem graced_step {s s' : State} {t : Tick} (hs : s.Graced) (h : step s t = some s') : s'.Graced := by
  obtain ⟨hnow, hcases⟩ := step_cases h
  have hsame : ({ s with now := t.now } : State).Graced := fun startedAt deadline hphase =>
    Nat.le_trans (hs startedAt deadline hphase) (Nat.add_le_add_right hnow _)
  rcases hcases with ⟨-, hstart⟩ | ⟨startedAt, stopDeadline, hphase, hwatch⟩ | ⟨deadline, hphase, hwait⟩
  · rcases hstart with rfl | rfl
    · intro _ _ hwatching
      cases hwatching
    · exact graced_settle
  · rcases watch_cases hwatch with rfl | rfl | ⟨outcome, stopping, -, rfl⟩ | rfl
    · exact hsame
    · intro startedAt' deadline hwatching
      obtain ⟨-, hdeadline⟩ := Phase.watching.inj hwatching
      cases stopDeadline with
      | none =>
        rw [Option.getD_none] at hdeadline
        exact Nat.le_of_eq (Option.some.inj hdeadline).symm
      | some d =>
        rw [Option.getD_some] at hdeadline
        rw [← Option.some.inj hdeadline]
        exact hsame startedAt d hphase
    · exact graced_settle
    · intro _ _ hwatching
      cases hwatching
  · rcases waitBackoff_cases hwait with rfl | ⟨-, rfl⟩ | ⟨code, rfl⟩
    · exact hsame
    · intro _ _ hwatching
      cases hwatching
    · intro _ _ hwatching
      cases hwatching

theorem graced_run {now : ℕ} {ticks : List Tick} {s : State}
    (h : runOption step (State.initial now) ticks = some s) : s.Graced :=
  @runOption_inv _ _ step State.Graced (fun _ _ => True) (fun _ _ _ hs _ hstep => graced_step hs hstep) _ _ ticks
    (fun _ _ hphase => by cases hphase) (allStepsOption_of_mem fun _ _ => trivial) h

/-- A stop that is taken puts the supervisor under a limit. -/
theorem stopsBy_stop {s s' : State} {now : ℕ} (hs : s.Graced) (h : step s ⟨now, .stop⟩ = some s') :
    s'.StopsBy (now + STOP_GRACE) ∧ s'.starts = s.starts := by
  have hgraced := graced_step hs h
  unfold step at h
  by_cases hback : now < s.now
  · rw [if_pos hback] at h
    cases h
  · rw [if_neg hback] at h
    cases hphase : s.phase with
    | starting =>
      rw [hphase] at h
      cases h
    | done code =>
      rw [hphase] at h
      cases h
    | backoff deadline =>
      rw [hphase] at h
      obtain rfl := Option.some.inj h
      refine ⟨.inl ⟨0, rfl⟩, ?_⟩
      unfold State.starts State.attempts
      rw [hphase]
    | watching startedAt stopDeadline =>
      rw [hphase] at h
      obtain rfl := Option.some.inj h
      exact ⟨.inr ⟨startedAt, _, rfl, hgraced startedAt _ rfl⟩, (starts_watching hphase) ▸ rfl⟩

/-- From the deadline on, the next wait ends the supervisor. -/
theorem step_timeout {s : State} {startedAt deadline t : ℕ} {reaped final : Reaped} {killed : Bool}
    (hphase : s.phase = .watching startedAt (some deadline)) (hdue : deadline ≤ t) (hnow : s.now ≤ t) :
    step s ⟨t, .timeout reaped killed final⟩ = some (s.forceStop t startedAt killed reaped final) := by
  unfold step
  rw [if_neg (Nat.not_lt.mpr hnow), hphase]
  show (if deadline ≤ t then some (s.forceStop t startedAt killed reaped final) else none) = _
  rw [if_pos hdue]

/-- **A stop is final.**  Once `SIGTERM` or `SIGINT` was taken, while the reactor runs or between two of them, nothing
is started any more, and from the end of the grace on the next wait ends the supervisor. -/
theorem stop_is_final {now at' : ℕ} {before after : List Tick} {s s' s'' : State}
    (hbefore : runOption step (State.initial now) before = some s) (hstop : step s ⟨at', .stop⟩ = some s')
    (hafter : runOption step s' after = some s'') :
    s''.starts = s.starts ∧ ((∃ code, s''.phase = .done code) ∨
      ∀ t, at' + STOP_GRACE ≤ t → s''.now ≤ t → ∀ reaped killed final, ∃ e code,
        step s'' ⟨t, .timeout reaped killed final⟩ = some e ∧ e.phase = .done code) := by
  obtain ⟨hlimit, hstarts⟩ := stopsBy_stop (graced_run hbefore) hstop
  obtain ⟨hlimit', hstarts'⟩ := stopsBy_run hlimit hafter
  refine ⟨hstarts'.trans hstarts, ?_⟩
  rcases hlimit' with hdone | ⟨startedAt, deadline, hphase, hdeadline⟩
  · exact .inl hdone
  · refine .inr fun t ht hnow reaped killed final => ?_
    have hstep := @step_timeout s'' startedAt deadline t reaped final killed hphase (Nat.le_trans hdeadline ht) hnow
    rcases forceStop_cases s'' t startedAt killed reaped final with ⟨outcome, hforce⟩ | hforce
    · exact ⟨_, _, hstep.trans (congrArg some hforce), rfl⟩
    · exact ⟨_, 1, hstep.trans (congrArg some hforce), rfl⟩

theorem stop_is_final_once : (⟨STOP_GRACE, .done 1, 0, [⟨0, STOP_GRACE⟩]⟩ : State).starts = [0] := by
  have hbefore : runOption step (State.initial 0) [⟨0, .spawned⟩] = some ⟨0, .watching 0 none, 0, []⟩ := by decide
  have hstop : step ⟨0, .watching 0 none, 0, []⟩ ⟨0, .stop⟩ = some ⟨0, .watching 0 (some STOP_GRACE), 0, []⟩ := by
    decide
  have hafter : runOption step ⟨0, .watching 0 (some STOP_GRACE), 0, []⟩
      [⟨STOP_GRACE, .timeout .running true (.ended (.signaled 9))⟩] =
        some ⟨STOP_GRACE, .done 1, 0, [⟨0, STOP_GRACE⟩]⟩ := by decide
  exact (stop_is_final hbefore hstop hafter).1

end FluxRs.Supervisor
