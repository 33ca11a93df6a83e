import FluxRs.Daemon.Exchanges

/-!
# FluxRs.Daemon.Deadlines — how long a control connection can stay

The one timer of all control connections never lies behind the deadline of any of them, whichever handler has put it
there.  So if the loop is never more than `slack` late, the age of a connection is bounded.
-/

namespace FluxRs.Control

open FluxRs.Lib

variable {ρ : Type} {s t : Server ρ} {token now slack clock : ℕ} {pending : PendingControl ρ} {conn : Conn}

/-! ### Bounds -/

/-- A connection whose request has work to do: it was read late, and its clock was taken late. -/
def waiting (slack work : ℕ) : ℕ := CONTROL_TIMEOUT + 2 * slack + work

/-- A connection whose answer has to wait for room. -/
def stay (slack work : ℕ) : ℕ := waiting slack work + 2 * slack + CONTROL_TIMEOUT

/-- The deadline lies close behind the time at which the connection was accepted. -/
def PendingControl.Brief (slack : ℕ) (told : List (Effect ρ)) : PendingControl ρ → Prop
  | .reading conn deadline => deadline ≤ conn.since + CONTROL_TIMEOUT
  | .writing conn _ deadline _ =>
    deadline ≤ conn.since + stay slack CONTROL_SUBSCRIBE_TIMEOUT ∧
      (Effect.request .subscribe ∉ told → deadline ≤ conn.since + stay slack CONTROL_CONVERGE_TIMEOUT)
  | .converging conn deadline => deadline ≤ conn.since + waiting slack CONTROL_CONVERGE_TIMEOUT
  | .subscribing conn deadline => deadline ≤ conn.since + waiting slack CONTROL_SUBSCRIBE_TIMEOUT

/-- The timer does not miss a deadline. -/
def Armed (s : Server ρ) : Prop := ∀ c ∈ s.conns, ∃ due, s.timer = some due ∧ due ≤ c.2.deadline

/-- What holds of every connection while an event that was taken at `now` is handled. -/
structure Good (now slack : ℕ) (s : Server ρ) : Prop where
  brief : ∀ c ∈ s.conns, c.2.Brief slack (s.told c.2.conn.id)
  late : ∀ c ∈ s.conns, now ≤ c.2.deadline + slack

/-- What a timely run preserves. -/
structure Timed (slack : ℕ) (s : Server ρ) : Prop where
  brief : ∀ c ∈ s.conns, c.2.Brief slack (s.told c.2.conn.id)
  armed : Armed s

/-- A clock that is read while the event is handled. -/
def Within (now slack clock : ℕ) : Prop := now ≤ clock ∧ clock ≤ now + slack

/-- The clocks that are read while the event is handled are not late. -/
def Event.Within (now slack : ℕ) : Event ρ → Prop
  | .accept peers =>
    ∀ peer ∈ peers, Control.Within now slack peer.clock ∧ Control.Within now slack peer.answers.out.clock
  | .ready _ answers => Control.Within now slack answers.out.clock
  | .timeout clock out => Control.Within now slack clock ∧ ∀ token, Control.Within now slack (out token).clock
  | .complete _ | .converged _ _ _ => True

/-- The loop comes to an event at most `slack` after the timer is due, and reads the clock at most `slack` after. -/
def Timely (slack : ℕ) (s : Server ρ) (ev : ℕ × Event ρ) : Prop :=
  (∀ due, s.timer = some due → ev.1 ≤ due + slack) ∧ ev.2.Within ev.1 slack

/-! ### The table -/

/-- After `rearm_control_timer` the timer is never behind a deadline. -/
theorem armed_rearm (s : Server ρ) : Armed (rearmControlTimer s) := by
  intro c hc
  have hmem : c.2.deadline ∈ s.conns.map fun c => c.2.deadline := List.mem_map.mpr ⟨c, hc, rfl⟩
  obtain ⟨due, hdue⟩ := Option.isSome_iff_exists.mp (List.isSome_min?_of_mem hmem)
  exact ⟨due, hdue, (List.min?_eq_some_iff.mp hdue).2 _ hmem⟩

theorem Good.remove (h : Good now slack s) (token : ℕ) : Good now slack (s.remove token) :=
  ⟨fun c hc => h.brief c (mem_remove.mp hc).1, fun c hc => h.late c (mem_remove.mp hc).1⟩

theorem Good.insert (h : Good now slack s) (hbrief : pending.Brief slack (s.told pending.conn.id))
    (hlate : now ≤ pending.deadline + slack) : Good now slack (s.insert token pending) := by
  constructor
  · intro c hc
    rcases mem_insert.mp hc with rfl | ⟨hc, -⟩
    · exact hbrief
    · exact h.brief c hc
  · intro c hc
    rcases mem_insert.mp hc with rfl | ⟨hc, -⟩
    · exact hlate
    · exact h.late c hc

theorem Good.note (h : Good now slack s) (haway : Away conn s) (effect : Effect ρ) :
    Good now slack (s.note conn effect) := by
  refine ⟨?_, h.late⟩
  intro c hc
  rw [told_note_ne fun heq => haway.out (mem_ids.mpr ⟨c, hc, heq⟩)]
  exact h.brief c hc

theorem Good.rearm (h : Good now slack s) : Good now slack (rearmControlTimer s) := ⟨h.brief, h.late⟩

/-- A fetch may be waited for longer than a convergence. -/
theorem waiting_le (slack : ℕ) : waiting slack CONTROL_CONVERGE_TIMEOUT ≤ waiting slack CONTROL_SUBSCRIBE_TIMEOUT :=
  Nat.add_le_add_left (by decide) _

/-! ### Sending -/

section Sending

variable {out : Outgoing ρ} {send : Sent} {watch stopAfter : Bool} {response : ρ} {deadline : ℕ}

/-- A response that has to wait keeps its deadline. -/
theorem deliver_good (h : Good now slack s) (haway : Away conn s)
    (hbrief : (PendingControl.writing conn response deadline stopAfter).Brief slack (s.told conn.id))
    (hlate : now ≤ deadline + slack) : Good now slack (deliver send watch token conn response deadline stopAfter s).2 := by
  unfold deliver
  cases send with
  | ok => exact h.note haway _
  | wouldBlock =>
    cases watch with
    | true => exact @Good.insert _ s token now slack (.writing conn response deadline stopAfter) h hbrief hlate
    | false => exact h
  | failed => exact h

/-- An answer keeps the deadline of its connection. -/
theorem respond_good (h : Good now slack s) (haway : Away conn s)
    (hbrief : deadline ≤ conn.since + stay slack CONTROL_SUBSCRIBE_TIMEOUT)
    (hplain : Effect.request .subscribe ∉ s.told conn.id → deadline ≤ conn.since + stay slack CONTROL_CONVERGE_TIMEOUT)
    (hlate : now ≤ deadline + slack) : Good now slack (respond out token conn deadline stopAfter s).2 := by
  refine deliver_good (h.note haway _) (haway.note _) ⟨hbrief, ?_⟩ hlate
  intro hnot
  refine hplain fun hin => hnot ?_
  rw [told_note_self]
  exact List.mem_append_left _ hin

end Sending

/-! ### Waiting connections -/

section Waiting

variable {c : Completion ρ} {out : ℕ → Outgoing ρ}

/-- The answer of a converging connection, under a deadline that is not later than the connection may stay. -/
theorem converging_good {deadline later : ℕ} {told : Outgoing ρ} (h : Inv s) (hg : Good now slack s)
    (hp : s.find token = some (.converging conn deadline))
    (hlater : later ≤ conn.since + stay slack CONTROL_CONVERGE_TIMEOUT) (hlate : now ≤ later + slack) :
    Good now slack (respond told token conn later false (s.remove token)).2 := by
  have hless := waiting_le slack
  refine respond_good (hg.remove token) (h.away hp) ?_ (fun _ => hlater) hlate
  unfold stay at hlater ⊢
  omega

/-- The same for a subscribing connection, which is told apart by its request. -/
theorem subscribing_good {deadline later : ℕ} {told : Outgoing ρ} (h : Inv s) (hg : Good now slack s)
    (hp : s.find token = some (.subscribing conn deadline))
    (hlater : later ≤ conn.since + stay slack CONTROL_SUBSCRIBE_TIMEOUT) (hlate : now ≤ later + slack) :
    Good now slack (respond told token conn later false (s.remove token)).2 := by
  refine respond_good (hg.remove token) (h.away hp) hlater (fun hnot => absurd ?_ hnot) hlate
  show _ ∈ s.told conn.id
  rw [h.subscribing hp]
  exact List.mem_cons_of_mem _ List.mem_cons_self

theorem completeOne_good (h : Inv s) (hg : Good now slack s) (token : ℕ) : Good now slack (completeOne c s token) := by
  unfold completeOne
  split
  · rename_i conn deadline hp
    have hbrief : deadline ≤ conn.since + waiting slack CONTROL_CONVERGE_TIMEOUT := hg.brief _ (mem_of_find hp)
    refine converging_good h hg hp ?_ (hg.late _ (mem_of_find hp))
    unfold stay
    omega
  · rename_i conn deadline hp
    have hbrief : deadline ≤ conn.since + waiting slack CONTROL_SUBSCRIBE_TIMEOUT := hg.brief _ (mem_of_find hp)
    refine subscribing_good h hg hp ?_ (hg.late _ (mem_of_find hp))
    unfold stay
    omega
  · exact hg.remove token
  · exact hg

theorem expireOne_good (hout : ∀ token, Within now slack (out token).clock) (h : Inv s) (hg : Good now slack s)
    (token : ℕ) : Good now slack (expireOne out s token) := by
  obtain ⟨hlow, hhigh⟩ := hout token
  unfold expireOne
  split
  · rename_i conn deadline hp
    have hbrief : deadline ≤ conn.since + waiting slack CONTROL_CONVERGE_TIMEOUT := hg.brief _ (mem_of_find hp)
    have hlate : now ≤ deadline + slack := hg.late _ (mem_of_find hp)
    refine converging_good h hg hp ?_ (by omega)
    unfold stay
    omega
  · rename_i conn deadline hp
    have hbrief : deadline ≤ conn.since + waiting slack CONTROL_SUBSCRIBE_TIMEOUT := hg.brief _ (mem_of_find hp)
    have hlate : now ≤ deadline + slack := hg.late _ (mem_of_find hp)
    refine subscribing_good h hg hp ?_ (by omega)
    unfold stay
    omega
  · exact hg.remove token
  · exact hg

/-- The loops over the connections keep what their turns keep. -/
theorem foldl_good {β : Type} {f : Server ρ → β → Server ρ} (hf : ∀ s b, Inv s → Inv (f s b) ∧ Frame s (f s b))
    (hgood : ∀ s b, Inv s → Good now slack s → Good now slack (f s b)) (bs : List β) (h : Inv s)
    (hg : Good now slack s) : Good now slack (bs.foldl f s) := by
  have hrun : Inv (run f s bs) ∧ Good now slack (run f s bs) :=
    run_inv_of_mem (I := fun s => Inv s ∧ Good now slack s) (C := fun _ => True)
      (fun s b hs _ => ⟨(hf s b hs.1).1, hgood s b hs.1 hs.2⟩) ⟨h, hg⟩ fun _ _ => trivial
  exact hrun.2

theorem completeWaitingControls_good (c : Completion ρ) (h : Inv s) (hg : Good now slack s) :
    Good now slack (completeWaitingControls c s) :=
  foldl_good (fun _ token h => completeOne_spec h token) (fun _ token h hg => completeOne_good h hg token) _ h hg

end Waiting

/-! ### Connections -/

section Connections

variable {a : Answers ρ} {request : Request} {deadline : ℕ} {decode : List U8 → Option Request}

/-- A request waits for the time of its own kind, counted from its reading. -/
theorem execute_good (hclock : Within now slack a.out.clock) (h : Inv s) (hg : Good now slack s) (haway : Away conn s)
    (htold : s.told conn.id = [.accepted]) (hbrief : deadline ≤ conn.since + CONTROL_TIMEOUT)
    (hlate : now ≤ deadline + slack) : Good now slack (execute a token conn deadline request s).2 := by
  have hnoted : Inv (s.note conn (.request request)) := by
    refine h.note haway ?_
    rw [htold]
    exact trivial
  have hframe := (inside_spec a.inside hnoted).2
  have hheld := (haway.note (.request request)).frame hframe
  have hinside := foldl_good (fun _ c h => completeWaitingControls_spec c h)
    (fun _ c h hg => completeWaitingControls_good c h hg) a.inside hnoted (hg.note haway (.request request))
  obtain ⟨hlow, hhigh⟩ := hclock
  unfold execute dispatchRequest
  dsimp only
  by_cases hbusy : (request.waits && a.busy) = true
  · rw [if_pos hbusy]
    by_cases hsub : request = .subscribe
    · rw [if_pos hsub]
      refine @Good.insert _ _ token now slack (.subscribing conn (a.out.clock + CONTROL_SUBSCRIBE_TIMEOUT)) hinside ?_ ?_
      · show _ ≤ conn.since + waiting slack CONTROL_SUBSCRIBE_TIMEOUT
        unfold waiting
        omega
      · show now ≤ a.out.clock + _ + slack
        omega
    · rw [if_neg hsub]
      refine @Good.insert _ _ token now slack (.converging conn (a.out.clock + CONTROL_CONVERGE_TIMEOUT)) hinside ?_ ?_
      · show _ ≤ conn.since + waiting slack CONTROL_CONVERGE_TIMEOUT
        unfold waiting
        omega
      · show now ≤ a.out.clock + _ + slack
        omega
  · rw [if_neg hbusy]
    refine respond_good hinside hheld ?_ ?_ hlate
    · unfold stay waiting
      omega
    · intro _
      unfold stay waiting
      omega

theorem handleControlConnection_good (hclock : Within now slack a.out.clock) (h : Inv s) (hg : Good now slack s)
    (token : ℕ) : Good now slack (handleControlConnection decode a token s).2 := by
  unfold handleControlConnection
  cases hp : s.find token with
  | none => exact hg
  | some pending =>
    have haway := h.away hp
    have htaken := hg.remove token
    have hbrief := hg.brief _ (mem_of_find hp)
    have hlate := hg.late _ (mem_of_find hp)
    cases pending with
    | reading conn deadline =>
      dsimp only
      cases recvRequest decode a.recv with
      | inr request =>
        exact (execute_good hclock (h.remove token) htaken haway (h.stage _ (mem_of_find hp)) hbrief hlate).rearm
      | inl recv =>
        cases recv with
        | wouldBlock => exact (htaken.insert hbrief hlate).rearm
        | frame bytes => exact htaken.rearm
        | failed => exact htaken.rearm
    | writing conn response deadline stopAfter => exact (deliver_good htaken haway hbrief hlate).rearm
    | converging conn deadline => exact (htaken.insert hbrief hlate).rearm
    | subscribing conn deadline => exact (htaken.insert hbrief hlate).rearm

/-- A connection that is advanced leaves the timer armed. -/
theorem handleControlConnection_armed (h : Armed s) (token : ℕ) :
    Armed (handleControlConnection decode a token s).2 := by
  unfold handleControlConnection
  cases s.find token with
  | none => exact h
  | some pending => exact armed_rearm _

/-- A new connection has its first deadline. -/
theorem acceptConn_good (hclock : Within now slack clock) (h : Inv s) (hg : Good now slack s)
    (hroom : s.conns.length < MAX_CONTROL_CONNECTIONS) : Good now slack (acceptConn clock s).2 := by
  have hopened : Good now slack { s with nextToken := tokenAfter s.nextToken, accepted := s.accepted + 1 } :=
    ⟨hg.brief, hg.late⟩
  have haway : Away ⟨s.accepted, clock⟩ { s with nextToken := tokenAfter s.nextToken, accepted := s.accepted + 1 } :=
    ⟨fun hin => Nat.lt_irrefl _ (h.known _ hin), Nat.lt_succ_self _, hroom⟩
  refine (@Good.insert _ _ s.nextToken now slack (.reading ⟨s.accepted, clock⟩ (clock + CONTROL_TIMEOUT))
    (hopened.note haway .accepted) (Nat.le_refl _) ?_).rearm
  show now ≤ clock + _ + slack
  have hlow := hclock.1
  omega

theorem handleControl_good {peers : List (Peer ρ)}
    (hclock : ∀ peer ∈ peers, Within now slack peer.clock ∧ Within now slack peer.answers.out.clock) (h : Inv s)
    (hg : Good now slack s) (ha : Armed s) :
    Good now slack (handleControl decode peers s).2 ∧ Armed (handleControl decode peers s).2 := by
  have hone : ∀ (s : Server ρ) (peer : Peer ρ), Within now slack peer.clock ∧ Within now slack peer.answers.out.clock →
      Inv s ∧ Good now slack s ∧ Armed s → s.conns.length < MAX_CONTROL_CONNECTIONS → ∀ r,
      handleControlConnection decode peer.answers (acceptConn peer.clock s).1 (acceptConn peer.clock s).2 = r →
        (Inv r.2 ∧ Good now slack r.2 ∧ Armed r.2) ∧ (r.1 = true → True) := by
    rintro s peer ⟨haccept, hanswer⟩ ⟨h, hg, -⟩ hroom r rfl
    have haccepted := acceptConn_inv peer.clock h hroom
    exact ⟨⟨(handleControlConnection_spec peer.answers (acceptConn peer.clock s).1 haccepted).1,
      handleControlConnection_good hanswer haccepted (acceptConn_good haccept h hg hroom) (acceptConn peer.clock s).1,
      handleControlConnection_armed (armed_rearm _) _⟩, fun _ => trivial⟩
  have hrule := handleControl_rule (I := fun s => Inv s ∧ Good now slack s ∧ Armed s) (Q := fun _ => True)
    (fun s ⟨h, hg, ha⟩ => ⟨⟨h.distinct, h.known, h.stage, h.lawful, h.unseen, h.cap⟩, ⟨hg.brief, hg.late⟩, ha⟩)
    hone peers hclock s ⟨h, hg, ha⟩
  exact hrule.1.2

end Connections

/-! ### Completions do not move the timer -/

section Completions

variable {c : Completion ρ}

/-- An answer that keeps the deadline of its connection. -/
theorem respond_armed {out : Outgoing ρ} {deadline : ℕ} (h : Armed s) (hp : s.find token = some pending)
    (hdeadline : pending.deadline = deadline) :
    Armed (respond out token conn deadline false (s.remove token)).2 := by
  have htaken : Armed (s.remove token) := fun c hc => h c (mem_remove.mp hc).1
  have hput : Armed ((s.remove token).insert token (.writing conn out.response deadline false)) := by
    intro c hc
    rcases mem_insert.mp hc with rfl | ⟨hc, -⟩
    · obtain ⟨due, htimer, hdue⟩ := h _ (mem_of_find hp)
      exact ⟨due, htimer, hdeadline ▸ hdue⟩
    · exact htaken c hc
  unfold respond deliver
  cases out.send <;> cases out.watch
  case wouldBlock.true => exact hput
  all_goals exact htaken

/-- An answer sets no deadline earlier than the one its connection had. -/
theorem completeOne_armed (h : Armed s) (token : ℕ) : Armed (completeOne c s token) := by
  unfold completeOne
  split
  · rename_i hp
    exact respond_armed h hp rfl
  · rename_i hp
    exact respond_armed h hp rfl
  · exact fun c hc => h c (mem_remove.mp hc).1
  · exact h

theorem completeWaitingControls_armed (c : Completion ρ) (h : Armed s) : Armed (completeWaitingControls c s) :=
  run_inv_of_mem (I := Armed) (C := fun _ => True) (fun _ token h _ => completeOne_armed h token) h fun _ _ => trivial

end Completions

/-! ### Runs -/

section Runs

variable {decode : List U8 → Option Request} {ev : ℕ × Event ρ}

/-- What a timely event preserves. -/
theorem step_timed (hev : Timely slack s ev) (h : Inv s) (ht : Timed slack s) : Timed slack (step decode s ev) := by
  obtain ⟨now, ev⟩ := ev
  obtain ⟨hdue, hclock⟩ := hev
  have hgood : Good now slack s := by
    refine ⟨ht.brief, ?_⟩
    intro c hc
    obtain ⟨due, htimer, hle⟩ := ht.armed c hc
    have hlate := hdue due htimer
    dsimp only at hlate
    omega
  cases ev with
  | accept peers =>
    obtain ⟨hg, ha⟩ := handleControl_good hclock h hgood ht.armed
    exact ⟨hg.brief, ha⟩
  | ready token answers =>
    exact ⟨(handleControlConnection_good hclock h hgood token).brief, handleControlConnection_armed ht.armed token⟩
  | timeout clock out =>
    refine ⟨?_, armed_rearm _⟩
    exact (foldl_good (fun _ token h => expireOne_spec h token) (fun _ token h hg => expireOne_good hclock.2 h hg token)
      _ h hgood).brief
  | complete c => exact ⟨(completeWaitingControls_good c h hgood).brief, completeWaitingControls_armed c ht.armed⟩
  | converged converged subscribed idle =>
    refine ⟨?_, armed_rearm _⟩
    have hfirst := completeWaitingControls_good ⟨false, converged⟩ h hgood
    have hinv := (completeWaitingControls_spec ⟨false, converged⟩ h).1
    show ∀ c ∈ (completeConvergenceControls converged subscribed idle s).conns, _
    unfold completeConvergenceControls
    cases idle with
    | true => exact (completeWaitingControls_good ⟨true, subscribed⟩ hinv hfirst).brief
    | false => exact hfirst.brief

theorem run_timed {events : List (ℕ × Event ρ)} (h : AllSteps (step decode) (Timely slack) .new events) :
    Inv (run (step decode) .new events) ∧ Timed slack (run (step decode) .new events) := by
  have hstep : ∀ (s : Server ρ) (ev : ℕ × Event ρ), Inv s ∧ Timed slack s → Timely slack s ev →
      Inv (step decode s ev) ∧ Timed slack (step decode s ev) := fun s ev hs hev =>
    ⟨(handle_spec ev.2 hs.1).1, step_timed hev hs.1 hs.2⟩
  have hnew : Timed slack (.new : Server ρ) :=
    ⟨fun _ h => absurd h List.not_mem_nil, fun _ h => absurd h List.not_mem_nil⟩
  exact run_inv hstep ⟨inv_new, hnew⟩ h

/-- **No connection stays.**  If the loop is never more than `slack` late, then whatever the peers do and whatever the
reactor answers, the timer is never armed behind the deadline of a connection, and no connection gets older than 124 s
and five times the slack; one whose request is not a subscription refresh stays 24 s at most, and has its answer 22 s
after it was accepted, up to the slack. -/
theorem connections_are_brief (decode : List U8 → Option Request) (slack : ℕ) (events : List (ℕ × Event ρ))
    (h : AllSteps (step decode) (Timely slack) .new events) (now : ℕ)
    (hnow : ∀ due, (run (step decode) .new events).timer = some due → now ≤ due + slack) :
    Armed (run (step decode) .new events) ∧ ∀ c ∈ (run (step decode) .new events).conns,
      now ≤ c.2.conn.since + 124 * Supervisor.SECOND + 5 * slack ∧
        (Effect.request .subscribe ∉ (run (step decode) .new events).told c.2.conn.id →
          now ≤ c.2.conn.since + 24 * Supervisor.SECOND + 5 * slack ∧
            ((∀ response, Effect.answer response ∉ (run (step decode) .new events).told c.2.conn.id) →
              now ≤ c.2.conn.since + 22 * Supervisor.SECOND + 3 * slack)) := by
  obtain ⟨hinv, htimed⟩ := run_timed h
  refine ⟨htimed.armed, fun c hc => ?_⟩
  obtain ⟨due, htimer, hdue⟩ := htimed.armed c hc
  have hdeadline : now ≤ c.2.deadline + slack := Nat.le_trans (hnow due htimer) (Nat.add_le_add_right hdue slack)
  have hbrief := htimed.brief c hc
  have hstage := hinv.stage c hc
  have hlong : waiting slack CONTROL_SUBSCRIBE_TIMEOUT = 122 * Supervisor.SECOND + 2 * slack := by
    unfold waiting CONTROL_TIMEOUT CONTROL_SUBSCRIBE_TIMEOUT
    omega
  have hshort : waiting slack CONTROL_CONVERGE_TIMEOUT = 22 * Supervisor.SECOND + 2 * slack := by
    unfold waiting CONTROL_TIMEOUT CONTROL_CONVERGE_TIMEOUT
    omega
  have hread : CONTROL_TIMEOUT = 2 * Supervisor.SECOND := rfl
  obtain ⟨token, pending⟩ := c
  cases pending with
  | reading conn deadline =>
    have hle : deadline ≤ conn.since + CONTROL_TIMEOUT := hbrief
    refine ⟨?_, fun _ => ⟨?_, fun _ => ?_⟩⟩ <;> dsimp only [PendingControl.conn, PendingControl.deadline] at * <;> omega
  | writing conn response deadline stopAfter =>
    obtain ⟨hle, hplain⟩ := hbrief
    unfold stay at hle hplain
    refine ⟨?_, fun hnot => ⟨?_, fun hanswer => ?_⟩⟩
    · dsimp only [PendingControl.conn, PendingControl.deadline] at *
      omega
    · have hle' := hplain hnot
      dsimp only [PendingControl.conn, PendingControl.deadline] at *
      omega
    · obtain ⟨request, htold, -⟩ := hstage
      refine absurd ?_ (hanswer response)
      rw [htold]
      exact List.mem_cons_of_mem _ (List.mem_cons_of_mem _ List.mem_cons_self)
  | converging conn deadline =>
    have hle : deadline ≤ conn.since + waiting slack CONTROL_CONVERGE_TIMEOUT := hbrief
    refine ⟨?_, fun _ => ⟨?_, fun _ => ?_⟩⟩ <;> dsimp only [PendingControl.conn, PendingControl.deadline] at * <;> omega
  | subscribing conn deadline =>
    have hle : deadline ≤ conn.since + waiting slack CONTROL_SUBSCRIBE_TIMEOUT := hbrief
    have htold : _ = [Effect.accepted, Effect.request .subscribe] := hstage
    refine ⟨?_, fun hnot => absurd ?_ hnot⟩
    · dsimp only [PendingControl.conn, PendingControl.deadline] at *
      omega
    · rw [htold]
      exact List.mem_cons_of_mem _ List.mem_cons_self

/-- The text of an enable request. -/
def enableLine : List U8 := [123, 34, 111, 112, 34, 58, 34, 101, 110, 97, 98, 108, 101, 34, 125]

/-- A decoder that knows one request. -/
def enableOnly (bytes : List U8) : Option Request := if bytes = enableLine then some .enable else none

/-- A peer whose request starts work that is not over at once. -/
def busyPeer : Peer Unit := ⟨true, true, 0, ⟨.frame enableLine, [], true, ⟨(), .ok, true, 0⟩⟩⟩

/-- Its work is not over in time, and the answer finds no room. -/
def lateEvents : List (ℕ × Event Unit) :=
  [(0, .accept [busyPeer]),
    (CONTROL_CONVERGE_TIMEOUT, .timeout CONTROL_CONVERGE_TIMEOUT fun _ => ⟨(), .wouldBlock, true, CONTROL_CONVERGE_TIMEOUT⟩)]

theorem connections_are_brief_once :
    (run (step enableOnly) .new lateEvents).conns =
        [(TOK_CONTROL_CONN_BASE, .writing ⟨0, 0⟩ () (22 * Supervisor.SECOND) false)] ∧
      Armed (run (step enableOnly) .new lateEvents) ∧ ∀ c ∈ (run (step enableOnly) .new lateEvents).conns,
        22 * Supervisor.SECOND ≤ c.2.conn.since + 124 * Supervisor.SECOND + 5 * 0 := by
  have htimely : AllSteps (step enableOnly) (Timely 0) .new lateEvents := by
    refine ⟨⟨fun due hdue => ?_, ?_⟩, ⟨fun due hdue => ?_, ?_⟩, trivial⟩
    · cases hdue
    · intro peer hpeer
      rw [List.mem_singleton.mp hpeer]
      exact ⟨⟨Nat.le_refl _, Nat.le_refl _⟩, Nat.le_refl _, Nat.le_refl _⟩
    · have htimer : (step enableOnly .new (0, .accept [busyPeer])).timer = some CONTROL_CONVERGE_TIMEOUT := by decide
      rw [htimer] at hdue
      exact Nat.le_of_eq (Option.some.inj hdue)
    · exact ⟨⟨Nat.le_refl _, Nat.le_refl _⟩, fun _ => ⟨Nat.le_refl _, Nat.le_refl _⟩⟩
  have htimer : (run (step enableOnly) .new lateEvents).timer = some (22 * Supervisor.SECOND) := by decide
  obtain ⟨harmed, hbrief⟩ := connections_are_brief enableOnly 0 _ htimely (22 * Supervisor.SECOND) fun due hdue => by
    rw [htimer] at hdue
    exact Nat.le_of_eq (Option.some.inj hdue)
  exact ⟨by decide, harmed, fun c hc => (hbrief c hc).1⟩

end Runs

end FluxRs.Control
