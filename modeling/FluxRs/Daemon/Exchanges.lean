import FluxRs.Daemon.Sessions
import Mathlib.Data.List.Infix

/-!
# FluxRs.Daemon.Exchanges — what every connection gets, whatever the others do

A connection is accepted, its request is executed, its answer is fixed, its frame goes out: each once and in this
order.  The invariant says how far each connection of the table is; completions of other connections frame it.
-/

namespace FluxRs.Control

open FluxRs.Lib

variable {ρ : Type} {s t u : Server ρ} {token id : ℕ} {pending : PendingControl ρ} {conn : Conn}

/-! ### The table -/

section Table

theorem mem_insert {c : ℕ × PendingControl ρ} :
    c ∈ (s.insert token pending).conns ↔ c = (token, pending) ∨ c ∈ s.conns ∧ c.1 ≠ token := by
  show c ∈ List.orderedInsert _ _ _ ↔ _
  rw [List.mem_orderedInsert, List.mem_filter, decide_eq_true_iff]

theorem mem_remove {c : ℕ × PendingControl ρ} : c ∈ (s.remove token).conns ↔ c ∈ s.conns ∧ c.1 ≠ token := by
  show c ∈ List.filter _ _ ↔ _
  rw [List.mem_filter, decide_eq_true_iff]

theorem mem_of_find (h : s.find token = some pending) : (token, pending) ∈ s.conns := by
  obtain ⟨c, hc, rfl⟩ := Option.map_eq_some_iff.mp h
  have htoken := List.find?_some hc
  rw [decide_eq_true_iff] at htoken
  subst htoken
  exact List.mem_of_find?_eq_some hc

theorem length_insert : (s.insert token pending).conns.length ≤ s.conns.length + 1 := by
  show (List.orderedInsert _ _ _).length ≤ _
  rw [List.orderedInsert_length]
  exact Nat.succ_le_succ (List.length_filter_le _ _)

theorem length_remove_le : (s.remove token).conns.length ≤ s.conns.length := List.length_filter_le _ _

theorem length_remove (h : (token, pending) ∈ s.conns) : (s.remove token).conns.length < s.conns.length := by
  refine Nat.lt_of_le_of_ne length_remove_le ?_
  intro heq
  have hkept := List.length_filter_eq_length_iff.mp heq (token, pending) h
  rw [decide_eq_true_iff] at hkept
  exact hkept rfl

/-- The connections of the table. -/
def ids (s : Server ρ) : List ℕ := s.conns.map fun c => c.2.conn.id

theorem mem_ids : id ∈ ids s ↔ ∃ c ∈ s.conns, c.2.conn.id = id := List.mem_map

theorem ids_insert (h : id ∈ ids (s.insert token pending)) : id = pending.conn.id ∨ id ∈ ids s := by
  obtain ⟨c, hc, rfl⟩ := mem_ids.mp h
  rcases mem_insert.mp hc with rfl | ⟨hc, -⟩
  · exact Or.inl rfl
  · exact Or.inr (mem_ids.mpr ⟨c, hc, rfl⟩)

theorem ids_remove (h : id ∈ ids (s.remove token)) : id ∈ ids s := by
  obtain ⟨c, hc, rfl⟩ := mem_ids.mp h
  exact mem_ids.mpr ⟨c, (mem_remove.mp hc).1, rfl⟩

theorem nodup_remove (h : (ids s).Nodup) : (ids (s.remove token)).Nodup :=
  h.sublist (List.filter_sublist.map _)

theorem nodup_insert (h : (ids s).Nodup) (hid : pending.conn.id ∉ ids s) : (ids (s.insert token pending)).Nodup := by
  have hperm := ((List.perm_orderedInsert (fun c d : ℕ × PendingControl ρ => c.1 ≤ d.1) (token, pending)
    (s.conns.filter fun c => c.1 ≠ token)).map fun c => c.2.conn.id).nodup_iff
  refine hperm.mpr (List.nodup_cons.mpr ⟨?_, nodup_remove h⟩)
  exact fun hin => hid (ids_remove hin)

theorem told_note_self (effect : Effect ρ) : (s.note conn effect).told conn.id = s.told conn.id ++ [effect] :=
  Function.update_self ..

theorem told_note_ne (h : id ≠ conn.id) (effect : Effect ρ) : (s.note conn effect).told id = s.told id :=
  Function.update_of_ne h ..

end Table

/-! ### The course of a connection -/

/-- The course of every connection, as far as it comes. -/
def Lawful : List (Effect ρ) → Prop
  | [] | [.accepted] | [.accepted, .request _] | [.accepted, .request _, .answer _] => True
  | [.accepted, .request _, .answer response, .reply sent] => sent = response
  | _ => False

/-- What a connection of the table has behind it. -/
def PendingControl.Told (told : List (Effect ρ)) : PendingControl ρ → Prop
  | .reading _ _ => told = [.accepted]
  | .writing _ response _ stopAfter =>
    ∃ request, told = [.accepted, .request request, .answer response] ∧ (stopAfter = true → request = .stop)
  | .converging _ _ => ∃ request, told = [.accepted, .request request] ∧ request ≠ .subscribe
  | .subscribing _ _ => told = [.accepted, .request .subscribe]

/-- What holds between two events: each connection is known, and has been told what its state says. -/
structure Inv (s : Server ρ) : Prop where
  distinct : (ids s).Nodup
  known : ∀ id ∈ ids s, id < s.accepted
  stage : ∀ c ∈ s.conns, c.2.Told (s.told c.2.conn.id)
  lawful : ∀ id, Lawful (s.told id)
  unseen : ∀ id, s.accepted ≤ id → s.told id = []
  cap : s.conns.length ≤ MAX_CONTROL_CONNECTIONS

/-- A connection that a handler holds. -/
structure Away (conn : Conn) (s : Server ρ) : Prop where
  out : conn.id ∉ ids s
  known : conn.id < s.accepted
  room : s.conns.length < MAX_CONTROL_CONNECTIONS

theorem inv_new : Inv (.new : Server ρ) where
  distinct := List.nodup_nil
  known _ h := absurd h List.not_mem_nil
  stage _ h := absurd h List.not_mem_nil
  lawful _ := trivial
  unseen _ _ := rfl
  cap := Nat.zero_le _

/-- A connection that is taken out of the table is in it no more. -/
theorem Inv.away (h : Inv s) (hp : s.find token = some pending) : Away pending.conn (s.remove token) := by
  have hmem := mem_of_find hp
  refine ⟨?_, h.known _ (mem_ids.mpr ⟨_, hmem, rfl⟩), Nat.lt_of_lt_of_le (length_remove hmem) h.cap⟩
  intro hin
  obtain ⟨c, hc, heq⟩ := mem_ids.mp hin
  obtain ⟨hc, hne⟩ := mem_remove.mp hc
  exact hne (congrArg Prod.fst (List.inj_on_of_nodup_map h.distinct hc hmem heq))

theorem Inv.remove (h : Inv s) (token : ℕ) : Inv (s.remove token) where
  distinct := nodup_remove h.distinct
  known id hin := h.known id (ids_remove hin)
  stage c hc := h.stage c (mem_remove.mp hc).1
  lawful := h.lawful
  unseen := h.unseen
  cap := Nat.le_trans length_remove_le h.cap

/-- It is put back with what it has been told. -/
theorem Inv.insert (h : Inv s) (haway : Away pending.conn s) (htold : pending.Told (s.told pending.conn.id)) :
    Inv (s.insert token pending) where
  distinct := nodup_insert h.distinct haway.out
  known id hin := by
    rcases ids_insert hin with rfl | hin
    · exact haway.known
    · exact h.known id hin
  stage c hc := by
    rcases mem_insert.mp hc with rfl | ⟨hc, -⟩
    · exact htold
    · exact h.stage c hc
  lawful := h.lawful
  unseen := h.unseen
  cap := Nat.le_trans length_insert haway.room

/-- A note keeps the law of the exchange that it is added to. -/
theorem Inv.note {effect : Effect ρ} (h : Inv s) (haway : Away conn s) (hlaw : Lawful (s.told conn.id ++ [effect])) :
    Inv (s.note conn effect) where
  distinct := h.distinct
  known := h.known
  stage c hc := by
    have hne : c.2.conn.id ≠ conn.id := fun heq => haway.out (mem_ids.mpr ⟨c, hc, heq⟩)
    rw [told_note_ne hne]
    exact h.stage c hc
  lawful id := by
    by_cases hid : id = conn.id
    · rw [hid, told_note_self]
      exact hlaw
    · rw [told_note_ne hid]
      exact h.lawful id
  unseen id hid := by
    rw [told_note_ne (Nat.ne_of_gt (Nat.lt_of_lt_of_le haway.known hid))]
    exact h.unseen id hid
  cap := h.cap

/-! ### What a step leaves alone -/

/-- Nothing is accepted, nothing is forgotten, and a connection outside the table hears nothing. -/
structure Frame (s t : Server ρ) : Prop where
  accepted : t.accepted = s.accepted
  ids : ∀ id ∈ ids t, id ∈ ids s
  told : ∀ id, id ∉ Control.ids s → t.told id = s.told id
  grows : ∀ id, s.told id <+: t.told id
  length : t.conns.length ≤ s.conns.length

theorem Frame.refl (s : Server ρ) : Frame s s :=
  ⟨rfl, fun _ h => h, fun _ _ => rfl, fun _ => List.prefix_rfl, Nat.le_refl _⟩

theorem Frame.trans (h : Frame s t) (h' : Frame t u) : Frame s u where
  accepted := h'.accepted.trans h.accepted
  ids id hin := h.ids id (h'.ids id hin)
  told id hout := (h'.told id fun hin => hout (h.ids id hin)).trans (h.told id hout)
  grows id := (h.grows id).trans (h'.grows id)
  length := Nat.le_trans h'.length h.length

theorem Away.frame (haway : Away conn s) (h : Frame s t) : Away conn t :=
  ⟨fun hin => haway.out (h.ids _ hin), h.accepted ▸ haway.known, Nat.lt_of_le_of_lt h.length haway.room⟩

theorem Away.note (haway : Away conn s) (effect : Effect ρ) : Away conn (s.note conn effect) :=
  ⟨haway.out, haway.known, haway.room⟩

theorem grows_note (effect : Effect ρ) : s.told id <+: (s.note conn effect).told id := by
  by_cases hid : id = conn.id
  · rw [hid, told_note_self]
    exact List.prefix_append _ _
  · rw [told_note_ne hid]

/-! ### Sending -/

section Sending

variable {send : Sent} {watch stopAfter : Bool} {response : ρ} {deadline : ℕ} {request : Request} {out : Outgoing ρ}

/-- No note is ever taken back. -/
theorem deliver_grows (id : ℕ) : s.told id <+: (deliver send watch token conn response deadline stopAfter s).2.told id := by
  unfold deliver
  cases send with
  | ok => exact grows_note _
  | wouldBlock => cases watch <;> exact List.prefix_rfl
  | failed => exact List.prefix_rfl

/-- An answer follows one request, and is the last but for the stop. -/
theorem deliver_inv (h : Inv s) (haway : Away conn s)
    (htold : s.told conn.id = [.accepted, .request request, .answer response])
    (hstop : stopAfter = true → request = .stop) :
    Inv (deliver send watch token conn response deadline stopAfter s).2 := by
  unfold deliver
  cases send with
  | ok =>
    refine h.note haway ?_
    rw [htold]
    exact rfl
  | wouldBlock =>
    cases watch with
    | true => exact @Inv.insert _ s token (.writing conn response deadline stopAfter) h haway ⟨request, htold, hstop⟩
    | false => exact h
  | failed => exact h

theorem respond_grows (id : ℕ) : s.told id <+: (respond out token conn deadline stopAfter s).2.told id :=
  (grows_note _).trans (deliver_grows id)

theorem respond_inv (h : Inv s) (haway : Away conn s) (htold : s.told conn.id = [.accepted, .request request])
    (hstop : stopAfter = true → request = .stop) : Inv (respond out token conn deadline stopAfter s).2 := by
  have hanswered : (s.note conn (.answer out.response)).told conn.id =
      [.accepted, .request request, .answer out.response] := by
    rw [told_note_self, htold]
    rfl
  refine deliver_inv (h.note haway ?_) (haway.note _) hanswered hstop
  rw [htold]
  exact trivial

/-- The connection that is answered is the only one that hears of it. -/
theorem respond_frame (hp : (token, pending) ∈ s.conns) (hconn : pending.conn = conn) :
    Frame s (respond out token conn deadline stopAfter (s.remove token)).2 := by
  have hin : conn.id ∈ ids s := mem_ids.mpr ⟨_, hp, by rw [hconn]⟩
  have hids : ∀ id ∈ ids (respond out token conn deadline stopAfter (s.remove token)).2, id ∈ ids s := by
    intro id h
    unfold respond deliver at h
    cases hsend : out.send <;> cases hwatch : out.watch <;> rw [hsend, hwatch] at h
    case wouldBlock.true =>
      rcases ids_insert h with rfl | h
      · exact hin
      · exact ids_remove h
    all_goals exact ids_remove h
  refine ⟨?_, hids, ?_, fun id => @respond_grows _ (s.remove token) _ _ _ _ _ id, ?_⟩
  · unfold respond deliver
    cases out.send <;> cases out.watch <;> rfl
  · intro id hout
    have hne : id ≠ conn.id := fun heq => hout (heq ▸ hin)
    unfold respond deliver
    cases out.send <;> cases out.watch
    case ok.true | ok.false => exact (told_note_ne hne _).trans (told_note_ne hne _)
    all_goals exact told_note_ne hne _
  · have hless := length_remove hp
    unfold respond deliver
    cases out.send <;> cases out.watch
    case wouldBlock.true => exact Nat.le_trans length_insert hless
    all_goals exact Nat.le_of_lt hless

end Sending

/-! ### Completions -/

section Completions

variable {c : Completion ρ} {cs : List (Completion ρ)} {out : ℕ → Outgoing ρ}

theorem frame_remove (s : Server ρ) (token : ℕ) : Frame s (s.remove token) :=
  ⟨rfl, fun _ => ids_remove, fun _ _ => rfl, fun _ => List.prefix_rfl, length_remove_le⟩

/-- A waiting connection is answered, under any deadline. -/
theorem respond_waiting {deadline : ℕ} {told : Outgoing ρ} (h : Inv s) (hp : s.find token = some pending)
    (hconn : pending.conn = conn) (hwaits : ∃ request, s.told conn.id = [.accepted, .request request]) :
    Inv (respond told token conn deadline false (s.remove token)).2 ∧
      Frame s (respond told token conn deadline false (s.remove token)).2 := by
  obtain ⟨request, htold⟩ := hwaits
  have haway := h.away hp
  rw [hconn] at haway
  exact ⟨respond_inv (h.remove token) haway htold Bool.noConfusion, respond_frame (mem_of_find hp) hconn⟩

/-- A connection that waits for a convergence has sent one request. -/
theorem Inv.converging {deadline : ℕ} (h : Inv s) (hp : s.find token = some (.converging conn deadline)) :
    ∃ request, s.told conn.id = [.accepted, .request request] := by
  obtain ⟨request, htold, -⟩ := h.stage _ (mem_of_find hp)
  exact ⟨request, htold⟩

/-- One that waits for a fetch has asked for it. -/
theorem Inv.subscribing {deadline : ℕ} (h : Inv s) (hp : s.find token = some (.subscribing conn deadline)) :
    s.told conn.id = [.accepted, .request .subscribe] := h.stage _ (mem_of_find hp)

/-- An answer keeps the law of every exchange, and accepts no connection. -/
theorem completeOne_spec (h : Inv s) (token : ℕ) :
    Inv (completeOne c s token) ∧ Frame s (completeOne c s token) := by
  unfold completeOne
  split
  · rename_i hp
    exact respond_waiting h hp rfl (h.converging hp)
  · rename_i hp
    exact respond_waiting h hp rfl ⟨.subscribe, h.subscribing hp⟩
  · exact ⟨h.remove token, frame_remove s token⟩
  · exact ⟨h, .refl s⟩

theorem expireOne_spec (h : Inv s) (token : ℕ) : Inv (expireOne out s token) ∧ Frame s (expireOne out s token) := by
  unfold expireOne
  split
  · rename_i hp
    exact respond_waiting h hp rfl (h.converging hp)
  · rename_i hp
    exact respond_waiting h hp rfl ⟨.subscribe, h.subscribing hp⟩
  · exact ⟨h.remove token, frame_remove s token⟩
  · exact ⟨h, .refl s⟩

/-- A loop whose turns frame the table frames it. -/
theorem foldl_spec {β : Type} {f : Server ρ → β → Server ρ} (hf : ∀ s b, Inv s → Inv (f s b) ∧ Frame s (f s b))
    (bs : List β) : ∀ s, Inv s → Inv (bs.foldl f s) ∧ Frame s (bs.foldl f s) := by
  induction bs with
  | nil => exact fun s h => ⟨h, .refl s⟩
  | cons b bs ih =>
    intro s h
    obtain ⟨hturn, hframe⟩ := hf s b h
    obtain ⟨hrest, hframe'⟩ := ih (f s b) hturn
    exact ⟨hrest, hframe.trans hframe'⟩

theorem completeWaitingControls_spec (c : Completion ρ) (h : Inv s) :
    Inv (completeWaitingControls c s) ∧ Frame s (completeWaitingControls c s) :=
  foldl_spec (fun _ token h => completeOne_spec h token) _ s h

theorem inside_spec (cs : List (Completion ρ)) (h : Inv s) :
    Inv (cs.foldl (fun s c => completeWaitingControls c s) s) ∧
      Frame s (cs.foldl (fun s c => completeWaitingControls c s) s) :=
  foldl_spec (fun _ c h => completeWaitingControls_spec c h) cs s h

/-- The timer is no part of the invariant. -/
theorem Inv.rearm (h : Inv s) : Inv (rearmControlTimer s) := ⟨h.distinct, h.known, h.stage, h.lawful, h.unseen, h.cap⟩

theorem expire_spec (now : ℕ) (out : ℕ → Outgoing ρ) (h : Inv s) : Inv (expireControlConnections now out s) :=
  (foldl_spec (fun _ token h => expireOne_spec h token) _ s h).1.rearm

theorem completeConvergence_spec (converged subscribed : ℕ → Outgoing ρ) (idle : Bool) (h : Inv s) :
    Inv (completeConvergenceControls converged subscribed idle s) := by
  have hfirst := (completeWaitingControls_spec ⟨false, converged⟩ h).1
  unfold completeConvergenceControls
  cases idle with
  | true => exact (completeWaitingControls_spec ⟨true, subscribed⟩ hfirst).1.rearm
  | false => exact hfirst.rearm

end Completions

/-! ### Connections -/

section Connections

variable {a : Answers ρ} {request : Request} {deadline : ℕ} {decode : List U8 → Option Request}

/-- What the loop is told to stop by. -/
def AskedToStop (s : Server ρ) : Prop := ∃ id, Effect.request Request.stop ∈ s.told id

/-- A request is answered at once or waits, and only a stop asks the reactor to stop. -/
theorem execute_spec (h : Inv s) (haway : Away conn s) (htold : s.told conn.id = [.accepted]) :
    Inv (execute a token conn deadline request s).2 ∧
      ((execute a token conn deadline request s).1 = true → AskedToStop (execute a token conn deadline request s).2) := by
  have hasked : (s.note conn (.request request)).told conn.id = [.accepted, .request request] := by
    rw [told_note_self, htold]
    rfl
  have hnoted : Inv (s.note conn (.request request)) := by
    refine h.note haway ?_
    rw [htold]
    exact trivial
  -- the completions inside leave the connection that is held alone
  obtain ⟨hinside, hframe⟩ := inside_spec a.inside hnoted
  have hheld := (haway.note (.request request)).frame hframe
  have htold' := (hframe.told _ haway.out).trans hasked
  unfold execute dispatchRequest
  dsimp only
  by_cases hbusy : (request.waits && a.busy) = true
  · rw [if_pos hbusy]
    refine ⟨?_, Bool.noConfusion⟩
    by_cases hsub : request = .subscribe
    · rw [if_pos hsub]
      subst hsub
      exact hinside.insert hheld htold'
    · rw [if_neg hsub]
      exact hinside.insert hheld ⟨request, htold', hsub⟩
  · rw [if_neg hbusy]
    refine ⟨respond_inv hinside hheld htold' of_decide_eq_true, ?_⟩
    intro hstop
    have hrequest := of_decide_eq_true (Bool.and_eq_true_iff.mp hstop).2
    refine ⟨conn.id, (respond_grows conn.id).subset ?_⟩
    rw [htold', hrequest]
    exact List.mem_cons_of_mem _ List.mem_cons_self

/-- One readiness event of a connection. -/
theorem handleControlConnection_spec (a : Answers ρ) (token : ℕ) (h : Inv s) :
    Inv (handleControlConnection decode a token s).2 ∧
      ((handleControlConnection decode a token s).1 = true → AskedToStop (handleControlConnection decode a token s).2) := by
  unfold handleControlConnection
  cases hp : s.find token with
  | none => exact ⟨h, Bool.noConfusion⟩
  | some pending =>
    have haway := h.away hp
    have htaken := h.remove token
    have hstage := h.stage _ (mem_of_find hp)
    cases pending with
    | reading conn deadline =>
      dsimp only
      cases recvRequest decode a.recv with
      | inr request =>
        obtain ⟨hinv, hstop⟩ := execute_spec htaken haway hstage
        exact ⟨hinv.rearm, hstop⟩
      | inl recv =>
        cases recv with
        | wouldBlock => exact ⟨(htaken.insert haway hstage).rearm, Bool.noConfusion⟩
        | frame bytes => exact ⟨htaken.rearm, Bool.noConfusion⟩
        | failed => exact ⟨htaken.rearm, Bool.noConfusion⟩
    | writing conn response deadline stopAfter =>
      obtain ⟨request, htold, hstop⟩ : ∃ request, s.told conn.id = [.accepted, .request request, .answer response] ∧
          (stopAfter = true → request = .stop) := hstage
      refine ⟨(deliver_inv htaken haway htold hstop).rearm, ?_⟩
      intro hover
      have hrequest := hstop (Bool.and_eq_true_iff.mp hover).2
      refine ⟨conn.id, (deliver_grows conn.id).subset ?_⟩
      show _ ∈ s.told conn.id
      rw [htold, hrequest]
      exact List.mem_cons_of_mem _ List.mem_cons_self
    | converging conn deadline => exact ⟨(htaken.insert haway hstage).rearm, Bool.noConfusion⟩
    | subscribing conn deadline => exact ⟨(htaken.insert haway hstage).rearm, Bool.noConfusion⟩

theorem acceptConn_inv (clock : ℕ) (h : Inv s) (hroom : s.conns.length < MAX_CONTROL_CONNECTIONS) :
    Inv (acceptConn clock s).2 := by
  have hunseen := h.unseen s.accepted (Nat.le_refl _)
  have hout : s.accepted ∉ ids s := fun hin => Nat.lt_irrefl _ (h.known _ hin)
  have hopened : Inv { s with nextToken := tokenAfter s.nextToken, accepted := s.accepted + 1 } :=
    ⟨h.distinct, fun id hin => Nat.lt_succ_of_lt (h.known id hin), h.stage, h.lawful,
      fun id hid => h.unseen id (Nat.le_of_succ_le hid), h.cap⟩
  have haway : Away ⟨s.accepted, clock⟩ { s with nextToken := tokenAfter s.nextToken, accepted := s.accepted + 1 } :=
    ⟨hout, Nat.lt_succ_self _, hroom⟩
  refine (@Inv.insert _ _ s.nextToken (.reading ⟨s.accepted, clock⟩ (clock + CONTROL_TIMEOUT))
    (hopened.note haway ?_) (haway.note _) ?_).rearm
  · rw [show _ = [] from hunseen]
    exact trivial
  · refine (told_note_self _).trans ?_
    rw [show _ = [] from hunseen]
    rfl

/-- The accept loop keeps what one accepted connection keeps. -/
theorem handleControl_rule {I Q : Server ρ → Prop} {C : Peer ρ → Prop}
    (htoken : ∀ s, I s → I { s with nextToken := tokenAfter s.nextToken })
    (hone : ∀ s peer, C peer → I s → s.conns.length < MAX_CONTROL_CONNECTIONS → ∀ r,
      handleControlConnection decode peer.answers (acceptConn peer.clock s).1 (acceptConn peer.clock s).2 = r →
        I r.2 ∧ (r.1 = true → Q r.2)) :
    ∀ peers : List (Peer ρ), (∀ peer ∈ peers, C peer) → ∀ s, I s →
      I (handleControl decode peers s).2 ∧ ((handleControl decode peers s).1 = true → Q (handleControl decode peers s).2) := by
  intro peers
  induction peers with
  | nil => exact fun _ s h => ⟨h, Bool.noConfusion⟩
  | cons peer peers ih =>
    intro hpeers s h
    obtain ⟨hpeer, hpeers⟩ := List.forall_mem_cons.mp hpeers
    unfold handleControl
    by_cases hallowed : (!peer.allowed) = true
    · rw [if_pos hallowed]
      exact ih hpeers s h
    rw [if_neg hallowed]
    by_cases hfull : MAX_CONTROL_CONNECTIONS ≤ s.conns.length
    · rw [if_pos hfull]
      exact ih hpeers s h
    rw [if_neg hfull]
    by_cases hwatched : (!peer.watched) = true
    · rw [if_pos hwatched]
      exact ih hpeers _ (htoken s h)
    rw [if_neg hwatched]
    dsimp only
    cases hr : handleControlConnection decode peer.answers (acceptConn peer.clock s).1 (acceptConn peer.clock s).2 with
    | mk stop t =>
      have hfirst := hone s peer hpeer h (Nat.not_le.mp hfull) _ hr
      cases stop with
      | true => exact hfirst
      | false => exact ih hpeers t hfirst.1

theorem handleControl_spec (peers : List (Peer ρ)) (h : Inv s) : Inv (handleControl decode peers s).2 ∧
    ((handleControl decode peers s).1 = true → AskedToStop (handleControl decode peers s).2) := by
  refine handleControl_rule (I := Inv) (Q := AskedToStop) (C := fun _ => True) ?_ ?_ peers (fun _ _ => trivial) s h
  · exact fun s h => ⟨h.distinct, h.known, h.stage, h.lawful, h.unseen, h.cap⟩
  · rintro s peer - h hroom r rfl
    exact handleControlConnection_spec peer.answers (acceptConn peer.clock s).1 (acceptConn_inv peer.clock h hroom)

/-! ### Runs -/

/-- What one event preserves. -/
theorem handle_spec (ev : Event ρ) (h : Inv s) :
    Inv (handle decode ev s).2 ∧ ((handle decode ev s).1 = true → AskedToStop (handle decode ev s).2) := by
  cases ev with
  | accept peers => exact handleControl_spec peers h
  | ready token answers => exact handleControlConnection_spec answers token h
  | timeout clock out => exact ⟨expire_spec clock out h, Bool.noConfusion⟩
  | complete c => exact ⟨(completeWaitingControls_spec c h).1, Bool.noConfusion⟩
  | converged converged subscribed idle => exact ⟨completeConvergence_spec converged subscribed idle h, Bool.noConfusion⟩

/-- The run lemma. -/
theorem run_inv_sessions (decode : List U8 → Option Request) (events : List (ℕ × Event ρ)) :
    Inv (run (step decode) .new events) :=
  run_inv_of_mem (I := Inv) (C := fun _ => True) (fun _ ev h _ => (handle_spec ev.2 h).1) inv_new fun _ _ => trivial

/-- **One request, one answer.**  Whatever arrives on which connection in whatever order, and whenever the reactor
completes the connections that wait: a connection is accepted, its request is executed, its answer is fixed and that
answer goes out, each at most once and in this order; there are never more connections than the cap; and only a stop
request that was executed tells the loop to stop. -/
theorem exchanges_are_lawful (decode : List U8 → Option Request) (events : List (ℕ × Event ρ)) :
    (∀ id, Lawful ((run (step decode) .new events).told id)) ∧
      (run (step decode) .new events).conns.length ≤ MAX_CONTROL_CONNECTIONS ∧
      ∀ ev : Event ρ, (handle decode ev (run (step decode) .new events)).1 = true →
        AskedToStop (handle decode ev (run (step decode) .new events)).2 := by
  have hinv := run_inv_sessions decode events
  exact ⟨hinv.lawful, hinv.cap, fun ev => (handle_spec ev hinv).2⟩

end Connections

end FluxRs.Control
