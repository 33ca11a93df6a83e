import FluxRs.Bpf.Admission
import FluxRs.Lib.Run

/-!
# FluxRs.Bpf.Sockets — invocations of the classifier on one socket

Several processors may run `cap_core` for one socket while the daemon publishes snapshots.  An
invocation is cut where it reads what the others change: the control root, which it looks up once, and
the storage of the socket.  What it reads of a bank is what the snapshot in its hand names.
-/

namespace FluxRs.Bpf

open FluxRs.Lib FluxRs.Net FluxRs.Dataplane

/-- Where an invocation stands. -/
inductive Stage where
  | entered
  | holding (bank : Bank) (c : FluxControl)
  | admitted (bank : Bank) (c : FluxControl) (mode : U8)
  | unmarked (bank : Bank) (c : FluxControl) (mode : U8)
  | creating (c : FluxControl) (cand : FluxDecision)
  | rereading (c : FluxControl)
  | returned (act : Act)

structure Call where
  skb : SkBuff
  l3 : Bool
  env : Helpers
  stage : Stage

structure SocketState where
  maps : Maps
  root : Option FluxControl
  storage : Option FluxDecision
  calls : List Call

inductive SocketEvent where
  | publish (maps : Maps) (root : Option FluxControl)
  | packet (skb : SkBuff) (l3 : Bool) (env : Helpers)
  | advance (i : ℕ)

section Steps

variable (lpmLookup : ∀ w, List (Entry (BitVec w) U8) → BitVec w → Option U8)

/-- One read and what follows from it: the next stage, and the storage afterwards. -/
def advanceCall (s : SocketState) (call : Call) : Stage × Option FluxDecision :=
  match call.stage with
  | .entered =>
    if !identified call.skb call.l3 then (.returned .unspec, s.storage)
    else match ctrl s.root with
      | none => (.returned .unspec, s.storage)
      | some c => (.holding (s.maps.live c) c, s.storage)
  | .holding bank c =>
    match bank.uidPolicy[call.skb.uid]? with
    | none => (.returned .unspec, s.storage)
    | some mode => (.admitted bank c mode, s.storage)
  | .admitted bank c mode =>
    match s.storage with
    | some d => (.returned (onDecision call.env c call.l3 d), s.storage)
    | none => (.unmarked bank c mode, s.storage)
  | .unmarked bank c mode =>
    match undecided lpmLookup bank call.env c mode call.skb call.l3 with
    | .done act => (.returned act, s.storage)
    | .create cand => (.creating c cand, s.storage)
  | .creating c cand =>
    match createDecision call.env.createNull s.storage cand with
    | (some d, after) => (.returned (obeyWinner call.env c call.l3 d), after)
    | (none, after) => (.rereading c, after)
  | .rereading c =>
    match s.storage with
    | some d => (.returned (obeyWinner call.env c call.l3 d), s.storage)
    | none => (.returned .unspec, s.storage)
  | .returned act => (.returned act, s.storage)

def socketStep (s : SocketState) : SocketEvent → SocketState
  | .publish maps root => { s with maps := maps, root := root }
  | .packet skb l3 env => { s with calls := s.calls ++ [⟨skb, l3, env, .entered⟩] }
  | .advance i =>
    match s.calls[i]? with
    | none => s
    | some call =>
      let (stage, storage) := advanceCall lpmLookup s call
      { s with storage := storage, calls := s.calls.set i { call with stage := stage } }

variable {lpmLookup}

theorem socketStep_advance_none {s : SocketState} {i : ℕ} (h : s.calls[i]? = none) :
    socketStep lpmLookup s (.advance i) = s := by
  simp only [socketStep, h]

theorem socketStep_advance_some {s : SocketState} {i : ℕ} {call : Call} (h : s.calls[i]? = some call) :
    socketStep lpmLookup s (.advance i) =
      { s with
        storage := (advanceCall lpmLookup s call).2
        calls := s.calls.set i { call with stage := (advanceCall lpmLookup s call).1 } } := by
  simp only [socketStep, h]

/-! ### One invocation alone -/

/-- **The stages compose to `cap_core`** when nothing else happens in between. -/
theorem run_alone (maps : Maps) (root : Option FluxControl) (storage : Option FluxDecision)
    (skb : SkBuff) (l3 : Bool) (env : Helpers) :
    run (socketStep lpmLookup) ⟨maps, root, storage, [⟨skb, l3, env, .entered⟩]⟩
        (List.replicate 6 (.advance 0)) =
      ⟨maps, root, (capCore lpmLookup maps root storage skb l3 env).2,
        [⟨skb, l3, env, .returned (capCore lpmLookup maps root storage skb l3 env).1⟩]⟩ := by
  have hstay : ∀ (n : ℕ) (st : Option FluxDecision) (act : Act),
      run (socketStep lpmLookup) ⟨maps, root, st, [⟨skb, l3, env, .returned act⟩]⟩
        (List.replicate n (.advance 0)) = ⟨maps, root, st, [⟨skb, l3, env, .returned act⟩]⟩ := by
    intro n st act
    induction n with
    | zero => rfl
    | succ n ih => exact ih
  have hone : ∀ (n : ℕ) (st : Option FluxDecision) (stage : Stage),
      run (socketStep lpmLookup) ⟨maps, root, st, [⟨skb, l3, env, stage⟩]⟩
        (List.replicate (n + 1) (.advance 0)) =
      run (socketStep lpmLookup) ⟨maps, root,
          (advanceCall lpmLookup ⟨maps, root, st, [⟨skb, l3, env, stage⟩]⟩ ⟨skb, l3, env, stage⟩).2,
          [⟨skb, l3, env,
            (advanceCall lpmLookup ⟨maps, root, st, [⟨skb, l3, env, stage⟩]⟩ ⟨skb, l3, env, stage⟩).1⟩]⟩
        (List.replicate n (.advance 0)) := fun _ _ _ => rfl
  rw [hone]
  unfold capCore
  cases hid : identified skb l3 with
  | false =>
    simp only [advanceCall, hid, Bool.not_false, if_true]
    exact hstay _ _ _
  | true =>
    simp only [advanceCall, hid, Bool.not_true, Bool.false_eq_true, if_false]
    cases hc : ctrl root with
    | none => exact hstay _ _ _
    | some c =>
      simp only
      rw [hone]
      simp only [advanceCall]
      cases hm : (maps.live c).uidPolicy[skb.uid]? with
      | none => exact hstay _ _ _
      | some mode =>
        simp only
        rw [hone]
        cases storage with
        | some d => exact hstay _ _ _
        | none =>
          simp only [advanceCall]
          rw [hone]
          simp only [advanceCall]
          cases hu : undecided lpmLookup (maps.live c) env c mode skb l3 with
          | done act => exact hstay _ _ _
          | create cand =>
            simp only
            rw [hone]
            simp only [advanceCall, createDecision]
            cases env.createNull with
            | true => rfl
            | false => exact hstay _ _ _

/-! ### Runs of the socket -/

/-- The snapshot is of this ABI, and its live bank lists the UID. -/
def Listed (uid : U32) (maps : Maps) (root : Option FluxControl) : Prop :=
  ∃ c, ctrl root = some c ∧
    ((maps.live c).uidPolicy[uid]? = some UidMode.selected.asU8 ∨
      (maps.live c).uidPolicy[uid]? = some UidMode.draining.asU8)

/-- An IP packet without a VLAN tag, of a full socket of the UID. -/
structure Egress (uid : U32) (skb : SkBuff) (l3 : Bool) : Prop where
  family : skb.protocol = ethPIp ∨ skb.protocol = ethPIpv6
  untagged : l3 = true ∨ skb.vlanPresent = false
  full : ∃ sk, skb.sk = some sk ∧ sk.fullsock = true
  owner : skb.uid = uid

/-- What may happen around the socket. -/
def Allowed (uid : U32) : SocketEvent → Prop
  | .publish maps root => Listed uid maps root
  | .packet skb l3 _ => Egress uid skb l3
  | .advance _ => True

/-- The invocation has looked at the storage, and found no decision. -/
def Stage.Missed : Stage → Prop
  | .unmarked _ _ _ => True
  | .returned _ => True
  | _ => False

/-- Such a packet passes E0 and E1. -/
theorem Egress.identified {uid : U32} (huid : uid ≠ overflowUid) {skb : SkBuff} {l3 : Bool}
    (h : Egress uid skb l3) : identified skb l3 = true := by
  obtain ⟨sk, hsk, hfull⟩ := h.full
  unfold Bpf.identified
  rw [if_neg (by rintro ⟨h4, h6⟩; exact h.family.elim h4 h6), if_neg, hsk]
  · show (sk.fullsock && skb.uid != overflowUid) = true
    rw [hfull, h.owner, Bool.true_and, bne_iff_ne]
    exact huid
  · rcases h.untagged with hl | hv
    · rw [hl]
      exact Bool.false_ne_true
    · rw [hv, Bool.and_false]
      exact Bool.false_ne_true

/-- A packet handed off is redirected or dropped. -/
theorem handoff_ne_unspec (env : Helpers) (c : FluxControl) (l3 : Bool) : handoff env c l3 ≠ .unspec := by
  unfold handoff
  split_ifs <;> exact Act.noConfusion

theorem obeyWinner_ne_unspec (env : Helpers) (c : FluxControl) (l3 : Bool) {d : FluxDecision}
    (hd : d.mode = decCaptured) : obeyWinner env c l3 d ≠ .unspec := by
  unfold obeyWinner
  rw [if_neg (by rw [hd]; decide), if_neg (fun h => h hd)]
  split_ifs
  · exact Act.noConfusion
  · exact Act.noConfusion
  · exact handoff_ne_unspec env c l3

theorem onDecision_ne_unspec (env : Helpers) (c : FluxControl) (l3 : Bool) {d : FluxDecision}
    (hd : d.mode = decCaptured) : onDecision env c l3 d ≠ .unspec := by
  unfold onDecision
  split_ifs
  · exact Act.noConfusion
  · rename_i hdir
    rw [hd] at hdir
    exact absurd hdir (by decide)
  · exact Act.noConfusion
  · exact Act.noConfusion
  · exact Act.noConfusion
  · exact handoff_ne_unspec env c l3

/-- An invocation on its way: its packet is one of the socket, and the bank in its hand lists the UID. -/
def Call.Listed (uid : U32) (call : Call) : Prop :=
  Egress uid call.skb call.l3 ∧
    match call.stage with
    | .holding bank _ => (bank.uidPolicy[uid]?).isSome = true
    | _ => True

/-- What holds of the socket in every run. -/
structure SocketInv (uid : U32) (s : SocketState) : Prop where
  live : Listed uid s.maps s.root
  calls : ∀ call ∈ s.calls, call.Listed uid

/-- Once a decision is captured, no invocation that may still find it ends in `unspec`. -/
structure CapturedInv (uid : U32) (d : FluxDecision) (missed : ℕ → Prop) (s : SocketState) : Prop where
  inv : SocketInv uid s
  storage : s.storage = some d
  outcome : ∀ i call act, s.calls[i]? = some call → ¬ missed i →
    ¬ (∃ bank c mode, call.stage = .unmarked bank c mode) ∧ (call.stage = .returned act → act ≠ .unspec)

section Preserved

variable {uid : U32} (huid : uid ≠ overflowUid) {s : SocketState}

theorem Listed.isSome {maps : Maps} {root : Option FluxControl} (h : Listed uid maps root) {c : FluxControl}
    (hc : ctrl root = some c) : ((maps.live c).uidPolicy[uid]?).isSome = true := by
  obtain ⟨c', hc', hm⟩ := h
  obtain rfl := Option.some.inj (hc.symm.trans hc')
  rcases hm with h | h
  · rw [h]
    rfl
  · rw [h]
    rfl

include huid in
/-- One read keeps what an invocation carries. -/
theorem advanceCall_listed (hs : SocketInv uid s) {call : Call} (hcall : call.Listed uid) :
    Call.Listed uid { call with stage := (advanceCall lpmLookup s call).1 } := by
  refine ⟨hcall.1, ?_⟩
  unfold advanceCall
  cases hst : call.stage with
  | entered =>
    simp only [hcall.1.identified huid, Bool.not_true, Bool.false_eq_true, if_false]
    cases hc : ctrl s.root with
    | none => trivial
    | some c => exact hs.live.isSome hc
  | holding bank c =>
    simp only
    cases bank.uidPolicy[call.skb.uid]? <;> trivial
  | admitted bank c mode =>
    simp only
    cases s.storage <;> trivial
  | unmarked bank c mode =>
    simp only
    cases undecided lpmLookup bank call.env c mode call.skb call.l3 <;> trivial
  | creating c cand =>
    simp only
    rcases createDecision call.env.createNull s.storage cand with ⟨_ | d, after⟩ <;> trivial
  | rereading c =>
    simp only
    cases s.storage <;> trivial
  | returned act => trivial

include huid in
/-- With a captured decision stored, one read leaves it alone, and ends in no `unspec` of its own. -/
theorem advanceCall_captured (hs : SocketInv uid s) {d : FluxDecision} (hd : s.storage = some d)
    (hcap : d.mode = decCaptured) {call : Call} (hcall : call.Listed uid) :
    (advanceCall lpmLookup s call).2 = some d ∧
      ((¬ ∃ bank c mode, call.stage = .unmarked bank c mode) →
        (∀ act, call.stage = .returned act → act ≠ .unspec) →
        (¬ ∃ bank c mode, (advanceCall lpmLookup s call).1 = .unmarked bank c mode) ∧
          ∀ act, (advanceCall lpmLookup s call).1 = .returned act → act ≠ .unspec) := by
  have hobey : ∀ c, obeyWinner call.env c call.l3 d ≠ .unspec :=
    fun c => obeyWinner_ne_unspec call.env c call.l3 hcap
  unfold advanceCall
  cases hst : call.stage with
  | entered =>
    simp only [hcall.1.identified huid, Bool.not_true, Bool.false_eq_true, if_false]
    obtain ⟨c, hc, -⟩ := hs.live
    rw [hc]
    exact ⟨hd, fun _ _ => ⟨fun ⟨_, _, _, h⟩ => Stage.noConfusion h, fun _ h => Stage.noConfusion h⟩⟩
  | holding bank c =>
    have hin := hcall.2
    rw [hst] at hin
    obtain ⟨mode, hmode⟩ := Option.isSome_iff_exists.mp hin
    rw [← hcall.1.owner] at hmode
    simp only [hmode]
    exact ⟨hd, fun _ _ => ⟨fun ⟨_, _, _, h⟩ => Stage.noConfusion h, fun _ h => Stage.noConfusion h⟩⟩
  | admitted bank c mode =>
    simp only [hd]
    refine ⟨trivial, fun _ _ => ⟨fun ⟨_, _, _, h⟩ => Stage.noConfusion h, fun act h => ?_⟩⟩
    rw [← Stage.returned.inj h]
    exact onDecision_ne_unspec _ _ _ hcap
  | unmarked bank c mode =>
    refine ⟨?_, fun hno => absurd ⟨bank, c, mode, rfl⟩ hno⟩
    simp only
    cases undecided lpmLookup bank call.env c mode call.skb call.l3 <;> exact hd
  | creating c cand =>
    simp only [createDecision, hd]
    cases call.env.createNull with
    | true =>
      exact ⟨rfl, fun _ _ => ⟨fun ⟨_, _, _, h⟩ => Stage.noConfusion h, fun _ h => Stage.noConfusion h⟩⟩
    | false =>
      refine ⟨rfl, fun _ _ => ⟨fun ⟨_, _, _, h⟩ => Stage.noConfusion h, fun act h => ?_⟩⟩
      rw [← Stage.returned.inj h]
      exact hobey c
  | rereading c =>
    simp only [hd]
    refine ⟨trivial, fun _ _ => ⟨fun ⟨_, _, _, h⟩ => Stage.noConfusion h, fun act h => ?_⟩⟩
    rw [← Stage.returned.inj h]
    exact hobey c
  | returned act => exact ⟨hd, fun hno hret => ⟨hno, hret⟩⟩

include huid in
/-- Every allowed step keeps the invariant of the socket. -/
theorem socketStep_inv (hs : SocketInv uid s) {ev : SocketEvent} (hev : Allowed uid ev) :
    SocketInv uid (socketStep lpmLookup s ev) := by
  cases ev with
  | publish maps root => exact ⟨hev, hs.calls⟩
  | packet skb l3 env =>
    refine ⟨hs.live, fun call hin => ?_⟩
    rcases List.mem_append.mp hin with h | h
    · exact hs.calls call h
    · rw [List.mem_singleton.mp h]
      exact ⟨hev, trivial⟩
  | advance i =>
    cases hi : s.calls[i]? with
    | none =>
      rw [socketStep_advance_none hi]
      exact hs
    | some call =>
      rw [socketStep_advance_some hi]
      refine ⟨hs.live, fun call' hin => ?_⟩
      rcases List.mem_or_eq_of_mem_set hin with h | rfl
      · exact hs.calls call' h
      · exact advanceCall_listed huid hs (hs.calls call (List.mem_of_getElem? hi))

include huid in
/-- Every allowed step keeps a captured decision and the outcomes under it. -/
theorem socketStep_captured {d : FluxDecision} (hcap : d.mode = decCaptured) {missed : ℕ → Prop}
    (hs : CapturedInv uid d missed s) {ev : SocketEvent} (hev : Allowed uid ev) :
    CapturedInv uid d missed (socketStep lpmLookup s ev) := by
  have hinv : SocketInv uid (socketStep lpmLookup s ev) := socketStep_inv huid hs.inv hev
  cases ev with
  | publish maps root => exact ⟨hinv, hs.storage, hs.outcome⟩
  | packet skb l3 env =>
    refine ⟨hinv, hs.storage, fun i call act hi hmiss => ?_⟩
    by_cases hlt : i < s.calls.length
    · exact hs.outcome i call act (by rwa [← List.getElem?_append_left hlt]) hmiss
    · have hnew : call = ⟨skb, l3, env, .entered⟩ := by
        have hright : (s.calls ++ [⟨skb, l3, env, .entered⟩])[i]? =
            [(⟨skb, l3, env, .entered⟩ : Call)][i - s.calls.length]? :=
          List.getElem?_append_right (not_lt.mp hlt)
        rw [← List.mem_singleton]
        exact List.mem_of_getElem? (hright.symm.trans hi)
      rw [hnew]
      exact ⟨fun ⟨_, _, _, h⟩ => Stage.noConfusion h, fun h => Stage.noConfusion h⟩
  | advance j =>
    cases hj : s.calls[j]? with
    | none =>
      rw [socketStep_advance_none hj]
      exact hs
    | some call =>
      rw [socketStep_advance_some hj] at hinv ⊢
      obtain ⟨hkept, hsafe⟩ := @advanceCall_captured lpmLookup uid huid s hs.inv d hs.storage hcap call
        (hs.inv.calls call (List.mem_of_getElem? hj))
      refine ⟨hinv, hkept, fun i call' act hi hmiss => ?_⟩
      by_cases hij : j = i
      · subst hij
        obtain ⟨hlt, -⟩ := List.getElem?_eq_some_iff.mp hj
        rw [List.getElem?_set_self hlt] at hi
        obtain rfl := Option.some.inj hi
        have hold := fun act => hs.outcome j call act hj hmiss
        obtain ⟨hno, hret⟩ := hsafe (hold .unspec).1 fun act => (hold act).2
        exact ⟨hno, hret act⟩
      · rw [List.getElem?_set_ne hij] at hi
        exact hs.outcome i call' act hi hmiss

end Preserved

/-- **A captured socket never leaks.**  From the moment the storage holds a captured decision it keeps
that decision, and no invocation returns `unspec` except one that had found the storage empty before. -/
theorem captured_never_leaks {uid : U32} (huid : uid ≠ overflowUid) {s : SocketState}
    (hs : Listed uid s.maps s.root) (hcalls : s.calls = []) {before after : List SocketEvent}
    (hev : ∀ ev ∈ before ++ after, Allowed uid ev) {d : FluxDecision}
    (hd : (run (socketStep lpmLookup) s before).storage = some d) (hcap : d.mode = decCaptured) :
    (run (socketStep lpmLookup) s (before ++ after)).storage = some d ∧
      ∀ (i : ℕ) (call : Call), (run (socketStep lpmLookup) s (before ++ after)).calls[i]? = some call →
        call.stage = .returned .unspec →
        ∃ earlier : Call, (run (socketStep lpmLookup) s before).calls[i]? = some earlier ∧
          earlier.stage.Missed := by
  have hinv : SocketInv uid (run (socketStep lpmLookup) s before) := by
    have h₀ : SocketInv uid s := ⟨hs, fun call hin => by rw [hcalls] at hin; cases hin⟩
    have hstep : ∀ t ev, SocketInv uid t → Allowed uid ev → SocketInv uid (socketStep lpmLookup t ev) :=
      fun t ev ht hv => socketStep_inv huid ht hv
    exact run_inv_of_mem hstep h₀ fun ev hin => hev ev (List.mem_append_left _ hin)
  -- what was missed at that moment is fixed from there on
  let missed : ℕ → Prop := fun i => ∃ earlier : Call,
    (run (socketStep lpmLookup) s before).calls[i]? = some earlier ∧ earlier.stage.Missed
  have hstart : CapturedInv uid d missed (run (socketStep lpmLookup) s before) := by
    refine ⟨hinv, hd, fun i call act hi hmiss => ⟨?_, fun hret => ?_⟩⟩
    · rintro ⟨bank, c, mode, hun⟩
      exact hmiss ⟨call, hi, by rw [hun]; trivial⟩
    · exact absurd ⟨call, hi, by rw [hret]; trivial⟩ hmiss
  have hend : CapturedInv uid d missed (run (socketStep lpmLookup) s (before ++ after)) := by
    have hstep : ∀ t ev, CapturedInv uid d missed t → Allowed uid ev →
        CapturedInv uid d missed (socketStep lpmLookup t ev) :=
      fun t ev ht hv => socketStep_captured huid hcap ht hv
    rw [run_append]
    exact run_inv_of_mem hstep hstart fun ev hin => hev ev (List.mem_append_right _ hin)
  refine ⟨hend.storage, fun i call hi hret => ?_⟩
  by_contra hmiss
  exact (hend.outcome i call .unspec hi hmiss).2 hret rfl

end Steps

/-! ### A captured connection -/

/-- Eight bytes of a header that does not parse. -/
def tornSkb : SkBuff := { synSkb with bytes := [0x45, 0, 0, 40, 0, 0, 0, 0] }

/-- The snapshot of a stopped data plane, in the next generation. -/
def stoppedControl : FluxControl := { activeControl with active := 0, generation := 6 }

/-- The first SYN is admitted while a second one is on its way. -/
def admitted : List SocketEvent :=
  [.packet synSkb true allSucceed, .packet synSkb true allSucceed, .advance 1, .advance 1] ++
    List.replicate 5 (.advance 0)

/-- A stop of the data plane, then a torn packet while the second SYN proceeds. -/
def disturbed : List SocketEvent :=
  [.publish selectedMaps (some stoppedControl), .packet tornSkb true allSucceed, .advance 2, .advance 1,
    .advance 2, .advance 2]

theorem captured_never_leaks_stopped :
    (run (socketStep scanLookup) ⟨selectedMaps, some activeControl, none, []⟩
        (admitted ++ disturbed)).storage = some ⟨decisionMagic, decCaptured, 0, 5⟩ ∧
      ((run (socketStep scanLookup) ⟨selectedMaps, some activeControl, none, []⟩
        (admitted ++ disturbed)).calls[2]?).map Call.stage ≠ some (.returned .unspec) := by
  have hegress : ∀ bytes, Egress 10123 { synSkb with bytes := bytes } true :=
    fun _ => ⟨.inl rfl, .inl rfl, ⟨_, rfl, rfl⟩, rfl⟩
  have hlisted : ∀ c : FluxControl, c.abiMagic = abiMagic → c.policyBank = 0 →
      Listed 10123 selectedMaps (some c) := by
    intro c hmagic hbank
    refine ⟨c, by simp [ctrl, hmagic], .inl ?_⟩
    rw [Maps.live, if_neg (fun h => h hbank)]
    exact (uidMode_bankOf selectedEpoch 10123).trans (if_pos (by decide))
  have hev : ∀ ev ∈ admitted ++ disturbed, Allowed 10123 ev := by
    intro ev hin
    simp only [admitted, disturbed, List.cons_append, List.nil_append, List.replicate, List.mem_cons,
      List.not_mem_nil, or_false] at hin
    rcases hin with rfl | rfl | rfl | rfl | rfl | rfl | rfl | rfl | rfl | rfl | rfl | rfl | rfl | rfl | rfl
    all_goals first
      | trivial
      | exact hegress _
      | exact hlisted stoppedControl rfl rfl
  have hd : (run (socketStep scanLookup) ⟨selectedMaps, some activeControl, none, []⟩ admitted).storage =
      some ⟨decisionMagic, decCaptured, 0, 5⟩ := by decide
  obtain ⟨hstored, hsafe⟩ := captured_never_leaks (by decide : (10123 : U32) ≠ overflowUid)
    (hlisted activeControl rfl rfl) rfl hev hd rfl
  refine ⟨hstored, fun hstage => ?_⟩
  obtain ⟨call, hcall, hret⟩ := Option.map_eq_some_iff.mp hstage
  obtain ⟨earlier, hearlier, -⟩ := hsafe 2 call hcall hret
  cases hearlier

end FluxRs.Bpf
