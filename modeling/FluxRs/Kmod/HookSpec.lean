import FluxRs.Lib.Run
import FluxRs.Kmod.Hook
import FluxRs.Kmod.Refine

/-!
# FluxRs.Kmod.HookSpec — the UID table, the classification and runs of packets

The table `fluxrs_set_uids` publishes is the sorted set of real app UIDs, the verdict of the hook is
a conjunction of its tests, and packets and worker steps leave everything but the queue alone.
-/

namespace FluxRs.Kmod

open FluxRs.Lib FluxRs.Net
open Std (ExtTreeMap ExtTreeSet)

/-! ### The published UID table -/

/-- A UID the hook may ever select. -/
def AppUid (uid : U32) : Prop := uid ≠ 0 ∧ uid ≠ overflowUid

instance (uid : U32) : Decidable (AppUid uid) := inferInstanceAs (Decidable (_ ∧ _))

/-- The occupied slots of the table. -/
def Kernel.published (k : Kernel) : List U32 := k.uidSorted.take k.uidN

/-- The occupied slots are strictly increasing. -/
structure Kernel.TableOk (k : Kernel) : Prop where
  sorted : k.published.Pairwise (· < ·)
  bound : k.uidN ≤ k.uidSorted.length

theorem Kernel.TableOk.strictOn {k : Kernel} (h : k.TableOk) :
    StrictOn (fun i => k.uidSorted.getD i 0) 0 k.uidN := by
  intro i j _ hij hj
  have hjl : j < k.uidSorted.length := lt_of_lt_of_le hj h.bound
  have hil : i < k.uidSorted.length := hij.trans hjl
  have hpw := List.pairwise_iff_getElem.mp h.sorted i j (by simp [Kernel.published]; omega)
    (by simp [Kernel.published]; omega) hij
  simp only [Kernel.published, List.getElem_take] at hpw
  simpa [List.getD_eq_getElem?_getD, hil, hjl] using hpw

/-- The binary search decides membership in the published table. -/
theorem uidSelected_iff {k : Kernel} (h : k.TableOk) {uid : U32} :
    uidSelected k uid = true ↔ AppUid uid ∧ uid ∈ k.published := by
  unfold uidSelected
  by_cases hr : uid = 0 ∨ uid = overflowUid
  · rw [if_pos (by simpa using hr)]
    simp only [Bool.false_eq_true, AppUid, false_iff]
    tauto
  · rw [if_neg (by simpa using hr), bsearch_isSome_iff h.strictOn (by omega)]
    have hmem : uid ∈ k.published ↔ ∃ i, 0 ≤ i ∧ i < k.uidN ∧ k.uidSorted.getD i 0 = uid := by
      unfold Kernel.published
      rw [List.mem_take_iff_getElem]
      constructor
      · rintro ⟨i, hi, rfl⟩
        have hil : i < k.uidSorted.length := by omega
        exact ⟨i, Nat.zero_le i, by omega, by simp [List.getD_eq_getElem?_getD, hil]⟩
      · rintro ⟨i, -, hi, rfl⟩
        have hil : i < k.uidSorted.length := lt_of_lt_of_le hi h.bound
        exact ⟨i, by omega, by simp [List.getD_eq_getElem?_getD, hil]⟩
    rw [hmem]
    unfold AppUid
    tauto

section Publish

variable (srt : Sorter)

theorem mem_uidTable_iff (u : Uids) {uid : U32} :
    uid ∈ uidTable srt u ↔ uid ∈ u.uids.take u.count.toNat ∧ AppUid uid := by
  have hfilter : uid ∈ (u.uids.take u.count.toNat).filter (fun u => !(u == 0 || u == overflowUid)) ↔
      uid ∈ u.uids.take u.count.toNat ∧ AppUid uid := by
    simp [AppUid]
  unfold uidTable
  simp only
  split_ifs with h
  · rw [mem_uniqueKey_sort, hfilter]
  · exact hfilter

/-- The slots that count are the list handed to `set_uids`. -/
theorem uidsBody_take {uids : List U32} (hlen : uids.length ≤ uidSlotMax) :
    (uidsBody uids).uids.take (uidsBody uids).count.toNat = uids := by
  have hcount : (uidsBody uids).count.toNat = uids.length := by
    simp only [uidsBody, BitVec.toNat_ofNat]
    exact Nat.mod_eq_of_lt (by unfold uidSlotMax at hlen; omega)
  rw [hcount]
  exact List.take_left

theorem mem_uidTable {uids : List U32} (hlen : uids.length ≤ uidSlotMax) {uid : U32} :
    uid ∈ uidTable srt (uidsBody uids) ↔ uid ∈ uids ∧ AppUid uid := by
  rw [mem_uidTable_iff, uidsBody_take hlen]

theorem uidTable_pairwise (u : Uids) : (uidTable srt u).Pairwise (· < ·) := by
  unfold uidTable
  simp only
  split_ifs with h
  · exact compact_pairwise_lt (sort_cmpKey_pairwise srt _)
  · -- nothing was sorted: at most one UID is left
    generalize (u.uids.take u.count.toNat).filter _ = tmp at h
    match tmp with
    | [] => exact List.Pairwise.nil
    | [x] => exact List.pairwise_singleton _ _
    | x :: y :: rest => simp at h

theorem setUids_published (k : Kernel) (table : List U32) :
    (k.setUids table).published = table := by
  simp [Kernel.published, Kernel.setUids]

theorem setUids_tableOk (k : Kernel) {table : List U32} (h : table.Pairwise (· < ·)) :
    (k.setUids table).TableOk where
  sorted := by rwa [setUids_published]
  bound := by simp [Kernel.setUids]

/-- **The UID table.**  Once a submission is accepted the table is strictly increasing, and the binary
search finds exactly the submitted UIDs that are neither root nor the overflow UID. -/
theorem setUids_selects {u : Uids} {alloc : Bool} {table : List U32}
    (h : setUidsTable srt alloc u = .ok table) (k : Kernel) :
    (k.setUids table).published.Pairwise (· < ·) ∧
      ∀ uid, uidSelected (k.setUids table) uid = true ↔
        uid ∈ u.uids.take u.count.toNat ∧ uid ≠ 0 ∧ uid ≠ overflowUid := by
  have htable : uidTable srt u = table := by
    unfold setUidsTable at h
    split at h
    · cases h
    · split at h
      · cases h
      · exact Except.ok.inj h
  have hsorted : table.Pairwise (· < ·) := htable ▸ uidTable_pairwise srt u
  have hok := setUids_tableOk k hsorted
  refine ⟨hok.sorted, fun uid => ?_⟩
  rw [uidSelected_iff hok, setUids_published, ← htable, mem_uidTable_iff]
  constructor
  · rintro ⟨-, hmem, happ⟩
    exact ⟨hmem, happ⟩
  · rintro ⟨hmem, happ⟩
    exact ⟨happ, hmem, happ⟩

/-- Three of five submitted slots name two UIDs. -/
theorem setUids_selects_repeated :
    uidSelected ((Kernel.init true).setUids [10123, 10456]) 10123 = true ∧
      uidSelected ((Kernel.init true).setUids [10123, 10456]) 0 = false := by
  have h := (@setUids_selects insertionSorter (uidsBody [10456, 0, 10123, overflowUid, 10456]) true
    [10123, 10456] rfl (.init true)).2
  refine ⟨(h 10123).mpr (by decide), Bool.eq_false_iff.mpr fun hsel => ?_⟩
  exact ((h 0).mp hsel).2.1 rfl

end Publish

/-! ### The verdict as a conjunction -/

section Verdicts

variable (e : Endian)

/-- Everything the hook asks of a packet except its protocol and the room in the queue. -/
structure Eligible (k : Kernel) (skb : Skb) : Prop where
  live : k.live = true
  owner : ∃ sk, skb.sk = some sk ∧ sk.fullsock = true ∧ AppUid sk.uid ∧
    uidSelected k sk.uid = true
  notReserved : reservedDest e k.listeners skb.ip.dest = false
  notDirect : policyDirect e k skb.ip.dest = false
  ready : k.listenersSet = true ∧ k.symReady = true

theorem steals_iff {k : Kernel} {skb : Skb} :
    steals e k skb = true ↔
      Eligible e k skb ∧ protoStealable skb.ip.headerProto = true ∧ k.stealQ.length < stealQMax := by
  unfold steals
  constructor
  · intro h
    split at h
    · simp at h
    · rename_i hlive
      split at h
      · simp at h
      · rename_i sk hsk
        split_ifs at h with h1 h2 h3 h4 h5 h6 h7 h8
        simp only [Bool.or_eq_true, beq_iff_eq, not_or, Bool.not_eq_true', Bool.not_eq_true,
          not_le, Bool.not_eq_false] at hlive h1 h2 h3 h4 h5 h6 h7 h8
        exact ⟨⟨hlive, ⟨sk, hsk, h1, h2, h3⟩, h4, h5, h7⟩, h6, h8⟩
  · rintro ⟨⟨hlive, ⟨sk, hsk, hfull, ⟨hu1, hu2⟩, hsel⟩, hres, hdir, hl, hsym⟩, hproto, hq⟩
    simp [hlive, hsk, hfull, hsel, hres, hdir, hproto, hl, hsym, hq]
    exact ⟨hu1, hu2⟩

theorem localOut_stolen_iff {k : Kernel} {skb : Skb} :
    (localOut e k skb).2 = .stolen ↔ steals e k skb = true := by
  unfold localOut
  split_ifs with h <;> simp [h]

theorem localOut_accept_iff {k : Kernel} {skb : Skb} :
    (localOut e k skb).2 = .accept ↔ ¬ steals e k skb = true := by
  unfold localOut
  split_ifs with h <;> simp [h]

/-- `k'` is `k` with another queue. -/
def OnlyQueue (k k' : Kernel) : Prop := ∃ q, k' = { k with stealQ := q }

theorem OnlyQueue.trans {k k' k'' : Kernel} (h : OnlyQueue k k') (h' : OnlyQueue k' k'') :
    OnlyQueue k k'' := by
  obtain ⟨q, rfl⟩ := h
  obtain ⟨q', rfl⟩ := h'
  exact ⟨q', rfl⟩

/-- Two packets of one socket to one destination are eligible together. -/
theorem Eligible.congr {k k' : Kernel} {p q : Skb} (h : Eligible e k p) (hk : OnlyQueue k k')
    (hsk : q.sk = p.sk) (hd : q.ip.dest = p.ip.dest) : Eligible e k' q := by
  obtain ⟨queue, rfl⟩ := hk
  obtain ⟨hlive, howner, hres, hdir, hready⟩ := h
  exact ⟨hlive, hsk ▸ howner, hd ▸ hres, hd ▸ hdir, hready⟩

end Verdicts

/-! ### Runs of packets and worker steps -/

/-- What happens to the hook while no control operation runs. -/
inductive HookEvent where
  | packet (skb : Skb)
  | work (out : StealOut)

section Runs

variable (e : Endian)

def hookStep (k : Kernel) : HookEvent → Kernel
  | .packet skb => (localOut e k skb).1
  | .work out => (stealWork k out).1

def hookRun (k : Kernel) (evs : List HookEvent) : Kernel := run (hookStep e) k evs

theorem hookStep_onlyQueue (k : Kernel) (ev : HookEvent) : OnlyQueue k (hookStep e k ev) := by
  cases ev with
  | packet skb =>
    change OnlyQueue k (localOut e k skb).1
    unfold localOut
    split_ifs
    · exact ⟨_, rfl⟩
    · exact ⟨k.stealQ, rfl⟩
  | work out =>
    change OnlyQueue k (stealWork k out).1
    unfold stealWork
    cases h : k.stealQ with
    | nil => exact ⟨k.stealQ, rfl⟩
    | cons skb rest => exact ⟨rest, rfl⟩

/-- Whatever the interleaving, only the queue changes. -/
theorem hookRun_onlyQueue (evs : List HookEvent) :
    ∀ k : Kernel, OnlyQueue k (hookRun e k evs) := by
  induction evs with
  | nil => exact fun k => ⟨k.stealQ, rfl⟩
  | cons ev evs ih => exact fun k => (hookStep_onlyQueue e k ev).trans (ih _)

/-- The first header of a TCP or UDP packet can be stolen exactly when no extension header precedes
the transport header. -/
theorem protoStealable_headerProto {ip : Ip} (h : protoStealable ip.transport = true) :
    protoStealable ip.headerProto = true ↔ ip.exts = [] := by
  cases ip with
  | v4 daddr protocol => exact ⟨fun _ => rfl, fun _ => h⟩
  | v6 daddr exts upper =>
    cases exts with
    | nil => exact ⟨fun _ => rfl, fun _ => h⟩
    | cons x xs => cases x <;> simp [Ip.headerProto, Ip.exts, protoStealable, ExtHdr.proto] <;> decide

/-- **When a captured TCP flow leaks.**  After one TCP packet of a socket was stolen, and through any
interleaving of packets and worker steps, a later TCP packet of the socket to that destination is
accepted exactly when the queue is full or an extension header hides its TCP header. -/
theorem captured_flow_accept_iff (k : Kernel) (p q : Skb) (evs : List HookEvent)
    (hsk : q.sk = p.sk) (hdest : q.ip.dest = p.ip.dest) (hq : q.ip.transport = ipprotoTcp)
    (hp : (localOut e k p).2 = .stolen) :
    (localOut e (hookRun e (localOut e k p).1 evs) q).2 ≠ .accept ↔
      (hookRun e (localOut e k p).1 evs).stealQ.length < stealQMax ∧ q.ip.exts = [] := by
  rw [localOut_stolen_iff, steals_iff] at hp
  have hframe : OnlyQueue k (hookRun e (localOut e k p).1 evs) :=
    (hookStep_onlyQueue e k (.packet p)).trans (hookRun_onlyQueue e evs _)
  have helig := hp.1.congr e hframe hsk hdest
  rw [Ne, localOut_accept_iff, not_not, steals_iff,
    protoStealable_headerProto (by rw [hq]; decide)]
  constructor
  · rintro ⟨-, hx, hlen⟩
    exact ⟨hlen, hx⟩
  · rintro ⟨hlen, hx⟩
    exact ⟨helig, hx, hlen⟩

end Runs

/-! ### One flow that leaks -/

/-- A module with one selected UID, a published listener and an empty queue. -/
def armedKernel : Kernel where
  live := true
  symReady := true
  uidSorted := 10123 :: List.replicate 1023 0
  uidN := 1
  listeners := ⟨0x016433c6, 0x53ee, octets listenV6, 0x53ee⟩
  listenersSet := true
  bypassLive := some ⟨0, [], [], fillOff 32 ([] : List Pfx4Live), fillOff 128 ([] : List Pfx6Live),
    [], []⟩
  stealQ := []

/-- The socket of the app and its TCP segment to 2001:4860:4860::8888, behind `exts`. -/
def tcpSegment (exts : List ExtHdr) : Skb where
  sk := some ⟨1, true, 10123⟩
  ip := .v6 0x20014860486000000000000000008888 exts ipprotoTcp

theorem captured_flow_accept_iff_plain :
    (localOut .little armedKernel (tcpSegment [])).2 = .stolen ∧
      ((localOut .little (hookRun .little (localOut .little armedKernel (tcpSegment [])).1
          [.packet (tcpSegment []), .work ⟨true, true, true, true, true⟩]) (tcpSegment [])).2 ≠ .accept ↔
        (hookRun .little (localOut .little armedKernel (tcpSegment [])).1
          [.packet (tcpSegment []), .work ⟨true, true, true, true, true⟩]).stealQ.length < stealQMax ∧
        (tcpSegment []).ip.exts = []) :=
  ⟨by decide, captured_flow_accept_iff .little armedKernel (tcpSegment []) (tcpSegment [])
    [.packet (tcpSegment []), .work ⟨true, true, true, true, true⟩] rfl rfl rfl (by decide)⟩

/-- A destination-options header on the next segment of a stolen flow lets it out. -/
theorem captured_flow_leaks :
    ¬ ∀ (e : Endian) (k : Kernel) (p q : Skb) (evs : List HookEvent), q.sk = p.sk →
      q.ip.dest = p.ip.dest → p.ip.transport = ipprotoTcp → q.ip.transport = ipprotoTcp →
      (localOut e k p).2 = .stolen →
      (localOut e (hookRun e (localOut e k p).1 evs) q).2 ≠ .accept := by
  intro h
  exact h .little armedKernel (tcpSegment []) (tcpSegment [.destOpts]) [] rfl rfl rfl rfl
    (by decide) (by decide)

end FluxRs.Kmod
