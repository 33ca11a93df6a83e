import FluxRs.Dataplane.Plane

/-!
# FluxRs.Dataplane.Commits — what commits leave behind, and what packets see of them

Over every sequence of operations: the draining ledger forgets no UID and the stored policy is the
committed epoch; a failed `apply_policy` changes neither the stored policy nor any verdict; and the
kernel states between the two ioctls of a commit, with the verdicts they give.
-/

namespace FluxRs.Dataplane

open FluxRs.Lib FluxRs.Net FluxRs.Kmod
open Std (ExtTreeMap ExtTreeSet)

variable (e : Endian) (srt : Sorter)

/-! ### The draining ledger -/

/-- The epoch one call commits, computed from the live epoch and the request alone. -/
def commitOf (env : ApplyEnv) (desired : DesiredPolicy) (p : Plane) : Option PolicyEpoch :=
  match (applyPolicy e srt env desired p).1 with
  | .ok () => (wantedEpoch env desired p).map (committed p.mgr.liveEpoch)
  | .error _ => none

def committedBy (p : Plane) : PlaneOp → Option PolicyEpoch
  | .apply env desired => commitOf e srt env desired p
  | _ => none

/-- The epochs committed along a run, oldest first. -/
def history (p : Plane) : List PlaneOp → List PolicyEpoch
  | [] => []
  | op :: ops => (committedBy e srt p op).toList ++ history (exec e srt p op) ops

theorem applyPolicy_liveEpoch (env : ApplyEnv) (desired : DesiredPolicy) (p : Plane) :
    (applyPolicy e srt env desired p).2.mgr.liveEpoch =
      (commitOf e srt env desired p).getD p.mgr.liveEpoch := by
  have hres := applyPolicy_result e srt env desired p
  unfold commitOf
  generalize applyPolicy e srt env desired p = r at hres
  cases hres with
  | refused err book => rfl
  | undone err book s hs => rfl
  | halfway err err' book s hroll => rfl
  | done book c =>
    simp only [c.wanted_eq, Option.map_some, Option.getD_some, c.next_eq]
    exact liveEpoch_store _ _ _ _ _

theorem publishInactive_liveEpoch (fault : Option Errno) (p : Plane) :
    (publishInactive fault p).2.mgr.liveEpoch = p.mgr.liveEpoch := by
  unfold publishInactive
  split
  · rfl
  simp only
  split
  · split <;> rfl
  · rfl

theorem ensureKmod_liveEpoch (env : ConvergeEnv) (p : Plane) :
    (ensureKmod e env p).2.mgr.liveEpoch = p.mgr.liveEpoch := by
  unfold ensureKmod
  have hload : (if p.mgr.kmod then (Except.ok (), p) else loadModule env.load p).2.mgr.liveEpoch =
      p.mgr.liveEpoch := by
    split
    · rfl
    · unfold loadModule
      split
      · rfl
      · simp only
        split <;> rfl
      · rfl
  generalize (if p.mgr.kmod then (Except.ok (), p) else loadModule env.load p) = r at hload
  obtain ⟨result, p'⟩ := r
  simp only at hload ⊢
  split
  · exact hload
  split
  · exact hload
  split
  · exact hload
  · exact hload

theorem converge_liveEpoch (env : ConvergeEnv) (enabled : Bool) (p : Plane) :
    (converge e env enabled p).mgr.liveEpoch = p.mgr.liveEpoch := by
  unfold converge
  simp only
  split
  · rfl
  split
  · have h := publishInactive_liveEpoch env.clearFault
      (dropKmod { p with mgr := { p.mgr with reconciledOnce := true } })
    split
    · rename_i heq
      rw [heq] at h
      exact h
    · rename_i heq
      rw [heq] at h
      exact h
  · have h := ensureKmod_liveEpoch e env { p with mgr := { p.mgr with reconciledOnce := true } }
    split
    · rename_i heq
      rw [heq] at h
      exact h
    · rename_i heq
      rw [heq] at h
      exact h

/-- The live epoch after an operation is the one it committed, if any. -/
theorem exec_liveEpoch (p : Plane) (op : PlaneOp) :
    (exec e srt p op).mgr.liveEpoch = (committedBy e srt p op).getD p.mgr.liveEpoch := by
  cases op with
  | converge env enabled => exact converge_liveEpoch e env enabled p
  | stage desired => rfl
  | apply env desired => exact applyPolicy_liveEpoch e srt env desired p
  | prepare fault generation portV4 portV6 =>
    unfold exec prepareGeneration
    simp only
    split
    · rfl
    split <;> rfl
  | publishActive =>
    unfold exec publishActive
    simp only
    split
    · rfl
    split <;> rfl
  | publishInactive fault => exact publishInactive_liveEpoch fault p
  | beginAttachment =>
    unfold exec beginAttachment
    simp only
    split
    · split <;> rfl
    · split <;> rfl
  | cancelAttachment => rfl
  | traffic ev => rfl

theorem mem_committedBy {p : Plane} {op : PlaneOp} {ep : PolicyEpoch}
    (h : committedBy e srt p op = some ep) : ∃ wanted, ep = committed p.mgr.liveEpoch wanted := by
  cases op with
  | apply env desired =>
    change commitOf e srt env desired p = some ep at h
    unfold commitOf at h
    split at h
    · obtain ⟨w, -, hw⟩ := Option.map_eq_some_iff.mp h
      exact ⟨w, hw.symm⟩
    · cases h
  | _ => cases h

/-- What the ledger knows after the epochs `past` were committed. -/
structure LedgerInv (live : PolicyEpoch) (past : List PolicyEpoch) : Prop where
  disjoint : ∀ uid ∈ live.selected, uid ∉ live.draining
  kept : ∀ ep ∈ past, ∀ uid ∈ ep.selected, uid ∈ live.selected ∨ uid ∈ live.draining
  earned : ∀ uid ∈ live.draining, ∃ ep ∈ past, uid ∈ ep.selected
  current : ∀ uid ∈ live.selected, ∃ ep ∈ past, uid ∈ ep.selected

theorem LedgerInv.commit {live : PolicyEpoch} {past : List PolicyEpoch} (h : LedgerInv live past)
    (wanted : PolicyEpoch) :
    LedgerInv (committed live wanted) (past ++ [committed live wanted]) where
  disjoint := committed_disjoint live wanted
  kept ep hep uid huid := by
    by_cases hw : uid ∈ wanted.selected
    · exact .inl hw
    · refine .inr (mem_committed_draining.mpr ⟨?_, hw⟩)
      rcases List.mem_append.mp hep with hep | hep
      · exact (h.kept ep hep uid huid).symm
      · simp only [List.mem_singleton] at hep
        subst hep
        exact absurd huid hw
  earned uid hd := by
    obtain ⟨hold, -⟩ := mem_committed_draining.mp hd
    obtain ⟨ep, hep, hmem⟩ : ∃ ep ∈ past, uid ∈ ep.selected := by
      rcases hold with hold | hold
      · exact h.earned uid hold
      · exact h.current uid hold
    exact ⟨ep, List.mem_append_left _ hep, hmem⟩
  current uid hs := ⟨_, List.mem_append_right _ (List.mem_singleton_self _), hs⟩

theorem ledgerInv_run (ops : List PlaneOp) : ∀ (p : Plane) (past : List PolicyEpoch),
    LedgerInv p.mgr.liveEpoch past →
      LedgerInv (run (exec e srt) p ops).mgr.liveEpoch (past ++ history e srt p ops) := by
  induction ops with
  | nil =>
    intro p past h
    simpa [history] using h
  | cons op ops ih =>
    intro p past h
    rw [run_cons, history, ← List.append_assoc]
    apply ih
    rw [exec_liveEpoch]
    cases hc : committedBy e srt p op with
    | none => simpa using h
    | some ep =>
      obtain ⟨wanted, rfl⟩ := mem_committedBy e srt hc
      exact h.commit wanted

theorem liveEpoch_run (ops : List PlaneOp) : ∀ p : Plane,
    (run (exec e srt) p ops).mgr.liveEpoch = (history e srt p ops).getLastD p.mgr.liveEpoch := by
  induction ops with
  | nil => exact fun p => rfl
  | cons op ops ih =>
    intro p
    rw [run_cons, history, ih, exec_liveEpoch]
    cases committedBy e srt p op with
    | none => rfl
    | some ep => exact List.getLastD_cons.symm

/-- **The draining ledger.**  After every sequence of operations the stored policy reads back as the
last committed epoch, selected and draining UIDs are apart, every UID ever selected is one or the
other, and only UIDs selected earlier drain. -/
theorem draining_ledger (resident : Bool) (k : Kernel) (ops : List PlaneOp) :
    let live := (run (exec e srt) (Plane.open resident k) ops).mgr.liveEpoch
    let past := history e srt (Plane.open resident k) ops
    live = past.getLastD (PolicyEpoch.new .blacklist) ∧
      (∀ uid ∈ live.selected, uid ∉ live.draining) ∧
      (∀ ep ∈ past, ∀ uid ∈ ep.selected, uid ∈ live.selected ∨ uid ∈ live.draining) ∧
      (∀ uid ∈ live.draining, uid ∉ live.selected ∧ ∃ ep ∈ past, uid ∈ ep.selected) := by
  intro live past
  have h0 : (Plane.open resident k).mgr.liveEpoch = PolicyEpoch.new .blacklist := by
    change Manager.open.liveEpoch = _
    decide
  have hempty : LedgerInv (Plane.open resident k).mgr.liveEpoch [] := by
    rw [h0]
    exact ⟨fun uid hs => absurd hs ExtTreeSet.not_mem_empty, fun ep hep => absurd hep List.not_mem_nil,
      fun uid hd => absurd hd ExtTreeSet.not_mem_empty, fun uid hs => absurd hs ExtTreeSet.not_mem_empty⟩
  have hled := ledgerInv_run e srt ops _ [] hempty
  rw [List.nil_append] at hled
  refine ⟨?_, hled.disjoint, hled.kept, fun uid hd => ⟨fun hs => hled.disjoint uid hs hd, hled.earned uid hd⟩⟩
  have hlast := liveEpoch_run e srt ops (Plane.open resident k)
  rwa [h0] at hlast

/-! ### What a ready hook looks at -/

/-- Listeners and symbols are there and the queue has room. -/
structure HookReady (k : Kernel) : Prop where
  live : k.live = true
  listeners : k.listenersSet = true
  symbols : k.symReady = true
  room : k.stealQ.length < stealQMax

/-- A hook that steals is ready. -/
theorem hookReady_of_steals {k : Kernel} {skb : Skb} (h : steals e k skb = true) : HookReady k := by
  obtain ⟨hel, -, hroom⟩ := (steals_iff e).mp h
  exact ⟨hel.live, hel.ready.1, hel.ready.2, hroom⟩

/-- For a ready hook only the UID table, the reserved masks, the bypass set and the first header
decide. -/
theorem stolen_iff_of_ready {k : Kernel} {skb : Skb} {sk : Sock} (hok : k.TableOk) (hready : HookReady k)
    (hsk : skb.sk = some sk) (hfull : sk.fullsock = true) :
    (localOut e k skb).2 = .stolen ↔ (AppUid sk.uid ∧ sk.uid ∈ k.published ∧
      reservedDest e k.listeners skb.ip.dest = false ∧ policyDirect e k skb.ip.dest = false) ∧
      protoStealable skb.ip.headerProto = true := by
  rw [localOut_stolen_iff, steals_iff]
  constructor
  · rintro ⟨⟨-, ⟨sk', hsk', -, -, hsel⟩, hres, hdir, -⟩, hproto, -⟩
    obtain rfl : sk = sk' := Option.some.inj (hsk.symm.trans hsk')
    obtain ⟨happ, hmem⟩ := (uidSelected_iff hok).mp hsel
    exact ⟨⟨happ, hmem, hres, hdir⟩, hproto⟩
  · rintro ⟨⟨happ, hmem, hres, hdir⟩, hproto⟩
    exact ⟨⟨hready.live, ⟨sk, hsk, hfull, happ, (uidSelected_iff hok).mpr ⟨happ, hmem⟩⟩, hres, hdir,
      hready.listeners, hready.symbols⟩, hproto, hready.room⟩

theorem published_ne_zero {k : Kernel} {uid : U32} (h : uid ∈ k.published) : k.uidN ≠ 0 := by
  intro hzero
  simp [Kernel.published, hzero] at h

/-! ### A failed call -/

/-- Where the hook gets as far as the bypass set, that set decides as the live epoch does. -/
def BypassInStep (p : Plane) : Prop :=
  HookReady p.kernel → ∀ uid ∈ p.kernel.published, ∀ dest, reservedDest e p.kernel.listeners dest = false →
    policyDirect e p.kernel dest = p.mgr.liveEpoch.bypassDirect dest

/-- The set of the live epoch is in step with it. -/
theorem PlaneInv.bypassInStep {p : Plane} (h : PlaneInv Represents p) : BypassInStep e p := by
  intro _ uid huid dest _
  obtain ⟨⟨s, hs, hrep⟩, -⟩ := h.agrees (published_ne_zero huid)
  unfold policyDirect
  rw [hs]
  exact hrep.setDirect_eq e dest

theorem localOut_verdict {k k' : Kernel} {skb : Skb} (h : steals e k' skb = steals e k skb) :
    (localOut e k' skb).2 = (localOut e k skb).2 := by
  unfold localOut
  rw [h]
  split <;> rfl

/-- Taking the live epoch's set back changes no verdict of a kernel in step. -/
theorem steals_undone {p : Plane} (hok : p.kernel.TableOk) (hin : BypassInStep e p) {s : FluxrsSet}
    (hs : Represents p.mgr.liveEpoch s) (skb : Skb) :
    steals e (p.kernel.setBypass s) skb = steals e p.kernel skb := by
  have hdirect : ∀ sk : Sock, HookReady p.kernel → uidSelected p.kernel sk.uid = true →
      reservedDest e p.kernel.listeners skb.ip.dest = false →
      policyDirect e (p.kernel.setBypass s) skb.ip.dest = policyDirect e p.kernel skb.ip.dest := by
    intro sk hready hsel hres
    rw [hin hready sk.uid ((uidSelected_iff hok).mp hsel).2 skb.ip.dest hres]
    exact hs.setDirect_eq e _
  rw [Bool.eq_iff_iff]
  constructor
  · intro h
    have hready : HookReady p.kernel :=
      ⟨(hookReady_of_steals e h).live, (hookReady_of_steals e h).listeners, (hookReady_of_steals e h).symbols,
        (hookReady_of_steals e h).room⟩
    rw [steals_iff] at h ⊢
    obtain ⟨⟨hlive, ⟨sk, hsk, hfull, happ, hsel⟩, hres, hdir, hsym⟩, hproto, hroom⟩ := h
    exact ⟨⟨hlive, ⟨sk, hsk, hfull, happ, hsel⟩, hres, hdirect sk hready hsel hres ▸ hdir, hsym⟩, hproto, hroom⟩
  · intro h
    have hready := hookReady_of_steals e h
    rw [steals_iff] at h ⊢
    obtain ⟨⟨hlive, ⟨sk, hsk, hfull, happ, hsel⟩, hres, hdir, hsym⟩, hproto, hroom⟩ := h
    exact ⟨⟨hlive, ⟨sk, hsk, hfull, happ, hsel⟩, hres, (hdirect sk hready hsel hres).trans hdir, hsym⟩, hproto,
      hroom⟩

/-- The compensating `SET_BYPASS` of a call succeeds if it comes to it. -/
def UndoSucceeds (env : ApplyEnv) (p : Plane) : Prop :=
  ∃ k, moduleSetBypass e srt env.rollback p.kernel p.mgr.liveEpoch = .ok k

/-- Whether a set is taken does not depend on the kernel that it replaces one of. -/
theorem UndoSucceeds.ne_error {env : ApplyEnv} {p : Plane} (h : UndoSucceeds e srt env p) (k : Kernel)
    (err : IoError) : moduleSetBypass e srt env.rollback k p.mgr.liveEpoch ≠ .error err := by
  obtain ⟨k', h⟩ := h
  unfold moduleSetBypass at h ⊢
  split at h
  · cases h
  · split at h
    · cases h
    · exact fun herr => by cases herr

theorem PlaneInv.undoSucceeds {B : SetRelation} {p : Plane} (h : PlaneInv B p) {env : ApplyEnv}
    (hroll : env.rollback = {}) : UndoSucceeds e srt env p := by
  obtain ⟨s, hs, -⟩ := moduleSetBypass_admitted e srt p.kernel h.admitted
  exact ⟨_, hroll ▸ hs⟩

/-- A policy that selects nobody, which nothing but a failing ioctl refuses. -/
def nobody : DesiredPolicy where
  appsMode := .whitelist
  cidrMode := .blacklist
  interfacesMode := .blacklist
  interfaces := ∅
  selectedUids := ∅
  bypassV4 := ∅
  bypassV6 := ∅

/-- Every `SET_UIDS` runs out of memory. -/
def noUidMemory : ApplyEnv where
  uids := ⟨false, false⟩

theorem ledgerFits_committed_nobody {live : PolicyEpoch} (h : LedgerFits live) (own4 : AddrSet 32) (own6 : AddrSet 128) :
    LedgerFits (committed live (desiredEpoch nobody own4 own6)) := by
  have hdrain : (committed live (desiredEpoch nobody own4 own6)).draining.size ≤
      live.draining.size + (live.selected \ (∅ : UidSet)).size := ExtTreeSet.size_union_le_size_add_size
  have hdiff : (live.selected \ (∅ : UidSet)).size ≤ live.selected.size := ExtTreeSet.size_diff_le_size_left
  have hsel : (committed live (desiredEpoch nobody own4 own6)).selected.size = 0 := ExtTreeSet.size_empty
  unfold LedgerFits at h ⊢
  omega

/-- Selecting nobody without memory for the table ends in an undo. -/
theorem applyPolicy_nobody {B : SetRelation} {p : Plane} (h : PlaneInv B p) (hkmod : p.mgr.kmod = true) :
    ∃ book s, Represents p.mgr.liveEpoch s ∧ applyPolicy e srt noUidMemory nobody p =
      (.error (.io "lkm_set_uids" (.os .ENOMEM)), { p.withBook book with kernel := p.kernel.setBypass s }) := by
  obtain ⟨book, sel, hbook⟩ : ∃ book sel, desiredSelfAddresses p.mgr.addressBook [] = (book, some sel) :=
    ⟨_, _, rfl⟩
  have hadm : Admitted (committed p.mgr.liveEpoch (desiredEpoch nobody sel.v4 sel.v6)) :=
    admitted_desiredEpoch (Nat.zero_le _) (Nat.zero_le _) (desiredSelfAddresses_size hbook) _
  have hfits := ledgerFits_committed_nobody h.fits sel.v4 sel.v6
  obtain ⟨s, hset, -⟩ := moduleSetBypass_admitted e srt p.kernel hadm
  obtain ⟨s', hroll, hrep⟩ := moduleSetBypass_admitted e srt (p.kernel.setBypass s) h.admitted
  have hcommit : commitKernel e srt noUidMemory p.kernel p.mgr.liveEpoch
      (committed p.mgr.liveEpoch (desiredEpoch nobody sel.v4 sel.v6)) =
        (.error (.io "lkm_set_uids" (.os .ENOMEM)), p.kernel.setBypass s') := by
    have htable : moduleUidTable srt noUidMemory.uids
        (committed p.mgr.liveEpoch (desiredEpoch nobody sel.v4 sel.v6)).selected.toList =
          .error (.os .ENOMEM) := rfl
    unfold commitKernel
    rw [show noUidMemory.bypass = {} from rfl, hset]
    simp only [htable]
    rw [show noUidMemory.rollback = {} from rfl, hroll]
    rfl
  refine ⟨book, s', hrep, ?_⟩
  unfold applyPolicy
  rw [if_neg (by decide), if_neg (by decide)]
  simp only [show noUidMemory.snapshot = .ok [] from rfl, hbook]
  rw [if_neg (Nat.not_lt.mpr hfits), if_neg (by simp [hkmod]), hcommit]

/-- A TCP segment of a socket of one UID. -/
def tcpTo (uid : U32) : Dest → Skb
  | .v4 addr => ⟨some ⟨1, true, uid⟩, .v4 addr ipprotoTcp⟩
  | .v6 addr => ⟨some ⟨1, true, uid⟩, .v6 addr [] ipprotoTcp⟩

/-- **What a failed `apply_policy` leaves.**  When the undo of a failed `SET_UIDS` succeeds, a failed call
leaves all of the manager but the address book and every verdict of the hook as they were, for every
policy, exactly if the bypass set in the kernel is in step with the live epoch when the call starts: an
earlier undo that failed left another one, and this undo does not bring that one back. -/
theorem applyPolicy_error_unchanged_iff {p : Plane} (hp : Reachable e srt p) :
    (∀ (env : ApplyEnv) (desired : DesiredPolicy) (err : DataplaneError), UndoSucceeds e srt env p →
      (applyPolicy e srt env desired p).1 = .error err →
        (∃ book, (applyPolicy e srt env desired p).2.mgr = { p.mgr with addressBook := book }) ∧
          ∀ skb, (localOut e (applyPolicy e srt env desired p).2.kernel skb).2 =
            (localOut e p.kernel skb).2) ↔ BypassInStep e p := by
  have hinv := hp.inv
  constructor
  · intro h hready uid huid dest hres
    have hkmod : p.mgr.kmod = true := by
      by_contra hk
      exact absurd (hready.live.symm.trans (hinv.closed (by simpa using hk)).live) (by decide)
    obtain ⟨book, s, hs, heq⟩ := applyPolicy_nobody e srt hinv hkmod
    have hsame := (h noUidMemory nobody _ (hinv.undoSucceeds e srt rfl) (by rw [heq])).2 (tcpTo uid dest)
    have happ : AppUid uid := (((hinv.agrees (published_ne_zero huid)).2 uid).mp huid).2
    have hready' : HookReady (p.kernel.setBypass s) :=
      ⟨hready.live, hready.listeners, hready.symbols, hready.room⟩
    have hok' : (p.kernel.setBypass s).TableOk := ⟨hinv.tableOk.sorted, hinv.tableOk.bound⟩
    have hskb : (tcpTo uid dest).sk = some ⟨1, true, uid⟩ ∧ (tcpTo uid dest).ip.dest = dest ∧
        protoStealable (tcpTo uid dest).ip.headerProto = true := by
      cases dest <;> exact ⟨rfl, rfl, rfl⟩
    have hold := stolen_iff_of_ready e hinv.tableOk hready hskb.1 rfl
    have hnew := stolen_iff_of_ready e hok' hready' hskb.1 rfl
    have hdirect : policyDirect e (p.kernel.setBypass s) dest = p.mgr.liveEpoch.bypassDirect dest :=
      hs.setDirect_eq e dest
    rw [heq] at hsame
    rw [hskb.2.1] at hold hnew
    rw [hdirect] at hnew
    have hagree : p.mgr.liveEpoch.bypassDirect dest = false ↔ policyDirect e p.kernel dest = false := by
      constructor
      · intro hd
        exact (hold.mp (hsame.symm.trans (hnew.mpr ⟨⟨happ, huid, hres, hd⟩, hskb.2.2⟩))).1.2.2.2
      · intro hd
        exact (hnew.mp (hsame.trans (hold.mpr ⟨⟨happ, huid, hres, hd⟩, hskb.2.2⟩))).1.2.2.2
    cases hl : p.mgr.liveEpoch.bypassDirect dest with
    | false => exact hagree.mp hl
    | true =>
      cases hk : policyDirect e p.kernel dest with
      | true => rfl
      | false => exact absurd (hl.symm.trans (hagree.mpr hk)) (by decide)
  · intro hin env desired err hundo herr
    have hres := applyPolicy_result e srt env desired p
    generalize applyPolicy e srt env desired p = r at hres herr
    cases hres with
    | refused err book => exact ⟨⟨book, rfl⟩, fun skb => rfl⟩
    | undone err book s hs =>
      exact ⟨⟨book, rfl⟩, fun skb => localOut_verdict e (steals_undone e hinv.tableOk hin hs skb)⟩
    | halfway err err' book s hfail => exact absurd hfail (hundo.ne_error e srt _ _)
    | done book c => cases herr

/-- `SET_UIDS` runs out of memory while a second policy is applied. -/
theorem applyPolicy_error_unchanged_iff_enomem :
    (applyPolicy .little insertionSorter { uids := ⟨true, false⟩ } (selectPolicy [10456])
        startedPlane).1 = .error (.io "lkm_set_uids" (.os .ENOMEM)) ∧
      (∃ book, (applyPolicy .little insertionSorter { uids := ⟨true, false⟩ } (selectPolicy [10456])
        startedPlane).2.mgr = { startedPlane.mgr with addressBook := book }) ∧
      ∀ skb, (localOut .little (applyPolicy .little insertionSorter { uids := ⟨true, false⟩ }
          (selectPolicy [10456]) startedPlane).2.kernel skb).2 =
        (localOut .little startedPlane.kernel skb).2 := by
  have herr : (applyPolicy .little insertionSorter { uids := ⟨true, false⟩ } (selectPolicy [10456])
      startedPlane).1 = .error (.io "lkm_set_uids" (.os .ENOMEM)) := by decide +kernel
  exact ⟨herr, (applyPolicy_error_unchanged_iff .little insertionSorter startedPlane_reachable).mpr
    (startedPlane_inv.bypassInStep .little) _ _ _ (startedPlane_inv.undoSucceeds .little insertionSorter rfl) herr⟩

/-- A commit of a second policy, which lets 8.0.0.0/8 out; it fails, and its undo fails as well. -/
def halfwayCommit : PlaneOp :=
  .apply { uids := ⟨false, false⟩, rollback := { newSet := false } }
    { selectPolicy [10123] with bypassV4 := ExtTreeMap.ofList [((⟨8, 0x08000000⟩ : LpmKey 32), BypassTag.policy)] }

def halfwayPlane : Plane := exec .little insertionSorter startedPlane halfwayCommit

theorem halfwayPlane_reachable : Reachable .little insertionSorter halfwayPlane := by
  obtain ⟨resident, k, ops, hk, hrun⟩ := startedPlane_reachable
  refine ⟨resident, k, ops ++ [halfwayCommit], hk, ?_⟩
  rw [run_append, hrun]
  rfl

/-- A failed call captures a flow that went direct before it: its undo takes back the live epoch's set, and
the kernel held another one. -/
theorem applyPolicy_error_changes :
    ¬ ∀ (p : Plane) (env : ApplyEnv) (desired : DesiredPolicy) (err : DataplaneError),
      Reachable .little insertionSorter p → UndoSucceeds .little insertionSorter env p →
      (applyPolicy .little insertionSorter env desired p).1 = .error err →
      (∃ book, (applyPolicy .little insertionSorter env desired p).2.mgr = { p.mgr with addressBook := book }) ∧
        ∀ skb, (localOut .little (applyPolicy .little insertionSorter env desired p).2.kernel skb).2 =
          (localOut .little p.kernel skb).2 := by
  intro h
  have hundo : UndoSucceeds .little insertionSorter noUidMemory halfwayPlane :=
    halfwayPlane_reachable.inv.undoSucceeds .little insertionSorter rfl
  have hsame := (h halfwayPlane noUidMemory (selectPolicy [10123]) (.io "lkm_set_uids" (.os .ENOMEM))
    halfwayPlane_reachable hundo (by decide +kernel)).2 (tcpTo 10123 (.v4 0x08080808))
  revert hsame
  decide +kernel

/-! ### The kernel states a packet can meet during a commit -/

/-- Before `SET_BYPASS`, after it, while `SET_UIDS` publishes, and after an undo. -/
def commitWindows (env : ApplyEnv) (k : Kernel) (from' next : PolicyEpoch) : List Kernel :=
  match moduleSetBypass e srt env.bypass k next with
  | .error _ => [k]
  | .ok k₁ =>
    match moduleUidTable srt env.uids next.selected.toList with
    | .ok table => k :: k₁ :: publishUids k₁ table
    | .error _ =>
      match moduleSetBypass e srt env.rollback k₁ from' with
      | .ok k₂ => [k, k₁, k₂]
      | .error _ => [k, k₁]

/-- The last window is the state the commit leaves. -/
theorem commitWindows_getLast? (env : ApplyEnv) (k : Kernel) (from' next : PolicyEpoch) :
    (commitWindows e srt env k from' next).getLast? = some (commitKernel e srt env k from' next).2 := by
  unfold commitWindows commitKernel
  cases moduleSetBypass e srt env.bypass k next with
  | error err => rfl
  | ok k₁ =>
    simp only
    cases moduleUidTable srt env.uids next.selected.toList with
    | ok table => rfl
    | error err =>
      simp only
      cases moduleSetBypass e srt env.rollback k₁ from' <;> rfl

/-- The windows of one `apply_policy`, through the same checks. -/
def applyWindows (env : ApplyEnv) (desired : DesiredPolicy) (p : Plane) : List Kernel :=
  if uidSelectedMax < desired.selectedUids.size then [p.kernel]
  else if lpmMaxEntries < desired.bypassV4.size ∨ lpmMaxEntries < desired.bypassV6.size then [p.kernel]
  else match wantedEpoch env desired p with
    | none => [p.kernel]
    | some wanted =>
      let next := committed p.mgr.liveEpoch wanted
      if uidPolicyMaxEntries < next.selected.size + next.draining.size then [p.kernel]
      else if !p.mgr.kmod then [p.kernel]
      else commitWindows e srt env p.kernel p.mgr.liveEpoch next

theorem applyWindows_getLast? (env : ApplyEnv) (desired : DesiredPolicy) (p : Plane) :
    (applyWindows e srt env desired p).getLast? = some (applyPolicy e srt env desired p).2.kernel := by
  unfold applyWindows applyPolicy wantedEpoch
  split
  · rfl
  split
  · rfl
  cases env.snapshot with
  | error errno => rfl
  | ok addresses =>
    simp only
    obtain ⟨book, sel⟩ := desiredSelfAddresses p.mgr.addressBook addresses
    cases sel with
    | none => rfl
    | some sel =>
      simp only [Option.map_some]
      split
      · rfl
      split
      · rfl
      rw [commitWindows_getLast?]
      split <;> simp_all

/-- A state a packet can meet: the table emptied, or one of the two epochs' sets under the old table,
or the new epoch published. -/
inductive Window (p : Plane) (next : PolicyEpoch) : Kernel → Prop
  | before : Window p next p.kernel
  | between (ep : PolicyEpoch) (s : FluxrsSet) (hep : ep = p.mgr.liveEpoch ∨ ep = next)
      (hs : Represents ep s) : Window p next (p.kernel.setBypass s)
  | emptied (k : Kernel) (hn : k.uidN = 0) : Window p next k
  | after (s : FluxrsSet) (hs : Represents next s) (table : List U32)
      (sorted : table.Pairwise (· < ·))
      (mem_table : ∀ uid, uid ∈ table ↔ uid ∈ next.selected ∧ AppUid uid) :
    Window p next ((p.kernel.setBypass s).setUids table)

theorem window_of_mem_commitWindows {env : ApplyEnv} {p : Plane} {next : PolicyEpoch} {k : Kernel}
    (h : k ∈ commitWindows e srt env p.kernel p.mgr.liveEpoch next) : Window p next k := by
  unfold commitWindows at h
  cases hset : moduleSetBypass e srt env.bypass p.kernel next with
  | error err =>
    simp only [hset, List.mem_singleton] at h
    exact h ▸ .before
  | ok k₁ =>
    obtain ⟨s, rfl, hrep⟩ := moduleSetBypass_spec e srt hset
    simp only [hset] at h
    cases htable : moduleUidTable srt env.uids next.selected.toList with
    | ok table =>
      obtain ⟨hsorted, hmem⟩ := moduleUidTable_spec srt htable
      simp only [htable, publishUids, List.mem_cons, List.not_mem_nil, or_false] at h
      rcases h with rfl | rfl | rfl | rfl | rfl
      · exact .before
      · exact .between next s (.inr rfl) hrep
      · exact .emptied _ rfl
      · exact .emptied _ rfl
      · exact .after s hrep table hsorted fun uid => by rw [hmem, ExtTreeSet.mem_toList]
    | error err =>
      simp only [htable] at h
      cases hroll : moduleSetBypass e srt env.rollback (p.kernel.setBypass s) p.mgr.liveEpoch with
      | error err' =>
        simp only [hroll, List.mem_cons, List.not_mem_nil, or_false] at h
        rcases h with rfl | rfl
        · exact .before
        · exact .between next s (.inr rfl) hrep
      | ok k₂ =>
        obtain ⟨s', rfl, hrep'⟩ := moduleSetBypass_spec e srt hroll
        simp only [hroll, List.mem_cons, List.not_mem_nil, or_false] at h
        rcases h with rfl | rfl | rfl
        · exact .before
        · exact .between next s (.inr rfl) hrep
        · exact .between p.mgr.liveEpoch s' (.inl rfl) hrep'

theorem window_of_mem_applyWindows {env : ApplyEnv} {desired : DesiredPolicy} {p : Plane}
    {wanted : PolicyEpoch} (hw : wantedEpoch env desired p = some wanted) {k : Kernel}
    (h : k ∈ applyWindows e srt env desired p) : Window p (committed p.mgr.liveEpoch wanted) k := by
  unfold applyWindows at h
  simp only [hw] at h
  split_ifs at h
  · exact List.mem_singleton.mp h ▸ .before
  · exact List.mem_singleton.mp h ▸ .before
  · exact List.mem_singleton.mp h ▸ .before
  · exact List.mem_singleton.mp h ▸ .before
  · exact window_of_mem_commitWindows e srt h

/-- What the hook decides about a packet, in the words of the model. -/
def hookDecision (k : Kernel) (skb : Skb) : DecisionMode :=
  match (localOut e k skb).2 with
  | .stolen => .captured
  | .accept => .direct

section Decision

variable {skb : Skb} {sk : Sock}

theorem hookDecision_captured_iff {k : Kernel} :
    hookDecision e k skb = .captured ↔ (localOut e k skb).2 = .stolen := by
  unfold hookDecision
  cases (localOut e k skb).2 <;> simp

theorem hookDecision_represents {k : Kernel} (hok : k.TableOk) (hready : HookReady k)
    {ep : PolicyEpoch} {s : FluxrsSet} (hb : k.bypassLive = some s) (hs : Represents ep s)
    (hsk : skb.sk = some sk) (hfull : sk.fullsock = true)
    (hproto : protoStealable skb.ip.headerProto = true) :
    hookDecision e k skb = .captured ↔ AppUid sk.uid ∧ sk.uid ∈ k.published ∧
      reservedDest e k.listeners skb.ip.dest = false ∧ ep.bypassDirect skb.ip.dest = false := by
  rw [hookDecision_captured_iff, stolen_iff_of_ready e hok hready hsk hfull, and_iff_left hproto]
  unfold policyDirect
  rw [hb, hs.setDirect_eq e]

/-- A hook with an empty table captures nothing. -/
theorem hookDecision_of_uidN {k : Kernel} (hn : k.uidN = 0) (skb : Skb) :
    ¬ hookDecision e k skb = .captured := by
  rw [hookDecision_captured_iff, localOut_stolen_iff, steals_iff]
  intro hstolen
  obtain ⟨⟨-, ⟨sk, -, -, -, hsel⟩, -⟩, -⟩ := hstolen
  exact published_ne_zero ((uidSelected_iff (tableOk_of_uidN hn)).mp hsel).2 hn

theorem decision_eq_iff {d d' : DecisionMode} : d = d' ↔ (d = .captured ↔ d' = .captured) := by
  cases d <;> cases d' <;> simp

/-- A verdict that captures only where one epoch does is one of theirs, unless both capture. -/
theorem endpoint_iff {x O N : Prop} : ((x ↔ O) ∨ (x ↔ N)) ↔ (x → O ∨ N) ∧ (O ∧ N → x) := by
  by_cases hO : O <;> by_cases hN : N <;> by_cases hx : x <;> simp [hO, hN, hx]

theorem mem_commitWindows_iff {from' wanted : PolicyEpoch} {d : DecisionMode} {uid : U32}
    {dest : Dest} :
    (∃ ep ∈ epochCommitWindows from' wanted, d = ep.observeNewFlow uid dest) ↔
      (d = .captured → from'.observeNewFlow uid dest = .captured ∨
        wanted.observeNewFlow uid dest = .captured) ∧
      (from'.observeNewFlow uid dest = .captured ∧ wanted.observeNewFlow uid dest = .captured →
        d = .captured) := by
  have hobs : (committed from' wanted).observeNewFlow uid dest = wanted.observeNewFlow uid dest := by
    simp [PolicyEpoch.observeNewFlow]
  rw [← endpoint_iff, ← decision_eq_iff, ← decision_eq_iff]
  simp [epochCommitWindows, hobs]

/-- A published UID that the commit drops meets, in front of the new table, the new bypass set, which alone
captures the destination. -/
structure CapturesDropped (p : Plane) (wanted : PolicyEpoch) (uid : U32) (dest : Dest) : Prop where
  published : uid ∈ p.kernel.published
  dropped : uid ∉ wanted.selected
  reserved : reservedDest e p.kernel.listeners dest = false
  oldDirect : p.mgr.liveEpoch.bypassDirect dest = true
  newCaptures : wanted.bypassDirect dest = false

/-- A published UID meets the set that a failed undo left, which captures a destination of the flow that the
live epoch lets out and the new one does not capture. -/
structure CapturesStale (p : Plane) (wanted : PolicyEpoch) (uid : U32) (dest : Dest) : Prop where
  published : uid ∈ p.kernel.published
  reserved : reservedDest e p.kernel.listeners dest = false
  setCaptures : policyDirect e p.kernel dest = false
  oldDirect : p.mgr.liveEpoch.bypassDirect dest = true
  notWanted : uid ∈ wanted.selected → wanted.bypassDirect dest = true

/-- Nothing stale is left in a kernel that is in step with the live epoch. -/
theorem BypassInStep.not_stale {p : Plane} (h : BypassInStep e p) (hready : HookReady p.kernel)
    {wanted : PolicyEpoch} {uid : U32} {dest : Dest} : ¬ CapturesStale e p wanted uid dest := by
  intro hs
  have hagree := h hready uid hs.published dest hs.reserved
  rw [hs.setCaptures, hs.oldDirect] at hagree
  cases hagree

/-- What a ready hook captures in each of the windows. -/
theorem Window.captured {p : Plane} {wanted : PolicyEpoch} (hinv : PlaneInv AnySet p)
    (hready : HookReady p.kernel) (hsk : skb.sk = some sk) (hfull : sk.fullsock = true)
    (hproto : protoStealable skb.ip.headerProto = true) {k : Kernel}
    (hk : Window p (committed p.mgr.liveEpoch wanted) k)
    (hcap : hookDecision e k skb = .captured) :
    p.mgr.liveEpoch.observeNewFlow sk.uid skb.ip.dest = .captured ∨
      wanted.observeNewFlow sk.uid skb.ip.dest = .captured ∨
      CapturesDropped e p wanted sk.uid skb.ip.dest ∨ CapturesStale e p wanted sk.uid skb.ip.dest := by
  have hsel : sk.uid ∈ p.kernel.published → sk.uid ∈ p.mgr.liveEpoch.selected := fun hpub =>
    (((hinv.agrees (published_ne_zero hpub)).2 _).mp hpub).1
  simp only [PolicyEpoch.observeNewFlow_eq_captured_iff]
  cases hk with
  | before =>
    rw [hookDecision_captured_iff, stolen_iff_of_ready e hinv.tableOk hready hsk hfull] at hcap
    obtain ⟨⟨-, hpub, hr, hd⟩, -⟩ := hcap
    cases hod : p.mgr.liveEpoch.bypassDirect skb.ip.dest with
    | false => exact .inl ⟨hsel hpub, rfl⟩
    | true =>
      by_cases hw : sk.uid ∈ wanted.selected ∧ wanted.bypassDirect skb.ip.dest = false
      · exact .inr (.inl hw)
      · refine .inr (.inr (.inr ⟨hpub, hr, hd, hod, fun hs => ?_⟩))
        exact Bool.eq_true_of_not_eq_false fun hnd => hw ⟨hs, hnd⟩
  | emptied k hn => exact absurd hcap (hookDecision_of_uidN e hn skb)
  | between ep s hep hs =>
    have hd := (hookDecision_represents e (k := p.kernel.setBypass s)
      ⟨hinv.tableOk.sorted, hinv.tableOk.bound⟩
      ⟨hready.live, hready.listeners, hready.symbols, hready.room⟩ rfl hs hsk hfull hproto).mp hcap
    obtain ⟨-, hpub, hr, hd⟩ := hd
    rcases hep with rfl | rfl
    · exact .inl ⟨hsel hpub, hd⟩
    · rw [committed_bypassDirect] at hd
      by_cases hw : sk.uid ∈ wanted.selected
      · exact .inr (.inl ⟨hw, hd⟩)
      · cases hod : p.mgr.liveEpoch.bypassDirect skb.ip.dest with
        | false => exact .inl ⟨hsel hpub, rfl⟩
        | true => exact .inr (.inr (.inl ⟨hpub, hw, hr, hod, hd⟩))
  | after s hs table hsorted hmem =>
    have hd := (hookDecision_represents e (setUids_tableOk (p.kernel.setBypass s) hsorted)
      ⟨hready.live, hready.listeners, hready.symbols, hready.room⟩ rfl hs hsk hfull hproto).mp hcap
    rw [setUids_published, hmem, committed_bypassDirect, committed_selected] at hd
    exact .inr (.inl ⟨hd.2.1.1, hd.2.2.2⟩)

/-- A commit that succeeds shows the new set under the old table, then an empty table. -/
theorem windows_of_ok {p : Plane} {env : ApplyEnv} {desired : DesiredPolicy} {wanted : PolicyEpoch}
    (hw : wantedEpoch env desired p = some wanted)
    (hok : (applyPolicy e srt env desired p).1 = .ok ()) :
    ∃ s, Represents (committed p.mgr.liveEpoch wanted) s ∧
      p.kernel ∈ applyWindows e srt env desired p ∧ p.kernel.setBypass s ∈ applyWindows e srt env desired p ∧
      { p.kernel.setBypass s with uidN := 0 } ∈ applyWindows e srt env desired p := by
  have hwindows : applyWindows e srt env desired p =
      commitWindows e srt env p.kernel p.mgr.liveEpoch (committed p.mgr.liveEpoch wanted) := by
    unfold wantedEpoch at hw
    unfold applyPolicy at hok
    unfold applyWindows wantedEpoch
    split at hok
    · cases hok
    rename_i hsel
    split at hok
    · cases hok
    rename_i hlpm
    rw [if_neg hsel, if_neg hlpm]
    split at hok
    · cases hok
    rename_i hsnap
    simp only [hsnap] at hw ⊢
    split at hok
    · cases hok
    rename_i hbook
    simp only [hbook, Option.map_some, Option.some.injEq] at hw ⊢
    subst hw
    simp only at hok
    split at hok
    · cases hok
    rename_i huid
    split at hok
    · cases hok
    rename_i hkmod
    rw [if_neg huid, if_neg hkmod]
  have hres := applyPolicy_result e srt env desired p
  generalize applyPolicy e srt env desired p = r at hres hok
  cases hres with
  | refused err book => cases hok
  | undone err book s hs => cases hok
  | halfway err err' book s hroll => cases hok
  | done book c =>
    have hwanted := Option.some.inj (hw.symm.trans c.wanted_eq)
    have hnext : c.next = committed p.mgr.liveEpoch wanted := hwanted ▸ c.next_eq
    have hset := c.set_ok
    have htable := c.table_ok
    have hrep := c.represents
    rw [hnext] at hset htable hrep
    have hlist : applyWindows e srt env desired p = p.kernel :: p.kernel.setBypass c.set ::
        publishUids (p.kernel.setBypass c.set) c.table := by
      rw [hwindows]
      unfold commitWindows
      simp only [hset, htable]
    refine ⟨c.set, hrep, ?_, ?_, ?_⟩ <;> simp [hlist, publishUids]

/-- **The windows of a commit.**  Every verdict during a commit is the old epoch's or the new one's when the
flow is not captured by both (the emptied table lets it out), the commit does not drop a published UID to a
destination that only the new bypass set captures, and no failed undo has left a set that captures the flow
where neither epoch does; and when the commit succeeds this is exact. -/
theorem commit_windows_iff {p : Plane} (hp : Reachable e srt p) {env : ApplyEnv}
    {desired : DesiredPolicy} {wanted : PolicyEpoch} (hw : wantedEpoch env desired p = some wanted)
    (hready : HookReady p.kernel) (hsk : skb.sk = some sk) (hfull : sk.fullsock = true)
    (hproto : protoStealable skb.ip.headerProto = true) :
    (¬ (p.mgr.liveEpoch.observeNewFlow sk.uid skb.ip.dest = .captured ∧
          wanted.observeNewFlow sk.uid skb.ip.dest = .captured) ∧
        ¬ CapturesDropped e p wanted sk.uid skb.ip.dest ∧ ¬ CapturesStale e p wanted sk.uid skb.ip.dest →
      ∀ k ∈ applyWindows e srt env desired p, ∃ ep ∈ epochCommitWindows p.mgr.liveEpoch wanted,
        hookDecision e k skb = ep.observeNewFlow sk.uid skb.ip.dest) ∧
    ((applyPolicy e srt env desired p).1 = .ok () →
      (∀ k ∈ applyWindows e srt env desired p, ∃ ep ∈ epochCommitWindows p.mgr.liveEpoch wanted,
        hookDecision e k skb = ep.observeNewFlow sk.uid skb.ip.dest) →
      ¬ (p.mgr.liveEpoch.observeNewFlow sk.uid skb.ip.dest = .captured ∧
          wanted.observeNewFlow sk.uid skb.ip.dest = .captured) ∧
        ¬ CapturesDropped e p wanted sk.uid skb.ip.dest ∧
          ¬ CapturesStale e p wanted sk.uid skb.ip.dest) := by
  have hinv := hp.inv
  simp only [mem_commitWindows_iff]
  constructor
  · rintro ⟨hboth, hdropped, hstale⟩ k hk
    refine ⟨fun hcap => ?_, fun h => absurd h hboth⟩
    rcases (window_of_mem_applyWindows e srt hw hk).captured e hinv hready hsk hfull hproto hcap with
      ho | hn | hd | hs
    · exact .inl ho
    · exact .inr hn
    · exact absurd hd hdropped
    · exact absurd hs hstale
  · intro hok h
    obtain ⟨s, hs, hfirst, hmid, hzero⟩ := windows_of_ok e srt hw hok
    have happ : sk.uid ∈ p.kernel.published → AppUid sk.uid := fun hpub =>
      (((hinv.agrees (published_ne_zero hpub)).2 _).mp hpub).2
    -- a destination that the live epoch lets out and a flow that the new one does not capture
    have hnone : p.mgr.liveEpoch.bypassDirect skb.ip.dest = true →
        (sk.uid ∈ wanted.selected → wanted.bypassDirect skb.ip.dest = true) →
        ¬ (p.mgr.liveEpoch.observeNewFlow sk.uid skb.ip.dest = .captured ∨
          wanted.observeNewFlow sk.uid skb.ip.dest = .captured) := by
      simp only [PolicyEpoch.observeNewFlow_eq_captured_iff]
      rintro hod hnw (⟨-, ho⟩ | ⟨hsel, hn⟩)
      · exact absurd (hod.symm.trans ho) (by decide)
      · exact absurd ((hnw hsel).symm.trans hn) (by decide)
    refine ⟨fun hboth => hookDecision_of_uidN e rfl skb ((h _ hzero).2 hboth), fun hd => ?_, fun hd => ?_⟩
    · refine hnone hd.oldDirect (fun hsel => absurd hsel hd.dropped) ((h _ hmid).1 ?_)
      refine (hookDecision_represents e (k := p.kernel.setBypass s) ⟨hinv.tableOk.sorted, hinv.tableOk.bound⟩
        ⟨hready.live, hready.listeners, hready.symbols, hready.room⟩ rfl hs hsk hfull hproto).mpr ?_
      exact ⟨happ hd.published, hd.published, hd.reserved, by rw [committed_bypassDirect]; exact hd.newCaptures⟩
    · refine hnone hd.oldDirect hd.notWanted ((h _ hfirst).1 ?_)
      rw [hookDecision_captured_iff, stolen_iff_of_ready e hinv.tableOk hready hsk hfull]
      exact ⟨⟨happ hd.published, hd.published, hd.reserved, hd.setCaptures⟩, hproto⟩

end Decision

/-- A TCP segment of UID 10123 to 8.8.8.8. -/
def segmentToResolver : Skb := ⟨some ⟨1, true, 10123⟩, .v4 0x08080808 ipprotoTcp⟩

theorem commit_windows_iff_drop :
    (applyPolicy .little insertionSorter {} (selectPolicy []) startedPlane).1 = .ok () ∧
      ∀ k ∈ applyWindows .little insertionSorter {} (selectPolicy []) startedPlane,
        ∃ ep ∈ epochCommitWindows startedPlane.mgr.liveEpoch (desiredEpoch (selectPolicy []) ∅ ∅),
        hookDecision .little k segmentToResolver = ep.observeNewFlow 10123 (.v4 0x08080808) := by
  have hw : wantedEpoch {} (selectPolicy []) startedPlane =
      some (desiredEpoch (selectPolicy []) ∅ ∅) := by decide +kernel
  have hready : HookReady startedPlane.kernel :=
    ⟨by decide +kernel, by decide +kernel, by decide +kernel, by decide +kernel⟩
  have hsk : segmentToResolver.sk = some ⟨1, true, 10123⟩ := rfl
  have hlive : startedPlane.mgr.liveEpoch.bypassDirect (.v4 0x08080808) = false := by decide +kernel
  exact ⟨by decide +kernel, (commit_windows_iff .little insertionSorter startedPlane_reachable hw hready
    hsk rfl rfl).1 ⟨by decide +kernel, fun hd => absurd (hlive.symm.trans hd.oldDirect) (by decide),
      (startedPlane_inv.bypassInStep .little).not_stale .little hready⟩⟩

/-- A commit that changes nothing lets a captured flow out while the table is empty. -/
theorem commit_windows_third_state :
    ¬ ∀ (p : Plane) (env : ApplyEnv) (desired : DesiredPolicy) (wanted : PolicyEpoch) (skb : Skb)
      (sk : Sock), Reachable .little insertionSorter p → p.mgr.status.active = true →
      wantedEpoch env desired p = some wanted →
      (applyPolicy .little insertionSorter env desired p).1 = .ok () → HookReady p.kernel →
      skb.sk = some sk → sk.fullsock = true → protoStealable skb.ip.headerProto = true →
      ∀ k ∈ applyWindows .little insertionSorter env desired p,
        ∃ ep ∈ epochCommitWindows p.mgr.liveEpoch wanted,
        hookDecision .little k skb = ep.observeNewFlow sk.uid skb.ip.dest := by
  intro h
  have hall := h startedPlane {} (selectPolicy [10123]) (desiredEpoch (selectPolicy [10123]) ∅ ∅)
    segmentToResolver ⟨1, true, 10123⟩ startedPlane_reachable (by decide +kernel) (by decide +kernel)
    (by decide +kernel) ⟨by decide +kernel, by decide +kernel, by decide +kernel, by decide +kernel⟩
    rfl rfl rfl
  revert hall
  decide +kernel

end FluxRs.Dataplane
