import FluxRs.Daemon.Children

/-!
# FluxRs.Daemon.Files — effective files and the generations in play

Each effective file belongs to one of the generations that the reactor still has a use for: the running
engine's, a candidate's, or the one that a candidate replaces.  These generations are distinct and older
than the next to be allocated, whatever happens; the files on disk are exactly theirs, unless a recovery
fails.
-/

namespace FluxRs.Daemon

open FluxRs.Lib FluxRs.Net FluxRs.Kmod FluxRs.Dataplane

/-! ### Generations in play -/

/-- The generation that a switch replaces. -/
def SwitchPlan.replaced (plan : SwitchPlan) : List ℕ := (plan.old.map (·.generation)).toList

/-- The new generation, and the one that it replaces. -/
def SwitchPlan.generations (plan : SwitchPlan) : List ℕ := plan.params.generation :: plan.replaced

/-- The generations whose files a transaction owns. -/
def EngineTransaction.generations : EngineTransaction → List ℕ
  | .checking plan _ => [plan.params.generation]
  | .waiting child (.candidate plan) => child.params.generation :: plan.replaced
  | .waiting child (.recovery _) => [child.params.generation]
  | .stopping child (.startCandidate plan) _ => [plan.params.generation, child.params.generation]
  | .stopping child (.recover plan _) _ => child.params.generation :: plan.replaced
  | .stopping child _ _ => [child.params.generation]

/-- The generations that an activation keeps for a failure. -/
def WaitRole.generations : WaitRole → List ℕ
  | .candidate plan => plan.replaced
  | .recovery _ => []

/-- The generations whose files the reactor has a use for. -/
def Reactor.inPlay (r : Reactor) : List ℕ :=
  (r.engine.map (·.params.generation)).toList ++ (r.engineTransaction.map (·.generations)).getD [] ++
    (r.activationRole.map (·.generations)).getD []

/-- The generations that a handler has in its hands. -/
def Control.inPlay : Control → List ℕ
  | .holding t => t.generations
  | .starting plan | .failing plan => plan.generations
  | _ => []

/-! ### Children and their plans -/

/-- A candidate's child is the one that its plan describes, and a switch replaces the child it stops. -/
def EngineTransaction.Coherent : EngineTransaction → Prop
  | .checking plan _ => plan.old = none
  | .waiting child (.candidate plan) => child.params = plan.params
  | .stopping child (.startCandidate plan) _ => plan.old = some child.params
  | .stopping child (.recover plan _) _ => child.params = plan.params
  | _ => True

/-- What a handler holds is coherent, and so is what it leaves. -/
structure Coherent (r : Reactor) (c : Control) : Prop where
  slot : ∀ t, r.engineTransaction = some t → t.Coherent
  held : ∀ t, c = .holding t → t.Coherent
  role : ∀ plan child, r.activationRole = some (.candidate plan) → r.engine = some child →
    child.params = plan.params

/-! ### The files on disk -/

/-- The candidate whose file may be gone already. -/
def Control.loose : Control → Option ℕ
  | .failing plan => some plan.params.generation
  | _ => none

/-- Nothing is stuck, and the files on disk are those of the generations in `l`; about the one in `x`
nothing is said. -/
structure Host.Owns (h : Host) (l : List ℕ) (x : Option ℕ) : Prop where
  free : h.stuck = []
  files : ∀ g, some g ≠ x → (g ∈ h.effective ↔ g ∈ l)

namespace Host.Owns

variable {h h' : Host} {l l' : List ℕ} {x : Option ℕ}

theorem congr (ho : h.Owns l none) (hs : h'.stuck = h.stuck) (he : h'.effective = h.effective)
    (hl : ∀ g, g ∈ l' ↔ g ∈ l) : h'.Owns l' x where
  free := hs.trans ho.free
  files g _ := by rw [he, ho.files g (by simp), hl g]

theorem remove {a b : List ℕ} {g : ℕ} (ho : h.Owns (a ++ g :: b) x) (hx : x = none ∨ x = some g)
    (hnodup : (a ++ g :: b).Nodup) : (h.remove g).Owns (a ++ b) none where
  free := by
    unfold Host.remove
    split
    · exact ho.free
    · exact ho.free
  files g' _ := by
    have hnot : g ∉ a ++ b := by
      have h' := (List.perm_middle.nodup_iff).mp hnodup
      exact (List.nodup_cons.mp h').1
    simp only [Host.remove, ho.free, List.contains_nil, Bool.false_eq_true, if_false, List.mem_filter,
      bne_iff_ne, ne_eq]
    by_cases hg : g' = g
    · subst hg
      simp [hnot]
    · have hne : some g' ≠ x := by
        rcases hx with rfl | rfl
        · simp
        · simpa using hg
      rw [ho.files g' hne]
      simp [hg]

/-- Nothing is said about a file any more. -/
theorem loosen (ho : h.Owns l none) (g : ℕ) : h.Owns (g :: l) (some g) where
  free := ho.free
  files g' hne := by
    have hg : g' ≠ g := by simpa using hne
    rw [ho.files g' (by simp)]
    simp [hg]

/-- With the old generation its file goes. -/
theorem removeOld {a : List ℕ} {plan : SwitchPlan} (ho : h.Owns (a ++ plan.replaced) none)
    (hnodup : (a ++ plan.replaced).Nodup) : (h.removeOld plan).Owns a none := by
  unfold Host.removeOld
  cases hold : plan.old with
  | none =>
    simp only [SwitchPlan.replaced, hold, Option.map_none, Option.toList_none, List.append_nil] at ho
    exact ho
  | some old =>
    simp only [SwitchPlan.replaced, hold, Option.map_some, Option.toList_some] at ho hnodup
    simpa using ho.remove (.inl rfl) hnodup

/-- Where a role ends the file of its child is the one that is left. -/
theorem cleanupWaitRole {child : EngineChild} {role : WaitRole}
    (ho : h.Owns (EngineTransaction.waiting child role).generations none)
    (hnodup : (EngineTransaction.waiting child role).generations.Nodup) :
    (h.cleanupWaitRole role).Owns [child.params.generation] none := by
  cases role with
  | candidate plan => exact removeOld (a := [child.params.generation]) ho hnodup
  | recovery error => exact ho

theorem cleanupStopNext {child : EngineChild} {next : StopNext} {killSent : Bool}
    (ho : h.Owns (EngineTransaction.stopping child next killSent).generations none)
    (hnodup : (EngineTransaction.stopping child next killSent).generations.Nodup) :
    (h.cleanupStopNext next).Owns [child.params.generation] none := by
  cases next with
  | startCandidate plan => exact remove (a := []) ho (.inl rfl) hnodup
  | recover plan error => exact removeOld (a := [child.params.generation]) ho hnodup
  | finishRecoveryFailure error error' => exact ho
  | cancelled => exact ho

end Host.Owns

/-- The generations in play are distinct and have been allocated; under `F` the files are theirs. -/
structure Ledger (F : Prop) (r : Reactor) (c : Control) : Prop where
  nodup : (r.inPlay ++ c.inPlay).Nodup
  below : ∀ g ∈ r.inPlay ++ c.inPlay, g < r.generations.next
  files : F → r.host.Owns (r.inPlay ++ c.inPlay) c.loose

section Step

variable {fakeipOk : PolicyCandidate → UserConfig → Bool} {P : Fault → Prop}
variable {r r' : Reactor} {c c' : Control}

/-- A coherent transaction in the slot, nothing in hand and no role. -/
theorem coherent_slot {t : EngineTransaction} (hslot : r'.engineTransaction = some t)
    (ht : t.Coherent) (hrole : r'.activationRole = none) :
    Coherent r' .idle where
  slot t' ht' := Option.some.inj (hslot.symm.trans ht') ▸ ht
  held _ h := by cases h
  role _ _ h := by cases hrole.symm.trans h

/-- An empty slot, no role, and no transaction in hand. -/
theorem coherent_empty (hslot : r'.engineTransaction = none) (hrole : r'.activationRole = none)
    (hc : ∀ t, c' ≠ .holding t) : Coherent r' c' where
  slot t ht := by cases hslot.symm.trans ht
  held t h := absurd h (hc t)
  role _ _ h := by cases hrole.symm.trans h

theorem Coherent.congr (h : Coherent r c) (he : r'.engine = r.engine)
    (ht : r'.engineTransaction = r.engineTransaction) (hr : r'.activationRole = r.activationRole) :
    Coherent r' c where
  slot := by
    rw [ht]
    exact h.slot
  held := h.held
  role := by
    rw [he, hr]
    exact h.role

/-- A child that could not get ready is stopped under the role it waited in. -/
theorem coherent_failed {child : EngineChild} {role : WaitRole}
    (h : (EngineTransaction.waiting child role).Coherent) (error : EngineError) (killSent : Bool) :
    (EngineTransaction.stopping child (role.failed error) killSent).Coherent := by
  cases role with
  | candidate plan => exact h
  | recovery error' => trivial

theorem coherent_cancel (hs : Shape r) (h : Coherent r .idle) :
    Coherent (cancelEngineWork { r with engineCancelRequested := true }) .idle := by
  unfold cancelEngineWork
  simp only
  split
  · rename_i ht
    split
    · exact coherent_slot rfl trivial rfl
    · exact coherent_empty ht rfl fun _ h => by cases h
  · rename_i plan d ht
    have hplan : plan.old = none := h.slot _ ht
    exact coherent_slot rfl hplan hs.role
  · exact coherent_slot rfl trivial hs.role
  · exact coherent_slot rfl trivial hs.role

/-- Every step keeps children and plans together. -/
theorem Act.coherent (h : Act fakeipOk P r c r' c') (hs : ShapeAt r c) (hi : Coherent r c) :
    Coherent r' c' := by
  cases h with
  | aside k => exact hi.congr k.engine k.transaction k.role
  | cancel => exact coherent_cancel hs hi
  | take ht _ =>
    have hs' : Shape r := hs
    refine ⟨fun _ h => (by cases h), fun t heq => ?_, fun _ _ h => by cases hs'.role.symm.trans h⟩
    cases heq
    exact hi.slot _ ht
  | recheck _ =>
    have hplan := hi.held _ rfl
    exact coherent_slot rfl hplan hs.role
  | checkFailed _ _ => exact coherent_empty hs.transaction hs.role fun _ h => by cases h
  | checkCancelled _ => exact coherent_empty hs.transaction hs.role fun _ h => by cases h
  | checked _ _ => exact coherent_empty hs.transaction hs.role fun _ h => by cases h
  | switched _ _ => exact coherent_slot rfl rfl hs.role
  | rewait _ _ _ => exact coherent_slot rfl (hi.held _ rfl) hs.2.1
  | waitCancelled _ => exact coherent_slot rfl trivial hs.2.1
  | waitFailed _ _ error => exact coherent_slot rfl (coherent_failed (hi.held _ rfl) error false) hs.2.1
  | candidateExit h =>
    obtain ⟨host, rfl⟩ := h.eq
    exact coherent_empty hs.1 hs.2.1 fun _ h => by cases h
  | recoveryExit h _ =>
    obtain ⟨host, rfl⟩ := h.eq
    exact coherent_empty hs.1 hs.2.1 fun _ h => by cases h
  | promote _ =>
    refine ⟨fun _ h => (by cases hs.1.symm.trans h), fun _ h => (by cases h), fun plan child hrole he => ?_⟩
    cases hrole
    cases he
    exact hi.held _ rfl
  | restop child next k k' =>
    have hheld := hi.held _ rfl
    refine coherent_slot rfl ?_ hs.1.role
    cases next <;> exact hheld
  | stopped h _ =>
    obtain ⟨host, rfl⟩ := h.eq
    exact coherent_empty hs.1.transaction hs.1.role fun _ h => by cases h
  | stopOvertaken h _ =>
    obtain ⟨host, rfl⟩ := h.eq
    exact coherent_empty hs.1.transaction hs.1.role fun _ h => by cases h
  | stopRecovers h =>
    obtain ⟨host, rfl⟩ := h.eq
    exact coherent_empty hs.1.transaction hs.1.role fun _ h => by cases h
  | stopEnds h =>
    obtain ⟨host, rfl⟩ := h.eq
    exact coherent_empty hs.1.transaction hs.1.role fun _ h => by cases h
  | stopCancelled h =>
    obtain ⟨host, rfl⟩ := h.eq
    exact coherent_empty hs.1.transaction hs.1.role fun _ h => by cases h
  | kept _ => exact coherent_empty rfl hs.1.role fun _ h => by cases h
  | spawnFailed _ => exact coherent_empty hs.1.transaction hs.1.role fun _ h => by cases h
  | spawned plan => exact coherent_slot rfl rfl hs.1.role
  | spawnedUnwatched plan error =>
    exact coherent_slot rfl rfl hs.1.role
  | failCancelled _ => exact coherent_empty hs.1.transaction hs.1.role fun _ h => by cases h
  | failCold _ => exact coherent_empty hs.1.transaction hs.1.role fun _ h => by cases h
  | failLost _ _ => exact coherent_empty hs.1.transaction hs.1.role fun _ h => by cases h
  | recovered _ error => exact coherent_slot rfl trivial hs.1.role
  | recoveredUnwatched _ error error' =>
    exact coherent_slot rfl trivial hs.1.role
  | err _ => exact coherent_empty rfl hs.role fun _ h => by cases h
  | cancelStops _ _ => exact coherent_slot rfl trivial hs.role
  | cancelEnds _ _ => exact coherent_empty rfl hs.role fun _ h => by cases h
  | resume w =>
    obtain ⟨changed, s, heq, -⟩ := resumeQueued_eq w r
    rw [heq]
    exact ⟨hi.slot, fun _ h => (by cases h), hi.role⟩
  | commitCandidate _ ht _ _ _ => exact coherent_empty ht rfl fun _ h => by cases h
  | commitRefused error he _ hrole _ _ =>
    exact coherent_slot rfl (hi.role _ _ hrole he) rfl
  | commitRecovery _ ht _ => exact coherent_empty ht rfl fun _ h => by cases h
  | roleFailed error he _ hrole =>
    rename_i role _
    refine coherent_slot rfl (coherent_failed ?_ error false) rfl
    cases role with
    | candidate plan => exact hi.role _ _ hrole he
    | recovery error' => trivial
  | recommit _ ht => exact coherent_empty ht rfl fun _ h => by cases h
  | exitEngine _ h =>
    obtain ⟨host, rfl⟩ := h.eq
    have hs' : Shape r := hs
    exact ⟨hi.slot, fun _ h => (by cases h), fun _ _ h => by cases hs'.role.symm.trans h⟩
  | policy _ _ _ _ => exact hi.congr rfl rfl rfl
  | generation _ _ d _ _ _ =>
    have hs' : Shape r := hs
    exact coherent_slot rfl rfl hs'.role
  | generationFailed hbusy =>
    have hs' : Shape r := hs
    exact coherent_empty (idle_of_not_busy hbusy).1 hs'.role fun _ h => by cases h
  | settle _ _ _ => exact hi.congr rfl rfl rfl
  | feed _ => exact hi.congr rfl rfl rfl
  | discardedResult _ => exact hi.congr rfl rfl rfl
  | emptyResult _ => exact ⟨hi.slot, fun _ h => (by cases h), hi.role⟩
  | acceptedResult _ _ => exact hi.congr rfl rfl rfl

/-! ### One step -/

variable {F : Prop}

/-- Fewer generations in play, and the files follow. -/
theorem Ledger.shrink (h : Ledger F r c) (hsub : (r'.inPlay ++ c'.inPlay).Sublist (r.inPlay ++ c.inPlay))
    (hnext : r'.generations.next = r.generations.next)
    (hfiles : F → r.host.Owns (r.inPlay ++ c.inPlay) c.loose →
      r'.host.Owns (r'.inPlay ++ c'.inPlay) c'.loose) : Ledger F r' c' where
  nodup := h.nodup.sublist hsub
  below g hg := by
    rw [hnext]
    exact h.below g (hsub.subset hg)
  files hF := hfiles hF (h.files hF)

/-- The same generations in play over the same files. -/
theorem Ledger.move (h : Ledger F r c) (hl : r'.inPlay ++ c'.inPlay = r.inPlay ++ c.inPlay)
    (hc : c.loose = none) (hnext : r'.generations.next = r.generations.next)
    (hs : r'.host.stuck = r.host.stuck) (he : r'.host.effective = r.host.effective) :
    Ledger F r' c' := by
  refine h.shrink (by rw [hl]) hnext fun _ ho => ?_
  rw [hc] at ho
  exact ho.congr hs he fun g => by rw [hl]

/-- Without a transaction the generation of the engine is the one in play. -/
theorem Bare.inPlay (h : Bare r) : r.inPlay = (r.engine.map (·.params.generation)).toList := by
  simp [Reactor.inPlay, h.transaction, h.role]

theorem Bare.inPlay_nil (h : Bare r ∧ r.engine = none) : r.inPlay = [] := by
  simp [h.1.inPlay, h.2]

/-- While a child waits nothing else is in play. -/
theorem waiting_inPlay_nil {child : EngineChild} {role : WaitRole}
    (h : ShapeAt r (.holding (.waiting child role))) : r.inPlay = [] := by
  simp [Reactor.inPlay, h.1, h.2.1, h.2.2]

theorem generations_failed (child : EngineChild) (role : WaitRole) (error : EngineError)
    (killSent : Bool) : (EngineTransaction.stopping child (role.failed error) killSent).generations =
      (EngineTransaction.waiting child role).generations := by
  cases role <;> rfl

theorem Reaped.files {child : EngineChild} (h : Reaped P child r r') : ∃ host,
    r' = { r with host := host } ∧ host.stuck = r.host.stuck ∧ host.effective = r.host.effective := by
  rcases h with rfl | ⟨-, rfl⟩
  · exact ⟨_, rfl, rfl, rfl⟩
  · exact ⟨r'.host, rfl, rfl, rfl⟩

theorem sublist_waiting (child : EngineChild) (role : WaitRole) :
    [child.params.generation].Sublist (EngineTransaction.waiting child role).generations := by
  cases role <;> simp [EngineTransaction.generations]

theorem sublist_stopping (child : EngineChild) (next : StopNext) (killSent : Bool) :
    [child.params.generation].Sublist (EngineTransaction.stopping child next killSent).generations := by
  cases next <;> simp [EngineTransaction.generations]

/-- Of a transaction, only the child and its file are left. -/
theorem Ledger.leave {t : EngineTransaction} {child : EngineChild} (h : Ledger F r c)
    (hl : r.inPlay ++ c.inPlay = t.generations) (hc : c.loose = none)
    (hsub : [child.params.generation].Sublist t.generations)
    (hl' : r'.inPlay ++ c'.inPlay = [child.params.generation]) (hc' : c'.loose = none)
    (hnext : r'.generations.next = r.generations.next)
    (hfiles : r.host.Owns t.generations none → t.generations.Nodup →
      r'.host.Owns [child.params.generation] none) : Ledger F r' c' := by
  refine h.shrink (by rw [hl, hl']; exact hsub) hnext fun _ ho => ?_
  rw [hl, hc] at ho
  rw [hl', hc']
  exact hfiles ho (hl ▸ h.nodup)

theorem Ledger.cancelEngineWork (hs : Shape r) (h : Ledger F r .idle) :
    Ledger F (cancelEngineWork { r with engineCancelRequested := true }) .idle := by
  have hengine : ∀ t, r.engineTransaction = some t → (∀ plan d, t ≠ .checking plan d) →
      r.engine = none := by
    intro t ht hno
    by_contra hne
    obtain ⟨plan, d, heq⟩ := hs.single hne t ht
    exact hno plan d heq
  have hheld : ∀ t, r.engineTransaction = some t → (∀ plan d, t ≠ .checking plan d) →
      r.inPlay ++ Control.idle.inPlay = t.generations := by
    intro t ht hno
    simp [Reactor.inPlay, Control.inPlay, ht, hengine t ht hno, hs.role]
  unfold Daemon.cancelEngineWork
  simp only
  split
  · rename_i ht
    rw [hs.role]
    split
    · rename_i child he
      refine h.move ?_ rfl rfl rfl rfl
      simp [Reactor.inPlay, beginStop, EngineTransaction.generations, ht, he, hs.role]
    · exact h.move (by simp [Reactor.inPlay, hs.role]) rfl rfl rfl rfl
  · rename_i plan d ht
    refine h.move ?_ rfl rfl rfl rfl
    simp [Reactor.inPlay, EngineTransaction.generations, ht]
  · rename_i child role ht
    have hno : ∀ plan d, EngineTransaction.waiting child role ≠ .checking plan d :=
      fun _ _ h => by cases h
    refine h.leave (hheld _ ht hno) rfl (sublist_waiting child role) ?_ rfl rfl
      Host.Owns.cleanupWaitRole
    simp [Reactor.inPlay, Control.inPlay, beginStop, cleanupCancelledWaitRole,
      EngineTransaction.generations, hengine _ ht hno, hs.role]
  · rename_i child next killSent ht
    have hno : ∀ plan d, EngineTransaction.stopping child next killSent ≠ .checking plan d :=
      fun _ _ h => by cases h
    refine h.leave (hheld _ ht hno) rfl (sublist_stopping child next killSent) ?_ rfl rfl
      Host.Owns.cleanupStopNext
    simp [Reactor.inPlay, Control.inPlay, beginStop, cleanupCancelledStopNext,
      EngineTransaction.generations, hengine _ ht hno, hs.role]

/-- A check ends, and its file goes. -/
theorem Ledger.checkDropped {plan : SwitchPlan} {d : CheckDisposition} {c' : Control}
    (h : Ledger F r (.holding (.checking plan d))) (hc : c'.inPlay = []) (hloose : c'.loose = none) :
    Ledger F (removeEffective plan.params.generation r) c' := by
  refine h.shrink ?_ rfl fun _ ho => ?_
  · rw [hc, List.append_nil]
    exact List.sublist_append_left _ _
  · rw [hc, hloose]
    exact ho.remove (.inl rfl) h.nodup

/-- The handler spends what it has in hand. -/
theorem Ledger.spend (h : Ledger F r c) (hnil : r.inPlay = []) (hr : r'.inPlay = r.inPlay)
    (hsub : c'.inPlay.Sublist c.inPlay) (hnext : r'.generations.next = r.generations.next)
    (hfiles : F → r.host.Owns c.inPlay c.loose → c.inPlay.Nodup → r'.host.Owns c'.inPlay c'.loose) :
    Ledger F r' c' := by
  have hnodup := h.nodup
  rw [hnil, List.nil_append] at hnodup
  refine h.shrink ?_ hnext fun hF ho => ?_
  · rw [hr, hnil]
    exact hsub
  · rw [hnil, List.nil_append] at ho
    rw [hr, hnil]
    exact hfiles hF ho hnodup

/-- The generation that a failed candidate replaced is started again. -/
theorem Ledger.restarted {plan : SwitchPlan} {old : EngineParams} {t : EngineTransaction}
    (h : Ledger F r (.failing plan)) (hs : Bare r ∧ r.engine = none) (hold : plan.old = some old)
    (ht : t.generations = [old.generation])
    (hr : r' = { spawnEngine old (dropCandidate plan r) with
      engineTransaction := some t, diagProbe := r'.diagProbe }) : Ledger F r' .idle := by
  have hl : r.inPlay ++ (Control.failing plan).inPlay = [plan.params.generation, old.generation] := by
    simp [Bare.inPlay_nil hs, Control.inPlay, SwitchPlan.generations, SwitchPlan.replaced, hold]
  have hl' : r'.inPlay ++ Control.idle.inPlay = [old.generation] := by
    rw [hr]
    simp [Reactor.inPlay, Control.inPlay, spawnEngine, dropCandidate, ht, hs.1.role, hs.2]
  have hnodup := h.nodup
  rw [hl] at hnodup
  refine h.shrink ?_ (by rw [hr]; rfl) fun _ ho => ?_
  · rw [hl, hl']
    exact List.sublist_cons_self _ _
  · rw [hl] at ho
    rw [hl', hr]
    exact (ho.remove (a := []) (.inr rfl) hnodup).congr rfl rfl fun _ => Iff.rfl

theorem Ledger.aside (h : Ledger F r c) (k : Aside r r') : Ledger F r' c := by
  refine ⟨?_, ?_, fun hF => ?_⟩
  · simpa only [Reactor.inPlay, k.engine, k.transaction, k.role] using h.nodup
  · simpa only [Reactor.inPlay, k.engine, k.transaction, k.role, k.generations] using h.below
  · simpa only [Reactor.inPlay, k.engine, k.transaction, k.role, k.host] using h.files hF

/-- A running child is stopped for its replacement: the two generations change places. -/
theorem Ledger.switched {plan : SwitchPlan} {d : CheckDisposition} {child : EngineChild}
    (h : Ledger F r (.holding (.checking plan d))) (hs : Bare r) (he : r.engine = some child) :
    Ledger F (beginStop child (.startCandidate { plan with old := some child.params })
      { r with engine := none }) .idle := by
  have hl : r.inPlay ++ (Control.holding (.checking plan d)).inPlay =
      [child.params.generation, plan.params.generation] := by
    simp [Control.inPlay, EngineTransaction.generations, Bare.inPlay hs, he]
  have hl' : (beginStop child (.startCandidate { plan with old := some child.params })
        { r with engine := none }).inPlay ++ Control.idle.inPlay =
      [plan.params.generation, child.params.generation] := by
    simp [Reactor.inPlay, Control.inPlay, EngineTransaction.generations, beginStop, hs.role]
  have hnodup := h.nodup
  have hbelow := h.below
  rw [hl] at hnodup hbelow
  refine ⟨?_, ?_, fun hF => ?_⟩
  · rw [hl']
    exact (List.Perm.swap _ _ _).nodup_iff.mp hnodup
  · rw [hl']
    intro g hg
    exact hbelow g ((List.Perm.swap _ _ _).mem_iff.mp hg)
  · rw [hl']
    refine (hl ▸ h.files hF).congr rfl rfl fun g => ?_
    exact (List.Perm.swap _ _ _).mem_iff

/-- A candidate is committed, and the file of the generation that it replaced goes. -/
theorem Ledger.commitCandidate {plan : SwitchPlan} {child : EngineChild} {s : Subscription}
    (h : Ledger F r .activating) (he : r.engine = some child) (ht : r.engineTransaction = none)
    (hrole : r.activationRole = some (.candidate plan)) :
    Ledger F (committed child { r with subscription := s }) .resuming := by
  have hl : r.inPlay ++ Control.activating.inPlay = [child.params.generation] ++ plan.replaced := by
    simp [Reactor.inPlay, Control.inPlay, WaitRole.generations, he, ht, hrole]
  have hnodup := h.nodup
  rw [hl] at hnodup
  refine h.shrink ?_ rfl fun _ ho => ?_
  · rw [hl]
    simp [Reactor.inPlay, Control.inPlay, committed, he, ht]
  · rw [hl] at ho
    have hpublished : (r.host.publish child.params.generation).Owns
        ([child.params.generation] ++ plan.replaced) none := ho.congr rfl rfl fun _ => Iff.rfl
    have ho' := hpublished.removeOld hnodup
    simpa [Reactor.inPlay, Control.inPlay, Control.loose, committed, commitHost, he, ht, hrole] using ho'

/-- The promoted child has exited, and its file goes. -/
theorem Ledger.exited {child : EngineChild} (h : Ledger F r .idle) (hs : Shape r) (he : r.engine = some child)
    (hreaped : Reaped P child r r') :
    Ledger F { removeEffective child.params.generation r' with engine := none } .idle := by
  obtain ⟨host, rfl, hstuck, heff⟩ := hreaped.files
  have hl : r.inPlay ++ Control.idle.inPlay =
      child.params.generation :: (r.engineTransaction.map (·.generations)).getD [] := by
    simp [Reactor.inPlay, Control.inPlay, he, hs.role]
  have hnodup := h.nodup
  rw [hl] at hnodup
  refine h.shrink ?_ rfl fun _ ho => ?_
  · rw [hl]
    simp [Reactor.inPlay, Control.inPlay, removeEffective, hs.role]
  · rw [hl] at ho
    have hhost : host.Owns (child.params.generation :: _) none :=
      ho.congr hstuck heff fun _ => Iff.rfl
    have ho' := hhost.remove (a := []) (.inl rfl) hnodup
    simpa [Reactor.inPlay, Control.inPlay, Control.loose, removeEffective, hs.role] using ho'

/-- A new generation is larger than all in play, and its file is written. -/
theorem Ledger.allocates {params : EngineParams} {user : UserConfig} {d : CheckDisposition} {s : Subscription}
    (h : Ledger F r .idle) (hb : Bare r) (hg : params.generation = r.generations.next) :
    Ledger F { r with
      generations := r.generations.allocate.2
      subscription := s
      host := r.host.write params.generation user
      engineTransaction := some (.checking ⟨params, user, none⟩ d) } .idle := by
  have hl' : { r with
        generations := r.generations.allocate.2
        subscription := s
        host := r.host.write params.generation user
        engineTransaction := some (.checking ⟨params, user, none⟩ d) }.inPlay ++ Control.idle.inPlay =
      r.inPlay ++ [params.generation] := by
    simp [Reactor.inPlay, Control.inPlay, EngineTransaction.generations, hb.transaction, hb.role]
  have hnil : r.inPlay ++ Control.idle.inPlay = r.inPlay := List.append_nil _
  have hnodup := h.nodup
  have hbelow := h.below
  rw [hnil] at hnodup hbelow
  have hnew : params.generation ∉ r.inPlay := by
    intro hmem
    have hlt := hbelow _ hmem
    omega
  refine ⟨?_, fun g hmem => ?_, fun hF => ?_⟩
  · rw [hl']
    exact List.nodup_append.mpr ⟨hnodup, List.nodup_singleton _, by
      rintro a ha b hb rfl
      exact hnew (List.mem_singleton.mp hb ▸ ha)⟩
  · rw [hl'] at hmem
    change g < r.generations.next + 1
    rcases List.mem_append.mp hmem with hmem | hmem
    · exact Nat.lt_succ_of_lt (hbelow g hmem)
    · rw [List.mem_singleton.mp hmem, hg]
      exact Nat.lt_succ_self _
  · rw [hl']
    have ho := h.files hF
    refine ⟨ho.free, fun g _ => ?_⟩
    have hmem := ho.files g (by simp [Control.loose])
    rw [hnil] at hmem
    simp only [Host.write, List.mem_cons, List.mem_append, List.not_mem_nil, or_false, hmem]
    exact or_comm

/-- A check ends, or goes on. -/
theorem Act.ledger_checking {plan : SwitchPlan} {d : CheckDisposition}
    (h : Act fakeipOk P r (.holding (.checking plan d)) r' c') (hs : Bare r)
    (hco : Coherent r (.holding (.checking plan d))) (hi : Ledger F r (.holding (.checking plan d))) :
    Ledger F r' c' := by
  cases h with
  | aside k => exact hi.aside k
  | recheck _ =>
    refine hi.move ?_ rfl rfl rfl rfl
    simp [Reactor.inPlay, Control.inPlay, EngineTransaction.generations, hs.transaction, hs.role]
  | checkFailed plan d => exact hi.checkDropped rfl rfl
  | checkCancelled _ => exact hi.checkDropped rfl rfl
  | checked he hc =>
    have hold : plan.old = none := hco.held _ rfl
    refine hi.move ?_ rfl rfl rfl rfl
    simp [Control.inPlay, EngineTransaction.generations, SwitchPlan.generations, SwitchPlan.replaced, hold]
  | switched he _ => exact hi.switched hs he

/-- A child that waits goes on, is stopped, dies or is promoted. -/
theorem Act.ledger_waiting {child : EngineChild} {role : WaitRole}
    (hP : F → ¬ P .recoverySpawn ∧ ¬ P .recoveryExit)
    (h : Act fakeipOk P r (.holding (.waiting child role)) r' c')
    (hs : ShapeAt r (.holding (.waiting child role))) (hco : Coherent r (.holding (.waiting child role)))
    (hi : Ledger F r (.holding (.waiting child role))) : Ledger F r' c' := by
  cases h with
  | aside k => exact hi.aside k
  | rewait _ _ _ =>
    refine hi.move ?_ rfl rfl rfl rfl
    simp [Reactor.inPlay, Control.inPlay, waitForChild, hs.1, hs.2.1]
  | waitCancelled hc =>
    refine hi.leave (by rw [waiting_inPlay_nil hs]; rfl) rfl (sublist_waiting child role) ?_ rfl rfl
      Host.Owns.cleanupWaitRole
    simp [Reactor.inPlay, Control.inPlay, beginStop, cleanupCancelledWaitRole,
      EngineTransaction.generations, hs.2.1, hs.2.2]
  | waitFailed child role error =>
    refine hi.move ?_ rfl rfl rfl rfl
    simp [Reactor.inPlay, Control.inPlay, beginStop, generations_failed, hs.1, hs.2.1]
  | candidateExit h =>
    rename_i plan
    obtain ⟨host, rfl, hstuck, heff⟩ := h.files
    have hchild : child.params = plan.params := hco.held _ rfl
    refine hi.move ?_ rfl rfl hstuck heff
    simp [Reactor.inPlay, Control.inPlay, EngineTransaction.generations, SwitchPlan.generations, hchild]
  | recoveryExit h hlost =>
    obtain ⟨host, rfl, -, -⟩ := h.files
    refine hi.shrink ?_ rfl fun hF => absurd hlost (hP hF).2
    simp [Reactor.inPlay, Control.inPlay, hs.1, hs.2.1, hs.2.2]
  | promote hc =>
    refine hi.move ?_ rfl rfl rfl rfl
    cases role <;> simp [Reactor.inPlay, Control.inPlay, EngineTransaction.generations,
      WaitRole.generations, hs.1, hs.2.1, hs.2.2]

/-- A child that stops dies, or is kept. -/
theorem Act.ledger_stopping {child : EngineChild} {next : StopNext} {killSent : Bool}
    (h : Act fakeipOk P r (.holding (.stopping child next killSent)) r' c') (hs : Bare r ∧ r.engine = none)
    (hco : Coherent r (.holding (.stopping child next killSent)))
    (hi : Ledger F r (.holding (.stopping child next killSent))) : Ledger F r' c' := by
  cases h with
  | aside k => exact hi.aside k
  | restop _ _ _ _ =>
    refine hi.move ?_ rfl rfl rfl rfl
    cases next <;> simp [Reactor.inPlay, Control.inPlay, EngineTransaction.generations,
      hs.1.transaction, hs.1.role]
  | stopped h hc =>
    rename_i plan
    obtain ⟨host, rfl, hstuck, heff⟩ := h.files
    have hold : plan.old = some child.params := hco.held _ rfl
    refine hi.move ?_ rfl rfl hstuck heff
    simp [Reactor.inPlay, Control.inPlay, EngineTransaction.generations, SwitchPlan.generations,
      SwitchPlan.replaced, hold]
  | stopOvertaken h hc =>
    obtain ⟨host, rfl, hstuck, heff⟩ := h.files
    refine hi.spend (Bare.inPlay_nil hs) rfl (List.nil_sublist _) rfl fun _ ho hnodup => ?_
    have ho' := (ho.congr hstuck heff fun _ => Iff.rfl).remove (a := [_]) (b := []) (.inl rfl) hnodup
    exact ho'.remove (a := []) (.inl rfl) (List.nodup_singleton _)
  | stopRecovers h =>
    rename_i plan error
    obtain ⟨host, rfl, hstuck, heff⟩ := h.files
    have hchild : child.params = plan.params := hco.held _ rfl
    refine hi.spend (Bare.inPlay_nil hs) rfl ?_ rfl fun _ ho hnodup => ?_
    · simp [Control.inPlay, EngineTransaction.generations, SwitchPlan.generations, hchild]
    · have ho' := (ho.congr hstuck heff fun _ => Iff.rfl).remove (a := []) (.inl rfl) hnodup
      exact ho'.loosen plan.params.generation
  | stopEnds h =>
    obtain ⟨host, rfl, hstuck, heff⟩ := h.files
    refine hi.spend (Bare.inPlay_nil hs) rfl (List.nil_sublist _) rfl fun _ ho hnodup => ?_
    exact (ho.congr hstuck heff fun _ => Iff.rfl).remove (a := []) (.inl rfl) hnodup
  | stopCancelled h =>
    obtain ⟨host, rfl, hstuck, heff⟩ := h.files
    refine hi.spend (Bare.inPlay_nil hs) rfl (List.nil_sublist _) rfl fun _ ho hnodup => ?_
    exact (ho.congr hstuck heff fun _ => Iff.rfl).remove (a := []) (.inl rfl) hnodup
  | kept hk =>
    refine hi.leave (by rw [Bare.inPlay_nil hs]; rfl) rfl (sublist_stopping child next killSent) ?_ rfl rfl
      Host.Owns.cleanupStopNext
    simp [Reactor.inPlay, Control.inPlay, keptChild, hs.1.role]

/-- A candidate is started. -/
theorem Act.ledger_starting {plan : SwitchPlan} (h : Act fakeipOk P r (.starting plan) r' c')
    (hs : Bare r ∧ r.engine = none) (hi : Ledger F r (.starting plan)) : Ledger F r' c' := by
  cases h with
  | aside k => exact hi.aside k
  | spawnFailed _ => exact hi.move rfl rfl rfl rfl rfl
  | spawned plan =>
    refine hi.move ?_ rfl rfl rfl rfl
    simp [Reactor.inPlay, Control.inPlay, EngineTransaction.generations, SwitchPlan.generations,
      waitForChild, spawnEngine, hs.1.transaction, hs.1.role, hs.2]
  | spawnedUnwatched plan error =>
    refine hi.move ?_ rfl rfl rfl rfl
    simp [Reactor.inPlay, Control.inPlay, EngineTransaction.generations, SwitchPlan.generations,
      beginStop, spawnEngine, hs.1.transaction, hs.1.role, hs.2]

/-- A candidate has failed, and what it replaced is started again. -/
theorem Act.ledger_failing {plan : SwitchPlan} (hP : F → ¬ P .recoverySpawn ∧ ¬ P .recoveryExit)
    (h : Act fakeipOk P r (.failing plan) r' c') (hs : Bare r ∧ r.engine = none)
    (hi : Ledger F r (.failing plan)) : Ledger F r' c' := by
  cases h with
  | aside k => exact hi.aside k
  | failCancelled hc =>
    refine hi.spend (Bare.inPlay_nil hs) rfl (List.nil_sublist _) rfl fun _ ho hnodup => ?_
    have ho' := ho.remove (a := []) (.inr rfl) hnodup
    exact ho'.removeOld (a := []) (List.nodup_cons.mp hnodup).2
  | failCold hold =>
    refine hi.spend (Bare.inPlay_nil hs) rfl (List.nil_sublist _) rfl fun _ ho hnodup => ?_
    have ho' : (dropCandidate plan r).host.Owns plan.replaced none :=
      ho.remove (a := []) (.inr rfl) hnodup
    rwa [SwitchPlan.replaced, hold] at ho'
  | failLost _ hlost =>
    exact hi.spend (Bare.inPlay_nil hs) rfl (List.nil_sublist _) rfl fun hF => absurd hlost (hP hF).1
  | recovered hold _ => exact hi.restarted hs hold rfl rfl
  | recoveredUnwatched hold _ _ => exact hi.restarted hs hold rfl rfl

/-- A promoted child is committed or stopped. -/
theorem Act.ledger_activating (h : Act fakeipOk P r .activating r' c') (hi : Ledger F r .activating) :
    Ledger F r' c' := by
  cases h with
  | aside k => exact hi.aside k
  | commitCandidate he ht hrole _ _ => exact hi.commitCandidate he ht hrole
  | commitRefused error he ht hrole _ _ =>
    refine hi.move ?_ rfl rfl rfl rfl
    simp [Reactor.inPlay, Control.inPlay, EngineTransaction.generations, WaitRole.generations, beginStop,
      takeEngine, he, ht, hrole]
  | commitRecovery he ht hrole =>
    refine hi.move ?_ rfl rfl ?_ ?_
    · simp [Reactor.inPlay, Control.inPlay, WaitRole.generations, committed, hrole]
    · simp [committed, commitHost, hrole, Host.publish]
    · simp [committed, commitHost, hrole, Host.publish]
  | roleFailed error he ht hrole =>
    rename_i child role
    refine hi.move ?_ rfl rfl rfl rfl
    cases role <;> simp [Reactor.inPlay, Control.inPlay, EngineTransaction.generations,
      WaitRole.generations, WaitRole.failed, beginStop, takeEngine, he, ht, hrole]

/-- The steps of a reactor that holds no transaction. -/
theorem Act.ledger_idle (h : Act fakeipOk P r .idle r' c') (hs : Shape r) (hi : Ledger F r .idle) :
    Ledger F r' c' := by
  cases h with
  | aside k => exact hi.aside k
  | cancel => exact Ledger.cancelEngineWork hs hi
  | take ht _ =>
    refine hi.move ?_ rfl rfl rfl rfl
    simp [Reactor.inPlay, Control.inPlay, ht, hs.role]
  | recommit he ht =>
    refine hi.move ?_ rfl rfl ?_ ?_
    · simp [Reactor.inPlay, Control.inPlay, committed, hs.role]
    · simp [committed, commitHost, hs.role, Host.publish]
    · simp [committed, commitHost, hs.role, Host.publish]
  | exitEngine he h => exact hi.exited hs he h
  | policy _ _ _ _ => exact hi.move rfl rfl rfl rfl rfl
  | generation _ _ _ hg _ hbusy => exact hi.allocates (Shape.bare hs (idle_of_not_busy hbusy).1) hg
  | generationFailed hbusy =>
    refine ⟨hi.nodup, fun g hg => ?_, fun hF => (hi.files hF).congr rfl rfl fun _ => Iff.rfl⟩
    exact Nat.lt_succ_of_lt (hi.below g hg)
  | settle _ _ _ => exact hi.move rfl rfl rfl rfl rfl
  | feed _ => exact hi.move rfl rfl rfl rfl rfl
  | discardedResult _ => exact hi.move rfl rfl rfl rfl rfl
  | emptyResult _ => exact hi.move rfl rfl rfl rfl rfl
  | acceptedResult _ _ => exact hi.move rfl rfl rfl rfl rfl

/-- Every step keeps the generations in play apart, and their files if no recovery is lost. -/
theorem Act.ledger (hP : F → ¬ P .recoverySpawn ∧ ¬ P .recoveryExit) (h : Act fakeipOk P r c r' c')
    (hs : ShapeAt r c) (hco : Coherent r c) (hi : Ledger F r c) : Ledger F r' c' := by
  match c with
  | .idle => exact h.ledger_idle hs hi
  | .holding (.checking _ _) => exact h.ledger_checking hs hco hi
  | .holding (.waiting _ _) => exact h.ledger_waiting hP hs hco hi
  | .holding (.stopping _ _ _) => exact h.ledger_stopping hs hco hi
  | .starting _ => exact h.ledger_starting hs hi
  | .failing _ => exact h.ledger_failing hP hs hi
  | .activating => exact h.ledger_activating hi
  | .erring =>
    cases h with
    | aside k => exact hi.aside k
    | err _ =>
      refine hi.move ?_ rfl rfl rfl rfl
      simp [Reactor.inPlay, Control.inPlay, hs.transaction]
  | .cancelling =>
    cases h with
    | aside k => exact hi.aside k
    | cancelStops he _ =>
      refine hi.move ?_ rfl rfl rfl rfl
      simp [Reactor.inPlay, Control.inPlay, EngineTransaction.generations, beginStop, hs.transaction, he,
        hs.role]
    | cancelEnds _ _ =>
      refine hi.move ?_ rfl rfl rfl rfl
      simp [Reactor.inPlay, Control.inPlay, hs.transaction]
  | .resuming =>
    cases h with
    | aside k => exact hi.aside k
    | resume w =>
      obtain ⟨changed, s, heq, -⟩ := resumeQueued_eq w r
      rw [heq]
      exact hi.move rfl rfl rfl rfl rfl

end Step

/-! ### Runs -/

/-- No process comes of the spawn. -/
def SpawnAnswer.fails : SpawnAnswer → Bool
  | .failed _ => true
  | _ => false

/-- The old generation has been started again, and is not ready yet. -/
def isRecovering : Option EngineTransaction → Bool
  | some (.waiting _ (.recovery _)) => true
  | _ => false

/-- Every removal succeeds, a replaced generation can be started again where its candidate may fail, and
the child of a recovery does not exit before it is ready. -/
structure KeepsRecovery (r : Reactor) (ev : Event) : Prop where
  removes : ev.stuck = []
  restarts : ev.kind.takes = true → (r.candidate.any fun plan => plan.old.isSome) = true →
    r.engineCancelRequested = false → ev.outside.recoverySpawn.fails = false
  lives : ev.kind.takes = true → isRecovering r.engineTransaction = true →
    r.engineCancelRequested = false → ev.outside.exited = false

instance (r : Reactor) (ev : Event) : Decidable (KeepsRecovery r ev) :=
  decidable_of_iff (_ ∧ (_ → _ → _ → _) ∧ (_ → _ → _ → _))
    ⟨fun h => ⟨h.1, h.2.1, h.2.2⟩, fun h => ⟨h.removes, h.restarts, h.lives⟩⟩

/-- Every fault but a recovery that is lost. -/
def Fault.recovered : Fault → Prop
  | .recoverySpawn | .recoveryExit => False
  | _ => True

section Run

variable {e : Endian} {srt : Sorter} {fakeipOk : PolicyCandidate → UserConfig → Bool}

theorem KeepsRecovery.grants {r : Reactor} {ev : Event} (h : KeepsRecovery r ev) :
    Grants Fault.recovered (ev.enter r) ev.kind ev.outside where
  recoverySpawn htake plan hplan old error hold hc hspawn := by
    have hplan' : r.candidate = some plan := hplan
    have hfails := h.restarts htake (by simp [hplan', hold]) hc
    rw [hspawn] at hfails
    cases hfails
  recoveryExit htake child error ht hc hx := by
    have ht' : r.engineTransaction = some (.waiting child (.recovery error)) := ht
    have hlives := h.lives htake (by rw [ht']; rfl) hc
    exact absurd (hlives.symm.trans hx) (by decide)

/-- **The files are the engine's.**  In every run whose removals succeed and whose recoveries are not
lost, while no transaction is in flight the effective files on disk are exactly that of the running
child. -/
theorem files_are_the_childs {dataplane : Plane} {badPageSize : Bool} {first : Event}
    {evs : List Event} {r₀ r : Reactor}
    (hstart : start e srt fakeipOk dataplane badPageSize first = some r₀) (hfirst : first.stuck = [])
    (hsteps : AllStepsOption (handle e srt fakeipOk) KeepsRecovery r₀ evs)
    (hrun : runOption (handle e srt fakeipOk) r₀ evs = some r) (hidle : r.engineTransaction = none) :
    ∀ g, g ∈ r.host.effective ↔ ∃ child, r.engine = some child ∧ child.params.generation = g := by
  have hboot : (first.boot dataplane badPageSize).host.Owns [] none := ⟨hfirst, fun _ _ => Iff.rfl⟩
  obtain ⟨hs, -, h⟩ := run_keeps (I := fun r c => Coherent r c ∧ Ledger True r c) e srt
    (fun hact hs hi => ⟨hact.coherent hs hi.1,
      hact.ledger (fun _ => ⟨id, id⟩) hs hi.1 hi.2⟩)
    (fun r ev hc hi => ⟨hi.1.congr rfl rfl rfl, hi.2.nodup, hi.2.below,
      fun hF => ⟨hc.removes, (hi.2.files hF).files⟩⟩)
    (fun r ev hc _ _ => hc.grants)
    ⟨coherent_empty rfl rfl fun _ h => (by cases h), List.nodup_nil, fun _ hmem => (by cases hmem),
      fun _ => hboot⟩ hstart hsteps hrun
  intro g
  have hfiles := (h.files trivial).files g (by simp [Control.loose])
  rw [hfiles]
  simp [(hs.bare hidle).inPlay, Control.inPlay, eq_comm]

end Run

def recoverableRun : ColdRun KeepsRecovery fun r => r.engine.isSome && decide (r.engineTransaction = none) :=
  ⟨switchedEvents, by decide +kernel⟩

theorem files_are_the_childs_switched : ∃ r, coldRun switchedEvents = some r ∧
    r.engine.isSome = true ∧ ∀ g, g ∈ r.host.effective ↔
      ∃ child, r.engine = some child ∧ child.params.generation = g := by
  obtain ⟨r₀, r, hstart, hsteps, hr, hcold, hlast⟩ := exists_of_coldMeets recoverableRun.meets
  obtain ⟨hengine, hidle⟩ := Bool.and_eq_true_iff.mp hlast
  exact ⟨r, hcold, hengine, files_are_the_childs hstart rfl hsteps hr (of_decide_eq_true hidle)⟩

/-- The old child exits in time, its replacement cannot be started, and neither can it. -/
def lostRecoveryEvents : List Event :=
  switchEvents "next" ++
  [{ disabled := false, kind := .transactionPidfd
     outside := { exited := true, spawn := .failed .spawnFailed, recoverySpawn := .failed .spawnFailed } }]

/-- It is started again, and exits before it is ready. -/
def exitedRecoveryEvents : List Event :=
  switchEvents "next" ++
  [{ disabled := false, kind := .transactionPidfd
     outside := { exited := true, spawn := .failed .spawnFailed } },
    { disabled := false, kind := .transactionPidfd, outside := { exited := true } }]

/-- No transaction is in flight and no child runs, but the file of the old generation is left. -/
theorem lost_recovery_leaks_file :
    (∃ r, coldRun lostRecoveryEvents = some r ∧ r.engineTransaction = none ∧ r.engine = none ∧
      r.host.effective = [1]) ∧
    ∃ r, coldRun exitedRecoveryEvents = some r ∧ r.engineTransaction = none ∧ r.engine = none ∧
      r.host.effective = [1] := by
  have hrun : ∀ evs ∈ [lostRecoveryEvents, exitedRecoveryEvents], (coldRun evs).any (fun r =>
      decide (r.engineTransaction = none ∧ r.engine = none ∧ r.host.effective = [1])) = true := by
    decide +kernel
  have hleak : ∀ evs ∈ [lostRecoveryEvents, exitedRecoveryEvents], ∃ r, coldRun evs = some r ∧
      r.engineTransaction = none ∧ r.engine = none ∧ r.host.effective = [1] := by
    intro evs hmem
    obtain ⟨r, hr, h⟩ := (Option.any_eq_true _ _).mp (hrun evs hmem)
    exact ⟨r, hr, of_decide_eq_true h⟩
  exact ⟨hleak _ (by simp), hleak _ (by simp)⟩

end FluxRs.Daemon
