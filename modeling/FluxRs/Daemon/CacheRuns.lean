import FluxRs.Daemon.SourceFiles
import FluxRs.Lib.Decimal

/-!
# FluxRs.Daemon.CacheRuns — what the source caches hold after any run

Replacements, kills, cleanups and power losses in any order.  A cache file holds the whole of one accepted response or
what it held before; what a replacement has acknowledged stays.
-/

namespace FluxRs.Daemon

open FluxRs.Lib

/-! ### Runs -/

/-- What happens to the cache directory from outside. -/
inductive CacheEvent where
  | replace (source : RemoteSource) (raw : Raw) (calls : ReplaceCalls)
  /-- A replacement whose process is killed where the fault stands, or at its end. -/
  | killed (source : RemoteSource) (raw : Raw) (calls : ReplaceCalls)
  | prune (sources : List RemoteSource) (calls : SweepCalls)
  | powerLoss (left : Directory FileName)

/-- The bytes that an event brings for a source. -/
def CacheEvent.written : CacheEvent → List (RemoteSource × Raw)
  | .replace source raw _ | .killed source raw _ => [(source, raw)]
  | _ => []

section Runs

variable (ownUid : ℕ)

/-- One event; after a loss of power the directory is any that the syncs allow. -/
inductive CacheStep : Volume FileName → CacheEvent → Volume FileName → Prop
  | replace (volume source raw calls) :
      CacheStep volume (.replace source raw calls) (writePrivateReplace ownUid calls (sourceCache source) raw volume).2
  | killed (volume source raw calls) :
      CacheStep volume (.killed source raw calls) (replaceSteps ownUid calls (sourceCache source) raw volume).2
  | prune (volume sources calls) : CacheStep volume (.prune sources calls) (pruneCache ownUid calls sources volume).2
  | powerLoss {volume left} (h : volume.PowerLoss left) : CacheStep volume (.powerLoss left) (.synced left)

inductive CacheRun : Volume FileName → List CacheEvent → Volume FileName → Prop
  | nil (volume) : CacheRun volume [] volume
  | cons {volume event next events last} (h : CacheStep ownUid volume event next) (rest : CacheRun next events last) :
      CacheRun volume (event :: events) last

variable {ownUid} {P : FileName → Option FileNode → Prop}

/-- What an event may do to a property of names. -/
def CacheAllows (ownUid : ℕ) (P : FileName → Option FileNode → Prop) : CacheEvent → Prop
  | .replace source raw _ | .killed source raw _ =>
    Scratch ownUid P (writeTmp (sourceCache source)) ∧ ∀ uid, P (sourceCache source) (some (.file uid raw true))
  | .prune sources _ => ∀ name, Obsolete sources name → P name none
  | .powerLoss _ => ∀ name node node', P name (some node) → node.Survives node' → P name (some node')

theorem writeTmp_sourceCache (source : RemoteSource) :
    writeTmp (sourceCache source) = tmpName (Nodes.sourceId source).toList := writeTmp_rawName _

/-- No cache file has the name of a temporary one. -/
theorem sourceCache_ne_writeTmp (source other : RemoteSource) : sourceCache source ≠ writeTmp (sourceCache other) := by
  rw [writeTmp_sourceCache]
  exact rawName_ne_tmpName (isSourceId_sourceId source) _

/-- Sources with their own identities have their own temporary files. -/
theorem writeTmp_sourceCache_ne {source other : RemoteSource} (h : Nodes.sourceId source ≠ Nodes.sourceId other) :
    writeTmp (sourceCache source) ≠ writeTmp (sourceCache other) := by
  rw [writeTmp_sourceCache, writeTmp_sourceCache]
  intro heq
  have htext := (List.cons.inj (utf8_injective heq)).2
  exact h (String.toList_injective (List.append_cancel_right htext))

/-- The cleanup of the caches is the sweep with the names that `isObsoleteCache` takes. -/
theorem ends_pruneCache {volume : Volume FileName} {sources : List RemoteSource} {calls : SweepCalls}
    (hP : ∀ name, Obsolete sources name → P name none) (hvolume : volume.Holds P) :
    (pruneCache ownUid calls sources).Ends volume
      (fun _ volume' => (∃ removed, Swept ownUid (isObsoleteCache sources) volume.live volume'.live removed) ∧
        volume'.Holds P ∧ ∀ entries, calls.readDir = .ok entries → ∀ name, .ok name ∈ entries →
          CleanOf ownUid (isObsoleteCache sources) volume'.live name)
      (fun volume' => (∃ removed, Swept ownUid (isObsoleteCache sources) volume.live volume'.live removed) ∧
        volume'.Holds P) := by
  unfold pruneCache
  refine (ends_sweep (fun name hstale => hP name (isObsoleteCache_iff.mp hstale)) hvolume).bind ?_
  rintro removed volume' ⟨hswept, hholds, hclean⟩
  exact Fallible.ends_pure ⟨⟨removed, hswept⟩, hholds, hclean⟩

/-- What both ends have in common holds of the state. -/
theorem ends_state {ε σ α : Type} {x : Fallible ε σ α} {s : σ} {Q : α → σ → Prop} {E I : σ → Prop} (h : x.Ends s Q E)
    (hQ : ∀ a s', Q a s' → I s') (hE : ∀ s', E s' → I s') : I (x s).2 := by
  rcases h.elim with ⟨a, s', heq, hq⟩ | ⟨e, s', heq, he⟩
  · rw [heq]
    exact hQ a s' hq
  · rw [heq]
    exact hE s' he

/-- The step lemma: what every event allows is preserved by each. -/
theorem holds_step {volume next : Volume FileName} {event : CacheEvent} (h : CacheStep ownUid volume event next)
    (hvolume : volume.Holds P) (hallows : CacheAllows ownUid P event) : next.Holds P := by
  cases h with
  | replace source raw calls =>
    exact ends_state (ends_writePrivateReplace hallows.1 (fun uid _ => hallows.2 uid) (sourceCache_ne_writeTmp source source) hvolume)
      (fun _ _ h => h.1) fun _ h => h.1
  | killed source raw calls =>
    exact ends_state (ends_replaceSteps hallows.1 (fun uid _ => hallows.2 uid) (sourceCache_ne_writeTmp source source) hvolume)
      (fun _ _ h => h.1) fun _ h => h.1
  | prune sources calls => exact ends_state (ends_pruneCache hallows hvolume) (fun _ _ h => h.2.1) fun _ h => h.2
  | powerLoss hloss => exact hvolume.powerLoss hloss hallows

/-- The run lemma. -/
theorem holds_run {volume last : Volume FileName} {events : List CacheEvent} (h : CacheRun ownUid volume events last)
    (hvolume : volume.Holds P) (hallows : ∀ event ∈ events, CacheAllows ownUid P event) : last.Holds P := by
  induction h with
  | nil => exact hvolume
  | cons hstep _ ih =>
    obtain ⟨hevent, hrest⟩ := List.forall_mem_cons.mp hallows
    exact ih (holds_step hstep hvolume hevent) hrest

/-! ### Whole responses -/

/-- Where the node of a name comes from. -/
inductive Accounted (start : Directory FileName) (written : List (RemoteSource × Raw)) (name : FileName) :
    Option FileNode → Prop
  | start : Accounted start written name (start name)
  | scratch {id node} (hid : isSourceId id = true) (hname : name = tmpName id) : Accounted start written name node
  | pruned {id} (hid : isSourceId id = true) (hname : name = rawName id) : Accounted start written name none
  | whole {source raw uid} (hin : (source, raw) ∈ written) (hname : name = sourceCache source) :
      Accounted start written name (some (.file uid raw true))

/-- No event brings bytes of its own: a file is as at the start, of a write, or gone. -/
theorem allows_accounted {start : Directory FileName} {written : List (RemoteSource × Raw)}
    (hstart : ∀ name node, start name = some node → node.Settled) {event : CacheEvent}
    (hin : ∀ w ∈ event.written, w ∈ written) : CacheAllows ownUid (Accounted start written) event := by
  have hwrite : ∀ source raw, (source, raw) ∈ written →
      Scratch ownUid (Accounted start written) (writeTmp (sourceCache source)) ∧
        ∀ uid, Accounted start written (sourceCache source) (some (.file uid raw true)) := by
    intro source raw hw
    have hscratch : ∀ node, Accounted start written (writeTmp (sourceCache source)) node := fun _ =>
      .scratch (isSourceId_sourceId source) (writeTmp_sourceCache source)
    exact ⟨⟨hscratch _, hscratch _, fun _ _ _ => hscratch _⟩, fun _ => .whole hw rfl⟩
  cases event with
  | replace source raw calls => exact hwrite source raw (hin _ (List.mem_singleton.mpr rfl))
  | killed source raw calls => exact hwrite source raw (hin _ (List.mem_singleton.mpr rfl))
  | prune sources calls =>
    rintro name ⟨id, hid, hname | ⟨hname, -⟩⟩
    · exact .scratch hid hname
    · exact .pruned hid hname
  | powerLoss left =>
    intro name node node' haccounted hsurvives
    generalize hnode : some node = found at haccounted
    cases haccounted with
    | start =>
      rw [hsurvives.eq_of_settled (hstart name node hnode.symm), hnode]
      exact .start
    | scratch hid hname => exact .scratch hid hname
    | pruned hid hname => cases hnode
    | whole hw hname =>
      obtain rfl := Option.some.inj hnode
      rw [hsurvives.eq_of_settled rfl]
      exact .whole hw hname

/-- **A cache file is never torn.**  After any replacements, failures, kills, cleanups and power losses, the cache of
a source is as at the start, or gone, or one whole response written for its identity; and nothing else in the
directory changes. -/
theorem source_cache_whole {start : Directory FileName} {events : List CacheEvent} {volume : Volume FileName}
    (hstart : ∀ name node, start name = some node → node.Settled)
    (hrun : CacheRun ownUid (.synced start) events volume) :
    (∀ source, volume.live (sourceCache source) = start (sourceCache source) ∨
      volume.live (sourceCache source) = none ∨
        ∃ other raw uid, (other, raw) ∈ events.flatMap CacheEvent.written ∧
          Nodes.sourceId other = Nodes.sourceId source ∧
            volume.live (sourceCache source) = some (.file uid raw true)) ∧
      ∀ name, (∀ id, isSourceId id = true → name ≠ rawName id ∧ name ≠ tmpName id) → volume.live name = start name := by
  have hholds := holds_run (P := Accounted start (events.flatMap CacheEvent.written)) hrun
    (Volume.holds_synced.mpr fun _ => .start) fun event hin => allows_accounted hstart fun w hw =>
      List.mem_flatMap.mpr ⟨event, hin, hw⟩
  constructor
  · intro source
    have haccounted := hholds.live (sourceCache source)
    generalize volume.live (sourceCache source) = found at haccounted ⊢
    cases haccounted with
    | start => exact .inl rfl
    | scratch hid hname => exact absurd hname (rawName_ne_tmpName (isSourceId_sourceId source) _)
    | pruned hid hname => exact .inr (.inl rfl)
    | whole hin hname =>
      exact .inr (.inr ⟨_, _, _, hin, (sourceId_of_sourceCache hname).symm, rfl⟩)
  · intro name hname
    have haccounted := hholds.live name
    generalize volume.live name = found at haccounted ⊢
    cases haccounted with
    | start => rfl
    | scratch hid heq => exact absurd heq (hname _ hid).2
    | pruned hid heq => exact absurd heq (hname _ hid).1
    | whole hin heq => exact absurd heq (hname _ (isSourceId_sourceId _)).1

/-! ### What is acknowledged stays -/

/-- No event touches the cache of a source that is neither written again nor pruned. -/
theorem allows_kept {source : RemoteSource} {kept : FileNode} (hkept : kept.Settled) {event : CacheEvent}
    (hother : ∀ w ∈ event.written, Nodes.sourceId w.1 ≠ Nodes.sourceId source)
    (hpruned : ∀ sources calls, event = .prune sources calls → source ∈ sources) :
    CacheAllows ownUid (fun name node => name = sourceCache source → node = some kept) event := by
  have hwrite : ∀ other raw, Nodes.sourceId other ≠ Nodes.sourceId source →
      Scratch ownUid (fun name node => name = sourceCache source → node = some kept) (writeTmp (sourceCache other)) ∧
        ∀ uid, sourceCache other = sourceCache source → some (FileNode.file uid raw true) = some kept := by
    intro other raw hne
    have hscratch := fun heq : writeTmp (sourceCache other) = sourceCache source =>
      sourceCache_ne_writeTmp source other heq.symm
    exact ⟨⟨fun heq => (hscratch heq).elim, fun heq => (hscratch heq).elim, fun _ _ _ heq => (hscratch heq).elim⟩,
      fun uid heq => absurd (sourceId_of_sourceCache heq) hne⟩
  cases event with
  | replace other raw calls => exact hwrite other raw (hother (other, raw) (List.mem_singleton.mpr rfl))
  | killed other raw calls => exact hwrite other raw (hother (other, raw) (List.mem_singleton.mpr rfl))
  | prune sources calls =>
    rintro name hobsolete rfl
    exact absurd hobsolete (not_obsolete_sourceCache (hpruned sources calls rfl))
  | powerLoss left =>
    intro name node node' hnode hsurvives heq
    obtain rfl := Option.some.inj (hnode heq)
    rw [hsurvives.eq_of_settled hkept]

/-- A settled cache file stays as long as its source is known and nothing writes for its identity. -/
theorem cache_kept {source : RemoteSource} {kept : FileNode} {volume after : Volume FileName} {events : List CacheEvent}
    (hkept : kept.Settled) (hvolume : volume.Holds fun name node => name = sourceCache source → node = some kept)
    (hrun : CacheRun ownUid volume events after)
    (hother : ∀ w ∈ events.flatMap CacheEvent.written, Nodes.sourceId w.1 ≠ Nodes.sourceId source)
    (hpruned : ∀ sources calls, .prune sources calls ∈ events → source ∈ sources) :
    after.live (sourceCache source) = some kept := by
  refine (holds_run hrun hvolume fun event hin => ?_).live _ rfl
  refine allows_kept hkept (fun w hw => hother w (List.mem_flatMap.mpr ⟨event, hin, hw⟩)) ?_
  rintro sources calls rfl
  exact hpruned sources calls hin

/-- **An acknowledged cache write is durable**: no kill, no power loss, no cleanup that still knows the source and no
write for another identity takes it away. -/
theorem acknowledged_cache_survives {calls : ReplaceCalls} {source : RemoteSource} {raw : Raw}
    {before volume after : Volume FileName} {events : List CacheEvent}
    (hok : writePrivateReplace ownUid calls (sourceCache source) raw before = (.ok (), volume))
    (hrun : CacheRun ownUid volume events after)
    (hother : ∀ w ∈ events.flatMap CacheEvent.written, Nodes.sourceId w.1 ≠ Nodes.sourceId source)
    (hpruned : ∀ sources calls, .prune sources calls ∈ events → source ∈ sources) :
    ∃ uid, after.live (sourceCache source) = some (.file uid raw true) := by
  have hends := @ends_writePrivateReplace ownUid calls (fun _ _ => True) (sourceCache source) raw before
    ⟨trivial, trivial, fun _ _ _ => trivial⟩ (fun _ _ => trivial) (sourceCache_ne_writeTmp source source) fun _ _ _ => trivial
  unfold Fallible.Ends at hends
  rw [hok] at hends
  obtain ⟨-, hsynced, -, hplaced⟩ := hends
  obtain ⟨uid, hnode⟩ := hplaced.node
  have hvolume : volume.Holds fun name node => name = sourceCache source → node = some (.file uid raw true) := by
    intro view hview name hname
    rw [Volume.views, hsynced, List.mem_singleton] at hview
    rw [hview, hname, hnode]
  exact ⟨uid, cache_kept rfl hvolume hrun hother hpruned⟩

/-! ### What a cleanup leaves -/

/-- What a cleanup takes away, and what it leaves where it succeeds over the whole directory. -/
theorem sweep_exact (volume : Volume FileName) (stale : FileName → Bool) (calls : SweepCalls) :
    let (out, after) := sweep ownUid calls stale volume
    (∀ name, after.live name = volume.live name ∨
      after.live name = none ∧ stale name = true ∧ ∃ bytes synced, volume.live name = some (.file ownUid bytes synced)) ∧
      ∀ removed entries, out = .ok removed → calls.readDir = .ok entries →
        (∀ name, volume.live name ≠ none → .ok name ∈ entries) →
          ∀ name bytes synced, stale name = true → after.live name ≠ some (.file ownUid bytes synced) := by
  have hends := @ends_sweep ownUid calls stale (fun _ _ => True) volume (fun _ _ => trivial) fun _ _ _ => trivial
  have hswept := ends_state hends (fun removed _ h => Exists.intro removed h.1) fun _ h => h.1
  unfold Fallible.Ends at hends
  generalize sweep ownUid calls stale volume = result at hends hswept ⊢
  obtain ⟨out, after⟩ := result
  have hchange : ∀ name, after.live name = volume.live name ∨
      after.live name = none ∧ stale name = true ∧ ∃ bytes synced, volume.live name = some (.file ownUid bytes synced) := by
    obtain ⟨removed, hswept⟩ := hswept
    intro name
    by_cases hin : name ∈ removed
    · obtain ⟨hstale, node, hnode, hown⟩ := hswept.own name hin
      refine .inr ⟨hswept.gone name hin, hstale, ?_⟩
      cases node with
      | file uid bytes synced =>
        obtain rfl := beq_iff_eq.mp hown
        exact ⟨bytes, synced, hnode⟩
      | link => cases hown
      | directory => cases hown
      | special => cases hown
    · exact .inl (hswept.kept name hin)
  refine ⟨hchange, fun removed entries hok hread hlisted name bytes synced hstale hleft => ?_⟩
  obtain rfl : out = .ok removed := hok
  have hthere : volume.live name ≠ none := by
    rcases hchange name with heq | ⟨hnone, -⟩
    · rw [← heq, hleft]
      exact Option.some_ne_none _
    · rw [hnone] at hleft
      cases hleft
  have hclean := hends.2.2 entries hread name (hlisted name hthere) hstale _ hleft
  exact absurd (beq_self_eq_true ownUid) (Bool.not_eq_true _ |>.mpr hclean)

/-- **A cleanup removes obsolete own files and nothing else**, and none is left where it succeeds over a listing of
the whole directory. -/
theorem prune_exact (volume : Volume FileName) (sources : List RemoteSource) (calls : SweepCalls) :
    let (out, after) := pruneCache ownUid calls sources volume
    (∀ name, after.live name = volume.live name ∨
      after.live name = none ∧ Obsolete sources name ∧
        ∃ bytes synced, volume.live name = some (.file ownUid bytes synced)) ∧
      (∀ source ∈ sources, after.live (sourceCache source) = volume.live (sourceCache source)) ∧
        ∀ entries, out = .ok () → calls.readDir = .ok entries → (∀ name, volume.live name ≠ none → .ok name ∈ entries) →
          ∀ name bytes synced, Obsolete sources name → after.live name ≠ some (.file ownUid bytes synced) := by
  have hexact := @sweep_exact ownUid volume (isObsoleteCache sources) calls
  unfold pruneCache
  rw [Fallible.bind_apply]
  generalize sweep ownUid calls (isObsoleteCache sources) volume = result at hexact ⊢
  obtain ⟨out, after⟩ := result
  obtain ⟨hchange, hclean⟩ := hexact
  have hkept : ∀ source ∈ sources, after.live (sourceCache source) = volume.live (sourceCache source) := fun source hin =>
    (hchange _).resolve_right fun h => not_obsolete_sourceCache hin (isObsoleteCache_iff.mp h.2.1)
  have hchange' := fun name => (hchange name).imp id fun h => And.intro h.1 (And.intro (isObsoleteCache_iff.mp h.2.1) h.2.2)
  cases out with
  | error error => exact ⟨hchange', hkept, fun _ hok => by cases hok⟩
  | ok removed =>
    exact ⟨hchange', hkept, fun entries _ hread hlisted name bytes synced hobsolete =>
      hclean removed entries rfl hread hlisted name bytes synced (isObsoleteCache_iff.mpr hobsolete)⟩

end Runs

/-! ### Runs that exist -/

/-- A power loss that takes what was not synced of every file. -/
def torn (volume : Volume FileName) : Directory FileName := fun name =>
  (volume.live name).map fun
    | .file uid bytes synced => .file uid (if synced then bytes else []) true
    | node => node

theorem powerLoss_torn (volume : Volume FileName) : volume.PowerLoss (torn volume) := by
  intro name
  refine ⟨volume.live, List.mem_cons_self, ?_⟩
  unfold torn
  cases volume.live name with
  | none => trivial
  | some node =>
    cases node with
    | file uid bytes synced => exact .file fun h => if_pos h
    | link => exact .link
    | directory => exact .directory
    | special => exact .special

section Held

/-- Two caches and an interrupted write, under their names. -/
def heldUnder (first second writing : FileName) : Directory FileName := fun name =>
  if name = first then some (.file 0 [1] true)
  else if name = second then some (.file 0 [2, 3] true)
  else if name = writing then some (.file 0 [2] true)
  else none

variable {first second writing name : FileName}

theorem heldUnder_first : heldUnder first second writing first = some (.file 0 [1] true) := if_pos rfl

theorem heldUnder_second (h : second ≠ first) : heldUnder first second writing second = some (.file 0 [2, 3] true) := by
  rw [heldUnder, if_neg h, if_pos rfl]

theorem heldUnder_free (h : name ≠ first) (h' : name ≠ second) (h'' : name ≠ writing) :
    heldUnder first second writing name = none := by
  rw [heldUnder, if_neg h, if_neg h', if_neg h'']

theorem heldUnder_cases (first second writing name : FileName) :
    name = first ∧ heldUnder first second writing name = some (.file 0 [1] true) ∨
      name = second ∧ heldUnder first second writing name = some (.file 0 [2, 3] true) ∨
        name = writing ∧ heldUnder first second writing name = some (.file 0 [2] true) ∨
          heldUnder first second writing name = none := by
  unfold heldUnder
  split_ifs with hfirst hsecond hwriting
  · exact .inl ⟨hfirst, rfl⟩
  · exact .inr (.inl ⟨hsecond, rfl⟩)
  · exact .inr (.inr (.inl ⟨hwriting, rfl⟩))
  · exact .inr (.inr (.inr rfl))

theorem heldUnder_settled : ∀ name node, heldUnder first second writing name = some node → node.Settled := by
  intro name node hnode
  rcases heldUnder_cases first second writing name with ⟨-, h⟩ | ⟨-, h⟩ | ⟨-, h⟩ | h
  all_goals
    rw [h] at hnode
    cases hnode
  all_goals rfl

end Held

/-- The caches of two sources and an interrupted write for the second. -/
def twoCaches : Directory FileName :=
  heldUnder (sourceCache "https://a.invalid/") (sourceCache "https://b.invalid/")
    (writeTmp (sourceCache "https://b.invalid/"))

/-- The whole of `twoCaches`, read without a fault. -/
def wholeListing : SweepCalls where
  readDir := .ok [.ok (sourceCache "https://a.invalid/"), .ok (sourceCache "https://b.invalid/"),
    .ok (writeTmp (sourceCache "https://b.invalid/"))]
  metadata _ := none
  unlink _ := none

theorem sourceId_apart : Nodes.sourceId "https://b.invalid/" ≠ Nodes.sourceId "https://a.invalid/" := fun h =>
  absurd (Nodes.hex_injective h) (by decide +kernel)

section Later

variable (known other : RemoteSource) (raw : Raw) (calls : SweepCalls) (volume : Volume FileName)

/-- A write for another source is killed after one byte, the power goes, the write is repeated, and then only the
known source is configured any more. -/
def laterEvents : List CacheEvent :=
  [.killed other raw ⟨some (.writing 1), false⟩,
    .powerLoss (torn (replaceSteps 0 ⟨some (.writing 1), false⟩ (sourceCache other) raw volume).2),
    .replace other raw ⟨none, false⟩, .prune [known] calls]

def laterCaches : Volume FileName :=
  let killed := (replaceSteps 0 ⟨some (.writing 1), false⟩ (sourceCache other) raw volume).2
  let replaced := (writePrivateReplace 0 ⟨none, false⟩ (sourceCache other) raw (.synced (torn killed))).2
  (pruneCache 0 calls [known] replaced).2

theorem laterEvents_run : CacheRun 0 volume (laterEvents known other raw calls volume)
    (laterCaches known other raw calls volume) :=
  .cons (.killed ..) (.cons (.powerLoss (powerLoss_torn _)) (.cons (.replace ..) (.cons (.prune ..) (.nil _))))

theorem laterEvents_written {w : RemoteSource × Raw}
    (hw : w ∈ (laterEvents known other raw calls volume).flatMap CacheEvent.written) : w = (other, raw) := by
  obtain ⟨event, hevent, hwritten⟩ := List.mem_flatMap.mp hw
  simp only [laterEvents, List.mem_cons, List.not_mem_nil, or_false] at hevent
  rcases hevent with rfl | rfl | rfl | rfl
  · exact List.mem_singleton.mp hwritten
  · exact absurd hwritten List.not_mem_nil
  · exact List.mem_singleton.mp hwritten
  · exact absurd hwritten List.not_mem_nil

theorem laterEvents_pruned (sources : List RemoteSource) (calls' : SweepCalls)
    (hin : .prune sources calls' ∈ laterEvents known other raw calls volume) : known ∈ sources := by
  simp only [laterEvents, List.mem_cons, List.not_mem_nil, or_false, reduceCtorEq, false_or,
    CacheEvent.prune.injEq] at hin
  rw [hin.1]
  exact List.mem_singleton_self _

end Later

/-- No temporary file stands for the first source. -/
theorem twoCaches_free : twoCaches (writeTmp (sourceCache "https://a.invalid/")) = none :=
  heldUnder_free (sourceCache_ne_writeTmp _ _).symm (sourceCache_ne_writeTmp _ _).symm
    (writeTmp_sourceCache_ne sourceId_apart.symm)

/-- The later events of the two sources. -/
def secondGoes (volume : Volume FileName) : List CacheEvent :=
  laterEvents "https://a.invalid/" "https://b.invalid/" [4, 5] wholeListing volume

def secondGone (volume : Volume FileName) : Volume FileName :=
  laterCaches "https://a.invalid/" "https://b.invalid/" [4, 5] wholeListing volume

theorem secondGoes_written (volume : Volume FileName) :
    ∀ w ∈ (secondGoes volume).flatMap CacheEvent.written, Nodes.sourceId w.1 ≠ Nodes.sourceId "https://a.invalid/" :=
  fun _ hw => laterEvents_written _ _ _ _ _ hw ▸ sourceId_apart

theorem source_cache_whole_later :
    (secondGone (.synced twoCaches)).live (sourceCache "https://a.invalid/") = some (.file 0 [1] true) ∧
      (∀ source, (secondGone (.synced twoCaches)).live (sourceCache source) = twoCaches (sourceCache source) ∨
        (secondGone (.synced twoCaches)).live (sourceCache source) = none ∨
          ∃ other raw uid, (other, raw) ∈ (secondGoes (.synced twoCaches)).flatMap CacheEvent.written ∧
            Nodes.sourceId other = Nodes.sourceId source ∧
              (secondGone (.synced twoCaches)).live (sourceCache source) = some (.file uid raw true)) ∧
      ∀ name, (∀ id, isSourceId id = true → name ≠ rawName id ∧ name ≠ tmpName id) →
        (secondGone (.synced twoCaches)).live name = twoCaches name :=
  ⟨cache_kept rfl (Volume.holds_synced.mpr fun _ heq => heq ▸ heldUnder_first) (laterEvents_run ..)
      (secondGoes_written _) (laterEvents_pruned _ _ _ _ _),
    source_cache_whole heldUnder_settled (laterEvents_run ..)⟩

theorem acknowledged_cache_survives_later :
    ∃ volume, writePrivateReplace 0 ⟨none, false⟩ (sourceCache "https://a.invalid/") [6, 7] (.synced twoCaches) =
        (.ok (), volume) ∧
      ∃ uid, (secondGone volume).live (sourceCache "https://a.invalid/") = some (.file uid [6, 7] true) := by
  obtain ⟨volume, hok⟩ := @writePrivateReplace_ok 0 ⟨none, false⟩ (sourceCache "https://a.invalid/") [6, 7]
    (.synced twoCaches) rfl (fun ⟨_, hnode, _⟩ => by cases twoCaches_free.symm.trans hnode)
    (fun hnode => by cases heldUnder_first.symm.trans hnode) (sourceCache_ne_writeTmp _ _)
  exact ⟨volume, hok, acknowledged_cache_survives hok (laterEvents_run ..) (secondGoes_written volume)
    (laterEvents_pruned _ _ _ _ _)⟩

end FluxRs.Daemon
