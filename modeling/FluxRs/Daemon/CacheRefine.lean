import FluxRs.Daemon.Cache
import FluxRs.Daemon.CacheRuns

/-!
# FluxRs.Daemon.CacheRefine — the coordinator's cache is the one on disk

The coordinator names a cache by its source and replaces it in one step.  The files do the same, commit by commit and
cleanup by cleanup, as long as no two of its sources have one identity.
-/

namespace FluxRs.Daemon

open FluxRs.Lib

/-- `MAX_SUBSCRIPTION_BYTES`. -/
def maxSubscriptionBytes : ℕ := 8 * 1024 * 1024

/-! ### The commit over files -/

/-- What a commit meets outside. -/
structure CommitCalls where
  /-- Caches that cannot be read. -/
  unreadable : List RemoteSource
  /-- What is read through a link. -/
  linked : RemoteSource → Option Raw
  /-- `ensure_source_cache` fails. -/
  unwritable : Bool
  replace : RemoteSource → ReplaceCalls

section Commit

variable (ownUid : ℕ) (config : NodeConfig) (calls : CommitCalls)

/-- `read_capped`. -/
def readCapped (source : RemoteSource) (volume : Volume FileName) : Option Raw :=
  if calls.unreadable.contains source then none
  else
    match volume.live (sourceCache source) with
    | some (.file _ bytes _) => some (bytes.take (maxSubscriptionBytes + 1))
    | some .link => (calls.linked source).map (List.take (maxSubscriptionBytes + 1))
    | _ => none

/-- One round of `commit_pending_subscription`. -/
def commitFile (acc : Bool × Volume FileName) (entry : RemoteSource × Raw) : Bool × Volume FileName :=
  if !config.remoteSources.contains entry.1 then acc
  else if readCapped calls entry.1 acc.2 == some entry.2 then acc
  else if calls.unwritable then (false, acc.2)
  else
    match writePrivateReplace ownUid (calls.replace entry.1) (sourceCache entry.1) entry.2 acc.2 with
    | (.ok (), volume) => (acc.1, volume)
    | (.error _, volume) => (false, volume)

/-- `commit_pending_subscription`; `nodes` is what the current policy configures. -/
def commitPendingFiles (nodes : Option NodeConfig) (generation : Option ℕ) (pending : Option Pending)
    (volume : Volume FileName) : Bool × Volume FileName :=
  match pending with
  | none => (true, volume)
  | some pending =>
    if pending.generation ≠ generation then (true, volume)
    else
      match nodes with
      | none => (true, volume)
      | some config => pending.raw.entries.foldl (commitFile ownUid config calls) (true, volume)

/-- The same circumstances, for the coordinator. -/
def CommitCalls.env (known : List RemoteSource) : CommitEnv where
  unreadable := calls.unreadable
  unwritable := calls.unwritable
  faults := known.filter fun source =>
    (calls.replace source).fault.any fun fault => decide (fault ≠ .syncingDirectory)
  unsynced := known.filter fun source => decide ((calls.replace source).fault = some .syncingDirectory)

end Commit

/-! ### The relation -/

section Represents

variable {ownUid : ℕ} {known : List RemoteSource} {volume : Volume FileName} {cache : List (RemoteSource × Raw)}

/-- The caches of the known sources and their temporary files are own files. -/
def Regular (ownUid : ℕ) (known : List RemoteSource) (name : FileName) (node : Option FileNode) : Prop :=
  ∀ source ∈ known,
    (name = sourceCache source → node = none ∨ ∃ raw, node = some (.file ownUid raw true)) ∧
      (name = writeTmp (sourceCache source) → node = none ∨ ∃ raw synced, node = some (.file ownUid raw synced))

/-- No two sources have one identity. -/
def ToldApart (known : List RemoteSource) : Prop :=
  ∀ source ∈ known, ∀ other ∈ known, Nodes.sourceId source = Nodes.sourceId other → source = other

/-- The directory holds exactly the bytes of the cache, each in a private file under the name of its source. -/
structure Represents (ownUid : ℕ) (known : List RemoteSource) (volume : Volume FileName)
    (cache : List (RemoteSource × Raw)) : Prop where
  regular : volume.Holds (Regular ownUid known)
  bytes : ∀ source ∈ known, volume.live (sourceCache source) = (cache.lookup source).map fun raw => .file ownUid raw true

/-- A temporary file is missing, or of this user with any bytes. -/
theorem Regular.of_tmp {source : RemoteSource} {node : Option FileNode}
    (h : node = none ∨ ∃ raw synced, node = some (.file ownUid raw synced)) :
    Regular ownUid known (writeTmp (sourceCache source)) node := fun other _ =>
  ⟨fun heq => absurd heq.symm (sourceCache_ne_writeTmp other source), fun _ => h⟩

/-- A cache is missing, or of this user and on disk. -/
theorem Regular.of_cache {source : RemoteSource} {node : Option FileNode}
    (h : node = none ∨ ∃ raw, node = some (.file ownUid raw true)) :
    Regular ownUid known (sourceCache source) node := fun other _ =>
  ⟨fun _ => h, fun heq => absurd heq (sourceCache_ne_writeTmp source other)⟩

theorem Regular.owner {source : RemoteSource} (hin : source ∈ known) {uid : ℕ} {raw : Raw} {synced : Bool}
    (h : Regular ownUid known (writeTmp (sourceCache source)) (some (.file uid raw synced))) : uid = ownUid := by
  rcases (h source hin).2 rfl with hnone | ⟨_, _, hfile⟩
  · cases hnone
  · cases hfile
    rfl

/-- The temporary name of a known source is free to be written. -/
theorem scratch_regular {source : RemoteSource} (hin : source ∈ known) :
    Scratch ownUid (Regular ownUid known) (writeTmp (sourceCache source)) where
  none := .of_tmp (.inl rfl)
  fresh := .of_tmp (.inr ⟨_, _, rfl⟩)
  again bytes' synced' h := by
    obtain rfl := h.owner hin
    exact .of_tmp (.inr ⟨_, _, rfl⟩)

/-- A replacement that is done is the new entry of the cache. -/
theorem Represents.placed (h : Represents ownUid known volume cache) (hapart : ToldApart known)
    {source : RemoteSource} (hin : source ∈ known) {raw : Raw} {after : Volume FileName}
    (hafter : after.Holds (Regular ownUid known))
    (hplaced : Placed volume.live (writeTmp (sourceCache source)) (sourceCache source) raw after.live) :
    Represents ownUid known after ((source, raw) :: cache.filter fun old => old.1 != source) := by
  refine ⟨hafter, fun other hother => ?_⟩
  by_cases hsame : other = source
  · obtain ⟨uid, hnode⟩ := hplaced.node
    have hregular := hafter.live (sourceCache source)
    rw [hnode] at hregular
    rw [hsame, Subscription.lookup_cons_eq (source, raw), hnode]
    rcases (hregular source hin).1 rfl with hnone | ⟨_, hfile⟩
    · cases hnone
    · cases hfile
      rfl
  · rw [@Subscription.lookup_cons_ne other (source, raw) hsame, Subscription.lookup_filter_ne _ hsame,
      ← h.bytes other hother]
    refine hplaced.frame _ (sourceCache_ne_writeTmp other source) fun heq => hsame ?_
    exact hapart other hother source hin (sourceId_of_sourceCache heq)

/-- One that failed before its rename leaves the cache as it was. -/
theorem Represents.unplaced (h : Represents ownUid known volume cache) {source : RemoteSource}
    {after : Volume FileName} (hafter : after.Holds (Regular ownUid known))
    (hunplaced : Unplaced volume.live (writeTmp (sourceCache source)) after.live) :
    Represents ownUid known after cache :=
  ⟨hafter, fun other hother => (hunplaced _ (sourceCache_ne_writeTmp other source)).trans (h.bytes other hother)⟩

/-- A regular directory hinders a replacement only by a fault. -/
theorem fault_of_hindered (h : volume.Holds (Regular ownUid known)) {source : RemoteSource} (hin : source ∈ known)
    {calls : ReplaceCalls} (hhindered : Hindered calls (writeTmp (sourceCache source)) (sourceCache source) volume.live) :
    ∃ fault, calls.fault = some fault ∧ fault ≠ .syncingDirectory := by
  rcases hhindered with hfault | ⟨node, hnode, hother⟩ | hdirectory
  · exact hfault
  · have hregular := (h.live (writeTmp (sourceCache source)) source hin).2 rfl
    rw [hnode] at hregular
    rcases hregular with hnone | ⟨raw, synced, hfile⟩
    · cases hnone
    · exact absurd (Option.some.inj hfile) (hother ownUid raw synced)
  · have hregular := (h.live (sourceCache source) source hin).1 rfl
    rw [hdirectory] at hregular
    rcases hregular with hnone | ⟨raw, hfile⟩
    · cases hnone
    · cases hfile

/-! ### Commits -/

section Commits

variable {config : NodeConfig} {calls : CommitCalls} {s : Subscription} {generation : Option ℕ}

theorem env_replacement {source : RemoteSource} (hin : source ∈ known) :
    (calls.env known).replacement source =
      if calls.unwritable then .failed
      else match (calls.replace source).fault with
        | none => .replaced
        | some .syncingDirectory => .unsynced
        | some _ => .failed := by
  have hfaults : (calls.env known).faults.contains source =
      (calls.replace source).fault.any fun fault => decide (fault ≠ .syncingDirectory) := by
    rw [CommitCalls.env, List.contains_eq_mem]
    simp only [List.mem_filter, hin, true_and, Bool.decide_eq_true]
  have hunsynced : (calls.env known).unsynced.contains source =
      decide ((calls.replace source).fault = some .syncingDirectory) := by
    rw [CommitCalls.env, List.contains_eq_mem]
    simp only [List.mem_filter, hin, true_and, decide_eq_true_eq]
  unfold CommitEnv.replacement
  rw [hfaults, hunsynced]
  show (if (calls.unwritable || _) = true then _ else _) = _
  cases calls.unwritable with
  | true => rfl
  | false =>
    cases (calls.replace source).fault with
    | none => rfl
    | some fault => cases fault <;> rfl

/-- The read agrees with the coordinator's. -/
theorem readCapped_eq (h : Represents ownUid known volume cache) {entry : RemoteSource × Raw}
    (hin : entry.1 ∈ known) (hsize : entry.2.length ≤ maxSubscriptionBytes) :
    (readCapped calls entry.1 volume == some entry.2) =
      (cache.lookup entry.1 == some entry.2 && !calls.unreadable.contains entry.1) := by
  unfold readCapped
  split_ifs with hunreadable
  · rw [hunreadable, Bool.not_true, Bool.and_false]
    rfl
  · rw [Bool.not_eq_true] at hunreadable
    rw [hunreadable, Bool.not_false, Bool.and_true, h.bytes entry.1 hin]
    cases cache.lookup entry.1 with
    | none => rfl
    | some held =>
      show (some (held.take (maxSubscriptionBytes + 1)) == some entry.2) = (some held == some entry.2)
      rw [Bool.eq_iff_iff, beq_iff_eq, beq_iff_eq, Option.some_inj, Option.some_inj]
      constructor
      · intro htake
        have hlength := congrArg List.length htake
        rw [List.length_take] at hlength
        rw [← htake, List.take_of_length_le (by omega)]
      · rintro rfl
        exact List.take_of_length_le (by omega)

/-- The calls of one replacement against the answer that the model of the cache takes for it. -/
theorem replace_refines (h : Represents ownUid known volume s.cache) (hapart : ToldApart known)
    {entry : RemoteSource × Raw} (hin : entry.1 ∈ known) (hwritable : calls.unwritable = false) :
    let result := writePrivateReplace ownUid (calls.replace entry.1) (sourceCache entry.1) entry.2 volume
    let replacement := (calls.env known).replacement entry.1
    (result.1 = .ok () ↔ replacement = .replaced) ∧
      Represents ownUid known result.2
        (if replacement = .failed then s.cache else entry :: s.cache.filter fun old => old.1 != entry.1) := by
  have hreplacement := @env_replacement known calls entry.1 hin
  rw [hwritable] at hreplacement
  have hends := @ends_writePrivateReplace ownUid (calls.replace entry.1) (Regular ownUid known) (sourceCache entry.1)
    entry.2 volume (scratch_regular hin) (fun uid hregular => ?_) (sourceCache_ne_writeTmp _ _) h.regular
  · intro result replacement
    rcases hends.elim with ⟨_, after, heq, hholds, -, hfault, hplaced⟩ | ⟨error, after, heq, hholds, hleft⟩
    · have hreplaced : replacement = .replaced := by
        show (calls.env known).replacement entry.1 = .replaced
        rw [hreplacement, hfault]
        rfl
      rw [show result = (.ok (), after) from heq, hreplaced]
      exact ⟨⟨fun _ => rfl, fun _ => rfl⟩, h.placed hapart hin hholds hplaced⟩
    · rw [show result = (.error error, after) from heq]
      rcases hleft with ⟨hunplaced, hhindered⟩ | ⟨hplaced, hfault⟩
      · obtain ⟨fault, hfault, hne⟩ := fault_of_hindered h.regular hin hhindered
        have hfailed : replacement = .failed := by
          show (calls.env known).replacement entry.1 = .failed
          rw [hreplacement, hfault]
          cases fault with
          | syncingDirectory => exact absurd rfl hne
          | _ => rfl
        rw [hfailed]
        exact ⟨⟨fun hok => (by cases hok), fun hok => (by cases hok)⟩, h.unplaced hholds hunplaced⟩
      · have hunsynced : replacement = .unsynced := by
          show (calls.env known).replacement entry.1 = .unsynced
          rw [hreplacement, hfault]
          rfl
        rw [hunsynced]
        exact ⟨⟨fun hok => (by cases hok), fun hok => (by cases hok)⟩, h.placed hapart hin hholds hplaced⟩
  · obtain rfl := hregular.owner hin
    exact .of_cache (.inr ⟨_, rfl⟩)

theorem commitFile_refines (h : Represents ownUid known volume s.cache) (hapart : ToldApart known)
    {entry : RemoteSource × Raw} (hin : entry.1 ∈ known) (hsize : entry.2.length ≤ maxSubscriptionBytes) (ok : Bool) :
    (commitFile ownUid config calls (ok, volume) entry).1 =
        (Subscription.commitSource config (calls.env known) generation (ok, s) entry).1 ∧
      Represents ownUid known (commitFile ownUid config calls (ok, volume) entry).2
        (Subscription.commitSource config (calls.env known) generation (ok, s) entry).2.cache := by
  have hread := @readCapped_eq ownUid known volume s.cache calls h entry hin hsize
  have hunreadable : (calls.env known).unreadable = calls.unreadable := rfl
  unfold commitFile
  rw [Subscription.commitSource_eq]
  simp only [Subscription.wants, Subscription.differs, hread, hunreadable]
  cases config.remoteSources.contains entry.1 with
  | false => exact ⟨rfl, h⟩
  | true =>
    cases s.cache.lookup entry.1 == some entry.2 && !calls.unreadable.contains entry.1 with
    | true => exact ⟨rfl, h⟩
    | false =>
      simp only [Bool.not_true, Bool.false_eq_true, if_false, Bool.not_false, Bool.and_true, if_true]
      by_cases hwritable : calls.unwritable = false
      · rw [hwritable]
        have hreplace := @replace_refines ownUid known volume calls s h hapart entry hin hwritable
        simp only [Bool.false_eq_true, if_false]
        generalize writePrivateReplace ownUid (calls.replace entry.1) (sourceCache entry.1) entry.2 volume = result at hreplace ⊢
        obtain ⟨hok, hrepresents⟩ := hreplace
        obtain ⟨out, after⟩ := result
        cases out with
        | ok _ =>
          have hreplaced := hok.mp rfl
          rw [hreplaced] at hrepresents ⊢
          exact ⟨(Bool.and_true ok).symm, hrepresents⟩
        | error error =>
          have hnot : (calls.env known).replacement entry.1 ≠ .replaced := fun heq => by cases hok.mpr heq
          by_cases hfailed : (calls.env known).replacement entry.1 = .failed
          · rw [hfailed] at hrepresents ⊢
            exact ⟨rfl, hrepresents⟩
          · rw [if_neg hfailed] at hrepresents ⊢
            refine ⟨?_, hrepresents⟩
            rw [beq_false_of_ne hnot, Bool.and_false]
      · rw [Bool.not_eq_false] at hwritable
        have hfailed : (calls.env known).replacement entry.1 = .failed := by
          rw [env_replacement hin, if_pos hwritable]
        rw [hwritable, if_pos rfl, if_pos hfailed]
        exact ⟨rfl, h⟩

/-- The loop over the entries, by induction with both states in step. -/
theorem foldl_refines (hapart : ToldApart known) : ∀ {entries : List (RemoteSource × Raw)} {ok : Bool}
    {volume : Volume FileName} {s : Subscription}, Represents ownUid known volume s.cache →
      (∀ entry ∈ entries, entry.1 ∈ known ∧ entry.2.length ≤ maxSubscriptionBytes) →
        (entries.foldl (commitFile ownUid config calls) (ok, volume)).1 =
            (entries.foldl (Subscription.commitSource config (calls.env known) generation) (ok, s)).1 ∧
          Represents ownUid known (entries.foldl (commitFile ownUid config calls) (ok, volume)).2
            (entries.foldl (Subscription.commitSource config (calls.env known) generation) (ok, s)).2.cache
  | [], _, _, _, h, _ => ⟨rfl, h⟩
  | entry :: entries, ok, volume, s, h, hentries => by
    obtain ⟨hentry, hrest⟩ := List.forall_mem_cons.mp hentries
    have hstep := @commitFile_refines ownUid known volume config calls s generation h hapart entry hentry.1 hentry.2 ok
    rw [List.foldl_cons, List.foldl_cons]
    generalize commitFile ownUid config calls (ok, volume) entry = next at hstep ⊢
    generalize Subscription.commitSource config (calls.env known) generation (ok, s) entry = next' at hstep ⊢
    obtain ⟨ok', volume'⟩ := next
    obtain ⟨ok'', s'⟩ := next'
    obtain ⟨rfl, hrepresents⟩ := hstep
    exact foldl_refines hapart hrepresents hrest

/-- **A commit over files is the coordinator's commit**: under the same circumstances it succeeds where that one does,
and leaves the caches that one has. -/
theorem commit_refines {nodes : Option NodeConfig} (h : Represents ownUid known volume s.cache)
    (hapart : ToldApart known)
    (hpending : ∀ pending ∈ s.pending, ∀ entry ∈ pending.raw.entries,
      entry.1 ∈ known ∧ entry.2.length ≤ maxSubscriptionBytes) :
    (commitPendingFiles ownUid calls nodes generation s.pending volume).1 =
        (s.commitPending nodes generation (calls.env known)).1 ∧
      Represents ownUid known (commitPendingFiles ownUid calls nodes generation s.pending volume).2
        (s.commitPending nodes generation (calls.env known)).2.cache := by
  unfold commitPendingFiles Subscription.commitPending
  cases hs : s.pending with
  | none => exact ⟨rfl, h⟩
  | some pending =>
    simp only
    split_ifs with hgeneration
    · exact ⟨rfl, h⟩
    · cases nodes with
      | none => exact ⟨rfl, h⟩
      | some config => exact foldl_refines hapart h (hpending pending hs)

end Commits

/-! ### Cleanups -/

theorem lookup_filter_key (keep : RemoteSource → Bool) (source : RemoteSource) (l : List (RemoteSource × Raw)) :
    (l.filter fun entry => keep entry.1).lookup source = if keep source then l.lookup source else none := by
  induction l with
  | nil => simp
  | cons entry l ih =>
    by_cases hsame : source = entry.1
    · subst hsame
      by_cases hkeep : keep entry.1 = true
      · rw [List.filter_cons_of_pos (by exact hkeep), if_pos hkeep, Subscription.lookup_cons_eq,
          Subscription.lookup_cons_eq]
      · rw [List.filter_cons_of_neg (by exact hkeep), ih, if_neg hkeep, if_neg hkeep]
    · rw [Subscription.lookup_cons_ne hsame]
      by_cases hkeep : keep entry.1 = true
      · rw [List.filter_cons_of_pos (by exact hkeep), Subscription.lookup_cons_ne hsame, ih]
      · rw [List.filter_cons_of_neg (by exact hkeep), ih]

/-- **A cleanup of the files is a cleanup of the coordinator's cache**: it takes away what no configured source needs,
short of the files an error kept it from; and where it succeeds over the whole directory, of all. -/
theorem prune_refines {s : Subscription} {config : NodeConfig} (h : Represents ownUid known volume s.cache)
    (hapart : ToldApart known) (hconfig : ∀ source ∈ config.remoteSources, source ∈ known) (calls : SweepCalls) :
    ∃ unpruned : List RemoteSource,
      Represents ownUid known (pruneCache ownUid calls config.remoteSources volume).2
        (s.pruneCache config unpruned).cache ∧
      ∀ entries, calls.readDir = .ok entries → (∀ name, volume.live name ≠ none → .ok name ∈ entries) →
        (pruneCache ownUid calls config.remoteSources volume).1 = .ok () → unpruned = [] := by
  have hends := @ends_pruneCache ownUid (Regular ownUid known) volume config.remoteSources calls
    (fun _ _ _ _ => ⟨fun _ => .inl rfl, fun _ => .inl rfl⟩) h.regular
  have hstate := ends_state hends (fun _ _ h => And.intro h.1 h.2.1) fun _ h => h
  unfold Fallible.Ends at hends
  generalize pruneCache ownUid calls config.remoteSources volume = result at hends hstate ⊢
  obtain ⟨out, after⟩ := result
  obtain ⟨⟨removed, hswept⟩, hholds⟩ := hstate
  have hobsolete : ∀ source ∈ known, config.remoteSources.contains source = false →
      Obsolete config.remoteSources (sourceCache source) := by
    intro source hin hfree
    refine ⟨_, isSourceId_sourceId source, .inr ⟨rfl, fun other hother heq => ?_⟩⟩
    obtain rfl := hapart other (hconfig other hother) source hin (String.toList_injective heq)
    rw [List.contains_iff_mem.mpr hother] at hfree
    cases hfree
  have hkept : ∀ source, config.remoteSources.contains source = true →
      after.live (sourceCache source) = volume.live (sourceCache source) := by
    refine fun source hin => hswept.kept _ fun hremoved => ?_
    exact not_obsolete_sourceCache (List.contains_iff_mem.mp hin) (isObsoleteCache_iff.mp (hswept.own _ hremoved).1)
  refine ⟨known.filter fun source =>
    (after.live (sourceCache source)).isSome && !config.remoteSources.contains source, ⟨hholds, ?_⟩, ?_⟩
  · intro source hin
    rw [Subscription.pruneCache, lookup_filter_key (fun source => config.remoteSources.contains source || _)]
    by_cases hconfigured : config.remoteSources.contains source = true
    · rw [hkept source hconfigured, hconfigured, Bool.true_or, if_pos rfl, h.bytes source hin]
    · rw [Bool.not_eq_true] at hconfigured
      rw [hconfigured, Bool.false_or, List.contains_eq_mem]
      simp only [List.mem_filter, hin, true_and, hconfigured, Bool.not_false, Bool.and_true, decide_eq_true_eq]
      rcases hswept.eq_or_none (sourceCache source) with heq | hnone
      · rw [heq, h.bytes source hin]
        cases s.cache.lookup source with
        | none => rfl
        | some raw => rfl
      · rw [hnone]
        rfl
  · intro entries hread hlisted hok
    obtain rfl : out = .ok () := hok
    refine List.filter_eq_nil_iff.mpr fun source hin hleft => ?_
    rw [Bool.and_eq_true, Option.isSome_iff_exists, Bool.not_eq_true'] at hleft
    obtain ⟨⟨node, hnode⟩, hfree⟩ := hleft
    have hbefore : volume.live (sourceCache source) = some node := by
      rcases hswept.eq_or_none (sourceCache source) with heq | hnone
      · rw [← heq, hnode]
      · rw [hnone] at hnode
        cases hnode
    have hbytes := h.bytes source hin
    rw [hbefore] at hbytes
    have hthere : volume.live (sourceCache source) ≠ none := by
      rw [hbefore]
      exact Option.some_ne_none node
    have hclean := hends.2.2 entries hread _ (hlisted _ hthere) (isObsoleteCache_iff.mpr (hobsolete source hin hfree))
      node hnode
    cases hlookup : s.cache.lookup source with
    | none =>
      rw [hlookup] at hbytes
      cases hbytes
    | some raw =>
      rw [hlookup] at hbytes
      obtain rfl := Option.some.inj hbytes
      exact absurd (beq_self_eq_true ownUid) (Bool.not_eq_true _ |>.mpr hclean)

end Represents

/-! ### Two sources -/

def twoKnown : List RemoteSource := ["https://a.invalid/", "https://b.invalid/"]

theorem toldApart_two : ToldApart twoKnown := by
  intro source hin other hother hid
  simp only [twoKnown, List.mem_cons, List.not_mem_nil, or_false] at hin hother
  rcases hin with rfl | rfl <;> rcases hother with rfl | rfl
  · rfl
  · exact absurd hid.symm sourceId_apart
  · exact absurd hid sourceId_apart
  · rfl

/-- Both caches are held; a changed and an unchanged response wait. -/
def twoHeld : Subscription :=
  { Subscription.new [("https://a.invalid/", [1]), ("https://b.invalid/", [2, 3])] with
    pending := some ⟨⟨[("https://a.invalid/", [4, 5]), ("https://b.invalid/", [2, 3])], by decide⟩, none⟩ }

/-- Every call of a commit succeeds. -/
def plainCalls : CommitCalls := ⟨[], fun _ => none, false, fun _ => ⟨none, false⟩⟩

theorem represents_two : Represents 0 twoKnown (.synced twoCaches) twoHeld.cache := by
  have hcaches : sourceCache "https://b.invalid/" ≠ sourceCache "https://a.invalid/" := fun h =>
    sourceId_apart (sourceId_of_sourceCache h)
  constructor
  · refine Volume.holds_synced.mpr fun name => ?_
    unfold twoCaches
    rcases heldUnder_cases (sourceCache "https://a.invalid/") (sourceCache "https://b.invalid/")
      (writeTmp (sourceCache "https://b.invalid/")) name with ⟨hname, hnode⟩ | ⟨hname, hnode⟩ | ⟨hname, hnode⟩ | hnode
    · rw [hnode, hname]
      exact .of_cache (.inr ⟨_, rfl⟩)
    · rw [hnode, hname]
      exact .of_cache (.inr ⟨_, rfl⟩)
    · rw [hnode, hname]
      exact .of_tmp (.inr ⟨_, _, rfl⟩)
    · rw [hnode]
      exact fun _ _ => ⟨fun _ => .inl rfl, fun _ => .inl rfl⟩
  · intro source hin
    simp only [twoKnown, List.mem_cons, List.not_mem_nil, or_false] at hin
    rcases hin with rfl | rfl
    · rw [show twoHeld.cache.lookup "https://a.invalid/" = some [1] by decide]
      exact heldUnder_first
    · rw [show twoHeld.cache.lookup "https://b.invalid/" = some [2, 3] by decide]
      exact heldUnder_second hcaches

/-- The first response replaces its cache; the second is the cache that is there. -/
theorem commit_refines_two :
    (commitPendingFiles 0 plainCalls (some ⟨twoKnown, 0⟩) none twoHeld.pending (.synced twoCaches)).1 =
        (twoHeld.commitPending (some ⟨twoKnown, 0⟩) none (plainCalls.env twoKnown)).1 ∧
      Represents 0 twoKnown
        (commitPendingFiles 0 plainCalls (some ⟨twoKnown, 0⟩) none twoHeld.pending (.synced twoCaches)).2
        (twoHeld.commitPending (some ⟨twoKnown, 0⟩) none (plainCalls.env twoKnown)).2.cache := by
  refine commit_refines represents_two toldApart_two fun pending hpending => ?_
  obtain rfl := Option.some.inj hpending
  decide

/-- What is not obsolete is passed by. -/
theorem sweepEntry_kept {ownUid : ℕ} {calls : SweepCalls} {stale : FileName → Bool} {name : FileName}
    (h : stale name = false) (volume : Volume FileName) :
    sweepEntry ownUid calls stale (.ok name) volume = (.ok [], volume) := by
  rw [sweepEntry, h]
  rfl

/-- An obsolete file of this user is unlinked where no call fails. -/
theorem sweepEntry_removed {ownUid : ℕ} {calls : SweepCalls} {stale : FileName → Bool} {name : FileName}
    {volume : Volume FileName} {bytes : Raw} {synced : Bool} (h : stale name = true) (hmetadata : calls.metadata name = none)
    (hunlink : calls.unlink name = none) (hnode : volume.live name = some (.file ownUid bytes synced)) :
    sweepEntry ownUid calls stale (.ok name) volume = (.ok [name], volume.change (Directory.unlink name)) := by
  have hread : symlinkMetadata calls name volume = (.ok (.file ownUid bytes synced), volume) := by
    rw [symlinkMetadata, hmetadata, hnode]
  have hremove : removeFile calls name volume = (.ok (), volume.change (Directory.unlink name)) := by
    rw [removeFile, hunlink, hnode]
  rw [sweepEntry, if_pos h, Fallible.bind_of_ok hread, if_pos (show isOwnFile ownUid _ = true from beq_self_eq_true _),
    Fallible.bind_of_ok hremove]
  rfl

/-- Obsolete names go one after the other. -/
theorem prune_heldUnder {first second writing : FileName} {sources : List RemoteSource} (hsecond : second ≠ first)
    (hwriting : writing ≠ first) (hwriting' : writing ≠ second) (hkept : isObsoleteCache sources first = false)
    (hgone : isObsoleteCache sources second = true) (hgone' : isObsoleteCache sources writing = true) :
    (pruneCache 0 ⟨.ok [.ok first, .ok second, .ok writing], fun _ => none, fun _ => none⟩ sources
      (.synced (heldUnder first second writing))).1 = .ok () := by
  have hheld : (Directory.unlink second (heldUnder first second writing)) writing = some (.file 0 [2] true) := by
    rw [Directory.unlink, Function.update_of_ne hwriting', heldUnder, if_neg hwriting, if_neg hwriting', if_pos rfl]
  have hloop := Fallible.collect_cons_of_ok (@sweepEntry_kept 0 ⟨.ok [.ok first, .ok second, .ok writing], fun _ => none,
      fun _ => none⟩ _ first hkept (.synced (heldUnder first second writing)))
    (Fallible.collect_cons_of_ok (sweepEntry_removed hgone rfl rfl (heldUnder_second hsecond))
      (Fallible.collect_cons_of_ok (sweepEntry_removed hgone' rfl rfl hheld) (Fallible.collect_nil ..)))
  rw [pruneCache, sweep, Fallible.bind_of_ok hloop]
  rfl

/-- Only the first source is configured, and the listing is the whole directory: the cache of the second goes. -/
theorem prune_refines_two :
    (pruneCache 0 wholeListing ["https://a.invalid/"] (.synced twoCaches)).1 = .ok () ∧
      Represents 0 twoKnown (pruneCache 0 wholeListing ["https://a.invalid/"] (.synced twoCaches)).2
        (twoHeld.pruneCache ⟨["https://a.invalid/"], 0⟩ []).cache := by
  obtain ⟨unpruned, hrepresents, hwhole⟩ := @prune_refines 0 twoKnown (.synced twoCaches) twoHeld
    ⟨["https://a.invalid/"], 0⟩ represents_two toldApart_two
    (fun source hin => List.mem_singleton.mp hin ▸ List.mem_cons_self) wholeListing
  have hobsolete : Obsolete ["https://a.invalid/"] (sourceCache "https://b.invalid/") := by
    refine ⟨_, isSourceId_sourceId _, .inr ⟨rfl, fun source hin heq => ?_⟩⟩
    rw [List.mem_singleton.mp hin] at heq
    exact sourceId_apart (String.toList_injective heq).symm
  have hinterrupted : Obsolete ["https://a.invalid/"] (writeTmp (sourceCache "https://b.invalid/")) :=
    ⟨_, isSourceId_sourceId _, .inl (writeTmp_sourceCache _)⟩
  have hok : (pruneCache 0 wholeListing ["https://a.invalid/"] (.synced twoCaches)).1 = .ok () := by
    refine prune_heldUnder (fun h => sourceId_apart (sourceId_of_sourceCache h)) (sourceCache_ne_writeTmp _ _).symm
      (sourceCache_ne_writeTmp _ _).symm ?_ (isObsoleteCache_iff.mpr hobsolete) (isObsoleteCache_iff.mpr hinterrupted)
    rw [← Bool.not_eq_true, isObsoleteCache_iff]
    exact not_obsolete_sourceCache (List.mem_singleton_self _)
  have hlisted : ∀ name, twoCaches name ≠ none → Except.ok name ∈ [Except.ok (sourceCache "https://a.invalid/"),
      .ok (sourceCache "https://b.invalid/"), (.ok (writeTmp (sourceCache "https://b.invalid/")) : Except FileError _)] := by
    intro name hname
    simp only [List.mem_cons, List.not_mem_nil, or_false, Except.ok.injEq]
    rcases heldUnder_cases _ _ _ name with ⟨hfirst, -⟩ | ⟨hsecond, -⟩ | ⟨hwriting, -⟩ | hnone
    · exact .inl hfirst
    · exact .inr (.inl hsecond)
    · exact .inr (.inr hwriting)
    · exact absurd hnone hname
  obtain rfl := hwhole _ rfl hlisted hok
  exact ⟨hok, hrepresents⟩

end FluxRs.Daemon
