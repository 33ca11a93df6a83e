import Mathlib.Data.List.Induction
import Mathlib.Data.List.Nodup

/-!
# FluxRs.Daemon.Subscription — the subscription coordinator

`crates/fluxd/src/subscription.rs` and what `reactor.rs` does to it: the schedule, the pending batch of
accepted responses, the single worker, and the source cache under `run/cache/sources`.  A cache file is
named by the digest of its source; here it is named by the source.

Two logs stand beside the state, which no function reads: the responses that were handled, and the
cache files that were written.
-/

namespace FluxRs.Daemon

/-! ### Data -/

/-- A remote source is its configured URL. -/
abbrev RemoteSource := String

/-- The bytes of a subscription. -/
abbrev Raw := List UInt8

/-- The remote half of `NodeConfig`; a source occurs once. -/
structure NodeConfig where
  remoteSources : List RemoteSource
  /-- `fetch.interval`. -/
  interval : ℕ
  deriving DecidableEq

/-- The configuration as a handler reads it from its files. -/
structure Authority where
  nodes : NodeConfig
  /-- `NodePolicy::remote` accepts the bytes. -/
  remote : Raw → Bool

/-- What a worker is asked to fetch. -/
structure FetchRequest where
  sources : List RemoteSource
  epoch : ℕ
  deriving DecidableEq

/-- What one source of a request comes to; the texts of a failure are left out. -/
abbrev FetchAnswer := Option Raw

/-- A `BTreeMap` from sources to bytes: a source has one entry. -/
structure Batch where
  entries : List (RemoteSource × Raw)
  nodup : (entries.map Prod.fst).Nodup
  deriving DecidableEq

/-- Accepted bytes that wait for the engine transaction that uses them. -/
structure Pending where
  raw : Batch
  generation : Option ℕ
  deriving DecidableEq

/-- `u64::MAX`. -/
def u64Max : ℕ := 0xFFFFFFFFFFFFFFFF

/-- `Coordinator`: the schedule, the accepted batch, the work that is queued, and the epochs by which a late result
or a recovered route is told.  The recoveries wrap at 64 bits, the fetches stop there. -/
structure Coordinator where
  schedule : Option (List RemoteSource × ℕ)
  pending : Option Pending
  fetchQueued : Bool
  reconfigureQueued : Bool
  retryOnRoute : Bool
  defaultRouteWasReady : Bool
  routeRecoveryEpoch : ℕ
  fetchRouteEpoch : ℕ
  fetchEpoch : ℕ
  deriving DecidableEq

/-- One response of a completed request, as it was handled. -/
structure Response where
  source : RemoteSource
  raw : Raw
  /-- The epoch of the request, and `fetch_epoch` when its result was handled. -/
  epoch : ℕ
  current : ℕ
  /-- The configuration in force at that moment. -/
  config : Authority

/-- The source is configured, and `NodePolicy::remote` accepts the bytes. -/
def Response.passed (response : Response) : Bool :=
  response.config.nodes.remoteSources.contains response.source && response.config.remote response.raw

/-- One replaced cache file. -/
structure CacheWrite where
  source : RemoteSource
  raw : Raw
  /-- The generation that the batch was bound to. -/
  generation : Option ℕ
  /-- The remote sources of the current policy at that moment. -/
  configured : List RemoteSource
  deriving DecidableEq

/-- The coordinator with its worker, the cache and the logs. -/
structure Subscription extends Coordinator where
  /-- The request in flight. -/
  worker : Option FetchRequest
  cache : List (RemoteSource × Raw)
  responses : List Response
  writes : List CacheWrite

/-- A coordinator that found `cache` on disk. -/
def Subscription.new (cache : List (RemoteSource × Raw)) : Subscription where
  schedule := none
  pending := none
  fetchQueued := false
  reconfigureQueued := false
  retryOnRoute := false
  defaultRouteWasReady := false
  routeRecoveryEpoch := 0
  fetchRouteEpoch := 0
  fetchEpoch := 0
  worker := none
  cache := cache
  responses := []
  writes := []

/-! ### What the coordinator meets outside -/

/-- One attempt to start a fetch. -/
structure FetchEnv where
  /-- `refresh_default_route_ready`, where it answers. -/
  route : Option Bool := none
  threadStarts : Bool := true
  /-- Cache files that cannot be read, or are too large. -/
  unreadable : List RemoteSource := []
  /-- Files that `prune_cache` does not get to. -/
  unpruned : List RemoteSource := []

/-- What one commit meets outside. -/
structure CommitEnv where
  unreadable : List RemoteSource := []
  /-- `ensure_source_cache` fails. -/
  unwritable : Bool := false
  /-- Sources whose cache file cannot be replaced. -/
  faults : List RemoteSource := []
  /-- Sources whose file is replaced, and the sync of its directory then fails. -/
  unsynced : List RemoteSource := []

/-- How `ensure_source_cache` and `write_private_replace` end. -/
inductive Replacement where
  | replaced
  /-- The file is in place, but its directory could not be synced. -/
  | unsynced
  | failed
  deriving DecidableEq, Repr

/-- How the replacement of one cache file ends. -/
def CommitEnv.replacement (env : CommitEnv) (source : RemoteSource) : Replacement :=
  if env.unwritable || env.faults.contains source then .failed
  else if env.unsynced.contains source then .unsynced
  else .replaced

namespace Batch

/-- No source has brought bytes. -/
def empty : Batch := ⟨[], List.nodup_nil⟩

/-- Only some sources stay. -/
def retain (b : Batch) (keep : RemoteSource → Bool) : Batch where
  entries := b.entries.filter fun entry => keep entry.1
  nodup := b.nodup.sublist (List.filter_sublist.map Prod.fst)

/-- `BTreeMap::insert`. -/
def insert (b : Batch) (source : RemoteSource) (raw : Raw) : Batch where
  entries := (source, raw) :: (b.retain fun other => other != source).entries
  nodup := by
    refine List.nodup_cons.mpr ⟨fun hmem => ?_, (b.retain fun other => other != source).nodup⟩
    obtain ⟨entry, hentry, heq⟩ := List.mem_map.mp hmem
    have hne := (List.mem_filter.mp hentry).2
    simp [heq] at hne

/-- The bytes of a source. -/
def lookup (b : Batch) (source : RemoteSource) : Option Raw := b.entries.lookup source

def isEmpty (b : Batch) : Bool := b.entries.isEmpty

end Batch

namespace Subscription

variable (s : Subscription)

/-! ### Coordinator -/

/-- The coordinator forgets what it was about to do, but not its epochs. -/
def resetOnDisable : Subscription :=
  { s with
    schedule := none
    retryOnRoute := false
    defaultRouteWasReady := false
    pending := none
    fetchQueued := false
    reconfigureQueued := false }

/-- An engine transaction is validating the batch. -/
def tagged : Bool := s.pending.any fun pending => pending.generation.isSome

/-- The batch goes with the generation that it is bound to. -/
def discardGeneration (generation : ℕ) : Subscription :=
  if s.pending.any fun pending => pending.generation == some generation then { s with pending := none }
  else s

/-- `finish_transaction_error` drops a bound batch. -/
def dropTagged : Subscription := if s.tagged then { s with pending := none } else s

/-- A refused engine candidate drops a batch that no generation has taken up. -/
def dropUntagged : Subscription :=
  if s.pending.any fun pending => pending.generation.isNone then { s with pending := none } else s

/-- The batch is bound to the generation that was built from it, less the sources since removed. -/
def bindGeneration (nodes : Option NodeConfig) (generation : ℕ) : Subscription :=
  match s.pending, nodes with
  | some pending, some nodes =>
    { s with pending := some ⟨pending.raw.retain nodes.remoteSources.contains, some generation⟩ }
  | _, _ => s

/-! ### Fetching -/

/-- `refresh_default_route_observation`. -/
def observeRoute (route : Option Bool) : Subscription :=
  match route with
  | none => s
  | some ready =>
    { s with
      routeRecoveryEpoch :=
        if !s.defaultRouteWasReady && ready then (s.routeRecoveryEpoch + 1) % (u64Max + 1) else s.routeRecoveryEpoch
      defaultRouteWasReady := ready }

/-- `start_subscription_fetch_with`, less its error texts. -/
def startFetchWith (disabled : Bool) (config : NodeConfig) (env : FetchEnv) : Subscription :=
  if disabled || config.remoteSources.isEmpty then s
  else if s.tagged then { s with fetchQueued := true }
  else if s.worker.isSome then s
  else
    let s := { s with pending := none }.observeRoute env.route
    let epoch := min (s.fetchEpoch + 1) u64Max
    { s with
      fetchRouteEpoch := s.routeRecoveryEpoch
      fetchEpoch := epoch
      worker := if env.threadStarts then some ⟨config.remoteSources, epoch⟩ else none }

/-- `source_snapshots` has bytes for the source. -/
def hasSnapshot (unreadable : List RemoteSource) (source : RemoteSource) : Bool :=
  (s.pending.any fun pending => (pending.raw.lookup source).isSome) ||
    ((s.cache.lookup source).isSome && !unreadable.contains source)

/-- `ensure_subscription_schedule`. -/
def ensureSchedule (disabled : Bool) (config : NodeConfig) (env : FetchEnv) : Subscription :=
  if config.remoteSources.isEmpty then { s with schedule := none }
  else
    let introduced := config.remoteSources.any fun source =>
      match s.schedule with
      | none => true
      | some (previous, _) => !previous.contains source
    let s := { s with schedule := some (config.remoteSources, config.interval) }
    if introduced && !config.remoteSources.all (s.hasSnapshot env.unreadable) then
      s.startFetchWith disabled config env
    else s

/-- `prune_cache`. -/
def pruneCache (config : NodeConfig) (unpruned : List RemoteSource) : Subscription :=
  { s with cache := s.cache.filter fun entry =>
      config.remoteSources.contains entry.1 || unpruned.contains entry.1 }

/-- `configure_subscription` under a current policy. -/
def configure (disabled : Bool) (config : NodeConfig) (sourcesChanged : Bool) (env : FetchEnv) :
    Subscription :=
  if sourcesChanged && s.tagged then { s with reconfigureQueued := true }
  else
    let s := (s.ensureSchedule disabled config env).pruneCache config env.unpruned
    if config.remoteSources.isEmpty then
      { s with
        retryOnRoute := false
        pending := none
        fetchQueued := false
        reconfigureQueued := false }
    else s

/-! ### Results -/

/-- `take_result`, with the epoch of the result. -/
def takeResult (answers : List FetchAnswer) : Option (List (RemoteSource × FetchAnswer) × ℕ) :=
  s.worker.map fun request =>
    (request.sources.mapIdx fun i source => (source, (answers[i]?).getD none), request.epoch)

/-- The responses of a result, each with the configuration in force. -/
def judged (config : Authority) (completed : List (RemoteSource × FetchAnswer)) (epoch current : ℕ) :
    List Response :=
  completed.filterMap fun entry => entry.2.map fun raw => ⟨entry.1, raw, epoch, current, config⟩

/-- The bytes a result contributes. -/
def acceptedRaw (responses : List Response) : Batch :=
  responses.foldl (fun raw response =>
    if response.passed then raw.insert response.source response.raw else raw) .empty

/-- What becomes of a result. -/
inductive Verdict where
  | discarded
  | empty
  | accepted
  deriving DecidableEq, Repr

/-- What `handle_subscription_result` notes before it decides on the bytes: sources that the request did
not name, and a route that came back while the transport failed. -/
def noteResult (config : Authority) (completed : List (RemoteSource × FetchAnswer))
    (route : Option Bool) : Subscription :=
  let missed := config.nodes.remoteSources.any fun source => !(completed.map Prod.fst).contains source
  let failed := completed.any fun entry =>
    config.nodes.remoteSources.contains entry.1 && entry.2.isNone
  let s := { s with fetchQueued := s.fetchQueued || missed, retryOnRoute := failed }
  if failed then
    let s := s.observeRoute route
    if s.routeRecoveryEpoch != s.fetchRouteEpoch then
      { s with retryOnRoute := false, fetchQueued := true }
    else s
  else s

/-- A result that the coordinator can use. -/
def useResult (config : Authority) (completed : List (RemoteSource × FetchAnswer)) (epoch current : ℕ)
    (route : Option Bool) : Verdict × Subscription :=
  let responses := judged config completed epoch current
  let s := { s.noteResult config completed route with responses := responses ++ s.responses }
  let raw := acceptedRaw responses
  if raw.isEmpty then (.empty, { s with pending := none })
  else (.accepted, { s with pending := some ⟨raw, none⟩ })

/-- `handle_subscription_result` up to the convergence it asks for. -/
def handleResult (disabled : Bool) (authority : Option Authority) (answers : List FetchAnswer)
    (env : FetchEnv) (route : Option Bool) : Verdict × Subscription :=
  match s.takeResult answers with
  | none => (.discarded, s)
  | some (completed, epoch) =>
    let s := { s with worker := none }
    let current := s.fetchEpoch
    if epoch ≠ current then (.discarded, s)
    else match authority with
      | none => (.discarded, s)
      | some config =>
        let s := s.ensureSchedule disabled config.nodes env
        if disabled || config.nodes.remoteSources.isEmpty then (.discarded, { s with pending := none })
        else if s.tagged then (.discarded, { s with fetchQueued := true })
        else s.useResult config completed epoch current route

/-! ### The cache commit -/

/-- One round of the loop of `commit_pending_subscription`: what it has written, and whether all went
well so far. -/
def commitSource (config : NodeConfig) (env : CommitEnv) (generation : Option ℕ)
    (acc : Bool × Subscription) (entry : RemoteSource × Raw) : Bool × Subscription :=
  let (ok, s) := acc
  if !config.remoteSources.contains entry.1 then (ok, s)
  else if s.cache.lookup entry.1 == some entry.2 && !env.unreadable.contains entry.1 then (ok, s)
  else if env.replacement entry.1 == .failed then (false, s)
  else (ok && env.replacement entry.1 == .replaced, { s with
    cache := entry :: s.cache.filter fun old => old.1 != entry.1
    writes := ⟨entry.1, entry.2, generation, config.remoteSources⟩ :: s.writes })

/-- `commit_pending_subscription`; `nodes` is what the current policy configures. -/
def commitPending (nodes : Option NodeConfig) (generation : Option ℕ) (env : CommitEnv) :
    Bool × Subscription :=
  match s.pending with
  | none => (true, s)
  | some pending =>
    if pending.generation ≠ generation then (true, s)
    else
      let s := { s with pending := none }
      match nodes with
      | none => (true, s)
      | some config => pending.raw.entries.foldl (commitSource config env generation) (true, s)

/-- The entries of the batch that a commit takes whose sources are still configured. -/
def due (nodes : Option NodeConfig) (generation : Option ℕ) : List (RemoteSource × Raw) :=
  match s.pending, nodes with
  | some pending, some config =>
    if pending.generation = generation then
      pending.raw.entries.filter fun entry => config.remoteSources.contains entry.1
    else []
  | _, _ => []

/-- The cache does not hold the bytes, as far as the commit can read it. -/
def differs (env : CommitEnv) (entry : RemoteSource × Raw) : Bool :=
  !(s.cache.lookup entry.1 == some entry.2 && !env.unreadable.contains entry.1)

/-- What a commit has to write. -/
def outstanding (nodes : Option NodeConfig) (generation : Option ℕ) (env : CommitEnv) :
    List (RemoteSource × Raw) := (s.due nodes generation).filter (s.differs env)

/-! ### What brings nothing new -/

/-- Work waits for the transaction that a batch is bound to. -/
def owes : Bool := s.fetchQueued || s.reconfigureQueued || s.tagged

end Subscription

/-- A change of the coordinator that brings no batch, no write and no debt. -/
structure Quiet (s s' : Subscription) : Prop where
  pending : s'.pending = s.pending ∨ s'.pending = none
  /-- Files may go. -/
  cache : s'.cache.Sublist s.cache
  responses : s'.responses = s.responses
  writes : s'.writes = s.writes
  owes : s'.owes = true → s.owes = true

namespace Quiet

variable {s s' s'' : Subscription}

theorem refl (s : Subscription) : Quiet s s := ⟨.inl rfl, .refl _, rfl, rfl, id⟩

theorem trans (h : Quiet s s') (h' : Quiet s' s'') : Quiet s s'' where
  pending := by
    rcases h'.pending with heq | hnone
    · rw [heq]
      exact h.pending
    · exact .inr hnone
  cache := h'.cache.trans h.cache
  responses := h'.responses.trans h.responses
  writes := h'.writes.trans h.writes
  owes ho := h.owes (h'.owes ho)

/-- The same batch, and no debt is made. -/
theorem of_le (hp : s'.pending = s.pending) (hf : s'.fetchQueued = true → s.fetchQueued = true)
    (hc : s'.reconfigureQueued = true → s.reconfigureQueued = true) (hr : s'.responses = s.responses)
    (hw : s'.writes = s.writes) (hk : s'.cache.Sublist s.cache := by exact List.Sublist.refl _) :
    Quiet s s' where
  pending := .inl hp
  cache := hk
  responses := hr
  writes := hw
  owes ho := by
    simp only [Subscription.owes, Subscription.tagged, hp, Bool.or_eq_true] at ho ⊢
    exact ho.imp_left (Or.imp hf hc)

/-- Everything that a debt depends on is as it was. -/
theorem of_eq (hp : s'.pending = s.pending) (hf : s'.fetchQueued = s.fetchQueued)
    (hc : s'.reconfigureQueued = s.reconfigureQueued) (hr : s'.responses = s.responses)
    (hw : s'.writes = s.writes) (hk : s'.cache.Sublist s.cache := by exact List.Sublist.refl _) :
    Quiet s s' :=
  of_le hp (fun h => hf ▸ h) (fun h => hc ▸ h) hr hw hk

/-- The batch is dropped and no debt is made. -/
theorem of_none (hp : s'.pending = none) (hf : s'.fetchQueued = true → s.fetchQueued = true)
    (hc : s'.reconfigureQueued = true → s.reconfigureQueued = true) (hr : s'.responses = s.responses)
    (hw : s'.writes = s.writes) (hk : s'.cache.Sublist s.cache := by exact List.Sublist.refl _) :
    Quiet s s' where
  pending := .inr hp
  cache := hk
  responses := hr
  writes := hw
  owes ho := by
    simp only [Subscription.owes, Subscription.tagged, hp, Option.any_none, Bool.or_false,
      Bool.or_eq_true] at ho
    simp only [Subscription.owes, Bool.or_eq_true]
    rcases ho with ho | ho
    · exact .inl (.inl (hf ho))
    · exact .inl (.inr (hc ho))

theorem dropPending (s : Subscription) : Quiet s { s with pending := none } :=
  of_none rfl id id rfl rfl

theorem observeRoute (s : Subscription) (route : Option Bool) : Quiet s (s.observeRoute route) := by
  unfold Subscription.observeRoute
  split
  · exact refl s
  · exact of_eq rfl rfl rfl rfl rfl

theorem startFetchWith (s : Subscription) (disabled : Bool) (config : NodeConfig) (env : FetchEnv) :
    Quiet s (s.startFetchWith disabled config env) := by
  unfold Subscription.startFetchWith
  split
  · exact refl s
  split
  · rename_i htag
    exact ⟨.inl rfl, .refl _, rfl, rfl, fun _ => by simp [Subscription.owes, htag]⟩
  split
  · exact refl s
  · exact ((dropPending s).trans (observeRoute _ env.route)).trans (of_eq rfl rfl rfl rfl rfl)

theorem ensureSchedule (s : Subscription) (disabled : Bool) (config : NodeConfig) (env : FetchEnv) :
    Quiet s (s.ensureSchedule disabled config env) := by
  have hset : ∀ schedule, Quiet s { s with schedule := schedule } :=
    fun _ => of_eq rfl rfl rfl rfl rfl
  unfold Subscription.ensureSchedule
  split
  · exact hset none
  simp only
  generalize config.remoteSources.any _ = introduced
  split
  · exact (hset _).trans (startFetchWith _ disabled config env)
  · exact hset _

theorem configure (s : Subscription) (disabled : Bool) (config : NodeConfig) (sourcesChanged : Bool)
    (env : FetchEnv) : Quiet s (s.configure disabled config sourcesChanged env) := by
  unfold Subscription.configure
  split
  · rename_i htag
    simp only [Bool.and_eq_true] at htag
    exact ⟨.inl rfl, .refl _, rfl, rfl, fun _ => by simp [Subscription.owes, htag.2]⟩
  have hpruned : Quiet s ((s.ensureSchedule disabled config env).pruneCache config env.unpruned) :=
    (ensureSchedule s disabled config env).trans (of_eq rfl rfl rfl rfl rfl List.filter_sublist)
  simp only
  split
  · exact hpruned.trans (of_none rfl (by simp) (by simp) rfl rfl)
  · exact hpruned

theorem dropUntagged (s : Subscription) : Quiet s s.dropUntagged := by
  unfold Subscription.dropUntagged
  split
  · exact dropPending s
  · exact refl s

theorem dropTagged (s : Subscription) : Quiet s s.dropTagged := by
  unfold Subscription.dropTagged
  split
  · exact dropPending s
  · exact refl s

theorem discardGeneration (s : Subscription) (generation : ℕ) :
    Quiet s (s.discardGeneration generation) := by
  unfold Subscription.discardGeneration
  split
  · exact dropPending s
  · exact refl s

theorem resetOnDisable (s : Subscription) : Quiet s s.resetOnDisable :=
  of_none rfl (by simp [Subscription.resetOnDisable]) (by simp [Subscription.resetOnDisable]) rfl rfl

end Quiet

/-! ### Results -/

/-- A result that was used: its responses are noted, and a batch holds exactly those that passed. -/
structure Used (s s' : Subscription) (verdict : Subscription.Verdict) (noted : List Response) :
    Prop where
  current : ∀ response ∈ noted, response.epoch = response.current
  responses : s'.responses = noted ++ s.responses
  writes : s'.writes = s.writes
  cache : s'.cache.Sublist s.cache
  reconfigure : s'.reconfigureQueued = true → s.owes = true
  pending : verdict = .empty ∧ s'.pending = none ∨
    verdict = .accepted ∧ s'.pending = some ⟨Subscription.acceptedRaw noted, none⟩

namespace Subscription

variable {s : Subscription}

/-- Every byte of an accepted batch comes from a response that passed. -/
theorem mem_acceptedRaw {responses : List Response} {entry : RemoteSource × Raw}
    (h : entry ∈ (acceptedRaw responses).entries) : ∃ response ∈ responses,
      response.passed = true ∧ response.source = entry.1 ∧ response.raw = entry.2 := by
  unfold acceptedRaw at h
  induction responses using List.reverseRecOn with
  | nil => cases h
  | append_singleton responses last ih =>
    rw [List.foldl_append] at h
    simp only [List.foldl_cons, List.foldl_nil] at h
    have hold : entry ∈ (acceptedRaw responses).entries → ∃ response ∈ responses ++ [last],
        response.passed = true ∧ response.source = entry.1 ∧ response.raw = entry.2 := by
      intro hmem
      obtain ⟨response, hresponse, hgood⟩ := ih hmem
      exact ⟨response, List.mem_append_left _ hresponse, hgood⟩
    split at h
    · rename_i hpass
      rcases List.mem_cons.mp h with rfl | h
      · exact ⟨last, by simp, hpass, rfl, rfl⟩
      · exact hold (List.mem_of_mem_filter h)
    · exact hold h

/-- Every response that is judged is of the current request. -/
theorem judged_current {config : Authority} {completed : List (RemoteSource × FetchAnswer)}
    {epoch current : ℕ} (h : epoch = current) :
    ∀ response ∈ judged config completed epoch current, response.epoch = response.current := by
  intro response hmem
  simp only [judged, List.mem_filterMap, Option.map_eq_some_iff] at hmem
  obtain ⟨entry, -, raw, -, rfl⟩ := hmem
  exact h

/-- A result is noted without touching the caches. -/
theorem noteResult_fields (s : Subscription) (config : Authority)
    (completed : List (RemoteSource × FetchAnswer)) (route : Option Bool) :
    (s.noteResult config completed route).writes = s.writes ∧
      (s.noteResult config completed route).cache = s.cache ∧
      (s.noteResult config completed route).reconfigureQueued = s.reconfigureQueued := by
  have hroute : ∀ s : Subscription, (s.observeRoute route).writes = s.writes ∧
      (s.observeRoute route).cache = s.cache ∧
      (s.observeRoute route).reconfigureQueued = s.reconfigureQueued := by
    intro s
    unfold observeRoute
    split
    · exact ⟨rfl, rfl, rfl⟩
    · exact ⟨rfl, rfl, rfl⟩
  unfold noteResult
  simp only
  split
  · split
    · exact hroute _
    · exact hroute _
  · exact ⟨rfl, rfl, rfl⟩

/-- The spec of a result: what is pending afterwards was pending, or is of this result. -/
theorem useResult_used (s : Subscription) (config : Authority)
    (completed : List (RemoteSource × FetchAnswer)) {epoch current : ℕ} (h : epoch = current)
    (route : Option Bool) :
    Used s (s.useResult config completed epoch current route).2
      (s.useResult config completed epoch current route).1 (judged config completed epoch current) := by
  obtain ⟨hw, hk, hc⟩ := noteResult_fields s config completed route
  have hk : (s.noteResult config completed route).cache.Sublist s.cache := hk ▸ .refl _
  have howes : s.reconfigureQueued = true → s.owes = true := by
    intro hq
    simp [owes, hq]
  unfold useResult
  simp only
  split
  · exact ⟨judged_current h, rfl, hw, hk, fun hq => howes (hc.symm.trans hq), .inl ⟨rfl, rfl⟩⟩
  · exact ⟨judged_current h, rfl, hw, hk, fun hq => howes (hc.symm.trans hq), .inr ⟨rfl, rfl⟩⟩

/-- A result is thrown away and brings nothing, or it is used. -/
theorem handleResult_cases (s : Subscription) (disabled : Bool) (authority : Option Authority)
    (answers : List FetchAnswer) (env : FetchEnv) (route : Option Bool) :
    (s.handleResult disabled authority answers env route).1 = .discarded ∧
        Quiet s (s.handleResult disabled authority answers env route).2 ∨
      ∃ responses, Used s (s.handleResult disabled authority answers env route).2
        (s.handleResult disabled authority answers env route).1 responses := by
  have htaken : Quiet s { s with worker := none } := .of_eq rfl rfl rfl rfl rfl
  unfold handleResult
  split
  · exact .inl ⟨rfl, .refl s⟩
  · rename_i completed epoch heq
    simp only
    split
    · exact .inl ⟨rfl, htaken⟩
    rename_i hepoch
    split
    · exact .inl ⟨rfl, htaken⟩
    · rename_i config
      have hq : Quiet s ({ s with worker := none }.ensureSchedule disabled config.nodes env) :=
        htaken.trans (.ensureSchedule _ disabled config.nodes env)
      generalize { s with worker := none }.ensureSchedule disabled config.nodes env = s₁ at hq ⊢
      split
      · exact .inl ⟨rfl, hq.trans (.dropPending s₁)⟩
      split
      · rename_i htag
        exact .inl ⟨rfl, hq.trans ⟨.inl rfl, .refl _, rfl, rfl, fun _ => by simp [owes, htag]⟩⟩
      · have hu := useResult_used s₁ config completed (Decidable.not_not.mp hepoch) route
        exact .inr ⟨_, hu.current, by rw [hu.responses, hq.responses], hu.writes.trans hq.writes,
          hu.cache.trans hq.cache, fun hc => hq.owes (hu.reconfigure hc), hu.pending⟩

end Subscription

end FluxRs.Daemon
