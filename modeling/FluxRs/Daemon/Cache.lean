import FluxRs.Daemon.Subscription

/-!
# FluxRs.Daemon.Cache — what a commit leaves in the source cache

`commit_pending_subscription` replaces one file after the other.  `Stored` follows its loop over the batch,
in which no source occurs twice, and `Cached` says what is left once it has ended.
-/

namespace FluxRs.Daemon

namespace Subscription

/-! ### The loop -/

theorem lookup_cons_eq (entry : RemoteSource × Raw) (l : List (RemoteSource × Raw)) :
    (entry :: l).lookup entry.1 = some entry.2 := List.lookup_cons_self

theorem lookup_cons_ne {source : RemoteSource} {entry : RemoteSource × Raw} (h : source ≠ entry.1)
    (l : List (RemoteSource × Raw)) : (entry :: l).lookup source = l.lookup source := by
  obtain ⟨key, raw⟩ := entry
  have hne : (source == key) = false := by simpa using h
  simp [List.lookup_cons, hne]

theorem lookup_filter_ne (l : List (RemoteSource × Raw)) {source other : RemoteSource}
    (h : other ≠ source) : (l.filter fun old => old.1 != source).lookup other = l.lookup other := by
  induction l with
  | nil => rfl
  | cons entry l ih =>
    obtain ⟨key, raw⟩ := entry
    by_cases hkey : key = source
    · subst hkey
      have hne : (other == key) = false := by simpa using h
      simpa [List.lookup_cons, hne] using ih
    · have hkeep : (key != source) = true := by simpa using hkey
      simp only [List.filter_cons, hkeep, if_true, List.lookup_cons]
      rw [ih]

/-- The loop of a commit has to write the entry. -/
def wants (s : Subscription) (config : NodeConfig) (env : CommitEnv) (entry : RemoteSource × Raw) : Bool :=
  config.remoteSources.contains entry.1 && s.differs env entry

/-- The entries of `l` that end up on disk. -/
def written (s : Subscription) (config : NodeConfig) (env : CommitEnv) (l : List (RemoteSource × Raw)) :
    List (RemoteSource × Raw) :=
  l.filter fun entry => s.wants config env entry && env.replacement entry.1 != .failed

/-- What the loop of a commit leaves, source by source. -/
structure Stored (config : NodeConfig) (env : CommitEnv) (generation : Option ℕ)
    (l : List (RemoteSource × Raw)) (acc result : Bool × Subscription) : Prop where
  ok : result.1 = true ↔ acc.1 = true ∧ ∀ entry ∈ l, acc.2.wants config env entry = true →
    env.replacement entry.1 = .replaced
  cache : ∀ source, result.2.cache.lookup source =
    ((acc.2.written config env l).lookup source).or (acc.2.cache.lookup source)
  mem : ∀ entry ∈ result.2.cache, entry ∈ acc.2.cache ∨ entry ∈ acc.2.written config env l
  writes : result.2.writes = ((acc.2.written config env l).map fun entry =>
    ⟨entry.1, entry.2, generation, config.remoteSources⟩).reverse ++ acc.2.writes
  rest : result.2 = { acc.2 with cache := result.2.cache, writes := result.2.writes }

section Loop

variable {config : NodeConfig} {env : CommitEnv} {generation : Option ℕ}

/-- One turn of the loop: nothing to do, a replacement that fails, or one that takes effect. -/
theorem commitSource_eq (acc : Bool × Subscription) (entry : RemoteSource × Raw) :
    commitSource config env generation acc entry =
      if acc.2.wants config env entry then
        if env.replacement entry.1 = .failed then (false, acc.2)
        else (acc.1 && env.replacement entry.1 == .replaced, { acc.2 with
          cache := entry :: acc.2.cache.filter fun old => old.1 != entry.1
          writes := ⟨entry.1, entry.2, generation, config.remoteSources⟩ :: acc.2.writes })
      else acc := by
  obtain ⟨ok, s⟩ := acc
  simp only [commitSource, wants, differs]
  generalize config.remoteSources.contains entry.1 = configured
  generalize (s.cache.lookup entry.1 == some entry.2 && !env.unreadable.contains entry.1) = same
  cases configured <;> cases same <;> simp

/-- The caches of other sources stay as they are. -/
theorem commitSource_lookup (acc : Bool × Subscription) (entry : RemoteSource × Raw)
    {source : RemoteSource} (h : source ≠ entry.1) :
    (commitSource config env generation acc entry).2.cache.lookup source = acc.2.cache.lookup source := by
  rw [commitSource_eq]
  split
  · split
    · rfl
    · rw [lookup_cons_ne h]
      exact lookup_filter_ne _ h
  · rfl

/-- Whether an entry is wanted depends on the cache at its source alone. -/
theorem wants_congr {s s' : Subscription} {entry : RemoteSource × Raw}
    (h : s'.cache.lookup entry.1 = s.cache.lookup entry.1) :
    s'.wants config env entry = s.wants config env entry := by
  unfold wants differs
  rw [h]

/-- No round touches what a later one reads, for a source occurs once. -/
theorem stored_foldl : ∀ (l : List (RemoteSource × Raw)), (l.map Prod.fst).Nodup →
    ∀ acc, Stored config env generation l acc (l.foldl (commitSource config env generation) acc)
  | [], _, acc => ⟨by simp, fun _ => rfl, fun _ h => .inl h, rfl, rfl⟩
  | entry :: l, hnodup, acc => by
    obtain ⟨hnew, hnodup⟩ := List.nodup_cons.mp hnodup
    have h := stored_foldl l hnodup (commitSource config env generation acc entry)
    have hwants : ∀ x ∈ l, (commitSource config env generation acc entry).2.wants config env x =
        acc.2.wants config env x := by
      intro x hx
      refine wants_congr (commitSource_lookup acc entry ?_)
      rintro heq
      exact hnew (heq ▸ List.mem_map_of_mem hx)
    have hwritten : (commitSource config env generation acc entry).2.written config env l =
        acc.2.written config env l := List.filter_congr fun x hx => by rw [hwants x hx]
    rw [List.foldl_cons]
    generalize l.foldl (commitSource config env generation) _ = result at h ⊢
    obtain ⟨hok, hcache, hin, hwrites, hrest⟩ := h
    rw [hwritten] at hcache hin hwrites
    have hlater : (∀ x ∈ l, (commitSource config env generation acc entry).2.wants config env x = true →
        env.replacement x.1 = .replaced) ↔ ∀ x ∈ l, acc.2.wants config env x = true →
        env.replacement x.1 = .replaced := by
      refine forall₂_congr fun x hx => ?_
      rw [hwants x hx]
    rw [hlater] at hok
    rw [commitSource_eq] at hok hcache hin hwrites hrest
    by_cases hw : acc.2.wants config env entry = true
    · rw [if_pos hw] at hok hcache hin hwrites hrest
      by_cases hf : env.replacement entry.1 = .failed
      · -- the file is as it was
        rw [if_pos hf] at hok hcache hin hwrites hrest
        have hskip : acc.2.written config env (entry :: l) = acc.2.written config env l := by
          simp [written, hf]
        refine ⟨?_, ?_, ?_, ?_, hrest⟩
        · rw [hok, List.forall_mem_cons]
          simp [hw, hf]
        · rwa [hskip]
        · rwa [hskip]
        · rwa [hskip]
      · rw [if_neg hf] at hok hcache hin hwrites hrest
        have htake : acc.2.written config env (entry :: l) = entry :: acc.2.written config env l := by
          simp [written, hw, hf]
        refine ⟨?_, fun source => ?_, fun x hx => ?_, ?_, hrest⟩
        · rw [hok, List.forall_mem_cons]
          simp [hw, and_assoc]
        · rw [htake, hcache source]
          by_cases hs : source = entry.1
          · subst hs
            have hnone : (acc.2.written config env l).lookup entry.1 = none := by
              refine List.lookup_eq_none_iff.mpr fun x hx => ?_
              have hne : entry.1 ≠ x.1 := fun heq =>
                hnew (heq ▸ List.mem_map_of_mem (List.mem_of_mem_filter hx))
              simpa using hne
            rw [hnone, lookup_cons_eq, lookup_cons_eq]
            rfl
          · rw [lookup_cons_ne hs, lookup_cons_ne hs, lookup_filter_ne _ hs]
        · rw [htake]
          rcases hin x hx with hx | hx
          · rcases List.mem_cons.mp hx with rfl | hx
            · exact .inr List.mem_cons_self
            · exact .inl (List.mem_of_mem_filter hx)
          · exact .inr (List.mem_cons_of_mem _ hx)
        · rw [htake, hwrites]
          simp
    · rw [if_neg hw] at hok hcache hin hwrites hrest
      have hskip : acc.2.written config env (entry :: l) = acc.2.written config env l := by
        simp [written, hw]
      refine ⟨?_, ?_, ?_, ?_, hrest⟩
      · rw [hok, List.forall_mem_cons]
        simp [hw]
      · rwa [hskip]
      · rwa [hskip]
      · rwa [hskip]

theorem lookup_of_mem_nodup {l : List (RemoteSource × Raw)} {entry : RemoteSource × Raw}
    (hnodup : (l.map Prod.fst).Nodup) (h : entry ∈ l) : l.lookup entry.1 = some entry.2 := by
  obtain ⟨before, after, rfl⟩ := List.append_of_mem h
  refine List.lookup_eq_some_iff.mpr ⟨before, after, rfl, fun x hx => ?_⟩
  rw [List.map_append] at hnodup
  have hne : entry.1 ≠ x.1 := fun heq =>
    List.disjoint_of_nodup_append hnodup (List.mem_map_of_mem hx) (by simp [← heq])
  simpa using hne

theorem mem_of_lookup {l : List (RemoteSource × Raw)} {source : RemoteSource} {raw : Raw}
    (h : l.lookup source = some raw) : (source, raw) ∈ l := by
  obtain ⟨before, after, rfl, -⟩ := List.lookup_eq_some_iff.mp h
  simp

end Loop

/-! ### The commit -/

variable (s : Subscription) (nodes : Option NodeConfig) (generation : Option ℕ) (env : CommitEnv)

/-- A batch has one entry for a source, so what is due has one too. -/
theorem due_nodup : ((s.due nodes generation).map Prod.fst).Nodup := by
  unfold due
  split
  · rename_i pending config _
    split
    · exact pending.raw.nodup.sublist (List.filter_sublist.map Prod.fst)
    · exact List.nodup_nil
  · exact List.nodup_nil

/-- What is due is of the pending batch, and its source is configured. -/
theorem mem_due {s : Subscription} {nodes : Option NodeConfig} {generation : Option ℕ}
    {entry : RemoteSource × Raw} (h : entry ∈ s.due nodes generation) :
    ∃ pending, s.pending = some pending ∧ entry ∈ pending.raw.entries ∧
      entry.1 ∈ (nodes.map (·.remoteSources)).getD [] := by
  unfold due at h
  split at h
  · rename_i pending config hp
    split at h
    · obtain ⟨hmem, hconf⟩ := List.mem_filter.mp h
      exact ⟨pending, hp, hmem, by simpa using hconf⟩
    · cases h
  · cases h

/-- What of a commit ends up on disk. -/
def stored : List (RemoteSource × Raw) :=
  (s.outstanding nodes generation env).filter fun entry => env.replacement entry.1 != .failed

/-- **A commit**, source by source. -/
structure Cached (result : Bool × Subscription) : Prop where
  ok : result.1 = true ↔ ∀ entry ∈ s.outstanding nodes generation env,
    env.replacement entry.1 = .replaced
  cache : ∀ source, result.2.cache.lookup source =
    ((s.stored nodes generation env).lookup source).or (s.cache.lookup source)
  mem : ∀ entry ∈ result.2.cache, entry ∈ s.cache ∨ entry ∈ s.stored nodes generation env
  writes : result.2.writes = ((s.stored nodes generation env).map fun entry =>
    ⟨entry.1, entry.2, generation, (nodes.map (·.remoteSources)).getD []⟩).reverse ++ s.writes
  pending : result.2.pending = none ∨ result.2.pending = s.pending ∧
    ∀ pending, s.pending = some pending → pending.generation ≠ generation
  rest : result.2 = { s with
    pending := result.2.pending, cache := result.2.cache, writes := result.2.writes }

/-- What a commit makes of the cache, of the log and of the pending batch. -/
theorem commitPending_cached : s.Cached nodes generation env (s.commitPending nodes generation env) := by
  have hempty : s.due nodes generation = [] → ∀ pending,
      pending = none ∨ pending = s.pending ∧ (∀ p, s.pending = some p → p.generation ≠ generation) →
      s.Cached nodes generation env (true, { s with pending := pending }) := by
    intro hdue pending hpending
    have hout : s.outstanding nodes generation env = [] := by simp [outstanding, hdue]
    exact ⟨by simp [hout], fun _ => by simp [stored, hout], fun _ h => .inl h, by simp [stored, hout],
      hpending, rfl⟩
  unfold commitPending
  split
  · rename_i hnone
    have h := hempty (by simp [due, hnone]) s.pending (.inr ⟨rfl, fun p hp => by cases hnone.symm.trans hp⟩)
    exact h
  · rename_i pending hpending
    split
    · rename_i hne
      have h := hempty (by unfold due; rw [hpending]; cases nodes <;> simp [hne]) s.pending
        (.inr ⟨rfl, fun p hp => Option.some.inj (hpending.symm.trans hp) ▸ hne⟩)
      exact h
    rename_i heq
    have heq : pending.generation = generation := not_not.mp heq
    simp only
    split
    · exact hempty (by simp [due, hpending]) none (.inl rfl)
    · rename_i config
      have hstored : Stored config env generation pending.raw.entries (true, { s with pending := none }) _ :=
        stored_foldl pending.raw.entries pending.raw.nodup _
      have hout : s.outstanding (some config) generation env =
          pending.raw.entries.filter (s.wants config env) := by
        simp only [outstanding, due, hpending, heq, if_true, List.filter_filter]
        exact List.filter_congr fun entry _ => Bool.and_comm _ _
      have hst : s.stored (some config) generation env = s.written config env pending.raw.entries := by
        simp only [stored, hout, written, List.filter_filter]
        exact List.filter_congr fun entry _ => Bool.and_comm _ _
      generalize pending.raw.entries.foldl _ _ = result at hstored ⊢
      refine ⟨?_, ?_, ?_, ?_, .inl (by rw [hstored.rest]), ?_⟩
      · rw [hstored.ok, hout]
        simp only [List.mem_filter, true_and, and_imp]
        exact Iff.rfl
      · rw [hst]
        exact hstored.cache
      · rw [hst]
        exact hstored.mem
      · rw [hst]
        exact hstored.writes
      · have hrest := hstored.rest
        rw [hrest]

/-- The cache takes the whole batch, or stays as it was. -/
def Atomic (result : Bool × Subscription) : Prop :=
  result.1 = true ∧ (∀ entry ∈ s.due nodes generation, result.2.cache.lookup entry.1 = some entry.2) ∨
    result.1 = false ∧ ∀ source, result.2.cache.lookup source = s.cache.lookup source

/-- What is due and not outstanding was in the cache with these bytes before. -/
theorem outstanding_of_due {entry : RemoteSource × Raw} (h : entry ∈ s.due nodes generation) :
    entry ∈ s.outstanding nodes generation env ∨ s.cache.lookup entry.1 = some entry.2 := by
  by_cases hd : s.differs env entry = true
  · exact .inl (List.mem_filter.mpr ⟨h, hd⟩)
  · refine .inr ?_
    simp only [differs, Bool.not_eq_true', Bool.not_eq_false, Bool.and_eq_true, beq_iff_eq] at hd
    exact hd.1

variable {s nodes generation env}

theorem stored_lookup {entry : RemoteSource × Raw} (h : entry ∈ s.stored nodes generation env) :
    (s.stored nodes generation env).lookup entry.1 = some entry.2 := by
  refine lookup_of_mem_nodup ((s.due_nodup nodes generation).sublist ?_) h
  exact (List.filter_sublist.trans List.filter_sublist).map Prod.fst

/-- A commit that went well has stored the whole batch. -/
theorem Cached.complete {result : Bool × Subscription} (h : s.Cached nodes generation env result)
    (hok : result.1 = true) :
    ∀ entry ∈ s.due nodes generation, result.2.cache.lookup entry.1 = some entry.2 := by
  intro entry hdue
  rw [h.cache]
  by_cases hst : entry ∈ s.stored nodes generation env
  · rw [stored_lookup hst]
    rfl
  · -- a source that is not stored holds the bytes already
    have hcache : s.cache.lookup entry.1 = some entry.2 := by
      refine (s.outstanding_of_due nodes generation env hdue).resolve_left fun hout => hst ?_
      exact List.mem_filter.mpr ⟨hout, by simp [h.ok.mp hok entry hout]⟩
    have hnone : (s.stored nodes generation env).lookup entry.1 = none := by
      by_contra hsome
      obtain ⟨raw, hraw⟩ := Option.ne_none_iff_exists'.mp hsome
      have hmem := mem_of_lookup hraw
      have hdue' := List.mem_of_mem_filter (List.mem_of_mem_filter hmem)
      have hraw' : (s.due nodes generation).lookup entry.1 = some raw :=
        lookup_of_mem_nodup (s.due_nodup nodes generation) hdue'
      have heq := hraw'.symm.trans (lookup_of_mem_nodup (s.due_nodup nodes generation) hdue)
      have hentry : (entry.1, raw) = entry := Prod.ext rfl (Option.some.inj heq)
      exact hst (hentry ▸ hmem)
    rw [hnone, hcache]
    rfl

/-- **A commit is atomic** exactly if every write that is due succeeds, or none of them replaces a file
that held other bytes. -/
theorem commit_is_atomic_iff (s : Subscription) (nodes : Option NodeConfig) (generation : Option ℕ)
    (env : CommitEnv) : s.Atomic nodes generation (s.commitPending nodes generation env) ↔
      (∀ entry ∈ s.outstanding nodes generation env, env.replacement entry.1 = .replaced) ∨
        ∀ entry ∈ s.outstanding nodes generation env,
          env.replacement entry.1 = .failed ∨ s.cache.lookup entry.1 = some entry.2 := by
  have h := s.commitPending_cached nodes generation env
  generalize s.commitPending nodes generation env = result at h ⊢
  constructor
  · rintro (⟨hok, -⟩ | ⟨-, hsame⟩)
    · exact .inl (h.ok.mp hok)
    · refine .inr fun entry hout => ?_
      by_cases hf : env.replacement entry.1 = .failed
      · exact .inl hf
      · have hst : entry ∈ s.stored nodes generation env := List.mem_filter.mpr ⟨hout, by simpa using hf⟩
        have hcache := h.cache entry.1
        rw [stored_lookup hst, hsame] at hcache
        exact .inr hcache
  · intro hcond
    by_cases hok : result.1 = true
    · exact .inl ⟨hok, h.complete hok⟩
    · have hnone := hcond.resolve_left fun hall => hok (h.ok.mpr hall)
      refine .inr ⟨by simpa using hok, fun source => ?_⟩
      rw [h.cache]
      cases hlook : (s.stored nodes generation env).lookup source with
      | none => rfl
      | some raw =>
        obtain ⟨hout, hne⟩ := List.mem_filter.mp (mem_of_lookup hlook)
        have hcache := (hnone _ hout).resolve_left (by simpa using hne)
        rw [hcache]
        rfl

/-- New bytes for two cached sources, bound to generation 2. -/
def twoSources : Subscription :=
  { Subscription.new [("a", [1]), ("b", [1])] with
    pending := some ⟨(Batch.empty.insert "b" [2]).insert "a" [2], some 2⟩ }

/-- The second file cannot be replaced: the commit fails, and the first is new. -/
theorem commit_splits : ¬ twoSources.Atomic (some ⟨["a", "b"], 0⟩) (some 2)
    (twoSources.commitPending (some ⟨["a", "b"], 0⟩) (some 2) { faults := ["b"] }) := by
  rintro (⟨hok, -⟩ | ⟨-, hsame⟩)
  · exact absurd hok (by decide)
  · exact absurd (hsame "a") (by decide)

end Subscription

end FluxRs.Daemon
