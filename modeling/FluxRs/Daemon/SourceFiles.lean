import FluxRs.Daemon.Subscription
import FluxRs.Lib.Directory
import FluxRs.Lib.Fallible
import FluxRs.Lib.Split
import FluxRs.Nodes.Digest

/-!
# FluxRs.Daemon.SourceFiles — the source caches on disk

`write_private_replace` and the names of `crates/fluxd/src/layout.rs`, `prune_cache` of
`crates/fluxd/src/subscription.rs`, over one directory.  A replacement may fail at any call, its process may be killed
at any call, and the power may go at any time.
-/

namespace FluxRs.Daemon

open FluxRs.Lib

/-! ### Names -/

/-- A name is any sequence of bytes. -/
abbrev FileName := List U8

/-- The name in `Layout::source_cache`. -/
def sourceCache (source : RemoteSource) : FileName := utf8 ((Nodes.sourceId source).toList ++ ".raw".toList)

/-- The temporary name of `write_private_replace`. -/
def writeTmp (target : FileName) : FileName :=
  utf8 ('.' :: ((Nodes.fromUtf8 target).getD "raw").toList ++ ".write.tmp".toList)

/-- `id.len() != 64 || !id.bytes().all(..)`, the other way round. -/
def isSourceId (id : List Char) : Bool :=
  (utf8 id).length == 64 && (utf8 id).all fun byte => (0x30 ≤ byte && byte ≤ 0x39) || (0x61 ≤ byte && byte ≤ 0x66)

/-- The names that `prune_cache` removes. -/
def isObsoleteCache (sources : List RemoteSource) (name : FileName) : Bool :=
  match Nodes.fromUtf8 name with
  | none => false
  | some text =>
    let interrupted := (stripPrefix ['.'] text.toList).bind (stripSuffix ".raw.write.tmp".toList)
    match interrupted.or (stripSuffix ".raw".toList text.toList) with
    | none => false
    | some id => isSourceId id && !(interrupted.isNone && sources.any fun source => (Nodes.sourceId source).toList == id)

/-! ### Cleanups -/

/-- What a call of the file system fails with. -/
inductive FileError where
  | notFound
  | os (code : ℕ)
  deriving DecidableEq, Repr

/-- What the calls of a cleanup answer, besides what the directory holds. -/
structure SweepCalls where
  readDir : Except FileError (List (Except FileError FileName))
  metadata : FileName → Option FileError
  unlink : FileName → Option FileError

section Sweep

variable (ownUid : ℕ) (calls : SweepCalls)

/-- Calls on a volume, which fail or return. -/
abbrev FileCalls (α : Type) := Fallible FileError (Volume FileName) α

/-- `fs::symlink_metadata`. -/
def symlinkMetadata (name : FileName) : FileCalls FileNode := fun volume =>
  match calls.metadata name, volume.live name with
  | some error, _ => (.error error, volume)
  | none, none => (.error .notFound, volume)
  | none, some node => (.ok node, volume)

/-- `fs::remove_file`. -/
def removeFile (name : FileName) : FileCalls Unit := fun volume =>
  match calls.unlink name, volume.live name with
  | some error, _ => (.error error, volume)
  | none, none => (.error .notFound, volume)
  | none, some .directory => (.error (.os 21), volume)
  | none, some _ => (.ok (), volume.change (Directory.unlink name))

/-- A regular file of the daemon. -/
def isOwnFile : FileNode → Bool
  | .file uid _ _ => uid == ownUid
  | _ => false

/-- One round of a cleanup: what it has removed. -/
def sweepEntry (stale : FileName → Bool) : Except FileError FileName → FileCalls (List FileName)
  | .error error => Fallible.fail error
  | .ok name =>
    if stale name then do
      let node ← symlinkMetadata calls name
      if isOwnFile ownUid node then do
        removeFile calls name
        pure [name]
      else pure []
    else pure []

/-- The loop of a cleanup: own files under a stale name go, in the order of the listing. -/
def sweep (stale : FileName → Bool) : FileCalls (List FileName) :=
  match calls.readDir with
  | .error .notFound => pure []
  | .error error => Fallible.fail error
  | .ok entries => Fallible.collect (sweepEntry ownUid calls stale) entries

/-- `prune_cache`: what belongs to no configured source goes. -/
def pruneCache (sources : List RemoteSource) : FileCalls Unit := do
  let _ ← sweep ownUid calls (isObsoleteCache sources)
  pure ()

end Sweep

/-! ### Replacements -/

/-- The call of a replacement that fails. -/
inductive ReplaceFault where
  | opening
  /-- After so many bytes. -/
  | writing (count : ℕ)
  | syncing
  | moving
  | syncingDirectory
  deriving DecidableEq, Repr

/-- Where a replacement is broken off, and whether its temporary file can be removed then. -/
structure ReplaceCalls where
  fault : Option ReplaceFault
  unlinkFails : Bool

section Replace

variable (ownUid : ℕ) (calls : ReplaceCalls)

/-- A call that is not to open a file, and its effect. -/
def attempt (fault : ReplaceFault) (effect : Volume FileName → Volume FileName) : FileCalls Unit :=
  if calls.fault = some fault then Fallible.fail (.os 5) else Fallible.update effect

/-- `O_WRONLY | O_CREAT | O_TRUNC | O_NOFOLLOW`.  A special file answers as a socket does; a pipe, whose open waits for
a reader, and a device, which takes the bytes, are not told from it. -/
def openTmp (tmp : FileName) : FileCalls Unit := fun volume =>
  if calls.fault = some .opening then (.error (.os 5), volume)
  else
    match volume.live tmp with
    | none => (.ok (), volume.change (Directory.create tmp (.file ownUid [] false)))
    | some (.file _ _ _) => (.ok (), volume.change (Directory.modify tmp (FileNode.holding [])))
    | some .link => (.error (.os 40), volume)
    | some .directory => (.error (.os 21), volume)
    | some .special => (.error (.os 6), volume)

/-- The bytes go into the temporary file, all or some of them. -/
def writeAll (tmp : FileName) (data : Raw) : FileCalls Unit :=
  match calls.fault with
  | some (.writing count) => do
    Fallible.update (Volume.change (Directory.modify tmp (FileNode.holding (data.take count))))
    Fallible.fail (.os 28)
  | _ => Fallible.update (Volume.change (Directory.modify tmp (FileNode.holding data)))

/-- The closure in `write_private_replace`. -/
def replaceSteps (target : FileName) (data : Raw) : FileCalls Unit := do
  let tmp := writeTmp target
  openTmp ownUid calls tmp
  writeAll calls tmp data
  attempt calls .syncing (Volume.change (Directory.modify tmp FileNode.flushed))
  let occupied ← Fallible.read fun volume => volume.live target
  if occupied = some .directory then Fallible.fail (.os 21)
  else do
    attempt calls .moving (Volume.change (Directory.rename tmp target))
    attempt calls .syncingDirectory Volume.sync

/-- `write_private_replace`: a failure takes its temporary file along, if it can. -/
def writePrivateReplace (target : FileName) (data : Raw) : FileCalls Unit := fun volume =>
  match replaceSteps ownUid calls target data volume with
  | (.ok (), volume) => (.ok (), volume)
  | (.error error, volume) =>
    let tmp := writeTmp target
    let kept := calls.unlinkFails || volume.live tmp = some .directory
    (.error error, if kept then volume else volume.change (Directory.unlink tmp))

end Replace

/-! ### What a cleanup takes for obsolete -/

/-- The name of the cache file of an identity. -/
def rawName (id : List Char) : FileName := utf8 (id ++ ".raw".toList)

/-- The name of its temporary file. -/
def tmpName (id : List Char) : FileName := utf8 ('.' :: id ++ ".raw.write.tmp".toList)

theorem sourceCache_eq (source : RemoteSource) : sourceCache source = rawName (Nodes.sourceId source).toList := rfl

theorem writeTmp_rawName (id : List Char) : writeTmp (rawName id) = tmpName id := by
  rw [writeTmp, rawName, Nodes.fromUtf8_utf8, Option.getD_some, String.toList_ofList, tmpName, List.cons_append,
    List.cons_append, List.append_assoc]
  rfl

theorem rawName_injective : Function.Injective rawName := by
  intro id id' h
  exact List.append_cancel_right (utf8_injective h)

theorem sourceId_of_sourceCache {source other : RemoteSource} (h : sourceCache source = sourceCache other) :
    Nodes.sourceId source = Nodes.sourceId other := by
  rw [sourceCache_eq, sourceCache_eq] at h
  exact String.toList_injective (rawName_injective h)

/-- No identity starts with a dot. -/
theorem isSourceId_head {id : List Char} (h : isSourceId id = true) (rest : List Char) : id ≠ '.' :: rest := by
  rintro rfl
  rw [isSourceId, Bool.and_eq_true, utf8_cons, List.all_append, Bool.and_eq_true] at h
  exact absurd h.2.1 (by decide)

/-- A digest does not begin with a dot, so no cache is named as a temporary file. -/
theorem rawName_ne_tmpName {id : List Char} (h : isSourceId id = true) (id' : List Char) : rawName id ≠ tmpName id' := by
  intro heq
  have htext := utf8_injective heq
  cases id with
  | nil => exact absurd h (by decide)
  | cons c id =>
    obtain ⟨rfl, -⟩ := List.cons.inj htext
    exact isSourceId_head h id rfl

theorem isSourceId_of_sha256 {id : List Char} (h : Nodes.IsSha256Text id) : isSourceId id = true := by
  have hchar : ∀ c : Char, c.isDigit ∨ 'a' ≤ c ∧ c ≤ 'f' → c.toNat < 128 ∧
      ((0x30 ≤ BitVec.ofNat 8 c.toNat && BitVec.ofNat 8 c.toNat ≤ 0x39) ||
        (0x61 ≤ BitVec.ofNat 8 c.toNat && BitVec.ofNat 8 c.toNat ≤ (0x66 : U8))) = true := by
    intro c hc
    have hrange : 48 ≤ c.toNat ∧ c.toNat ≤ 57 ∨ 97 ≤ c.toNat ∧ c.toNat ≤ 102 := by
      refine hc.imp (fun hdigit => ?_) (fun hletter => hletter)
      unfold Char.isDigit at hdigit
      rw [Bool.and_eq_true, decide_eq_true_eq, decide_eq_true_eq] at hdigit
      exact hdigit
    have hsmall : c.toNat % 2 ^ 8 = c.toNat := by omega
    refine ⟨by omega, ?_⟩
    simp only [BitVec.le_def, BitVec.toNat_ofNat, hsmall, Bool.or_eq_true, Bool.and_eq_true, decide_eq_true_eq]
    exact hrange
  have hbytes : ∀ text : List Char, (∀ c ∈ text, c.isDigit ∨ 'a' ≤ c ∧ c ≤ 'f') →
      utf8 text = text.map fun c => BitVec.ofNat 8 c.toNat := by
    intro text htext
    induction text with
    | nil => rfl
    | cons c text ih =>
      rw [utf8_cons, utf8Char_ascii (hchar c (htext c List.mem_cons_self)).1,
        ih fun d hd => htext d (List.mem_cons_of_mem c hd)]
      rfl
  rw [isSourceId, hbytes id h.2, List.length_map, h.1, List.all_map, Bool.and_eq_true, List.all_eq_true]
  exact ⟨rfl, fun c hc => (hchar c (h.2 c hc)).2⟩

theorem isSourceId_sourceId (source : RemoteSource) : isSourceId (Nodes.sourceId source).toList = true :=
  isSourceId_of_sha256 (Nodes.sourceId_isSha256Text source)

/-- A cache of no configured source, or an interrupted write. -/
def Obsolete (sources : List RemoteSource) (name : FileName) : Prop :=
  ∃ id, isSourceId id = true ∧
    (name = tmpName id ∨ name = rawName id ∧ ∀ source ∈ sources, (Nodes.sourceId source).toList ≠ id)

/-- The names that the cleanup takes are those that belong to no configured source. -/
theorem isObsoleteCache_iff {sources : List RemoteSource} {name : FileName} :
    isObsoleteCache sources name = true ↔ Obsolete sources name := by
  constructor
  · intro h
    unfold isObsoleteCache at h
    split at h
    · cases h
    · rename_i text htext
      have hname := Nodes.fromUtf8_eq_some htext
      simp only at h
      cases hinterrupted : (stripPrefix ['.'] text.toList).bind (stripSuffix ".raw.write.tmp".toList) with
      | some id =>
        rw [hinterrupted, Option.some_or] at h
        obtain ⟨rest, hdot, htail⟩ := Option.bind_eq_some_iff.mp hinterrupted
        rw [stripPrefix_eq_some_iff] at hdot
        rw [stripSuffix_eq_some_iff] at htail
        refine ⟨id, (Bool.and_eq_true_iff.mp h).1, .inl ?_⟩
        rw [hname, hdot, htail]
        rfl
      | none =>
        rw [hinterrupted, Option.none_or] at h
        cases hraw : stripSuffix ".raw".toList text.toList with
        | none =>
          rw [hraw] at h
          cases h
        | some id =>
          rw [hraw] at h
          obtain ⟨hid, hfree⟩ := Bool.and_eq_true_iff.mp h
          refine ⟨id, hid, .inr ⟨?_, fun source hin heq => ?_⟩⟩
          · rw [hname, stripSuffix_eq_some_iff.mp hraw]
            rfl
          · rw [Option.isNone_none, Bool.true_and, Bool.not_eq_true', List.any_eq_false] at hfree
            exact hfree source hin (beq_iff_eq.mpr heq)
  · rintro ⟨id, hid, rfl | ⟨rfl, hfree⟩⟩
    · have hinterrupted : (stripPrefix ['.'] ('.' :: id ++ ".raw.write.tmp".toList)).bind
          (stripSuffix ".raw.write.tmp".toList) = some id := by
        have hdot : stripPrefix ['.'] ('.' :: id ++ ".raw.write.tmp".toList) = some (id ++ ".raw.write.tmp".toList) :=
          stripPrefix_eq_some_iff.mpr rfl
        rw [hdot, Option.bind_some, stripSuffix_eq_some_iff.mpr rfl]
      unfold isObsoleteCache tmpName
      rw [Nodes.fromUtf8_utf8]
      simp only [String.toList_ofList]
      rw [hinterrupted]
      exact Bool.and_eq_true_iff.mpr ⟨hid, rfl⟩
    · have hinterrupted : stripPrefix ['.'] (id ++ ".raw".toList) = none := by
        cases hdot : stripPrefix ['.'] (id ++ ".raw".toList) with
        | none => rfl
        | some rest =>
          have htext := stripPrefix_eq_some_iff.mp hdot
          cases id with
          | nil => exact absurd hid (by decide)
          | cons c id =>
            obtain ⟨rfl, -⟩ := List.cons.inj htext
            exact absurd rfl (isSourceId_head hid id)
      unfold isObsoleteCache rawName
      rw [Nodes.fromUtf8_utf8]
      simp only [String.toList_ofList]
      rw [hinterrupted, Option.bind_none, Option.none_or, stripSuffix_eq_some_iff.mpr rfl]
      refine Bool.and_eq_true_iff.mpr ⟨hid, ?_⟩
      rw [Option.isNone_none, Bool.true_and, Bool.not_eq_true', List.any_eq_false]
      exact fun source hin heq => hfree source hin (beq_iff_eq.mp heq)

/-- The cache of a configured source is never obsolete. -/
theorem not_obsolete_sourceCache {sources : List RemoteSource} {source : RemoteSource} (h : source ∈ sources) :
    ¬ Obsolete sources (sourceCache source) := by
  rintro ⟨id, -, heq | ⟨heq, hfree⟩⟩
  · exact rawName_ne_tmpName (isSourceId_sourceId source) id heq
  · exact hfree source h (rawName_injective heq)

/-! ### What a cleanup does -/

section SweepRules

variable {ownUid : ℕ} {calls : SweepCalls} {stale : FileName → Bool} {P : FileName → Option FileNode → Prop}
  {volume : Volume FileName}

theorem ends_symlinkMetadata (name : FileName) :
    (symlinkMetadata calls name).Ends volume
      (fun node volume' => volume' = volume ∧ volume.live name = some node) (fun volume' => volume' = volume) := by
  unfold symlinkMetadata Fallible.Ends
  beta_reduce
  cases calls.metadata name with
  | some error => rfl
  | none =>
    cases hnode : volume.live name with
    | none => rfl
    | some node => exact ⟨rfl, rfl⟩

theorem ends_removeFile (name : FileName) :
    (removeFile calls name).Ends volume
      (fun _ volume' => volume' = volume.change (Directory.unlink name)) (fun volume' => volume' = volume) := by
  unfold removeFile Fallible.Ends
  beta_reduce
  cases calls.unlink name with
  | some error => rfl
  | none =>
    cases volume.live name with
    | none => rfl
    | some node => cases node <;> rfl

/-- What is left of a directory without the own files that were removed. -/
structure Swept (ownUid : ℕ) (stale : FileName → Bool) (before after : Directory FileName) (removed : List FileName) :
    Prop where
  kept : ∀ name, name ∉ removed → after name = before name
  gone : ∀ name ∈ removed, after name = none
  own : ∀ name ∈ removed, stale name = true ∧ ∃ node, before name = some node ∧ isOwnFile ownUid node = true

theorem Swept.refl (before : Directory FileName) : Swept ownUid stale before before [] :=
  ⟨fun _ _ => rfl, fun _ h => absurd h List.not_mem_nil, fun _ h => absurd h List.not_mem_nil⟩

theorem Swept.trans {before middle after : Directory FileName} {removed more : List FileName}
    (h : Swept ownUid stale before middle removed) (h' : Swept ownUid stale middle after more) :
    Swept ownUid stale before after (removed ++ more) where
  kept name hnot := by
    rw [List.mem_append, not_or] at hnot
    rw [h'.kept name hnot.2, h.kept name hnot.1]
  gone name hin := by
    by_cases hmore : name ∈ more
    · exact h'.gone name hmore
    · rw [h'.kept name hmore]
      exact h.gone name ((List.mem_append.mp hin).resolve_right hmore)
  own name hin := by
    by_cases hremoved : name ∈ removed
    · exact h.own name hremoved
    · rw [← h.kept name hremoved]
      exact h'.own name ((List.mem_append.mp hin).resolve_left hremoved)

theorem Swept.eq_or_none {before after : Directory FileName} {removed : List FileName}
    (h : Swept ownUid stale before after removed) (name : FileName) : after name = before name ∨ after name = none := by
  by_cases hin : name ∈ removed
  · exact .inr (h.gone name hin)
  · exact .inl (h.kept name hin)

/-- No stale own file of this name. -/
def CleanOf (ownUid : ℕ) (stale : FileName → Bool) (view : Directory FileName) (name : FileName) : Prop :=
  stale name = true → ∀ node, view name = some node → isOwnFile ownUid node = false

/-- What was clean of obsolete files stays so. -/
theorem Swept.cleanOf {before after : Directory FileName} {removed : List FileName}
    (h : Swept ownUid stale before after removed) {name : FileName} (hclean : CleanOf ownUid stale before name) :
    CleanOf ownUid stale after name := by
  intro hstale node hnode
  rcases h.eq_or_none name with heq | hnone
  · rw [heq] at hnode
    exact hclean hstale node hnode
  · rw [hnone] at hnode
    cases hnode

variable (hP : ∀ name, stale name = true → P name none)

include hP in
/-- One entry: it is removed only if it is obsolete and of this user, and no such file is left. -/
theorem ends_sweepEntry (hvolume : volume.Holds P) (entry : Except FileError FileName) :
    (sweepEntry ownUid calls stale entry).Ends volume
      (fun removed volume' => Swept ownUid stale volume.live volume'.live removed ∧ volume'.Holds P ∧
        ∀ name, entry = .ok name → CleanOf ownUid stale volume'.live name)
      (fun volume' => volume' = volume) := by
  cases entry with
  | error error => exact Fallible.ends_fail rfl
  | ok name =>
    rw [sweepEntry]
    by_cases hstale : stale name = true
    · rw [if_pos hstale]
      refine (ends_symlinkMetadata name).bind ?_
      rintro node volume' ⟨rfl, hnode⟩
      by_cases hown : isOwnFile ownUid node = true
      · rw [if_pos hown]
        refine (ends_removeFile name).bind ?_
        rintro - volume' rfl
        have hgone : (Directory.unlink name volume'.live) name = none := Function.update_self ..
        refine Fallible.ends_pure ⟨⟨fun other hother => ?_, ?_, ?_⟩, hvolume.change fun other => ?_, ?_⟩
        · exact Function.update_of_ne (fun heq => hother (List.mem_singleton.mpr heq)) ..
        · exact List.forall_mem_singleton.mpr hgone
        · exact List.forall_mem_singleton.mpr ⟨hstale, node, hnode, hown⟩
        · by_cases hother : other = name
          · rw [hother, hgone]
            exact hP name hstale
          · rw [Directory.unlink, Function.update_of_ne hother]
            exact hvolume.live other
        · rintro other heq - node' hnode'
          obtain rfl := Except.ok.inj heq
          cases hgone.symm.trans hnode'
      · rw [if_neg hown]
        refine Fallible.ends_pure ⟨.refl _, hvolume, ?_⟩
        rintro other heq - node' hnode'
        obtain rfl := Except.ok.inj heq
        rw [hnode] at hnode'
        obtain rfl := Option.some.inj hnode'
        exact Bool.not_eq_true _ |>.mp hown
    · rw [if_neg hstale]
      refine Fallible.ends_pure ⟨.refl _, hvolume, ?_⟩
      rintro other heq hother
      obtain rfl := Except.ok.inj heq
      exact absurd hother hstale

include hP in
/-- The whole listing, by induction over its entries. -/
theorem ends_sweepEntries : ∀ (entries : List (Except FileError FileName)) {volume : Volume FileName}, volume.Holds P →
    (Fallible.collect (sweepEntry ownUid calls stale) entries).Ends volume
      (fun removed volume' => Swept ownUid stale volume.live volume'.live removed ∧ volume'.Holds P ∧
        ∀ name, .ok name ∈ entries → CleanOf ownUid stale volume'.live name)
      (fun volume' => (∃ removed, Swept ownUid stale volume.live volume'.live removed) ∧ volume'.Holds P)
  | [], volume, hvolume => Fallible.ends_pure ⟨.refl _, hvolume, fun _ hin => absurd hin List.not_mem_nil⟩
  | entry :: entries, volume, hvolume => by
    rw [Fallible.collect]
    refine ((ends_sweepEntry hP hvolume entry).mono (fun _ _ h => h) ?_).bind ?_
    · rintro volume' rfl
      exact ⟨⟨[], .refl _⟩, hvolume⟩
    · rintro part middle ⟨hpart, hmiddle, hentry⟩
      refine ((ends_sweepEntries entries hmiddle).mono (fun _ _ h => h) ?_).bind ?_
      · rintro after ⟨⟨removed, hremoved⟩, hafter⟩
        exact ⟨⟨_, hpart.trans hremoved⟩, hafter⟩
      · rintro rest after ⟨hrest, hafter, hentries⟩
        refine Fallible.ends_pure ⟨hpart.trans hrest, hafter, fun name hin => ?_⟩
        rcases List.mem_cons.mp hin with heq | hin
        · exact hrest.cleanOf (hentry name heq.symm)
        · exact hentries name hin

include hP in
/-- The rule of a cleanup. -/
theorem ends_sweep (hvolume : volume.Holds P) :
    (sweep ownUid calls stale).Ends volume
      (fun removed volume' => Swept ownUid stale volume.live volume'.live removed ∧ volume'.Holds P ∧
        ∀ entries, calls.readDir = .ok entries → ∀ name, .ok name ∈ entries → CleanOf ownUid stale volume'.live name)
      (fun volume' => (∃ removed, Swept ownUid stale volume.live volume'.live removed) ∧ volume'.Holds P) := by
  unfold sweep
  split
  · rename_i hread
    refine Fallible.ends_pure ⟨.refl _, hvolume, fun entries heq => ?_⟩
    rw [hread] at heq
    cases heq
  · exact Fallible.ends_fail ⟨⟨[], .refl _⟩, hvolume⟩
  · rename_i entries hread
    refine (ends_sweepEntries hP entries hvolume).mono ?_ fun _ h => h
    rintro removed volume' ⟨hswept, hholds, hclean⟩
    refine ⟨hswept, hholds, fun entries' heq => ?_⟩
    rw [hread] at heq
    obtain rfl := Except.ok.inj heq
    exact hclean

end SweepRules

/-! ### What a replacement does -/

section ReplaceRules

variable {ownUid : ℕ} {calls : ReplaceCalls} {P : FileName → Option FileNode → Prop} {before : Directory FileName}
  {target tmp : FileName} {data bytes : Raw} {synced : Bool} {volume : Volume FileName}

/-- Nothing is said about the contents of a temporary file. -/
structure Scratch (ownUid : ℕ) (P : FileName → Option FileNode → Prop) (tmp : FileName) : Prop where
  none : P tmp none
  fresh : P tmp (some (.file ownUid [] false))
  again : ∀ {uid bytes synced} (bytes' synced'), P tmp (some (.file uid bytes synced)) →
    P tmp (some (.file uid bytes' synced'))

/-- The temporary file is written; everything else is as it was. -/
structure Underway (P : FileName → Option FileNode → Prop) (before : Directory FileName) (tmp : FileName) (bytes : Raw)
    (synced : Bool) (volume : Volume FileName) : Prop where
  holds : volume.Holds P
  node : ∃ uid, volume.live tmp = some (.file uid bytes synced)
  frame : ∀ name, name ≠ tmp → volume.live name = before name

/-- The target is replaced; everything else is as it was. -/
structure Placed (before : Directory FileName) (tmp target : FileName) (data : Raw) (after : Directory FileName) :
    Prop where
  node : ∃ uid, after target = some (.file uid data true)
  cleared : after tmp = none
  frame : ∀ name, name ≠ tmp → name ≠ target → after name = before name

/-- What is under the temporary name cannot be opened. -/
def Blocked (tmp : FileName) (view : Directory FileName) : Prop :=
  ∃ node, view tmp = some node ∧ ∀ uid bytes synced, node ≠ .file uid bytes synced

/-- A replacement does not get as far as its rename. -/
def Hindered (calls : ReplaceCalls) (tmp target : FileName) (view : Directory FileName) : Prop :=
  (∃ fault, calls.fault = some fault ∧ fault ≠ .syncingDirectory) ∨ Blocked tmp view ∨ view target = some .directory

/-- Only the temporary file may have changed. -/
def Unplaced (before : Directory FileName) (tmp : FileName) (after : Directory FileName) : Prop :=
  ∀ name, name ≠ tmp → after name = before name

theorem Underway.modify (h : Underway P before tmp bytes synced volume) (htmp : Scratch ownUid P tmp)
    {f : FileNode → FileNode} {bytes' : Raw} {synced' : Bool}
    (hf : ∀ uid, f (.file uid bytes synced) = .file uid bytes' synced') :
    Underway P before tmp bytes' synced' (volume.change (Directory.modify tmp f)) := by
  have hother : ∀ name, name ≠ tmp → Directory.modify tmp f volume.live name = volume.live name := fun name hname =>
    Function.update_of_ne hname ..
  obtain ⟨uid, hnode⟩ := h.node
  have hself : Directory.modify tmp f volume.live tmp = some (.file uid bytes' synced') := by
    rw [Directory.modify, Function.update_self, hnode, Option.map_some, hf]
  refine ⟨h.holds.change fun name => ?_, ⟨uid, hself⟩, fun name hname => (hother name hname).trans (h.frame name hname)⟩
  by_cases hname : name = tmp
  · rw [hname, hself]
    refine htmp.again bytes' synced' (?_ : P tmp (some (.file uid bytes synced)))
    rw [← hnode]
    exact h.holds.live tmp
  · rw [hother name hname]
    exact h.holds.live name

/-- The temporary file is open and empty, or nothing has changed. -/
theorem ends_openTmp (hvolume : volume.Holds P) (htmp : Scratch ownUid P tmp) :
    (openTmp ownUid calls tmp).Ends volume
      (fun _ volume' => Underway P volume.live tmp [] false volume' ∧ calls.fault ≠ some .opening)
      (fun volume' => volume' = volume ∧ (calls.fault = some .opening ∨ Blocked tmp volume.live)) := by
  have hfile : ∀ uid, P tmp (some (.file uid [] false)) →
      Underway P volume.live tmp [] false (volume.change (Directory.create tmp (.file uid [] false))) := by
    have hother : ∀ (node : Option FileNode) (name : FileName), name ≠ tmp →
        Function.update volume.live tmp node name = volume.live name := fun _ name hname => Function.update_of_ne hname ..
    refine fun uid hP => ⟨hvolume.change fun name => ?_, ⟨uid, Function.update_self ..⟩, hother _⟩
    by_cases hname : name = tmp
    · rw [hname, Directory.create, Function.update_self]
      exact hP
    · rw [Directory.create, hother _ name hname]
      exact hvolume.live name
  unfold openTmp Fallible.Ends
  beta_reduce
  split_ifs with hfault
  · exact ⟨rfl, .inl hfault⟩
  · cases hnode : volume.live tmp with
    | none => exact ⟨hfile ownUid htmp.fresh, hfault⟩
    | some node =>
      cases node with
      | file uid held flushed =>
        have hsame : volume.change (Directory.modify tmp (FileNode.holding [])) =
            volume.change (Directory.create tmp (.file uid [] false)) := by
          rw [Volume.change, Volume.change, Directory.modify, hnode]
          rfl
        have hheld := hvolume.live tmp
        rw [hnode] at hheld
        exact ⟨hsame ▸ hfile uid (htmp.again [] false hheld), hfault⟩
      | link => exact ⟨rfl, .inr ⟨_, hnode, fun _ _ _ h => by cases h⟩⟩
      | directory => exact ⟨rfl, .inr ⟨_, hnode, fun _ _ _ h => by cases h⟩⟩
      | special => exact ⟨rfl, .inr ⟨_, hnode, fun _ _ _ h => by cases h⟩⟩

theorem ends_attempt {fault : ReplaceFault} {effect : Volume FileName → Volume FileName} :
    (attempt calls fault effect).Ends volume (fun _ volume' => volume' = effect volume ∧ calls.fault ≠ some fault)
      (fun volume' => volume' = volume ∧ calls.fault = some fault) := by
  unfold attempt
  split_ifs with h
  · exact Fallible.ends_fail ⟨rfl, h⟩
  · exact Fallible.ends_update ⟨rfl, h⟩

/-- A write that stops half way leaves the bytes in the temporary file only. -/
theorem ends_writeAll (h : Underway P before tmp bytes synced volume) (htmp : Scratch ownUid P tmp) :
    (writeAll calls tmp data).Ends volume
      (fun _ volume' => Underway P before tmp data false volume' ∧ ∀ count, calls.fault ≠ some (.writing count))
      (fun volume' => volume'.Holds P ∧ Unplaced before tmp volume'.live ∧ ∃ count, calls.fault = some (.writing count)) := by
  unfold writeAll
  split
  · rename_i count hfault
    have hpart := h.modify htmp (f := FileNode.holding (data.take count)) fun _ => rfl
    exact Fallible.Ends.update (Fallible.ends_fail ⟨hpart.holds, hpart.frame, count, hfault⟩)
  · rename_i hfault
    exact Fallible.ends_update ⟨h.modify htmp fun _ => rfl, hfault⟩

variable (htmp : Scratch ownUid P (writeTmp target)) 
  (htarget : ∀ uid, P (writeTmp target) (some (.file uid data true)) → P target (some (.file uid data true)))
  (hne : target ≠ writeTmp target)

include htmp htarget hne in
/-- The rule of a replacement. -/
theorem ends_replaceSteps (hvolume : volume.Holds P) :
    (replaceSteps ownUid calls target data).Ends volume
      (fun _ volume' => volume'.Holds P ∧ volume'.past = [] ∧ calls.fault = none ∧
        Placed volume.live (writeTmp target) target data volume'.live)
      (fun volume' => volume'.Holds P ∧
        (Unplaced volume.live (writeTmp target) volume'.live ∧ Hindered calls (writeTmp target) target volume.live ∨
          Placed volume.live (writeTmp target) target data volume'.live ∧
            calls.fault = some .syncingDirectory)) := by
  unfold replaceSteps
  refine ((ends_openTmp hvolume htmp).mono (fun _ _ h => h) ?_).bind ?_
  · rintro _ ⟨rfl, hfault | hblocked⟩
    · exact ⟨hvolume, .inl ⟨fun _ _ => rfl, .inl ⟨_, hfault, by decide⟩⟩⟩
    · exact ⟨hvolume, .inl ⟨fun _ _ => rfl, .inr (.inl hblocked)⟩⟩
  rintro - v ⟨hopen, hopening⟩
  refine ((ends_writeAll hopen htmp).mono (fun _ _ h => h) ?_).bind ?_
  · rintro _ ⟨hholds, hunplaced, count, hfault⟩
    exact ⟨hholds, .inl ⟨hunplaced, .inl ⟨_, hfault, fun h => by cases h⟩⟩⟩
  rintro - v ⟨hwritten, hwriting⟩
  refine (ends_attempt.mono (fun _ _ h => h) ?_).bind ?_
  · rintro _ ⟨rfl, hfault⟩
    exact ⟨hwritten.holds, .inl ⟨hwritten.frame, .inl ⟨_, hfault, by decide⟩⟩⟩
  rintro - _ ⟨rfl, hsyncing⟩
  have hflushed := hwritten.modify htmp (f := FileNode.flushed) fun _ => rfl
  generalize v.change (Directory.modify (writeTmp target) FileNode.flushed) = v at hflushed
  refine Fallible.Ends.read ?_
  split_ifs with hoccupied
  · rw [hflushed.frame target hne] at hoccupied
    exact Fallible.ends_fail ⟨hflushed.holds, .inl ⟨hflushed.frame, .inr (.inr hoccupied)⟩⟩
  · refine (ends_attempt.mono (fun _ _ h => h) ?_).bind ?_
    · rintro _ ⟨rfl, hfault⟩
      exact ⟨hflushed.holds, .inl ⟨hflushed.frame, .inl ⟨_, hfault, by decide⟩⟩⟩
    rintro - _ ⟨rfl, hmoving⟩
    obtain ⟨uid, hnode⟩ := hflushed.node
    have hplaced : Placed volume.live (writeTmp target) target data
        (Directory.rename (writeTmp target) target v.live) := by
      refine ⟨⟨uid, ?_⟩, Function.update_self .., fun name hname hname' => ?_⟩
      · rw [Directory.rename, Function.update_of_ne hne, Function.update_self, hnode]
      · rw [Directory.rename, Function.update_of_ne hname, Function.update_of_ne hname']
        exact hflushed.frame name hname
    have hholds : (v.change (Directory.rename (writeTmp target) target)).Holds P := by
      refine hflushed.holds.change fun name => ?_
      by_cases hname : name = writeTmp target
      · rw [hname, hplaced.cleared]
        exact htmp.none
      · by_cases hname' : name = target
        · have hmoved : Directory.rename (writeTmp target) target v.live target = some (.file uid data true) := by
            rw [Directory.rename, Function.update_of_ne hne, Function.update_self, hnode]
          rw [hname', hmoved]
          refine htarget uid ?_
          rw [← hnode]
          exact hflushed.holds.live _
        · rw [hplaced.frame name hname hname', ← hflushed.frame name hname]
          exact hflushed.holds.live name
    refine ends_attempt.mono ?_ ?_
    · rintro - _ ⟨rfl, hlast⟩
      refine ⟨hholds.sync, rfl, ?_, hplaced⟩
      cases hfault : calls.fault with
      | none => rfl
      | some fault =>
        rw [hfault] at hopening hwriting hsyncing hmoving hlast
        cases fault with
        | opening => exact absurd rfl hopening
        | writing count => exact absurd rfl (hwriting count)
        | syncing => exact absurd rfl hsyncing
        | moving => exact absurd rfl hmoving
        | syncingDirectory => exact absurd rfl hlast
    · rintro _ ⟨rfl, hfault⟩
      exact ⟨hholds, .inr ⟨hplaced, hfault⟩⟩

include htmp htarget hne in
/-- The spec of a replacement: the new bytes are in place and on disk, or the target is as before, or only its sync is
owed. -/
theorem ends_writePrivateReplace (hvolume : volume.Holds P) :
    (writePrivateReplace ownUid calls target data).Ends volume
      (fun _ volume' => volume'.Holds P ∧ volume'.past = [] ∧ calls.fault = none ∧
        Placed volume.live (writeTmp target) target data volume'.live)
      (fun volume' => volume'.Holds P ∧
        (Unplaced volume.live (writeTmp target) volume'.live ∧ Hindered calls (writeTmp target) target volume.live ∨
          Placed volume.live (writeTmp target) target data volume'.live ∧
            calls.fault = some .syncingDirectory)) := by
  have hsteps := @ends_replaceSteps ownUid calls _ _ _ _ htmp htarget hne hvolume
  unfold Fallible.Ends writePrivateReplace at *
  beta_reduce
  generalize replaceSteps ownUid calls target data volume = result at hsteps ⊢
  obtain ⟨out, left⟩ := result
  cases out with
  | ok _ => exact hsteps
  | error _ =>
    obtain ⟨hholds, hleft⟩ := hsteps
    simp only
    split_ifs
    · exact ⟨hholds, hleft⟩
    · have hother : ∀ name, name ≠ writeTmp target →
          Directory.unlink (writeTmp target) left.live name = left.live name := fun name hname =>
        Function.update_of_ne hname ..
      refine ⟨hholds.change fun name => ?_, hleft.imp ?_ ?_⟩
      · by_cases hname : name = writeTmp target
        · rw [hname, Directory.unlink, Function.update_self]
          exact htmp.none
        · rw [hother name hname]
          exact hholds.live name
      · rintro ⟨hunplaced, hhindered⟩
        exact ⟨fun name hname => (hother name hname).trans (hunplaced name hname), hhindered⟩
      · rintro ⟨hplaced, hfault⟩
        obtain ⟨uid, hnode⟩ := hplaced.node
        exact ⟨⟨⟨uid, (hother target hne).trans hnode⟩, Function.update_self .., fun name hname hname' =>
          (hother name hname).trans (hplaced.frame name hname hname')⟩, hfault⟩

/-- What nothing hinders succeeds. -/
theorem writePrivateReplace_ok (hfault : calls.fault = none) (hblocked : ¬ Blocked (writeTmp target) volume.live)
    (hdirectory : volume.live target ≠ some .directory) (hne : target ≠ writeTmp target) :
    ∃ after, writePrivateReplace ownUid calls target data volume = (.ok (), after) := by
  have hends := @ends_writePrivateReplace ownUid calls (fun _ _ => True) target data volume
    ⟨trivial, trivial, fun _ _ _ => trivial⟩ (fun _ _ => trivial) hne fun _ _ _ => trivial
  rcases hends.elim with ⟨_, after, heq, -⟩ | ⟨_, _, _, -, ⟨-, hhindered⟩ | ⟨-, hsyncing⟩⟩
  · exact ⟨after, heq⟩
  · rcases hhindered with ⟨_, hsome, -⟩ | hblocks | hoccupied
    · rw [hfault] at hsome
      cases hsome
    · exact absurd hblocks hblocked
    · exact absurd hoccupied hdirectory
  · rw [hfault] at hsyncing
    cases hsyncing

end ReplaceRules

end FluxRs.Daemon
