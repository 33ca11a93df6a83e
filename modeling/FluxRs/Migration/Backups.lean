import FluxRs.Lib.Run
import FluxRs.Migration.Install

/-!
# FluxRs.Migration.Backups — what a run of installations and edits keeps of the user's files

The user edits files, and installations run, each of them up to some write.  A log records every
replacement of an existing file by other bytes, with the backups as they were at that moment.
-/

namespace FluxRs.Migration

open FluxRs.Lib

/-- A replacement of an existing file by other bytes. -/
structure Overwrite (Bytes : Type) where
  file : ConfigFile
  bytes : Bytes
  byUser : Bool
  backups : ConfigFile → Option Bytes

/-- The replaced bytes are in the directory of migrations. -/
def Overwrite.Stored {Bytes : Type} (e : Overwrite Bytes) : Prop := ∃ f, e.backups f = some e.bytes

/-- The disk, who wrote each file last, and what has been overwritten. -/
structure Installation (Bytes : Type) where
  disk : Disk Bytes
  byUser : ConfigFile → Bool
  log : List (Overwrite Bytes)

inductive InstallEvent (Bytes : Type) where
  /-- The user writes or removes a file. -/
  | edit (f : ConfigFile) (bytes : Option Bytes)
  /-- An installation that stops after `n` writes. -/
  | install (legacyAppDefault : Bool) (n : ℕ)

namespace Installation

section Steps

variable {α Bytes : Type} [DecidableEq Bytes]

def overwritten (s : Installation Bytes) (f : ConfigFile) (bytes : Bytes) : List (Overwrite Bytes) :=
  match s.disk.files f with
  | none => []
  | some old => if old = bytes then [] else [⟨f, old, s.byUser f, s.disk.backups⟩]

def write (s : Installation Bytes) : Write Bytes → Installation Bytes
  | .backup f bytes => { s with disk := s.disk.write (.backup f bytes) }
  | .replace f bytes =>
    { disk := s.disk.write (.replace f bytes)
      byUser := Function.update s.byUser f false
      log := s.log ++ s.overwritten f bytes }

def writes (s : Installation Bytes) (ws : List (Write Bytes)) : Installation Bytes := ws.foldl write s

def step (lib : TomlEdit α Bytes) (others : TomlValue → Option Bytes → Except ConfigError Unit)
    (defaults : ConfigFile → Option Bytes) (s : Installation Bytes) : InstallEvent Bytes → Installation Bytes
  | .edit f bytes =>
    { s with
      disk := { s.disk with files := Function.update s.disk.files f bytes }
      byUser := Function.update s.byUser f true }
  | .install l n =>
    match candidate lib others defaults l s.disk with
    | .error _ => s
    | .ok c => s.writes ((publication s.disk c).take n)

end Steps

/-! ### One installation -/

section Writes

variable {Bytes : Type} [DecidableEq Bytes] {s d : Installation Bytes} {disk : Disk Bytes} {c : Candidate Bytes}

@[simp] theorem writes_append (s : Installation Bytes) (ws ws' : List (Write Bytes)) :
    s.writes (ws ++ ws') = (s.writes ws).writes ws' := List.foldl_append

theorem disk_writes (s : Installation Bytes) (ws : List (Write Bytes)) :
    (s.writes ws).disk = s.disk.writes ws := by
  induction ws generalizing s with
  | nil => rfl
  | cons w rest ih =>
    have hw : (s.write w).disk = s.disk.write w := by cases w <;> rfl
    show ((s.write w).writes rest).disk = (s.disk.write w).writes rest
    rw [ih, hw]

/-- Backups overwrite nothing. -/
theorem writes_of_backups {ws : List (Write Bytes)} (h : ∀ w ∈ ws, ∃ f bytes, w = .backup f bytes)
    (s : Installation Bytes) : (s.writes ws).byUser = s.byUser ∧ (s.writes ws).log = s.log := by
  induction ws generalizing s with
  | nil => exact ⟨rfl, rfl⟩
  | cons w rest ih =>
    obtain ⟨f, bytes, rfl⟩ := h w List.mem_cons_self
    exact ih (fun w hw => h w (List.mem_cons_of_mem _ hw)) _

/-- Every logged loss of the user's bytes is stored. -/
def Kept (s : Installation Bytes) : Prop := ∀ e ∈ s.log, e.byUser = true → e.Stored

/-- One replacement of `f`, or none. -/
structure Replaces (f : ConfigFile) (ws : List (Write Bytes)) : Prop where
  only : ∀ w ∈ ws, ∃ bytes, w = .replace f bytes
  short : ws.length ≤ 1

theorem Replaces.frame {f : ConfigFile} {ws : List (Write Bytes)} (h : Replaces f ws) (s : Installation Bytes) :
    (s.writes ws).disk.backups = s.disk.backups ∧ ∀ g, g ≠ f →
      (s.writes ws).disk.files g = s.disk.files g ∧ (s.writes ws).byUser g = s.byUser g := by
  match ws, h.short with
  | [], _ => exact ⟨rfl, fun g _ => ⟨rfl, rfl⟩⟩
  | [w], _ =>
    obtain ⟨bytes, rfl⟩ := h.only w List.mem_cons_self
    exact ⟨rfl, fun g hg => ⟨Function.update_of_ne hg _ _, Function.update_of_ne hg _ _⟩⟩

theorem Replaces.kept {f : ConfigFile} {ws : List (Write Bytes)} (h : Replaces f ws) (hs : s.Kept)
    (hstored : ∀ old, ws ≠ [] → s.disk.files f = some old → s.byUser f = true →
      s.disk.backups f = some old) : (s.writes ws).Kept := by
  match ws, h.short with
  | [], _ => exact hs
  | [w], _ =>
    obtain ⟨bytes, rfl⟩ := h.only w List.mem_cons_self
    intro e he huser
    rcases List.mem_append.mp he with he | he
    · exact hs e he huser
    unfold overwritten at he
    cases hold : s.disk.files f with
    | none =>
      rw [hold] at he
      cases he
    | some old =>
      simp only [hold] at he
      by_cases hsame : old = bytes
      · rw [if_pos hsame] at he
        cases he
      · rw [if_neg hsame] at he
        obtain rfl := List.mem_singleton.mp he
        exact ⟨f, hstored old (List.cons_ne_nil _ _) hold huser⟩

theorem replaces_advanced (disk : Disk Bytes) (c : Candidate Bytes) :
    Replaces .advanced (replaceAdvanced disk c) := by
  refine ⟨fun w hw => ?_, length_replaceAdvanced disk c⟩
  unfold replaceAdvanced at hw
  by_cases h : c.advanced ≠ disk.files .advanced
  · rw [if_pos h] at hw
    cases hc : c.advanced with
    | none =>
      rw [hc] at hw
      cases hw
    | some bytes =>
      rw [hc] at hw
      exact ⟨bytes, List.mem_singleton.mp hw⟩
  · rw [if_neg h] at hw
    cases hw

theorem replaces_main (disk : Disk Bytes) (c : Candidate Bytes) : Replaces .main (replaceMain disk c) :=
  ⟨fun _ hw => ⟨c.main, List.mem_singleton.mp (List.mem_ite_nil_right.mp hw).2⟩, length_ite_singleton _⟩

omit [DecidableEq Bytes] in
theorem replaces_template (disk : Disk Bytes) (c : Candidate Bytes) :
    Replaces .template (installTemplate disk c) :=
  ⟨fun _ hw => ⟨c.template, List.mem_singleton.mp (List.mem_ite_nil_right.mp hw).2⟩, length_ite_singleton _⟩

/-- The backup of a changed file: the one that was there, or its bytes. -/
theorem backups_backupChanged {f : ConfigFile} {after : Option Bytes} {d : Disk Bytes}
    (hchanged : disk.files f ≠ after) (hd : d.backups f = disk.backups f) :
    (d.writes (backupChanged disk f after)).backups =
      Function.update d.backups f ((disk.backups f).or (disk.files f)) := by
  unfold backupChanged
  rw [if_pos hchanged]
  cases hf : disk.files f with
  | none =>
    rw [Option.or_none, ← hd, Function.update_eq_self]
    rfl
  | some bytes =>
    show (d.writes (backupOnce disk f bytes)).backups = _
    unfold backupOnce
    cases hb : disk.backups f with
    | none => rfl
    | some old =>
      show d.backups = Function.update d.backups f (some old)
      rw [← hb, ← hd, Function.update_eq_self]

theorem backups_other {f g : ConfigFile} {after : Option Bytes} {d : Disk Bytes} (hg : g ≠ f) :
    (d.writes (backupChanged disk f after)).backups g = d.backups g := by
  by_cases hchanged : disk.files f = after
  · unfold backupChanged
    rw [if_neg (not_not.mpr hchanged)]
    rfl
  · unfold backupChanged
    rw [if_pos hchanged]
    cases disk.files f with
    | none => rfl
    | some bytes =>
      show (d.writes (backupOnce disk f bytes)).backups g = _
      unfold backupOnce
      cases disk.backups f with
      | none => exact Function.update_of_ne hg _ _
      | some old => rfl

theorem backup_main (h : disk.files .main ≠ some c.main) :
    (disk.writes (backUp disk c)).backups .main = (disk.backups .main).or (disk.files .main) := by
  rw [backUp, FluxRs.Migration.writes_append, backups_other (by decide), backups_backupChanged h rfl,
    Function.update_self]

theorem backup_advanced (h : disk.files .advanced ≠ c.advanced) :
    (disk.writes (backUp disk c)).backups .advanced =
      (disk.backups .advanced).or (disk.files .advanced) := by
  rw [backUp, FluxRs.Migration.writes_append, backups_backupChanged h (backups_other (by decide)),
    Function.update_self]

/-- The condition on one installation: of every file it replaces that the user has written, there is no
backup yet, or one with the same bytes. -/
def Spared (s : Installation Bytes) (ws : List (Write Bytes)) : Prop :=
  ∀ f old new, .replace f new ∈ ws → s.disk.files f = some old → s.byUser f = true →
    s.disk.backups f = none ∨ s.disk.backups f = some old

omit [DecidableEq Bytes] in
theorem or_of_spared {backup : Option Bytes} {old : Bytes} (h : backup = none ∨ backup = some old) :
    backup.or (some old) = some old := by
  rcases h with rfl | rfl <;> rfl

end Writes

section Runs

variable {α Bytes : Type} [DecidableEq Bytes] {s : Installation Bytes} {c : Candidate Bytes}

theorem kept_backUp (h : s.Kept) {ws : List (Write Bytes)} (hws : ws <+: backUp s.disk c) :
    (s.writes ws).Kept := by
  have hlog := (writes_of_backups (fun w hw => mem_backUp w (hws.subset hw)) s).2
  intro e he
  rw [hlog] at he
  exact h e he

/-- A file as it was before the writes `pre`, but for its backup. -/
structure Backed (s : Installation Bytes) (f : ConfigFile) (pre : List (Write Bytes)) : Prop where
  file : (s.writes pre).disk.files f = s.disk.files f
  user : (s.writes pre).byUser f = s.byUser f
  backup : (s.writes pre).disk.backups f = (s.disk.backups f).or (s.disk.files f)

theorem Replaces.kept_backed {f : ConfigFile} {pre seg : List (Write Bytes)} (hseg : Replaces f seg)
    (h : (s.writes pre).Kept) (hspared : s.Spared seg) (hbacked : seg ≠ [] → Backed s f pre) :
    (s.writes (pre ++ seg)).Kept := by
  rw [writes_append]
  refine hseg.kept h fun old hne hold hby => ?_
  obtain ⟨hfile, huser, hbackup⟩ := hbacked hne
  rw [hfile] at hold
  rw [huser] at hby
  obtain ⟨w, hw⟩ := List.exists_mem_of_ne_nil seg hne
  obtain ⟨new, rfl⟩ := hseg.only w hw
  rw [hbackup, hold, or_of_spared (hspared f old new hw hold hby)]

theorem backed_backUp {f : ConfigFile}
    (hbackup : (s.disk.writes (backUp s.disk c)).backups f = (s.disk.backups f).or (s.disk.files f)) :
    Backed s f (backUp s.disk c) := by
  refine ⟨by rw [disk_writes, files_backUp], ?_, by rw [disk_writes, hbackup]⟩
  rw [(writes_of_backups mem_backUp s).1]

theorem kept_advanced (h : s.Kept) (hspared : s.Spared (replaceAdvanced s.disk c)) :
    (s.writes (backUp s.disk c ++ replaceAdvanced s.disk c)).Kept := by
  refine (replaces_advanced s.disk c).kept_backed (kept_backUp h (List.prefix_refl _)) hspared fun hne => ?_
  refine backed_backUp (backup_advanced fun hsame => hne ?_)
  exact if_neg (not_not.mpr hsame.symm)

/-- The main document and its backup, behind the replacement of the advanced one. -/
theorem backed_main (hne : replaceMain s.disk c ≠ []) :
    Backed s .main (backUp s.disk c ++ replaceAdvanced s.disk c) := by
  have hchanged : s.disk.files .main ≠ some c.main := fun hsame => hne (if_neg (not_not.mpr hsame))
  have hback : Backed s .main (backUp s.disk c) := backed_backUp (backup_main hchanged)
  obtain ⟨hbackups, hframe⟩ := (replaces_advanced s.disk c).frame (s.writes (backUp s.disk c))
  obtain ⟨hfile, huser⟩ := hframe .main (by decide)
  refine ⟨?_, ?_, ?_⟩
  · rw [writes_append, hfile, hback.file]
  · rw [writes_append, huser, hback.user]
  · rw [writes_append, hbackups, hback.backup]

theorem kept_main (h : s.Kept) (hspared : s.Spared (replaceAdvanced s.disk c ++ replaceMain s.disk c)) :
    (s.writes (backUp s.disk c ++ replaceAdvanced s.disk c ++ replaceMain s.disk c)).Kept := by
  have hadvanced := kept_advanced h fun f old new hw => hspared f old new (List.mem_append_left _ hw)
  exact (replaces_main s.disk c).kept_backed hadvanced
    (fun f old new hw => hspared f old new (List.mem_append_right _ hw)) backed_main

/-- The template is installed only where there is none. -/
theorem kept_publication (h : s.Kept) (hspared : s.Spared (publication s.disk c)) :
    (s.writes (publication s.disk c)).Kept := by
  have hmain := kept_main h (c := c) fun f old new hw => by
    refine hspared f old new (List.mem_append_left _ ?_)
    rw [List.append_assoc]
    exact List.mem_append_right _ hw
  rw [publication, writes_append]
  refine (replaces_template s.disk c).kept hmain fun old hne hold _ => ?_
  exfalso
  have hnone : s.disk.files .template = none := by
    by_contra hsome
    exact hne (if_neg fun hn => hsome (Option.isNone_iff_eq_none.mp hn))
  obtain ⟨-, hframe⟩ := (replaces_main s.disk c).frame
    (s.writes (backUp s.disk c ++ replaceAdvanced s.disk c))
  obtain ⟨-, hframe'⟩ := (replaces_advanced s.disk c).frame (s.writes (backUp s.disk c))
  rw [writes_append, (hframe .template (by decide)).1, writes_append, (hframe' .template (by decide)).1,
    disk_writes, files_backUp, hnone] at hold
  cases hold

/-- One installation that stops anywhere. -/
theorem kept_stopped (h : s.Kept) {p : List (Write Bytes)} (hp : p <+: publication s.disk c)
    (hspared : s.Spared p) : (s.writes p).Kept := by
  rcases stops s.disk c hp with hp | rfl | rfl | rfl
  · exact kept_backUp h hp
  · exact kept_advanced h fun f old new hw => hspared f old new (List.mem_append_right _ hw)
  · refine kept_main h fun f old new hw => hspared f old new ?_
    rw [List.append_assoc]
    exact List.mem_append_right _ hw
  · exact kept_publication h hspared

/-! ### Runs -/

section Run

variable (lib : TomlEdit α Bytes) (others : TomlValue → Option Bytes → Except ConfigError Unit)
variable (defaults : ConfigFile → Option Bytes)

def FirstBackup (s : Installation Bytes) : InstallEvent Bytes → Prop
  | .edit _ _ => True
  | .install l n => ∀ c, candidate lib others defaults l s.disk = .ok c →
    s.Spared ((publication s.disk c).take n)

theorem step_kept (s : Installation Bytes) (ev : InstallEvent Bytes) (h : s.Kept)
    (hev : FirstBackup lib others defaults s ev) : (s.step lib others defaults ev).Kept := by
  cases ev with
  | edit f bytes => exact h
  | install l n =>
    cases hc : candidate lib others defaults l s.disk with
    | error e =>
      simp only [step, hc]
      exact h
    | ok c =>
      simp only [step, hc]
      exact kept_stopped h (List.take_prefix n _) (hev c hc)

/-- **Where each replacement is the first of what the user wrote, a copy is kept of everything.** -/
theorem overwritten_kept {s : Installation Bytes} {events : List (InstallEvent Bytes)} (hs : s.log = [])
    (hevents : AllSteps (step lib others defaults) (FirstBackup lib others defaults) s events) :
    (run (step lib others defaults) s events).Kept := by
  refine run_inv (fun s ev => step_kept lib others defaults s ev) ?_ hevents
  intro e he
  rw [hs] at he
  cases he

end Run

end Runs

/-! ### A second legacy document -/

/-- The user's documents, and no backups. -/
def userFiles (main : TomlDocument Unit) : Installation (TomlDocument Unit) :=
  ⟨⟨fun f => if f = .main then some main else none, fun _ => none⟩, fun _ => true, []⟩

/-- `nodes = { list = ["@other.txt"] }`. -/
def otherLegacyMain : TomlDocument Unit :=
  ⟨(), [("nodes", .inline () [("list", .array () [.scalar () (.str "@other.txt")])])]⟩

/-- A first installation is a case of the condition. -/
theorem overwritten_kept_first :
    (run (step parsedFiles (fun _ _ => .ok ()) markedDefaults) (userFiles legacyMain)
      [.install false 1, .install false 9]).Kept := by
  refine overwritten_kept parsedFiles (fun _ _ => .ok ()) markedDefaults rfl ⟨?_, ?_, trivial⟩
  · intro c _ f old new _ _ _
    exact Or.inl rfl
  · intro c _ f old new _ hold _
    cases f with
    | main => exact Or.inr hold
    | advanced => cases hold
    | template => cases hold

/-- After a migration the user writes a legacy document once more, and installs again. -/
def lostRun : Installation (TomlDocument Unit) :=
  run (step parsedFiles (fun _ _ => .ok ()) markedDefaults) (userFiles legacyMain)
    [.install false 9, .edit .main (some otherLegacyMain), .install false 9]

theorem second_original_lost : ¬ ∀ (s : Installation (TomlDocument Unit))
    (events : List (InstallEvent (TomlDocument Unit))), s.log = [] →
      (run (step parsedFiles (fun _ _ => .ok ()) markedDefaults) s events).Kept := by
  intro h
  have hmem : ⟨.main, otherLegacyMain, true, lostRun.disk.backups⟩ ∈ lostRun.log :=
    List.mem_cons_of_mem _ List.mem_cons_self
  obtain ⟨f, hf⟩ := h (userFiles legacyMain) _ rfl _ hmem rfl
  have hmain : lostRun.disk.backups .main = some legacyMain := rfl
  cases f with
  | main => exact absurd (Option.some.inj (hmain.symm.trans hf)) (by decide)
  | advanced => cases hf
  | template => cases hf

end Installation

end FluxRs.Migration
