import FluxRs.Migration.Retry

/-!
# FluxRs.Migration.Install — an installation that can stop between any two of its writes

`install_locked` of `crates/fluxd/src/install.rs`: the files it reads, the candidate it checks, and the
replacements it then makes one after the other, each of which is atomic.  Failures of a single file
operation, and the files that are adopted afterwards, are left out.
-/

namespace FluxRs.Migration

open FluxRs.Lib

/-- The files of the configuration directory. -/
inductive ConfigFile where
  | main
  | advanced
  | template
  deriving DecidableEq, Repr

namespace ConfigFile

def name : ConfigFile → String
  | main => "flux.toml"
  | advanced => "advanced.toml"
  | template => "template.json"

/-- The name of its default. -/
def defaultName : ConfigFile → String
  | main => "default-flux.toml"
  | advanced => "default-advanced.toml"
  | template => "default-template.json"

/-- `MAX_ENGINE_CONFIG_BYTES` for the template, `MAX_CONFIG_BYTES` for the others. -/
def cap : ConfigFile → ℕ
  | template => 8 * 1024 * 1024
  | _ => maxConfigBytes

end ConfigFile

/-- The configuration directory, and `<name>.original` in the directory of migrations. -/
structure Disk (Bytes : Type) where
  files : ConfigFile → Option Bytes
  backups : ConfigFile → Option Bytes

inductive Write (Bytes : Type) where
  | backup (f : ConfigFile) (bytes : Bytes)
  | replace (f : ConfigFile) (bytes : Bytes)

namespace Disk

variable {Bytes : Type}

def write (disk : Disk Bytes) : Write Bytes → Disk Bytes
  | .backup f bytes => { disk with backups := Function.update disk.backups f (some bytes) }
  | .replace f bytes => { disk with files := Function.update disk.files f (some bytes) }

def writes (disk : Disk Bytes) (ws : List (Write Bytes)) : Disk Bytes := ws.foldl write disk

end Disk

section Install

variable {α Bytes : Type} [DecidableEq Bytes] (lib : TomlEdit α Bytes)

/-- `optional`, of a regular file. -/
def optional (bytes : Option Bytes) (name : String) (cap : ℕ) : Except String (Option Bytes) :=
  match bytes with
  | none => .ok none
  | some bytes =>
    if cap < lib.size bytes then .error (name ++ ": exceeds " ++ toString cap ++ " bytes")
    else .ok (some bytes)

def requiredDefault (defaults : ConfigFile → Option Bytes) (f : ConfigFile) : Except String Bytes := do
  match ← optional lib (defaults f) f.defaultName f.cap with
  | some bytes => return bytes
  | none => throw ("missing installation default: " ++ f.defaultName)

/-- A file that is there, or else its default. -/
def orDefault (defaults : ConfigFile → Option Bytes) (f : ConfigFile) (old : Option Bytes) :
    Except String Bytes :=
  match old with
  | some bytes => .ok bytes
  | none => requiredDefault lib defaults f

/-- `input_advanced`: the default only if there is no file at all. -/
def inputAdvanced (defaults : ConfigFile → Option Bytes) (oldMain oldAdvanced oldTemplate : Option Bytes) :
    Except String (Option Bytes) :=
  if oldMain.isNone && oldTemplate.isNone && oldAdvanced.isNone then
    (requiredDefault lib defaults .advanced).map some
  else .ok oldAdvanced

/-- What is to be published. -/
structure Candidate (Bytes : Type) where
  main : Bytes
  advanced : Option Bytes
  template : Bytes

/-- The complete candidate is checked before any file changes. -/
def checkedCandidate (others : TomlValue → Option Bytes → Except ConfigError Unit) (main : Bytes)
    (advanced : Option Bytes) (template : Bytes) : Except String (Candidate Bytes) :=
  match parseFiles lib others main advanced with
  | .error e => .error ("installation candidate: " ++ e.debug)
  | .ok () => .ok ⟨main, advanced, template⟩

/-- `install_locked` up to its first write. -/
def candidate (others : TomlValue → Option Bytes → Except ConfigError Unit)
    (defaults : ConfigFile → Option Bytes) (legacyAppDefault : Bool) (disk : Disk Bytes) :
    Except String (Candidate Bytes) := do
  let oldMain ← optional lib (disk.files .main) (ConfigFile.name .main) (ConfigFile.cap .main)
  let oldAdvanced ← optional lib (disk.files .advanced) (ConfigFile.name .advanced) (ConfigFile.cap .advanced)
  let oldTemplate ← optional lib (disk.files .template) (ConfigFile.name .template) (ConfigFile.cap .template)
  let advanced ← inputAdvanced lib defaults oldMain oldAdvanced oldTemplate
  let main ← orDefault lib defaults .main oldMain
  let template ← orDefault lib defaults .template oldTemplate
  let prepared ← prepare lib main advanced (legacyAppDefault && oldMain.isSome)
  let published := (prepared.map fun o => (o.main, o.advanced)).getD (main, advanced)
  checkedCandidate lib others published.1 published.2 template

/-- `backup_once`. -/
def backupOnce (disk : Disk Bytes) (f : ConfigFile) (bytes : Bytes) : List (Write Bytes) :=
  match disk.backups f with
  | some _ => []
  | none => [.backup f bytes]

/-- A changed input is backed up. -/
def backupChanged (disk : Disk Bytes) (f : ConfigFile) (after : Option Bytes) : List (Write Bytes) :=
  if disk.files f ≠ after then (disk.files f).elim [] (backupOnce disk f) else []

/-- Every changed input is backed up before either document is published. -/
def backUp (disk : Disk Bytes) (c : Candidate Bytes) : List (Write Bytes) :=
  backupChanged disk .main (some c.main) ++ backupChanged disk .advanced c.advanced

def replaceAdvanced (disk : Disk Bytes) (c : Candidate Bytes) : List (Write Bytes) :=
  if c.advanced ≠ disk.files .advanced then c.advanced.elim [] fun bytes => [.replace .advanced bytes] else []

def replaceMain (disk : Disk Bytes) (c : Candidate Bytes) : List (Write Bytes) :=
  if disk.files .main ≠ some c.main then [.replace .main c.main] else []

def installTemplate (disk : Disk Bytes) (c : Candidate Bytes) : List (Write Bytes) :=
  if (disk.files .template).isNone then [.replace .template c.template] else []

/-- The writes of `install_locked`, in their order. -/
def publication (disk : Disk Bytes) (c : Candidate Bytes) : List (Write Bytes) :=
  backUp disk c ++ replaceAdvanced disk c ++ replaceMain disk c ++ installTemplate disk c

/-- One installation that stops after `n` writes. -/
def interrupted (others : TomlValue → Option Bytes → Except ConfigError Unit)
    (defaults : ConfigFile → Option Bytes) (legacyAppDefault : Bool) (disk : Disk Bytes) (n : ℕ) :
    Disk Bytes :=
  match candidate lib others defaults legacyAppDefault disk with
  | .error _ => disk
  | .ok c => disk.writes ((publication disk c).take n)

/-- One installation. -/
def installed (others : TomlValue → Option Bytes → Except ConfigError Unit)
    (defaults : ConfigFile → Option Bytes) (legacyAppDefault : Bool) (disk : Disk Bytes) : Disk Bytes :=
  match candidate lib others defaults legacyAppDefault disk with
  | .error _ => disk
  | .ok c => disk.writes (publication disk c)

end Install

/-! ### Writes -/

section Writes

variable {Bytes : Type}

@[simp] theorem writes_nil (disk : Disk Bytes) : disk.writes [] = disk := rfl

@[simp] theorem writes_append (disk : Disk Bytes) (ws ws' : List (Write Bytes)) :
    disk.writes (ws ++ ws') = (disk.writes ws).writes ws' := List.foldl_append

/-- Backups leave the files alone. -/
theorem files_writes_of_backups {ws : List (Write Bytes)} (h : ∀ w ∈ ws, ∃ f bytes, w = .backup f bytes)
    (disk : Disk Bytes) : (disk.writes ws).files = disk.files := by
  induction ws generalizing disk with
  | nil => rfl
  | cons w rest ih =>
    obtain ⟨f, bytes, rfl⟩ := h w List.mem_cons_self
    exact ih (fun w hw => h w (List.mem_cons_of_mem _ hw)) _

variable [DecidableEq Bytes]

theorem mem_backupChanged {disk : Disk Bytes} {f : ConfigFile} {after : Option Bytes} {w : Write Bytes}
    (h : w ∈ backupChanged disk f after) : ∃ bytes, w = .backup f bytes := by
  unfold backupChanged at h
  by_cases hne : disk.files f ≠ after
  · rw [if_pos hne] at h
    cases hf : disk.files f with
    | none =>
      rw [hf] at h
      cases h
    | some bytes =>
      rw [hf] at h
      change w ∈ backupOnce disk f bytes at h
      unfold backupOnce at h
      cases hb : disk.backups f with
      | some old =>
        rw [hb] at h
        cases h
      | none =>
        rw [hb] at h
        exact ⟨bytes, List.mem_singleton.mp h⟩
  · rw [if_neg hne] at h
    cases h

theorem mem_backUp {disk : Disk Bytes} {c : Candidate Bytes} (w : Write Bytes) (h : w ∈ backUp disk c) :
    ∃ f bytes, w = .backup f bytes := by
  rcases List.mem_append.mp h with h | h
  · exact ⟨_, mem_backupChanged h⟩
  · exact ⟨_, mem_backupChanged h⟩

theorem prefix_append_short {β : Type} {p l t : List β} (ht : t.length ≤ 1) (h : p <+: l ++ t) :
    p = l ++ t ∨ p <+: l := by
  match t, ht with
  | [], _ =>
    rw [List.append_nil] at h
    exact Or.inr h
  | [a], _ => exact List.prefix_concat_iff.mp h

theorem length_replaceAdvanced (disk : Disk Bytes) (c : Candidate Bytes) :
    (replaceAdvanced disk c).length ≤ 1 := by
  unfold replaceAdvanced
  by_cases h : c.advanced ≠ disk.files .advanced
  · rw [if_pos h]
    cases c.advanced with
    | none => exact Nat.zero_le 1
    | some bytes => exact le_refl 1
  · rw [if_neg h]
    exact Nat.zero_le 1

theorem length_ite_singleton {β : Type} {P : Prop} [Decidable P] (a : β) :
    (if P then [a] else []).length ≤ 1 := by
  by_cases h : P
  · rw [if_pos h]
    exact le_refl 1
  · rw [if_neg h]
    exact Nat.zero_le 1

/-- Where a publication can stop: among its backups, or behind one of its replacements. -/
theorem stops (disk : Disk Bytes) (c : Candidate Bytes) {p : List (Write Bytes)}
    (h : p <+: publication disk c) : p <+: backUp disk c ∨ p = backUp disk c ++ replaceAdvanced disk c ∨
      p = backUp disk c ++ replaceAdvanced disk c ++ replaceMain disk c ∨ p = publication disk c := by
  rcases prefix_append_short (length_ite_singleton _) h with h | h
  · exact Or.inr (Or.inr (Or.inr h))
  rcases prefix_append_short (length_ite_singleton _) h with h | h
  · exact Or.inr (Or.inr (Or.inl h))
  rcases prefix_append_short (length_replaceAdvanced disk c) h with h | h
  · exact Or.inr (Or.inl h)
  · exact Or.inl h

variable {disk d : Disk Bytes} {c : Candidate Bytes}

theorem files_replaceAdvanced (hnone : c.advanced = none → disk.files .advanced = none)
    (hd : d.files .advanced = disk.files .advanced) :
    (d.writes (replaceAdvanced disk c)).files = Function.update d.files .advanced c.advanced := by
  unfold replaceAdvanced
  by_cases h : c.advanced ≠ disk.files .advanced
  · rw [if_pos h]
    cases hc : c.advanced with
    | none => exact absurd (hc.trans (hnone hc).symm) h
    | some bytes => rfl
  · rw [if_neg h, not_not.mp h, ← hd, Function.update_eq_self]
    rfl

theorem files_replaceMain (hd : d.files .main = disk.files .main) :
    (d.writes (replaceMain disk c)).files = Function.update d.files .main (some c.main) := by
  unfold replaceMain
  by_cases h : disk.files .main ≠ some c.main
  · rw [if_pos h]
    rfl
  · rw [if_neg h, ← not_not.mp h, ← hd, Function.update_eq_self]
    rfl

omit [DecidableEq Bytes] in
theorem files_installTemplate (hkept : ∀ bytes, disk.files .template = some bytes → bytes = c.template)
    (hd : d.files .template = disk.files .template) :
    (d.writes (installTemplate disk c)).files = Function.update d.files .template (some c.template) := by
  unfold installTemplate
  cases h : disk.files .template with
  | none => rfl
  | some bytes =>
    rw [Option.isNone_some, if_neg Bool.false_ne_true, ← hkept bytes h, ← h, ← hd,
      Function.update_eq_self]
    rfl

end Writes

/-! ### The candidate of a disk that an interrupted installation left -/

section Stages

variable {α Bytes : Type} {lib : TomlEdit α Bytes}
variable {others : TomlValue → Option Bytes → Except ConfigError Unit} {defaults : ConfigFile → Option Bytes}
variable {l : Bool} {disk disk' : Disk Bytes} {c : Candidate Bytes}

/-- A file that is small enough to be read. -/
def Readable (lib : TomlEdit α Bytes) (f : ConfigFile) (bytes : Option Bytes) : Prop :=
  ∀ b, bytes = some b → lib.size b ≤ f.cap

theorem optional_ok {bytes r : Option Bytes} {name : String} {f : ConfigFile} :
    optional lib bytes name f.cap = .ok r ↔ Readable lib f bytes ∧ r = bytes := by
  cases bytes with
  | none =>
    constructor
    · intro h
      refine ⟨fun b hb => ?_, (Except.ok.inj h).symm⟩
      cases hb
    · rintro ⟨-, rfl⟩
      rfl
  | some b =>
    unfold optional
    by_cases hcap : f.cap < lib.size b
    · simp only [if_pos hcap, reduceCtorEq, false_iff, not_and]
      intro hread
      exact absurd (hread b rfl) (not_le.mpr hcap)
    · simp only [if_neg hcap, Except.ok.injEq]
      constructor
      · rintro rfl
        exact ⟨fun b' hb' => by rw [← Option.some.inj hb']; exact not_lt.mp hcap, rfl⟩
      · rintro ⟨-, rfl⟩
        rfl

theorem requiredDefault_ok {f : ConfigFile} {b : Bytes} (h : requiredDefault lib defaults f = .ok b) :
    defaults f = some b ∧ lib.size b ≤ f.cap := by
  obtain ⟨r, hr, h⟩ := bind_ok.mp h
  obtain ⟨hread, rfl⟩ := optional_ok.mp hr
  cases hd : defaults f with
  | none =>
    rw [hd] at h
    cases h
  | some b' =>
    rw [hd] at h
    obtain rfl := Except.ok.inj h
    exact ⟨rfl, hread b' hd⟩

/-- What a candidate is made of. -/
structure Planned (lib : TomlEdit α Bytes) (others : TomlValue → Option Bytes → Except ConfigError Unit)
    (defaults : ConfigFile → Option Bytes) (l : Bool) (files : ConfigFile → Option Bytes)
    (c : Candidate Bytes) (main : Bytes) (advanced : Option Bytes)
    (prepared : Option (PreparedMigration Bytes)) : Prop where
  readable : ∀ f, Readable lib f (files f)
  advanced_eq : inputAdvanced lib defaults (files .main) (files .advanced) (files .template) = .ok advanced
  main_eq : orDefault lib defaults .main (files .main) = .ok main
  template_eq : orDefault lib defaults .template (files .template) = .ok c.template
  prepared_eq : prepare lib main advanced (l && (files .main).isSome) = .ok prepared
  out : (prepared.map fun o => (o.main, o.advanced)).getD (main, advanced) = (c.main, c.advanced)
  valid : parseFiles lib others c.main c.advanced = .ok ()

theorem checkedCandidate_ok {main : Bytes} {advanced : Option Bytes} {template : Bytes} :
    checkedCandidate lib others main advanced template = .ok c ↔
      c = ⟨main, advanced, template⟩ ∧ parseFiles lib others main advanced = .ok () := by
  unfold checkedCandidate
  cases h : parseFiles lib others main advanced with
  | error e => simp only [reduceCtorEq, and_false]
  | ok u =>
    simp only [Except.ok.injEq, and_true]
    exact eq_comm

theorem candidate_ok : candidate lib others defaults l disk = .ok c ↔
    ∃ main advanced prepared, Planned lib others defaults l disk.files c main advanced prepared := by
  constructor
  · intro h
    obtain ⟨oldMain, hmain, h⟩ := bind_ok.mp h
    obtain ⟨oldAdvanced, hadvanced, h⟩ := bind_ok.mp h
    obtain ⟨oldTemplate, htemplate, h⟩ := bind_ok.mp h
    obtain ⟨hreadMain, rfl⟩ := optional_ok.mp hmain
    obtain ⟨hreadAdvanced, rfl⟩ := optional_ok.mp hadvanced
    obtain ⟨hreadTemplate, rfl⟩ := optional_ok.mp htemplate
    obtain ⟨advanced, hinput, h⟩ := bind_ok.mp h
    obtain ⟨main, horMain, h⟩ := bind_ok.mp h
    obtain ⟨template, horTemplate, h⟩ := bind_ok.mp h
    obtain ⟨prepared, hprepared, h⟩ := bind_ok.mp h
    obtain ⟨rfl, hvalid⟩ := checkedCandidate_ok.mp h
    refine ⟨main, advanced, prepared, fun f => ?_, hinput, horMain, horTemplate, hprepared, rfl, hvalid⟩
    cases f with
    | main => exact hreadMain
    | advanced => exact hreadAdvanced
    | template => exact hreadTemplate
  · rintro ⟨main, advanced, prepared, h⟩
    refine bind_ok.mpr ⟨_, optional_ok.mpr ⟨h.readable .main, rfl⟩, bind_ok.mpr ⟨_,
      optional_ok.mpr ⟨h.readable .advanced, rfl⟩, bind_ok.mpr ⟨_,
        optional_ok.mpr ⟨h.readable .template, rfl⟩, bind_ok.mpr ⟨advanced, h.advanced_eq, bind_ok.mpr
          ⟨main, h.main_eq, bind_ok.mpr ⟨c.template, h.template_eq, bind_ok.mpr ⟨prepared, h.prepared_eq,
            checkedCandidate_ok.mpr ?_⟩⟩⟩⟩⟩⟩⟩
    rw [h.out]
    exact ⟨rfl, h.valid⟩

/-- The backups have no part in a candidate. -/
theorem candidate_congr (h : disk'.files = disk.files) :
    candidate lib others defaults l disk' = candidate lib others defaults l disk := by
  unfold candidate
  rw [h]

/-- The shipped main document has the key that marks a completed migration. -/
def Marked (lib : TomlEdit α Bytes) (defaults : ConfigFile → Option Bytes) : Prop :=
  ∀ main, defaults .main = some main → ∃ d, lib.parse main = .ok d ∧ containsIn d.members "nodes" "sources" = true

section Planned

variable {files : ConfigFile → Option Bytes} {main : Bytes} {advanced : Option Bytes}
variable {prepared : Option (PreparedMigration Bytes)}

theorem advanced_none_of_prepare {o : PreparedMigration Bytes}
    (h : prepare lib main advanced l = .ok (some o)) (ho : o.advanced = none) : advanced = none := by
  obtain ⟨mainDoc, advancedDoc, hmain, hadvanced⟩ := parsed_of_prepare h
  obtain ⟨-, subscription, withNodes, withApps, moved, moves, -, rfl⟩ := steps_of_prepare hmain hadvanced h
  cases moves with
  | nil => exact ho
  | cons move rest => cases ho

/-- A marked document is legacy or not whatever the flag. -/
theorem prepare_marked {d : TomlDocument α} (hparse : lib.parse main = .ok d)
    (hmark : containsIn d.members "nodes" "sources" = true) (l l' : Bool) :
    prepare lib main advanced l = prepare lib main advanced l' := by
  cases hadv : advancedDocument lib advanced with
  | error e =>
    have herr : ∀ l, prepare lib main advanced l = .error e := by
      intro l
      show (parse lib main "flux.toml" >>= fun mainDoc => advancedDocument lib advanced >>= _) = _
      rw [parse_ok.mpr hparse, hadv]
      rfl
    rw [herr, herr]
  | ok advancedDoc =>
    have hflag : ∀ l, isLegacy d.members l = isLegacy d.members false := by
      intro l
      rw [isLegacy, isLegacy, hmark, Bool.not_true, Bool.and_false, Bool.and_false]
    rw [prepare_of_parse hparse hadv, prepare_of_parse hparse hadv, hflag l, hflag l']

namespace Planned

theorem advanced_none (h : Planned lib others defaults l files c main advanced prepared)
    (hc : c.advanced = none) : files .advanced = none := by
  have hnone : advanced = none := by
    cases hp : prepared with
    | none =>
      have hout := h.out
      rw [hp] at hout
      exact (congrArg Prod.snd hout).trans hc
    | some o =>
      have hout := h.out
      rw [hp] at hout
      exact advanced_none_of_prepare (hp ▸ h.prepared_eq) ((congrArg Prod.snd hout).trans hc)
  have hinput := h.advanced_eq
  unfold inputAdvanced at hinput
  by_cases hall : ((files .main).isNone && (files .template).isNone && (files .advanced).isNone) = true
  · exact Option.isNone_iff_eq_none.mp (Bool.and_eq_true_iff.mp hall).2
  · rw [if_neg hall] at hinput
    exact (Except.ok.inj hinput).trans hnone

theorem template_kept (h : Planned lib others defaults l files c main advanced prepared) (bytes : Bytes)
    (hb : files .template = some bytes) : bytes = c.template := by
  have htemplate := h.template_eq
  rw [hb] at htemplate
  exact Except.ok.inj htemplate

theorem readable_template (h : Planned lib others defaults l files c main advanced prepared) :
    Readable lib .template (some c.template) := by
  intro b hb
  have htemplate := h.template_eq
  cases hold : files .template with
  | some old =>
    rw [← Option.some.inj hb, ← h.template_kept old hold]
    exact h.readable .template old hold
  | none =>
    rw [hold] at htemplate
    rw [← Option.some.inj hb]
    exact (requiredDefault_ok htemplate).2

theorem parseDocument_size {bytes : Bytes} {v : TomlValue} (h : parseDocument lib bytes = .ok v) :
    lib.size bytes ≤ maxConfigBytes := by
  by_contra hbig
  unfold parseDocument at h
  rw [if_pos (not_le.mp hbig)] at h
  cases h

theorem readable_main (h : Planned lib others defaults l files c main advanced prepared) :
    Readable lib .main (some c.main) := by
  intro b hb
  obtain ⟨v, hv, -⟩ := bind_ok.mp h.valid
  rw [← Option.some.inj hb]
  exact parseDocument_size hv

theorem readable_advanced (h : Planned lib others defaults l files c main advanced prepared) :
    Readable lib .advanced c.advanced := by
  intro b hb
  obtain ⟨v, -, hvalid⟩ := bind_ok.mp h.valid
  obtain ⟨config, hconfig, -⟩ := bind_ok.mp hvalid
  rw [hb] at hconfig
  simp only [parseAdvanced] at hconfig
  cases hdoc : parseDocument lib b with
  | ok v => exact parseDocument_size hdoc
  | error e =>
    simp only [hdoc, reduceCtorEq] at hconfig

/-- With the advanced document in place, the candidate is the same. -/
theorem after_advanced (h : Planned lib others defaults l files c main advanced prepared) :
    ∃ advanced' prepared',
      Planned lib others defaults l (Function.update files .advanced c.advanced) c main advanced' prepared' := by
  by_cases hsame : c.advanced = files .advanced
  · rw [hsame, Function.update_eq_self]
    exact ⟨advanced, prepared, h⟩
  have hsome : c.advanced ≠ none := fun hnone => hsame (hnone.trans (h.advanced_none hnone).symm)
  obtain ⟨prepared', hprepared', hout⟩ : ∃ prepared',
      prepare lib main c.advanced (l && (files .main).isSome) = .ok prepared' ∧
        (prepared'.map fun o => (o.main, o.advanced)).getD (main, c.advanced) = (c.main, c.advanced) := by
    cases hp : prepared with
    | none =>
      have hout := h.out
      have hprep := h.prepared_eq
      rw [hp] at hout hprep
      have hadv : advanced = c.advanced := congrArg Prod.snd hout
      rw [hadv] at hprep hout
      exact ⟨none, hprep, hout⟩
    | some o =>
      have hout := h.out
      have hprep := h.prepared_eq
      rw [hp] at hout hprep
      have hmain : o.main = c.main := congrArg Prod.fst hout
      have hadv : o.advanced = c.advanced := congrArg Prod.snd hout
      have hagain := prepare_again hprep (by rw [hmain, hadv]; exact h.valid)
      rw [hadv] at hagain
      exact ⟨some o, hagain, hout⟩
  refine ⟨c.advanced, prepared', fun f => ?_, ?_, h.main_eq, h.template_eq, hprepared', hout, h.valid⟩
  · cases f with
    | advanced => exact h.readable_advanced
    | main => exact h.readable .main
    | template => exact h.readable .template
  · show inputAdvanced lib defaults (files .main) c.advanced (files .template) = .ok c.advanced
    unfold inputAdvanced
    rw [Option.isNone_eq_false_iff.mpr (Option.isSome_iff_ne_none.mpr hsome), Bool.and_false]
    rfl

/-- With both documents in place, nothing is left to migrate. -/
theorem after_main (h : Planned lib others defaults l files c main advanced prepared)
    (hdefaults : Marked lib defaults) (template : Option Bytes)
    (htemplate : orDefault lib defaults .template template = .ok c.template)
    (hread : Readable lib .template template) {files' : ConfigFile → Option Bytes}
    (hmain' : files' .main = some c.main) (hadvanced' : files' .advanced = c.advanced)
    (htemplate' : files' .template = template) :
    Planned lib others defaults l files' c c.main c.advanced none := by
  have hnone : prepare lib c.main c.advanced l = .ok none := by
    cases hp : prepared with
    | some o =>
      have hout := h.out
      have hprep := h.prepared_eq
      rw [hp] at hout hprep
      have hmain : o.main = c.main := congrArg Prod.fst hout
      have hadv : o.advanced = c.advanced := congrArg Prod.snd hout
      rw [← hmain, ← hadv]
      exact prepare_completed hprep l
    | none =>
      have hout := h.out
      have hprep := h.prepared_eq
      rw [hp] at hout hprep
      have hmain : main = c.main := congrArg Prod.fst hout
      have hadv : advanced = c.advanced := congrArg Prod.snd hout
      rw [hmain, hadv] at hprep
      cases hold : files .main with
      | some old =>
        rw [hold, Option.isSome_some, Bool.and_true] at hprep
        exact hprep
      | none =>
        have hdefault := h.main_eq
        rw [hold] at hdefault
        obtain ⟨d, hparse, hmark⟩ := hdefaults main (requiredDefault_ok hdefault).1
        rw [hmain] at hparse
        rw [prepare_marked hparse hmark l, hprep]
  refine ⟨fun f => ?_, ?_, by rw [hmain']; rfl, by rw [htemplate', htemplate], ?_, rfl, h.valid⟩
  · cases f with
    | main =>
      rw [hmain']
      exact h.readable_main
    | advanced =>
      rw [hadvanced']
      exact h.readable_advanced
    | template =>
      rw [htemplate']
      exact hread
  · rw [hmain', hadvanced']
    rfl
  · rw [hmain', Option.isSome_some, Bool.and_true, hnone]

end Planned

end Planned

/-- What an installation leaves in the files. -/
def Candidate.files (c : Candidate Bytes) : ConfigFile → Option Bytes
  | .main => some c.main
  | .advanced => c.advanced
  | .template => some c.template

section Stops

variable [DecidableEq Bytes]

theorem files_backUp (disk : Disk Bytes) (c : Candidate Bytes) :
    (disk.writes (backUp disk c)).files = disk.files := files_writes_of_backups mem_backUp disk

section Documents

variable {main : Bytes} {advanced : Option Bytes} {prepared : Option (PreparedMigration Bytes)}

theorem files_advanced (h : Planned lib others defaults l disk.files c main advanced prepared) :
    (disk.writes (backUp disk c ++ replaceAdvanced disk c)).files =
      Function.update disk.files .advanced c.advanced := by
  rw [writes_append, files_replaceAdvanced h.advanced_none (congrFun (files_backUp disk c) .advanced),
    files_backUp]

theorem files_documents (h : Planned lib others defaults l disk.files c main advanced prepared) :
    (disk.writes (backUp disk c ++ replaceAdvanced disk c ++ replaceMain disk c)).files =
      Function.update (Function.update disk.files .advanced c.advanced) .main (some c.main) := by
  have hmain : (disk.writes (backUp disk c ++ replaceAdvanced disk c)).files .main = disk.files .main := by
    rw [files_advanced h]
    rfl
  rw [writes_append, files_replaceMain hmain, files_advanced h]

theorem files_publication (h : Planned lib others defaults l disk.files c main advanced prepared) :
    (disk.writes (publication disk c)).files = c.files := by
  have htemplate : (disk.writes (backUp disk c ++ replaceAdvanced disk c ++ replaceMain disk c)).files
      .template = disk.files .template := by
    rw [files_documents h]
    rfl
  rw [publication, writes_append, files_installTemplate h.template_kept htemplate, files_documents h]
  ext f
  cases f <;> rfl

end Documents

/-- **Wherever an installation stops, the next one has the same candidate.** -/
theorem candidate_stops (hdefaults : Marked lib defaults) (h : candidate lib others defaults l disk = .ok c)
    {p : List (Write Bytes)} (hp : p <+: publication disk c) :
    candidate lib others defaults l (disk.writes p) = .ok c := by
  obtain ⟨main, advanced, prepared, hplanned⟩ := candidate_ok.mp h
  rcases stops disk c hp with hp | rfl | rfl | rfl
  · rw [candidate_congr (files_writes_of_backups (fun w hw => mem_backUp w (hp.subset hw)) disk), h]
  · obtain ⟨advanced', prepared', hafter⟩ := hplanned.after_advanced
    refine candidate_ok.mpr ⟨main, advanced', prepared', ?_⟩
    rw [files_advanced hplanned]
    exact hafter
  · refine candidate_ok.mpr ⟨c.main, c.advanced, none, hplanned.after_main hdefaults (disk.files .template)
      hplanned.template_eq (hplanned.readable .template) ?_ ?_ ?_⟩ <;> rw [files_documents hplanned] <;> rfl
  · refine candidate_ok.mpr ⟨c.main, c.advanced, none, hplanned.after_main hdefaults (some c.template)
      rfl hplanned.readable_template ?_ ?_ ?_⟩ <;> rw [files_publication hplanned] <;> rfl

theorem files_installed (h : candidate lib others defaults l disk = .ok c) :
    (installed lib others defaults l disk).files = c.files := by
  obtain ⟨main, advanced, prepared, hplanned⟩ := candidate_ok.mp h
  rw [installed, h]
  exact files_publication hplanned

/-- One interrupted installation does not change what the next whole one leaves. -/
theorem installed_interrupted (hdefaults : Marked lib defaults) (disk : Disk Bytes) (n : ℕ) :
    (installed lib others defaults l (interrupted lib others defaults l disk n)).files =
      (installed lib others defaults l disk).files := by
  unfold interrupted
  cases h : candidate lib others defaults l disk with
  | error e => rfl
  | ok c =>
    show (installed lib others defaults l (disk.writes ((publication disk c).take n))).files = _
    rw [files_installed (candidate_stops hdefaults h (List.take_prefix n _)), files_installed h]

/-- Any number of them does not either. -/
theorem installed_interrupted_all (hdefaults : Marked lib defaults) (cuts : List ℕ) (disk : Disk Bytes) :
    (installed lib others defaults l (cuts.foldl (interrupted lib others defaults l) disk)).files =
      (installed lib others defaults l disk).files := by
  induction cuts generalizing disk with
  | nil => rfl
  | cons n rest ih => rw [List.foldl_cons, ih, installed_interrupted hdefaults]

/-- **A migration is safe to retry.**  What it has written is not migrated again, the main document is
migrated the same way once more when only the advanced one is written, and installations that stop after
any of their writes leave the next whole one what a first one would have had. -/
theorem migration_retry_safe (lib : TomlEdit α Bytes)
    (others : TomlValue → Option Bytes → Except ConfigError Unit) :
    (∀ main advanced l o, prepare lib main advanced l = .ok (some o) →
      parseFiles lib others o.main o.advanced = .ok () →
        (∀ l', prepare lib o.main o.advanced l' = .ok none) ∧
          prepare lib main o.advanced l = .ok (some o)) ∧
      ∀ defaults, Marked lib defaults → ∀ (l : Bool) (disk : Disk Bytes) (cuts : List ℕ),
        (installed lib others defaults l (cuts.foldl (interrupted lib others defaults l) disk)).files =
          (installed lib others defaults l disk).files := by
  refine ⟨fun main advanced l o h hvalid => ⟨prepare_completed h, prepare_again h hvalid⟩, ?_⟩
  intro defaults hdefaults l disk cuts
  exact installed_interrupted_all hdefaults cuts disk

end Stops

end Stages

/-! ### An installation of legacy files -/

/-- Defaults that carry the marker. -/
def markedDefaults : ConfigFile → Option (TomlDocument Unit)
  | .main => some ⟨(), [("nodes", .table () [("sources", .array () [])])]⟩
  | _ => some ⟨(), []⟩

theorem migration_retry_safe_legacyMain :
    prepare parsedFiles migratedMain (some migratedAdvanced) true = .ok none ∧
      prepare parsedFiles legacyMain (some migratedAdvanced) false =
        .ok (some ⟨migratedMain, some migratedAdvanced⟩) ∧
        (installed parsedFiles (fun _ _ => .ok ()) markedDefaults false
          ([1, 0, 2].foldl (interrupted parsedFiles (fun _ _ => .ok ()) markedDefaults false)
            ⟨fun f => if f = .main then some legacyMain else none, fun _ => none⟩)).files .main =
          some migratedMain := by
  obtain ⟨hagain, hcuts⟩ := migration_retry_safe parsedFiles fun _ _ => .ok ()
  obtain ⟨hnone, hsame⟩ := hagain legacyMain none false _ prepare_legacyMain rfl
  refine ⟨hnone true, hsame, ?_⟩
  rw [hcuts markedDefaults]
  · rfl
  · intro main hmain
    obtain rfl := Option.some.inj hmain
    exact ⟨_, rfl, rfl⟩

end FluxRs.Migration
