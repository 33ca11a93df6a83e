import FluxRs.Apps.Selector
import FluxRs.Lib.Split
import FluxRs.Nodes.Sources
import Mathlib.Data.Char
import Mathlib.Data.List.Lex

/-!
# FluxRs.Release.Gki — kernel lines and the module files built for them

`crates/flux-core/src/gki_line.rs`: the name of a module file, read in two ways, and the choice among the files of a
directory.
-/

namespace FluxRs.Release

open FluxRs.Lib
open FluxRs.Apps (parseU32 parseU32_of_isDecimal isAsciiDigit_eq)
open FluxRs.Nodes (isAsciiDigit splitOnce)

structure GkiLine where
  android : U32
  kernelMajor : U32
  kernelMinor : U32
deriving DecidableEq

def parseComponent (text : List Char) : Option U32 :=
  if text = [] ∨ text.any (fun c => !isAsciiDigit c) then none else (parseU32 text).map (BitVec.ofNat 32)

/-- Parts behind the second one are not looked at. -/
def parseSeries (series : List Char) : Option (U32 × U32) :=
  match series.splitOn '.' with
  | major :: minor :: _ => (parseComponent major).bind fun major => (parseComponent minor).map fun minor => (major, minor)
  | _ => none

/-- `".ko"`. -/
def moduleExtension : List Char := ['.', 'k', 'o']

/-- `"fluxrs-android"`. -/
def moduleFront : List Char := "fluxrs-android".toList

/-- A string comparison of `<` is one of code points. -/
def firstName (name : List Char) : Option (List Char) → List Char
  | none => name
  | some current => if name < current then name else current

namespace GkiLine

def name (line : GkiLine) : List Char :=
  "android".toList ++ decimal line.android.toNat ++ '-' :: decimal line.kernelMajor.toNat ++
    '.' :: decimal line.kernelMinor.toNat

def moduleStem (line : GkiLine) : List Char := "fluxrs-".toList ++ line.name

def fromModuleFilename (filename : List Char) : Option GkiLine := do
  let rest ← stripPrefix moduleFront filename
  let body ← stripSuffix moduleExtension rest
  let (androidToken, seriesAndBuild) ← splitOnce ['-'] body
  let android ← parseComponent androidToken
  let series ← (seriesAndBuild.splitOn '-').head?
  let (kernelMajor, kernelMinor) ← parseSeries series
  return ⟨android, kernelMajor, kernelMinor⟩

def matchesModuleFile (line : GkiLine) (filename : List Char) : Bool :=
  match stripPrefix line.moduleStem filename with
  | none => false
  | some rest =>
    match stripSuffix moduleExtension rest with
    | none => false
    | some body => body.isEmpty || decide (body.head? = some '-')

/-- The file without a build suffix. -/
def exactName (line : GkiLine) : List Char := line.moduleStem ++ moduleExtension

/-- The loop of `pick_module_file`. -/
def pickFrom (line : GkiLine) (fallback : Option (List Char)) : List (List Char) → Option (List Char)
  | [] => fallback
  | name :: names =>
    if line.matchesModuleFile name = false then pickFrom line fallback names
    else if name = line.exactName then some name
    else pickFrom line (some (firstName name fallback)) names

def pickModuleFile (line : GkiLine) (names : List (List Char)) : Option (List Char) := pickFrom line none names

end GkiLine

/-! ### Numbers -/

theorem parseComponent_eq_some {text : List Char} {n : U32} :
    parseComponent text = some n ↔ IsDecimal text ∧ decimalValue text = n.toNat := by
  have hn := n.isLt
  unfold parseComponent
  constructor
  · intro h
    split at h
    · cases h
    · rename_i hdigits
      rw [not_or] at hdigits
      have hdecimal : IsDecimal text := by
        refine ⟨hdigits.1, fun c hc => ?_⟩
        rw [← isAsciiDigit_eq]
        by_contra hnot
        exact hdigits.2 (List.any_eq_true.mpr ⟨c, hc, by rw [Bool.not_eq_true] at hnot; rw [hnot]; rfl⟩)
      rw [parseU32_of_isDecimal hdecimal] at h
      split at h
      · rename_i hlt
        rw [← Option.some.inj h]
        refine ⟨hdecimal, ?_⟩
        show decimalValue text = (BitVec.ofNat 32 (decimalValue text)).toNat
        rw [BitVec.toNat_ofNat, Nat.mod_eq_of_lt hlt]
      · cases h
  · rintro ⟨hdecimal, hvalue⟩
    rw [if_neg, parseU32_of_isDecimal hdecimal, hvalue, if_pos hn, Option.map_some, BitVec.ofNat_toNat,
      BitVec.setWidth_eq]
    rintro (hnil | hany)
    · exact hdecimal.ne_nil hnil
    · obtain ⟨c, hc, hnot⟩ := List.any_eq_true.mp hany
      rw [isAsciiDigit_eq, hdecimal.digit c hc] at hnot
      cases hnot

theorem not_mem_isDecimal {text : List Char} (h : IsDecimal text) {c : Char} (hc : c.isDigit = false) : c ∉ text := by
  intro hmem
  rw [h.digit c hmem] at hc
  cases hc

/-- A text of digits that spell a number. -/
def Spells (text : List Char) (n : U32) : Prop := IsDecimal text ∧ decimalValue text = n.toNat

theorem spells_decimal (n : U32) : Spells (decimal n.toNat) n := ⟨isDecimal_decimal _, decimalValue_decimal _⟩

theorem parseSeries_eq_some {series : List Char} {major minor : U32} :
    parseSeries series = some (major, minor) ↔ ∃ majorText minorText more, series = majorText ++ '.' :: minorText ++ more ∧
      Spells majorText major ∧ Spells minorText minor ∧ Follows '.' more := by
  unfold parseSeries
  constructor
  · intro h
    split at h
    · rename_i majorText minorText parts hsplit
      obtain ⟨n, hn, h⟩ := Option.bind_eq_some_iff.mp h
      obtain ⟨m, hm, heq⟩ := Option.map_eq_some_iff.mp h
      obtain ⟨rfl, rfl⟩ := Prod.mk.inj heq
      obtain ⟨-, ⟨-, hnil⟩ | ⟨back, rfl, hback⟩⟩ := splitOn_eq_cons_iff.mp hsplit
      · cases hnil
      · have hhead : (back.splitOn '.').head? = some minorText := by rw [hback]; rfl
        obtain ⟨-, more, hmore, rfl⟩ := head_splitOn_iff.mp hhead
        exact ⟨majorText, minorText, more, by rw [List.append_assoc]; rfl, parseComponent_eq_some.mp hn,
          parseComponent_eq_some.mp hm, hmore⟩
    · cases h
  · rintro ⟨majorText, minorText, more, rfl, hmajor, hminor, hmore⟩
    have hhead : ((minorText ++ more).splitOn '.').head? = some minorText :=
      head_splitOn_iff.mpr ⟨not_mem_isDecimal hminor.1 (by decide), more, hmore, rfl⟩
    obtain ⟨parts, hparts⟩ := List.head?_eq_some_iff.mp hhead
    rw [List.append_assoc, List.cons_append,
      List.splitOn_append_cons_self_of_not_mem (not_mem_isDecimal hmajor.1 (by decide)), hparts]
    simp only
    rw [parseComponent_eq_some.mpr hmajor, parseComponent_eq_some.mpr hminor]
    rfl

/-! ### Names -/

/-- A file name read as the numbers of a line: the texts of the numbers, what stands behind them, and the build. -/
structure Reading (line : GkiLine) (filename androidText majorText minorText more build : List Char) : Prop where
  filename_eq : filename =
    moduleFront ++ (androidText ++ '-' :: (majorText ++ '.' :: minorText ++ more ++ build)) ++ moduleExtension
  android : Spells androidText line.android
  major : Spells majorText line.kernelMajor
  minor : Spells minorText line.kernelMinor
  moreFollows : Follows '.' more
  noDash : '-' ∉ more
  buildFollows : Follows '-' build

theorem dash_not_mem_series {majorText minorText more : List Char} {major minor : U32} (hmajor : Spells majorText major)
    (hminor : Spells minorText minor) (hmore : '-' ∉ more) : '-' ∉ majorText ++ '.' :: minorText ++ more := by
  have hmajor' := not_mem_isDecimal hmajor.1 (c := '-') (by decide)
  have hminor' := not_mem_isDecimal hminor.1 (c := '-') (by decide)
  simp [hmajor', hminor', hmore]

namespace GkiLine

variable {line : GkiLine} {filename : List Char}

theorem fromModuleFilename_eq_some :
    fromModuleFilename filename = some line ↔
      ∃ androidText majorText minorText more build, Reading line filename androidText majorText minorText more build := by
  unfold fromModuleFilename
  simp only [Option.bind_eq_bind, Option.bind_eq_some_iff, stripPrefix_eq_some_iff, stripSuffix_eq_some_iff]
  constructor
  · rintro ⟨rest, rfl, body, rfl, ⟨androidText, seriesAndBuild⟩, hdash, android, handroid, series, hseries, ⟨major, minor⟩,
      hnumbers, hline⟩
    obtain rfl := Option.some.inj hline
    obtain ⟨majorText, minorText, more, rfl, hmajor, hminor, hmore⟩ := parseSeries_eq_some.mp hnumbers
    obtain ⟨hnot, build, hbuild, rfl⟩ := head_splitOn_iff.mp hseries
    refine ⟨androidText, majorText, minorText, more, build, ?_, parseComponent_eq_some.mp handroid, hmajor, hminor,
      hmore, fun hmem => hnot (List.mem_append_right _ hmem), hbuild⟩
    rw [FluxRs.Nodes.splitOnce_sound hdash]
    simp
  · rintro ⟨androidText, majorText, minorText, more, build, h⟩
    have hat : splitOnce ['-'] (androidText ++ '-' :: (majorText ++ '.' :: minorText ++ more ++ build)) =
        some (androidText, majorText ++ '.' :: minorText ++ more ++ build) := by
      have hsplit := FluxRs.Nodes.splitOnce_at (not_mem_isDecimal h.android.1 (c := '-') (by decide)) []
        (majorText ++ '.' :: minorText ++ more ++ build)
      rwa [List.append_assoc] at hsplit
    have hseries := head_splitOn_iff.mpr
      ⟨dash_not_mem_series h.major h.minor h.noDash, build, h.buildFollows, rfl⟩
    have hnumbers := parseSeries_eq_some.mpr ⟨majorText, minorText, more, rfl, h.major, h.minor, h.moreFollows⟩
    exact ⟨_, h.filename_eq.trans (List.append_assoc _ _ _), _, rfl, (_, _), hat, _, parseComponent_eq_some.mpr h.android,
      _, hseries, (_, _), hnumbers, rfl⟩

theorem matchesModuleFile_iff :
    line.matchesModuleFile filename = true ↔
      ∃ build, Follows '-' build ∧ filename = line.moduleStem ++ build ++ moduleExtension := by
  unfold matchesModuleFile
  constructor
  · intro h
    split at h
    · cases h
    · rename_i rest hrest
      split at h
      · cases h
      · rename_i body hbody
        refine ⟨body, ?_, ?_⟩
        · rw [Bool.or_eq_true, List.isEmpty_iff, decide_eq_true_eq] at h
          exact h
        · rw [stripPrefix_eq_some_iff.mp hrest, stripSuffix_eq_some_iff.mp hbody, List.append_assoc]
  · rintro ⟨build, hbuild, rfl⟩
    have hfront : stripPrefix line.moduleStem (line.moduleStem ++ build ++ moduleExtension) =
        some (build ++ moduleExtension) := stripPrefix_eq_some_iff.mpr (List.append_assoc _ _ _)
    have hsuffix : stripSuffix moduleExtension (build ++ moduleExtension) = some build :=
      stripSuffix_eq_some_iff.mpr rfl
    rw [hfront]
    simp only
    rw [hsuffix]
    simp only
    rw [Bool.or_eq_true, List.isEmpty_iff, decide_eq_true_eq]
    exact hbuild

theorem moduleStem_eq (line : GkiLine) : line.moduleStem =
    moduleFront ++ (decimal line.android.toNat ++ '-' :: (decimal line.kernelMajor.toNat ++
      '.' :: decimal line.kernelMinor.toNat)) := by
  have hfront : "fluxrs-".toList ++ "android".toList = moduleFront := by decide
  have hregroup : ∀ front key a b c : List Char,
      front ++ (key ++ a ++ '-' :: b ++ '.' :: c) = front ++ key ++ (a ++ '-' :: (b ++ '.' :: c)) := by
    intro front key a b c
    simp only [List.append_assoc, List.cons_append]
  unfold moduleStem name
  rw [hregroup, hfront]

/-- A file that matches is read as its line. -/
theorem reading_of_matches (h : line.matchesModuleFile filename = true) :
    ∃ build, Reading line filename (decimal line.android.toNat) (decimal line.kernelMajor.toNat)
      (decimal line.kernelMinor.toNat) [] build := by
  obtain ⟨build, hbuild, rfl⟩ := matchesModuleFile_iff.mp h
  refine ⟨build, ?_, spells_decimal _, spells_decimal _, spells_decimal _, Or.inl rfl, List.not_mem_nil, hbuild⟩
  rw [moduleStem_eq]
  simp only [List.append_assoc, List.cons_append, List.nil_append]

theorem matches_of_reading {build : List Char} (h : Reading line filename (decimal line.android.toNat)
    (decimal line.kernelMajor.toNat) (decimal line.kernelMinor.toNat) [] build) :
    line.matchesModuleFile filename = true := by
  refine matchesModuleFile_iff.mpr ⟨build, h.buildFollows, ?_⟩
  rw [h.filename_eq, moduleStem_eq]
  simp only [List.append_assoc, List.cons_append, List.nil_append]

end GkiLine

/-- A file name is read in one way. -/
theorem reading_unique {line line' : GkiLine} {filename a major minor more build a' major' minor' more' build' : List Char}
    (h : Reading line filename a major minor more build) (h' : Reading line' filename a' major' minor' more' build') :
    a = a' ∧ major = major' ∧ minor = minor' ∧ more = more' := by
  have hbody := List.append_cancel_left (List.append_cancel_right (h.filename_eq.symm.trans h'.filename_eq))
  -- the parts that a separator ends are read off by splitting
  have ha := congrArg (fun text => (text.splitOn '-').head?) hbody
  rw [List.splitOn_append_cons_self_of_not_mem (not_mem_isDecimal h.android.1 (by decide)),
    List.splitOn_append_cons_self_of_not_mem (not_mem_isDecimal h'.android.1 (by decide))] at ha
  obtain rfl : a = a' := Option.some.inj ha
  have hrest := (List.cons.inj (List.append_cancel_left hbody)).2
  have hseries := congrArg (fun text => (text.splitOn '-').head?) hrest
  rw [head_splitOn_iff.mpr ⟨dash_not_mem_series h.major h.minor h.noDash, build, h.buildFollows, rfl⟩,
    head_splitOn_iff.mpr ⟨dash_not_mem_series h'.major h'.minor h'.noDash, build', h'.buildFollows, rfl⟩] at hseries
  have hnumbers := Option.some.inj hseries
  rw [List.append_assoc, List.append_assoc, List.cons_append, List.cons_append] at hnumbers
  have hmajor := congrArg (fun text => (text.splitOn '.').head?) hnumbers
  rw [List.splitOn_append_cons_self_of_not_mem (not_mem_isDecimal h.major.1 (by decide)),
    List.splitOn_append_cons_self_of_not_mem (not_mem_isDecimal h'.major.1 (by decide))] at hmajor
  obtain rfl : major = major' := Option.some.inj hmajor
  have htail := (List.cons.inj (List.append_cancel_left hnumbers)).2
  have hminor := congrArg (fun text => (text.splitOn '.').head?) htail
  rw [head_splitOn_iff.mpr ⟨not_mem_isDecimal h.minor.1 (by decide), more, h.moreFollows, rfl⟩,
    head_splitOn_iff.mpr ⟨not_mem_isDecimal h'.minor.1 (by decide), more', h'.moreFollows, rfl⟩] at hminor
  obtain rfl : minor = minor' := Option.some.inj hminor
  exact ⟨rfl, rfl, rfl, List.append_cancel_left htail⟩

/-- A text of digits with no zero in front that could be left out. -/
def Short (text : List Char) : Prop := 1 < text.length → text.head? ≠ some '0'

theorem short_decimal (n : ℕ) : Short (decimal n) := by
  intro hlong hhead
  rw [decimal_head n hhead] at hlong
  exact absurd hlong (by decide)

theorem eq_decimal_of_short {text : List Char} {n : U32} (h : Spells text n) (hshort : Short text) :
    text = decimal n.toNat := by
  rw [← h.2, decimal_decimalValue h.1 hshort]

/-- The numbers of a line stand in a file name without zeros in front, and the series has two parts. -/
def PlainName (line : GkiLine) (filename : List Char) : Prop :=
  ∀ androidText majorText minorText more build, Reading line filename androidText majorText minorText more build →
    Short androidText ∧ Short majorText ∧ Short minorText ∧ more = []

theorem matches_iff_reads_iff {line : GkiLine} {filename : List Char} :
    (line.matchesModuleFile filename = true ↔ GkiLine.fromModuleFilename filename = some line) ↔
      PlainName line filename := by
  constructor
  · intro hagree androidText majorText minorText more build h
    have hreads := GkiLine.fromModuleFilename_eq_some.mpr ⟨_, _, _, _, _, h⟩
    obtain ⟨build', h'⟩ := GkiLine.reading_of_matches (hagree.mpr hreads)
    obtain ⟨rfl, rfl, rfl, rfl⟩ := reading_unique h h'
    exact ⟨short_decimal _, short_decimal _, short_decimal _, rfl⟩
  · intro hplain
    constructor
    · intro hmatches
      obtain ⟨build, h⟩ := GkiLine.reading_of_matches hmatches
      exact GkiLine.fromModuleFilename_eq_some.mpr ⟨_, _, _, _, _, h⟩
    · intro hreads
      obtain ⟨androidText, majorText, minorText, more, build, h⟩ := GkiLine.fromModuleFilename_eq_some.mp hreads
      obtain ⟨ha, hmajor, hminor, rfl⟩ := hplain _ _ _ _ _ h
      obtain rfl := eq_decimal_of_short h.android ha
      obtain rfl := eq_decimal_of_short h.major hmajor
      obtain rfl := eq_decimal_of_short h.minor hminor
      exact GkiLine.matches_of_reading h

/-! ### The choice among files -/

namespace GkiLine

variable (line : GkiLine) {names : List (List Char)} {fallback : Option (List Char)}

/-- A name that may be picked. -/
def Candidate (fallback : Option (List Char)) (names : List (List Char)) (name : List Char) : Prop :=
  fallback = some name ∨ name ∈ names ∧ line.matchesModuleFile name = true

theorem matches_exactName : line.matchesModuleFile line.exactName = true := by
  refine matchesModuleFile_iff.mpr ⟨[], Or.inl rfl, ?_⟩
  rw [List.append_nil]
  rfl

theorem pickFrom_exact (h : line.exactName ∈ names) : pickFrom line fallback names = some line.exactName := by
  induction names generalizing fallback with
  | nil => exact absurd h List.not_mem_nil
  | cons name names ih =>
    rw [pickFrom]
    by_cases hname : name = line.exactName
    · rw [hname, line.matches_exactName, if_neg (by decide), if_pos rfl]
    · have hrest : line.exactName ∈ names := (List.mem_cons.mp h).resolve_left (Ne.symm hname)
      by_cases hmatches : line.matchesModuleFile name = false
      · rw [if_pos hmatches]
        exact ih hrest
      · rw [if_neg hmatches, if_neg hname]
        exact ih hrest

theorem firstName_spec (name : List Char) (fallback : Option (List Char)) :
    (fallback = some (firstName name fallback) ∨ firstName name fallback = name) ∧ firstName name fallback ≤ name ∧
      ∀ current, fallback = some current → firstName name fallback ≤ current := by
  cases fallback with
  | none => exact ⟨Or.inr rfl, le_rfl, fun current h => absurd h (by simp)⟩
  | some current =>
    have heq : firstName name (some current) = if name < current then name else current := rfl
    rw [heq]
    by_cases hlt : name < current
    · rw [if_pos hlt]
      refine ⟨Or.inr rfl, le_rfl, fun other h => ?_⟩
      rw [← Option.some.inj h]
      exact le_of_lt hlt
    · rw [if_neg hlt]
      refine ⟨Or.inl rfl, not_lt.mp hlt, fun other h => ?_⟩
      rw [Option.some.inj h]

/-- Without the exact name the first candidate in the order of names is picked. -/
theorem pickFrom_spec (h : line.exactName ∉ names) :
    (pickFrom line fallback names = none → ∀ name, ¬ line.Candidate fallback names name) ∧
      ∀ name, pickFrom line fallback names = some name →
        line.Candidate fallback names name ∧ ∀ other, line.Candidate fallback names other → name ≤ other := by
  induction names generalizing fallback with
  | nil =>
    refine ⟨?_, ?_⟩
    · rintro rfl name (hname | ⟨hmem, -⟩)
      · cases hname
      · exact List.not_mem_nil hmem
    · intro name hname
      refine ⟨Or.inl hname, ?_⟩
      rintro other (hother | ⟨hmem, -⟩)
      · rw [Option.some.inj (Eq.trans (Eq.symm hother) hname)]
      · exact absurd hmem List.not_mem_nil
  | cons first names ih =>
    rw [List.mem_cons, not_or] at h
    rw [pickFrom]
    by_cases hfirst : line.matchesModuleFile first = false
    · rw [if_pos hfirst]
      have hsame : ∀ name, line.Candidate fallback (first :: names) name ↔ line.Candidate fallback names name := by
        intro name
        unfold Candidate
        rw [List.mem_cons]
        constructor
        · rintro (hname | ⟨rfl | hmem, hmatches⟩)
          · exact Or.inl hname
          · rw [hfirst] at hmatches
            cases hmatches
          · exact Or.inr ⟨hmem, hmatches⟩
        · rintro (hname | ⟨hmem, hmatches⟩)
          · exact Or.inl hname
          · exact Or.inr ⟨Or.inr hmem, hmatches⟩
      obtain ⟨hnone, hsome⟩ := @ih fallback h.2
      refine ⟨fun hpick name hname => hnone hpick name ((hsame name).mp hname), fun name hpick => ?_⟩
      obtain ⟨hname, hleast⟩ := hsome name hpick
      exact ⟨(hsame name).mpr hname, fun other hother => hleast other ((hsame other).mp hother)⟩
    · rw [if_neg hfirst, if_neg (Ne.symm h.1)]
      rw [Bool.not_eq_false] at hfirst
      obtain ⟨hfrom, hle, hbelow⟩ := firstName_spec first fallback
      obtain ⟨hnone, hsome⟩ := @ih (some (firstName first fallback)) h.2
      refine ⟨fun hpick name _ => hnone hpick _ (Or.inl rfl), fun name hpick => ?_⟩
      obtain ⟨hname, hleast⟩ := hsome name hpick
      refine ⟨?_, ?_⟩
      · obtain hname | ⟨hmem, hmatches⟩ := hname
        · obtain rfl := Option.some.inj hname
          obtain hfallback | hthis := hfrom
          · exact Or.inl hfallback
          · refine Or.inr ⟨?_, ?_⟩
            · rw [hthis]
              exact List.mem_cons_self
            · rw [hthis]
              exact hfirst
        · exact Or.inr ⟨List.mem_cons_of_mem first hmem, hmatches⟩
      · rintro other (hother | ⟨hmem, hmatches⟩)
        · exact (hleast _ (Or.inl rfl)).trans (hbelow other hother)
        · obtain rfl | hmem := List.mem_cons.mp hmem
          · exact (hleast _ (Or.inl rfl)).trans hle
          · exact hleast other (Or.inr ⟨hmem, hmatches⟩)

/-- What is promised of the choice among the files of a directory. -/
structure PickOk (names : List (List Char)) : Prop where
  isSome_iff : (line.pickModuleFile names).isSome = true ↔ ∃ name ∈ names, line.matchesModuleFile name = true
  matching : ∀ name, line.pickModuleFile names = some name → name ∈ names ∧ line.matchesModuleFile name = true
  exact_first : line.exactName ∈ names → line.pickModuleFile names = some line.exactName
  same_set : ∀ names', (∀ name, name ∈ names ↔ name ∈ names') → line.pickModuleFile names = line.pickModuleFile names'

theorem pickModuleFile_matching (names : List (List Char)) {name : List Char}
    (hpick : line.pickModuleFile names = some name) : name ∈ names ∧ line.matchesModuleFile name = true := by
  by_cases hexact : line.exactName ∈ names
  · rw [pickModuleFile, line.pickFrom_exact hexact] at hpick
    rw [← Option.some.inj hpick]
    exact ⟨hexact, line.matches_exactName⟩
  · obtain hnone | hname := ((line.pickFrom_spec hexact).2 name hpick).1
    · cases hnone
    · exact hname

theorem pickOk (names : List (List Char)) : line.PickOk names where
  isSome_iff := by
    constructor
    · intro hsome
      obtain ⟨name, hpick⟩ := Option.isSome_iff_exists.mp hsome
      exact ⟨name, line.pickModuleFile_matching names hpick⟩
    · rintro ⟨name, hmem, hmatches⟩
      by_cases hexact : line.exactName ∈ names
      · rw [pickModuleFile, line.pickFrom_exact hexact]
        rfl
      · cases hpick : line.pickModuleFile names with
        | some _ => rfl
        | none => exact absurd (Or.inr ⟨hmem, hmatches⟩) ((line.pickFrom_spec hexact).1 hpick name)
  matching := fun _ => line.pickModuleFile_matching names
  exact_first := fun h => line.pickFrom_exact h
  same_set := by
    intro names' hsame
    by_cases hexact : line.exactName ∈ names
    · rw [pickModuleFile, pickModuleFile, line.pickFrom_exact hexact, line.pickFrom_exact ((hsame _).mp hexact)]
    · have hexact' : line.exactName ∉ names' := fun h => hexact ((hsame _).mpr h)
      have hcandidate : ∀ name, line.Candidate none names name ↔ line.Candidate none names' name := by
        intro name
        unfold Candidate
        rw [hsame name]
      obtain ⟨hnone, hsome⟩ := @pickFrom_spec line names none hexact
      obtain ⟨hnone', hsome'⟩ := @pickFrom_spec line names' none hexact'
      show pickFrom line none names = pickFrom line none names'
      cases hpick : pickFrom line none names with
      | none =>
        cases hpick' : pickFrom line none names' with
        | none => rfl
        | some name => exact absurd ((hcandidate name).mpr (hsome' name hpick').1) (hnone hpick name)
      | some name =>
        obtain ⟨hname, hleast⟩ := hsome name hpick
        cases hpick' : pickFrom line none names' with
        | none => exact absurd ((hcandidate name).mp hname) (hnone' hpick' name)
        | some name' =>
          obtain ⟨hname', hleast'⟩ := hsome' name' hpick'
          exact congrArg some (le_antisymm (hleast name' ((hcandidate name').mpr hname'))
            (hleast' name ((hcandidate name).mp hname)))

end GkiLine

/-- **Matching and reading of a module's file name agree iff the numbers of the line stand in it as the line prints
them**; the choice among files keeps its promises for every directory. -/
theorem module_file_agrees_iff (line : GkiLine) (filename : List Char) :
    ((line.matchesModuleFile filename = true ↔ GkiLine.fromModuleFilename filename = some line) ∧
      ∀ names, line.PickOk names) ↔ PlainName line filename := by
  rw [matches_iff_reads_iff]
  exact ⟨fun h => h.1, fun h => ⟨h, line.pickOk⟩⟩

/-- A zero in front of the generation, and a third part of the series: both names are read as the line's, and neither
file is one of the line. -/
theorem module_file_disagrees :
    ¬ (GkiLine.matchesModuleFile ⟨13, 5, 15⟩ "fluxrs-android013-5.15.ko".toList = true ↔
      GkiLine.fromModuleFilename "fluxrs-android013-5.15.ko".toList = some ⟨13, 5, 15⟩) ∧
    ¬ (GkiLine.matchesModuleFile ⟨13, 5, 15⟩ "fluxrs-android13-5.15.1.ko".toList = true ↔
      GkiLine.fromModuleFilename "fluxrs-android13-5.15.1.ko".toList = some ⟨13, 5, 15⟩) := by
  decide +kernel

end FluxRs.Release
