import FluxRs.Apps.Selector
import FluxRs.Lib.Split
import FluxRs.Nodes.Sources

/-!
# FluxRs.Release.Status — the live status in the module's description

`description_base` and `module_prop_with_status` of `crates/flux-core/src/version.rs`.  The daemon rewrites the
description on every change of state; the status is what stands behind the first escaped line break.
-/

namespace FluxRs.Release

open FluxRs.Lib
open FluxRs.Apps (lines stripCr)
open FluxRs.Nodes (splitOnce trim isWhitespace)

/-- `MODULE_DESCRIPTION`. -/
def moduleDescription : List Char := "Seamlessly redirect your network Flux.".toList

/-- `DESCRIPTION_BREAK`: a backslash and an `n`. -/
def descriptionBreak : List Char := ['\\', 'n']

/-- `"description="`. -/
def descriptionKey : List Char := "description=".toList

/-- A description in front of its first escaped line break. -/
def descriptionCut (line : List Char) : List Char :=
  match splitOnce descriptionBreak line with
  | some (front, _) => front
  | none => line

def descriptionBase (prop : List Char) : Option (List Char) :=
  ((lines prop).findSome? (stripPrefix descriptionKey)).map fun line => trim (descriptionCut line)

/-- The base that a status is appended to. -/
def statusBase (prop : List Char) : List Char :=
  let base := (descriptionBase prop).getD moduleDescription
  if base = [] then moduleDescription else base

/-- The loop over the lines: the first description is replaced, and appended where there was none. -/
def writeLines (rendered : List Char) : Bool → List (List Char) → List Char
  | replaced, [] => if replaced then [] else rendered ++ ['\n']
  | replaced, line :: rest =>
    if descriptionKey.isPrefixOf line ∧ replaced = false then rendered ++ '\n' :: writeLines rendered true rest
    else line ++ '\n' :: writeLines rendered replaced rest

/-- `description={base}\n{status}`. -/
def renderedStatus (prop status : List Char) : List Char :=
  descriptionKey ++ statusBase prop ++ descriptionBreak ++ status

def modulePropWithStatus (prop status : List Char) : List Char :=
  writeLines (renderedStatus prop status) false (lines prop)

/-! ### Lines -/

/-- A line as `lines` gives it, if no carriage return is in the text. -/
def IsLine (line : List Char) : Prop := '\n' ∉ line ∧ '\r' ∉ line

def unlines (ls : List (List Char)) : List Char := ls.flatMap (· ++ ['\n'])

@[simp] theorem unlines_cons (line : List Char) (ls : List (List Char)) :
    unlines (line :: ls) = line ++ '\n' :: unlines ls := by
  rw [unlines, List.flatMap_cons, List.append_assoc]
  rfl

theorem unlines_eq (ls : List (List Char)) : unlines ls = ['\n'].intercalate (ls ++ [[]]) := by
  induction ls with
  | nil => rfl
  | cons line ls ih =>
    rw [unlines_cons, ih]
    cases ls with
    | nil => simp [List.intercalate]
    | cons next ls => simp [List.intercalate]

theorem stripCr_eq {line : List Char} (h : '\r' ∉ line) : stripCr line = line :=
  if_neg fun hlast => h (List.mem_of_getLast? hlast)

theorem lines_unlines {ls : List (List Char)} (h : ∀ line ∈ ls, IsLine line) : lines (unlines ls) = ls := by
  have hsplit : (unlines ls).splitOn '\n' = ls ++ [[]] := by
    rw [unlines_eq, List.splitOn_intercalate]
    · intro line hline
      obtain hmem | hmem := List.mem_append.mp hline
      · exact (h line hmem).1
      · rw [List.mem_singleton.mp hmem]
        exact List.not_mem_nil
    · simp
  unfold lines
  simp only [hsplit]
  rw [List.getLast?_append, List.getLast?_singleton, Option.some_or, List.dropLast_concat]
  have hmap : ls.map stripCr = ls :=
    (List.map_congr_left fun line hline => stripCr_eq (h line hline).2).trans (List.map_id' ls)
  rw [hmap]
  exact List.append_nil ls

theorem isLine_of_mem_lines {text line : List Char} (htext : '\r' ∉ text) (h : line ∈ lines text) : IsLine line := by
  unfold lines at h
  simp only at h
  have hpart : ∀ {part : List Char}, part ∈ text.splitOn '\n' → IsLine part := fun hmem => by
    obtain ⟨hbreak, hin⟩ := part_of_mem_splitOn hmem
    exact ⟨hbreak, fun hcr => htext (hin _ hcr)⟩
  obtain h | h := List.mem_append.mp h
  · obtain ⟨part, hmem, rfl⟩ := List.mem_map.mp h
    have hline := hpart (List.mem_of_mem_dropLast hmem)
    rw [stripCr_eq hline.2]
    exact hline
  · have hlast := Option.mem_toList.mp (List.mem_of_mem_filter h)
    exact hpart (List.mem_of_getLast? hlast)

/-! ### Bases -/

theorem splitOnce_eq_none_iff {pattern text : List Char} : splitOnce pattern text = none ↔ ¬ pattern <:+: text := by
  induction text with
  | nil =>
    rw [splitOnce, List.infix_nil]
    by_cases h : pattern = []
    · rw [if_pos h]
      simp [h]
    · rw [if_neg h]
      simp [h]
  | cons c text ih =>
    rw [splitOnce, List.infix_cons_iff]
    by_cases h : pattern.isPrefixOf (c :: text) = true
    · rw [if_pos h]
      simp [List.isPrefixOf_iff_prefix.mp h]
    · rw [if_neg h, Option.map_eq_none_iff, ih]
      have hfront : ¬ pattern <+: c :: text := fun hp => h (List.isPrefixOf_iff_prefix.mpr hp)
      simp [hfront]

/-- The pattern is not in front of its first place. -/
theorem not_infix_front {pattern text front back : List Char} (hne : pattern ≠ [])
    (h : splitOnce pattern text = some (front, back)) : ¬ pattern <:+: front := by
  induction text generalizing front with
  | nil =>
    rw [splitOnce, if_neg hne] at h
    cases h
  | cons c text ih =>
    rw [splitOnce] at h
    by_cases hfront : pattern.isPrefixOf (c :: text) = true
    · rw [if_pos hfront] at h
      obtain ⟨rfl, -⟩ := Prod.mk.inj (Option.some.inj h)
      exact fun hin => hne (List.infix_nil.mp hin)
    · rw [if_neg hfront] at h
      obtain ⟨⟨front', back'⟩, hsplit, heq⟩ := Option.map_eq_some_iff.mp h
      obtain ⟨rfl, rfl⟩ := Prod.mk.inj heq
      rw [List.infix_cons_iff, not_or]
      refine ⟨fun hp => hfront (List.isPrefixOf_iff_prefix.mpr (hp.trans ?_)), ih hsplit⟩
      rw [FluxRs.Nodes.splitOnce_sound hsplit, List.append_assoc, ← List.cons_append]
      exact List.prefix_append _ _

/-- A base ends where the break behind it starts, also behind a backslash of its own. -/
theorem descriptionCut_append {base : List Char} (h : ¬ descriptionBreak <:+: base) (status : List Char) :
    descriptionCut (base ++ descriptionBreak ++ status) = base := by
  have hsplit : splitOnce descriptionBreak (base ++ descriptionBreak ++ status) = some (base, status) := by
    induction base with
    | nil => rfl
    | cons c base ih =>
      rw [List.infix_cons_iff, not_or] at h
      have hfront : ¬ descriptionBreak.isPrefixOf (c :: (base ++ descriptionBreak ++ status)) = true := by
        intro hp
        obtain ⟨rfl, hnext⟩ := List.cons_prefix_cons.mp (List.isPrefixOf_iff_prefix.mp hp)
        cases base with
        | nil => exact absurd (List.cons_prefix_cons.mp hnext).1 (by decide)
        | cons d base =>
          obtain ⟨rfl, -⟩ := List.cons_prefix_cons.mp hnext
          exact h.1 ⟨base, rfl⟩
      rw [List.cons_append, List.cons_append, splitOnce, if_neg hfront, ih h.2]
      rfl
  rw [descriptionCut, hsplit]

theorem not_infix_descriptionCut (line : List Char) : ¬ descriptionBreak <:+: descriptionCut line := by
  unfold descriptionCut
  split
  · rename_i front back hsplit
    exact not_infix_front (by decide) hsplit
  · rename_i hsplit
    exact splitOnce_eq_none_iff.mp hsplit

theorem front_of_trim (text : List Char) : trim text <+: text.dropWhile isWhitespace := by
  have hsuffix := List.dropWhile_suffix (l := (text.dropWhile isWhitespace).reverse) isWhitespace
  have hreverse := List.reverse_prefix.mpr hsuffix
  rwa [List.reverse_reverse] at hreverse

theorem infix_of_trim (text : List Char) : trim text <:+: text :=
  (front_of_trim text).isInfix.trans (List.dropWhile_suffix isWhitespace).isInfix

theorem dropWhile_of_head {text : List Char} (h : ∀ c, text.head? = some c → isWhitespace c = false) :
    text.dropWhile isWhitespace = text := by
  cases text with
  | nil => rfl
  | cons c text => rw [List.dropWhile_cons, h c rfl, if_neg Bool.false_ne_true]

theorem head_dropWhile {text : List Char} {c : Char} (h : (text.dropWhile isWhitespace).head? = some c) :
    isWhitespace c = false := by
  have hnot := List.head?_dropWhile_not isWhitespace text
  rw [h] at hnot
  simpa using hnot

theorem trim_trim (text : List Char) : trim (trim text) = trim text := by
  have hfront : (trim text).dropWhile isWhitespace = trim text := by
    refine dropWhile_of_head fun c hc => ?_
    obtain ⟨more, hmore⟩ := front_of_trim text
    refine @head_dropWhile text c ?_
    rw [← hmore]
    obtain ⟨rest, hrest⟩ := List.head?_eq_some_iff.mp hc
    rw [hrest]
    rfl
  have hback : (trim text).reverse.dropWhile isWhitespace = (trim text).reverse := by
    refine dropWhile_of_head fun c hc => ?_
    rw [trim, List.reverse_reverse] at hc
    exact head_dropWhile hc
  rw [trim, hfront, hback, List.reverse_reverse]

/-- The first description that a text has, without its key. -/
theorem mem_lines_of_findSome {ls : List (List Char)} {rest : List Char}
    (h : ls.findSome? (stripPrefix descriptionKey) = some rest) : descriptionKey ++ rest ∈ ls := by
  obtain ⟨line, hline, hstrip⟩ := List.exists_of_findSome?_eq_some h
  rwa [← stripPrefix_eq_some_iff.mp hstrip]

/-- What a base is: a text of one line without an escaped break or blanks around it. -/
structure IsBase (base : List Char) : Prop where
  ne_nil : base ≠ []
  line : IsLine base
  noBreak : ¬ descriptionBreak <:+: base
  trimmed : trim base = base

theorem isBase_moduleDescription : IsBase moduleDescription where
  ne_nil := by decide
  line := ⟨by decide, by decide⟩
  noBreak := by
    rw [← splitOnce_eq_none_iff]
    decide
  trimmed := by decide

theorem isBase_of_descriptionBase {prop base : List Char} (hprop : '\r' ∉ prop)
    (h : descriptionBase prop = some base) (hne : base ≠ []) : IsBase base := by
  obtain ⟨rest, hfind, rfl⟩ := Option.map_eq_some_iff.mp h
  have hline := isLine_of_mem_lines hprop (mem_lines_of_findSome hfind)
  have hcut : descriptionCut rest <+: rest := by
    unfold descriptionCut
    split
    · rename_i front back hsplit
      rw [FluxRs.Nodes.splitOnce_sound hsplit, List.append_assoc]
      exact List.prefix_append _ _
    · exact List.prefix_rfl
  have hin : ∀ c ∈ trim (descriptionCut rest), c ∈ descriptionKey ++ rest := fun c hc =>
    List.mem_append_right _ (hcut.subset ((infix_of_trim _).subset hc))
  exact ⟨hne, ⟨fun hmem => hline.1 (hin _ hmem), fun hmem => hline.2 (hin _ hmem)⟩,
    fun hbreak => not_infix_descriptionCut rest (hbreak.trans (infix_of_trim _)), trim_trim _⟩

theorem isBase_statusBase {prop : List Char} (hprop : '\r' ∉ prop) : IsBase (statusBase prop) := by
  unfold statusBase
  simp only
  split
  · exact isBase_moduleDescription
  · rename_i hne
    cases hbase : descriptionBase prop with
    | none => exact isBase_moduleDescription
    | some base =>
      rw [hbase] at hne
      exact isBase_of_descriptionBase hprop hbase hne

/-! ### What an update does to the lines -/

/-- The first description replaced, or one more line. -/
def replaceDescription (rendered : List Char) : List (List Char) → List (List Char)
  | [] => [rendered]
  | line :: rest =>
    if descriptionKey.isPrefixOf line then rendered :: rest else line :: replaceDescription rendered rest

theorem writeLines_true (rendered : List Char) (ls : List (List Char)) : writeLines rendered true ls = unlines ls := by
  induction ls with
  | nil => rfl
  | cons line ls ih =>
    rw [writeLines, if_neg (fun h => Bool.noConfusion h.2), ih, unlines_cons]

theorem writeLines_false (rendered : List Char) (ls : List (List Char)) :
    writeLines rendered false ls = unlines (replaceDescription rendered ls) := by
  induction ls with
  | nil => exact (List.append_nil _).symm
  | cons line ls ih =>
    rw [writeLines, replaceDescription]
    by_cases h : descriptionKey.isPrefixOf line = true
    · rw [if_pos ⟨h, rfl⟩, if_pos h, writeLines_true, unlines_cons]
    · rw [if_neg fun hand => h hand.1, if_neg h, ih, unlines_cons]

section Replace

variable {rendered : List Char} {ls : List (List Char)}

theorem mem_replaceDescription {line : List Char} (h : line ∈ replaceDescription rendered ls) :
    line = rendered ∨ line ∈ ls := by
  induction ls with
  | nil => exact Or.inl (List.mem_singleton.mp h)
  | cons first rest ih =>
    rw [replaceDescription] at h
    split at h
    · obtain rfl | hmem := List.mem_cons.mp h
      · exact Or.inl rfl
      · exact Or.inr (List.mem_cons_of_mem first hmem)
    · obtain rfl | hmem := List.mem_cons.mp h
      · exact Or.inr List.mem_cons_self
      · obtain heq | hin := ih hmem
        · exact Or.inl heq
        · exact Or.inr (List.mem_cons_of_mem first hin)

/-- The description of an updated text is the one that was written. -/
theorem findSome_replaceDescription (text : List Char) (ls : List (List Char)) :
    (replaceDescription (descriptionKey ++ text) ls).findSome? (stripPrefix descriptionKey) = some text := by
  have hstrip : stripPrefix descriptionKey (descriptionKey ++ text) = some text := stripPrefix_eq_some_iff.mpr rfl
  induction ls with
  | nil => rw [replaceDescription, List.findSome?_cons, hstrip]
  | cons line ls ih =>
    rw [replaceDescription]
    by_cases h : descriptionKey.isPrefixOf line = true
    · rw [if_pos h, List.findSome?_cons, hstrip]
    · rw [if_neg h, List.findSome?_cons, stripPrefix, if_neg h]
      exact ih

theorem replaceDescription_twice (h : descriptionKey.isPrefixOf rendered = true) (again : List Char)
    (ls : List (List Char)) :
    replaceDescription again (replaceDescription rendered ls) = replaceDescription again ls := by
  induction ls with
  | nil =>
    show replaceDescription again [rendered] = [again]
    rw [replaceDescription, if_pos h]
  | cons line ls ih =>
    rw [replaceDescription]
    by_cases hline : descriptionKey.isPrefixOf line = true
    · rw [if_pos hline, replaceDescription, if_pos h, replaceDescription, if_pos hline]
    · rw [if_neg hline, replaceDescription, if_neg hline, ih, replaceDescription, if_neg hline]

theorem replaceDescription_first {before after : List (List Char)} {line : List Char}
    (hbefore : ∀ line ∈ before, ¬ descriptionKey <+: line) (hline : descriptionKey <+: line) :
    replaceDescription rendered (before ++ line :: after) = before ++ rendered :: after := by
  induction before with
  | nil => rw [List.nil_append, replaceDescription, if_pos (List.isPrefixOf_iff_prefix.mpr hline), List.nil_append]
  | cons first before ih =>
    have hfirst := hbefore first List.mem_cons_self
    rw [List.cons_append, replaceDescription, if_neg fun h => hfirst (List.isPrefixOf_iff_prefix.mp h),
      ih fun l hl => hbefore l (List.mem_cons_of_mem first hl), List.cons_append]

theorem replaceDescription_absent (h : ∀ line ∈ ls, ¬ descriptionKey <+: line) :
    replaceDescription rendered ls = ls ++ [rendered] := by
  induction ls with
  | nil => rfl
  | cons first ls ih =>
    have hfirst := h first List.mem_cons_self
    rw [replaceDescription, if_neg fun hp => hfirst (List.isPrefixOf_iff_prefix.mp hp),
      ih fun l hl => h l (List.mem_cons_of_mem first hl), List.cons_append]

end Replace

section Update

variable {prop status : List Char} (hprop : '\r' ∉ prop) (hstatus : IsLine status)

include hprop hstatus

theorem isLine_renderedStatus : IsLine (renderedStatus prop status) := by
  have hbase := (isBase_statusBase hprop).line
  have hkey : IsLine descriptionKey := ⟨by decide, by decide⟩
  have hbreak : IsLine descriptionBreak := ⟨by decide, by decide⟩
  unfold renderedStatus
  constructor
  · simp only [List.mem_append, not_or]
    exact ⟨⟨⟨hkey.1, hbase.1⟩, hbreak.1⟩, hstatus.1⟩
  · simp only [List.mem_append, not_or]
    exact ⟨⟨⟨hkey.2, hbase.2⟩, hbreak.2⟩, hstatus.2⟩

theorem isLine_updated :
    ∀ line ∈ replaceDescription (renderedStatus prop status) (lines prop), IsLine line := by
  intro line hline
  obtain rfl | hmem := mem_replaceDescription hline
  · exact isLine_renderedStatus hprop hstatus
  · exact isLine_of_mem_lines hprop hmem

/-- **The lines of an updated text.** -/
theorem lines_update :
    lines (modulePropWithStatus prop status) = replaceDescription (renderedStatus prop status) (lines prop) := by
  rw [modulePropWithStatus, writeLines_false, lines_unlines (isLine_updated hprop hstatus)]

theorem cr_not_mem_update : '\r' ∉ modulePropWithStatus prop status := by
  rw [modulePropWithStatus, writeLines_false, unlines]
  intro hmem
  obtain ⟨line, hline, hin⟩ := List.mem_flatMap.mp hmem
  obtain hin | hin := List.mem_append.mp hin
  · exact (isLine_updated hprop hstatus line hline).2 hin
  · exact absurd hin (by decide)

theorem descriptionBase_update : descriptionBase (modulePropWithStatus prop status) = some (statusBase prop) := by
  have hbase := isBase_statusBase hprop
  have hrendered : renderedStatus prop status =
      descriptionKey ++ (statusBase prop ++ descriptionBreak ++ status) := by
    rw [renderedStatus, List.append_assoc, List.append_assoc, List.append_assoc]
  rw [descriptionBase, lines_update hprop hstatus, hrendered, findSome_replaceDescription, Option.map_some,
    descriptionCut_append hbase.noBreak, hbase.trimmed]

/-- **An update after an update is the second one alone.** -/
theorem update_update (again : List Char) :
    modulePropWithStatus (modulePropWithStatus prop status) again = modulePropWithStatus prop again := by
  have hbase : statusBase (modulePropWithStatus prop status) = statusBase prop := by
    conv => lhs; unfold statusBase
    simp only [descriptionBase_update hprop hstatus, Option.getD_some]
    rw [if_neg (isBase_statusBase hprop).ne_nil]
  have hkey : descriptionKey.isPrefixOf (renderedStatus prop status) = true := by
    rw [renderedStatus, List.append_assoc, List.append_assoc]
    exact List.isPrefixOf_iff_prefix.mpr (List.prefix_append _ _)
  have hrendered : renderedStatus (modulePropWithStatus prop status) again = renderedStatus prop again := by
    rw [renderedStatus, hbase, renderedStatus]
  rw [modulePropWithStatus, hrendered, lines_update hprop hstatus, writeLines_false, replaceDescription_twice hkey,
    ← writeLines_false]
  rfl

end Update

/-- **Statuses never pile up**: the last one is what the file shows, behind the description it had, and no other line
changes. -/
theorem module_prop_status {prop : List Char} (hprop : '\r' ∉ prop) :
    (∀ status again, IsLine status → IsLine again →
      modulePropWithStatus (modulePropWithStatus prop status) again = modulePropWithStatus prop again) ∧
    (∀ status, IsLine status →
      (∀ before line after, lines prop = before ++ line :: after → (∀ line ∈ before, ¬ descriptionKey <+: line) →
        descriptionKey <+: line →
        lines (modulePropWithStatus prop status) = before ++ renderedStatus prop status :: after) ∧
      ((∀ line ∈ lines prop, ¬ descriptionKey <+: line) →
        lines (modulePropWithStatus prop status) = lines prop ++ [renderedStatus prop status])) ∧
    (∀ status, IsLine status →
      (∀ base, descriptionBase prop = some base → base ≠ [] →
        descriptionBase (modulePropWithStatus prop status) = some base) ∧
      (descriptionBase prop = none ∨ descriptionBase prop = some [] →
        descriptionBase (modulePropWithStatus prop status) = some moduleDescription)) ∧
    ∀ (statuses : List (List Char)) (status : List Char), (∀ earlier ∈ statuses, IsLine earlier) → IsLine status →
      modulePropWithStatus (statuses.foldl modulePropWithStatus prop) status = modulePropWithStatus prop status := by
  refine ⟨fun status again hstatus _ => update_update hprop hstatus again, ?_, ?_, ?_⟩
  · intro status hstatus
    rw [lines_update hprop hstatus]
    refine ⟨?_, replaceDescription_absent⟩
    intro before line after hlines hbefore hline
    rw [hlines, replaceDescription_first hbefore hline]
  · intro status hstatus
    rw [descriptionBase_update hprop hstatus]
    refine ⟨?_, ?_⟩
    · intro base hbase hne
      rw [statusBase, hbase]
      exact congrArg some (if_neg hne)
    · intro hbase
      rw [statusBase]
      obtain hbase | hbase := hbase
      · rw [hbase]
        exact congrArg some (if_neg isBase_moduleDescription.ne_nil)
      · rw [hbase]
        exact congrArg some (if_pos rfl)
  · -- one update after the other, from the first on
    intro statuses
    induction statuses generalizing prop with
    | nil => exact fun status _ _ => rfl
    | cons first statuses ih =>
      intro status hstatuses hstatus
      have hfirst := hstatuses first List.mem_cons_self
      rw [List.foldl_cons, ih (cr_not_mem_update hprop hfirst) status
        (fun earlier h => hstatuses earlier (List.mem_cons_of_mem first h)) hstatus]
      exact update_update hprop hfirst status

theorem module_prop_status_example :
    modulePropWithStatus (modulePropWithStatus "id=Flux-rs\ndescription=a\\nup\n".toList "down".toList) "up".toList =
      modulePropWithStatus "id=Flux-rs\ndescription=a\\nup\n".toList "up".toList :=
  (module_prop_status (by decide)).1 _ _ ⟨by decide, by decide⟩ ⟨by decide, by decide⟩

end FluxRs.Release
