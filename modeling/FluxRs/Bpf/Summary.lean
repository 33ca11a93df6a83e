import FluxRs.Apps.Selector
import FluxRs.Lib.Boundary

/-!
# FluxRs.Bpf.Summary — the summary of a verifier log

`verifier_summary` of `crates/fluxd/src/bpf/mod.rs`: a few lines of a log, cut at a number of bytes.  A slice that ends
inside a character panics.
-/

namespace FluxRs.Bpf

open FluxRs.Lib
open FluxRs.Apps (lines newline_not_mem_lines)

/-- `VERIFIER_SUMMARY_LINES` and `VERIFIER_SUMMARY_BYTES`. -/
def verifierSummaryLines : ℕ := 24

def verifierSummaryBytes : ℕ := 8 * 1024

/-- `str::len`. -/
def byteLen (text : List Char) : ℕ := (utf8 text).length

/-- `&text[..n]`; none where the slice panics. -/
def sliceTo : ℕ → List Char → Option (List Char)
  | 0, _ => some []
  | _ + 1, [] => none
  | n + 1, c :: text =>
    if (utf8Char c).length ≤ n + 1 then (sliceTo (n + 1 - (utf8Char c).length) text).map (c :: ·) else none

/-- The loop over the lines, with `out` so far. -/
def summaryLoop (out : List Char) : List (List Char) → Option (List Char)
  | [] => some out
  | line :: rest =>
    let out := if out = [] then out else out ++ ['\n']
    let remaining := verifierSummaryBytes - byteLen out
    if remaining = 0 then some out
    else
      let take := min (byteLen line) remaining
      match sliceTo take line with
      | none => none
      | some part => if take < byteLen line then some (out ++ part) else summaryLoop (out ++ part) rest

def verifierSummary (log : List Char) : Option (List Char) :=
  summaryLoop [] ((lines log).take verifierSummaryLines)

/-! ### Slices -/

section Slice

variable {text more base : List Char} {n : ℕ}

@[simp] theorem byteLen_nil : byteLen [] = 0 := rfl

@[simp] theorem byteLen_append (text more : List Char) : byteLen (text ++ more) = byteLen text + byteLen more := by
  rw [byteLen, utf8_append, List.length_append]
  rfl

theorem byteLen_cons (c : Char) (text : List Char) : byteLen (c :: text) = (utf8Char c).length + byteLen text := by
  rw [byteLen, utf8_cons, List.length_append]
  rfl

@[simp] theorem byteLen_newline (text : List Char) : byteLen ('\n' :: text) = 1 + byteLen text := byteLen_cons _ _

theorem length_le_byteLen (text : List Char) : text.length ≤ byteLen text := length_le_length_utf8 text

theorem eq_nil_of_byteLen (h : byteLen text = 0) : text = [] := by
  have hlen := length_le_byteLen text
  exact List.length_eq_zero_iff.mp (by omega)

theorem sliceTo_zero (text : List Char) : sliceTo 0 text = some [] := by rw [sliceTo]

theorem sliceTo_cons {c : Char} (h : (utf8Char c).length ≤ n) :
    sliceTo n (c :: text) = (sliceTo (n - (utf8Char c).length) text).map (c :: ·) := by
  have hpos := length_utf8Char_pos c
  cases n with
  | zero => omega
  | succ n => rw [sliceTo, if_pos h]

theorem sliceTo_inside {c : Char} (h : n < (utf8Char c).length) (hn : n ≠ 0) : sliceTo n (c :: text) = none := by
  cases n with
  | zero => exact absurd rfl hn
  | succ n => rw [sliceTo, if_neg (by omega)]

/-- A slice that does not panic is a front of the text of that many bytes. -/
theorem sliceTo_eq_some_iff {front : List Char} :
    sliceTo n text = some front ↔ ∃ back, text = front ++ back ∧ byteLen front = n := by
  induction text generalizing n front with
  | nil =>
    cases n with
    | zero =>
      rw [sliceTo_zero]
      constructor
      · intro h
        exact ⟨[], by rw [← Option.some.inj h]; rfl, by rw [← Option.some.inj h]; rfl⟩
      · rintro ⟨back, -, hlen⟩
        rw [eq_nil_of_byteLen hlen]
    | succ n =>
      rw [sliceTo]
      constructor
      · intro h
        cases h
      · rintro ⟨back, htext, hlen⟩
        rw [(List.append_eq_nil_iff.mp htext.symm).1] at hlen
        cases hlen
  | cons c text ih =>
    have hpos := length_utf8Char_pos c
    by_cases hn : n = 0
    · subst hn
      rw [sliceTo_zero]
      constructor
      · intro h
        exact ⟨c :: text, by rw [← Option.some.inj h]; rfl, by rw [← Option.some.inj h]; rfl⟩
      · rintro ⟨back, -, hlen⟩
        rw [eq_nil_of_byteLen hlen]
    by_cases hc : (utf8Char c).length ≤ n
    · rw [sliceTo_cons hc, Option.map_eq_some_iff]
      constructor
      · rintro ⟨rest, hrest, rfl⟩
        obtain ⟨back, rfl, hlen⟩ := ih.mp hrest
        refine ⟨back, rfl, ?_⟩
        rw [byteLen_cons]
        omega
      · rintro ⟨back, htext, hlen⟩
        cases front with
        | nil => exact absurd hlen.symm hn
        | cons d rest =>
          obtain ⟨rfl, rfl⟩ := List.cons.inj htext
          rw [byteLen_cons] at hlen
          exact ⟨rest, ih.mpr ⟨back, rfl, by omega⟩, rfl⟩
    · rw [sliceTo_inside (Nat.not_le.mp hc) hn]
      constructor
      · intro h
        cases h
      · rintro ⟨back, htext, hlen⟩
        cases front with
        | nil => exact absurd hlen.symm hn
        | cons d rest =>
          obtain ⟨rfl, -⟩ := List.cons.inj htext
          rw [byteLen_cons] at hlen
          omega

theorem sliceTo_whole (text : List Char) : sliceTo (byteLen text) text = some text :=
  sliceTo_eq_some_iff.mpr ⟨[], (List.append_nil text).symm, rfl⟩

theorem sliceTo_append (h : byteLen base ≤ n) :
    sliceTo n (base ++ text) = (sliceTo (n - byteLen base) text).map (base ++ ·) := by
  induction base generalizing n with
  | nil =>
    rw [byteLen_nil, Nat.sub_zero, List.nil_append]
    exact Option.map_id'.symm
  | cons c base ih =>
    rw [byteLen_cons] at h
    rw [List.cons_append, sliceTo_cons (by omega), ih (by omega), byteLen_cons, Nat.sub_sub, Option.map_map]
    rfl

/-- What stands behind the cut does not matter. -/
theorem sliceTo_left (h : n ≤ byteLen text) (more : List Char) : sliceTo n (text ++ more) = sliceTo n text := by
  induction text generalizing n with
  | nil =>
    obtain rfl : n = 0 := Nat.le_zero.mp h
    rw [sliceTo_zero, sliceTo_zero]
  | cons c text ih =>
    by_cases hn : n = 0
    · rw [hn, sliceTo_zero, sliceTo_zero]
    rw [byteLen_cons] at h
    rw [List.cons_append]
    by_cases hc : (utf8Char c).length ≤ n
    · rw [sliceTo_cons hc, sliceTo_cons hc, ih (by omega)]
    · rw [sliceTo_inside (Nat.not_le.mp hc) hn, sliceTo_inside (Nat.not_le.mp hc) hn]

end Slice

/-! ### The summary of the joined lines -/

/-- Lines behind a first one. -/
def tailLines (rest : List (List Char)) : List Char := rest.flatMap ('\n' :: ·)

@[simp] theorem tailLines_cons (line : List Char) (rest : List (List Char)) :
    tailLines (line :: rest) = '\n' :: (line ++ tailLines rest) := List.flatMap_cons

theorem intercalate_cons (line : List Char) (rest : List (List Char)) :
    ['\n'].intercalate (line :: rest) = line ++ tailLines rest := by
  induction rest generalizing line with
  | nil => simp [List.intercalate, tailLines]
  | cons next rest ih =>
    rw [tailLines_cons, ← ih next]
    simp [List.intercalate]

/-- What the loop makes of joined lines: the text if it is short enough, else its first bytes; a line that ends where
the bytes do gets its line break all the same. -/
def summaryOf (joined : List Char) : Option (List Char) :=
  if byteLen joined ≤ verifierSummaryBytes then some joined
  else
    (sliceTo verifierSummaryBytes joined).map fun front =>
      if (joined.drop front.length).head? = some '\n' ∧ front.getLast? ≠ some '\n' then front ++ ['\n'] else front

section Loop

variable {out line : List Char} {rest : List (List Char)}

theorem summaryOf_short (h : byteLen out ≤ verifierSummaryBytes) : summaryOf out = some out := if_pos h

/-- A line that does not fit is cut, or the slice panics. -/
theorem summaryOf_cut {base : List Char} (hline : '\n' ∉ line) (hbase : byteLen base < verifierSummaryBytes)
    (hlong : verifierSummaryBytes < byteLen base + byteLen line) (behind : List Char) :
    summaryOf (base ++ (line ++ behind)) = (sliceTo (verifierSummaryBytes - byteLen base) line).map (base ++ ·) := by
  rw [summaryOf, if_neg (by rw [byteLen_append, byteLen_append]; omega), sliceTo_append hbase.le,
    sliceTo_left (by omega)]
  cases hslice : sliceTo (verifierSummaryBytes - byteLen base) line with
  | none => rfl
  | some part =>
    obtain ⟨back, rfl, hlen⟩ := sliceTo_eq_some_iff.mp hslice
    rw [byteLen_append] at hlong
    cases back with
    | nil =>
      rw [byteLen_nil] at hlong
      omega
    | cons c back =>
      have hdrop : ((base ++ (part ++ c :: back ++ behind)).drop (base ++ part).length).head? = some c := by
        rw [List.append_assoc, ← List.append_assoc base, List.drop_left]
        rfl
      rw [Option.map_some, Option.map_some, hdrop]
      refine congrArg some (if_neg ?_)
      rintro ⟨hbreak, -⟩
      exact hline (by rw [Option.some.inj hbreak]; simp)

/-- One line behind a text that still has room. -/
theorem summaryLoop_room {base : List Char} (hline : '\n' ∉ line) (hbase : byteLen base < verifierSummaryBytes)
    (ih : byteLen (base ++ line) ≤ verifierSummaryBytes →
      summaryLoop (base ++ line) rest = summaryOf (base ++ line ++ tailLines rest)) :
    (match sliceTo (min (byteLen line) (verifierSummaryBytes - byteLen base)) line with
      | none => none
      | some part =>
        if min (byteLen line) (verifierSummaryBytes - byteLen base) < byteLen line then some (base ++ part)
        else summaryLoop (base ++ part) rest) =
      summaryOf (base ++ (line ++ tailLines rest)) := by
  by_cases hfits : byteLen line ≤ verifierSummaryBytes - byteLen base
  · rw [Nat.min_eq_left hfits, sliceTo_whole]
    simp only
    rw [if_neg (Nat.lt_irrefl _), ih (by rw [byteLen_append]; omega), List.append_assoc]
  · rw [Nat.min_eq_right (by omega), summaryOf_cut hline hbase (by omega)]
    cases sliceTo (verifierSummaryBytes - byteLen base) line with
    | none => rfl
    | some part => exact if_pos (by omega)

/-- A text that the loop has between two lines; one of full length does not end in a line break. -/
structure Between (out : List Char) : Prop where
  ne_nil : out ≠ []
  fits : byteLen out ≤ verifierSummaryBytes
  full : byteLen out = verifierSummaryBytes → out.getLast? ≠ some '\n'

theorem Between.append_line {base : List Char} (hne : base ++ line ≠ []) (hline : '\n' ∉ line)
    (hbase : byteLen base < verifierSummaryBytes) (hfits : byteLen (base ++ line) ≤ verifierSummaryBytes) :
    Between (base ++ line) where
  ne_nil := hne
  fits := hfits
  full := by
    intro hfull hlast
    cases hback : line.getLast? with
    | none =>
      rw [List.getLast?_eq_none_iff.mp hback, List.append_nil] at hfull
      omega
    | some c =>
      rw [List.getLast?_append, hback, Option.some_or] at hlast
      exact hline (Option.some.inj hlast ▸ List.mem_of_getLast? hback)

/-- **The loop between two lines.** -/
theorem summaryLoop_eq (hrest : ∀ line ∈ rest, '\n' ∉ line) (hout : Between out) :
    summaryLoop out rest = summaryOf (out ++ tailLines rest) := by
  induction rest generalizing out with
  | nil =>
    rw [summaryLoop, tailLines, List.flatMap_nil, List.append_nil, summaryOf_short hout.fits]
  | cons line rest ih =>
    have hfits := hout.fits
    have hlen : byteLen (out ++ ['\n']) = byteLen out + 1 := by simp
    have hline := hrest line List.mem_cons_self
    have hjoined : out ++ tailLines (line :: rest) = out ++ ['\n'] ++ (line ++ tailLines rest) := by
      rw [tailLines_cons, List.append_assoc]
      rfl
    rw [summaryLoop]
    simp only
    rw [if_neg hout.ne_nil, hjoined]
    by_cases hroom : verifierSummaryBytes - byteLen (out ++ ['\n']) = 0
    · rw [if_pos hroom]
      by_cases hfull : byteLen out = verifierSummaryBytes
      · -- the line break is one byte too many
        have hslice : sliceTo verifierSummaryBytes (out ++ ['\n'] ++ (line ++ tailLines rest)) = some out :=
          sliceTo_eq_some_iff.mpr ⟨_, List.append_assoc _ _ _, hfull⟩
        rw [summaryOf, if_neg (by rw [byteLen_append]; omega), hslice, Option.map_some, List.append_assoc,
          List.drop_left, if_pos ⟨rfl, hout.full hfull⟩]
      · have hbase : byteLen (out ++ ['\n']) = verifierSummaryBytes := by omega
        by_cases hshort : byteLen (line ++ tailLines rest) = 0
        · rw [eq_nil_of_byteLen hshort, List.append_nil, summaryOf_short hbase.le]
        · have hslice : sliceTo verifierSummaryBytes (out ++ ['\n'] ++ (line ++ tailLines rest)) =
              some (out ++ ['\n']) := sliceTo_eq_some_iff.mpr ⟨_, rfl, hbase⟩
          rw [summaryOf, if_neg (by rw [byteLen_append]; omega), hslice, Option.map_some, if_neg]
          rintro ⟨-, hlast⟩
          exact hlast (by simp)
    · rw [if_neg hroom]
      refine summaryLoop_room hline (by omega) fun hlong => ?_
      exact ih (fun l hl => hrest l (List.mem_cons_of_mem line hl))
        (Between.append_line (by simp) hline (by omega) hlong)

/-- The first line that is not empty starts the summary. -/
theorem summaryLoop_first (hrest : ∀ l ∈ line :: rest, '\n' ∉ l) (hne : line ≠ []) :
    summaryLoop [] (line :: rest) = summaryOf (line ++ tailLines rest) := by
  have hline := hrest line List.mem_cons_self
  have hroom : ¬ verifierSummaryBytes - byteLen [] = 0 := by decide
  rw [summaryLoop]
  simp only
  rw [if_pos trivial, if_neg hroom]
  refine @summaryLoop_room line rest [] hline (by decide) fun hfits => ?_
  exact summaryLoop_eq (fun l hl => hrest l (List.mem_cons_of_mem line hl))
    (@Between.append_line line [] hne hline (by decide) hfits)

theorem summaryLoop_empty (rest : List (List Char)) : summaryLoop [] ([] :: rest) = summaryLoop [] rest := by
  have hroom : ¬ verifierSummaryBytes - byteLen [] = 0 := by decide
  rw [summaryLoop]
  simp only
  rw [if_pos trivial, if_neg hroom, byteLen_nil, Nat.zero_min, sliceTo_zero]
  rfl

end Loop

/-! ### What is promised -/

/-- The first lines of a log, and these lines joined. -/
def firstLines (log : List Char) : List (List Char) := (lines log).take verifierSummaryLines

def firstJoined (log : List Char) : List Char := ['\n'].intercalate (firstLines log)

/-- A summary as its test and its limits have it: no panic, few bytes, few lines, and a front of the log's lines. -/
structure SummaryOk (log out : List Char) : Prop where
  bytes : byteLen out ≤ verifierSummaryBytes
  lineCount : (lines out).length ≤ verifierSummaryLines
  front : out <+: ['\n'].intercalate (lines log)

/-- Between the last byte that fits and the next one a character ends, and no line does unless it is empty. -/
def CutsWell (joined : List Char) : Prop :=
  byteLen joined ≤ verifierSummaryBytes ∨ ∃ front back, joined = front ++ back ∧ byteLen front = verifierSummaryBytes ∧
    (back.head? ≠ some '\n' ∨ front.getLast? = some '\n')

def SummaryFits (log : List Char) : Prop :=
  (∀ line ∈ firstLines log, line = []) ∨ (firstLines log).head? ≠ some [] ∧ CutsWell (firstJoined log)

theorem newline_not_mem_firstLines {log line : List Char} (h : line ∈ firstLines log) : '\n' ∉ line :=
  newline_not_mem_lines (List.mem_of_mem_take h)

theorem firstJoined_prefix (log : List Char) : firstJoined log <+: ['\n'].intercalate (lines log) := by
  unfold firstJoined firstLines
  generalize lines log = parts
  generalize verifierSummaryLines = n
  cases parts with
  | nil => simp
  | cons line rest =>
    cases n with
    | zero => simp [List.intercalate]
    | succ n =>
      rw [List.take_succ_cons, intercalate_cons, intercalate_cons]
      refine (List.prefix_append_right_inj line).mpr ?_
      exact (List.take_prefix n rest).flatMap _

theorem cutsWell_of_summaryOf {joined out : List Char} (h : summaryOf joined = some out)
    (hbytes : byteLen out ≤ verifierSummaryBytes) : CutsWell joined := by
  by_cases hshort : byteLen joined ≤ verifierSummaryBytes
  · exact Or.inl hshort
  · rw [summaryOf, if_neg hshort] at h
    obtain ⟨front, hslice, rfl⟩ := Option.map_eq_some_iff.mp h
    obtain ⟨back, rfl, hlen⟩ := sliceTo_eq_some_iff.mp hslice
    refine Or.inr ⟨front, back, rfl, hlen, ?_⟩
    rw [List.drop_left] at hbytes
    by_contra hnot
    rw [not_or, not_not] at hnot
    rw [if_pos hnot, byteLen_append, byteLen_newline, byteLen_nil] at hbytes
    omega

theorem summaryOf_of_cutsWell {joined : List Char} (h : CutsWell joined) :
    ∃ out, summaryOf joined = some out ∧ byteLen out ≤ verifierSummaryBytes ∧ out <+: joined := by
  by_cases hshort : byteLen joined ≤ verifierSummaryBytes
  · exact ⟨joined, summaryOf_short hshort, hshort, List.prefix_rfl⟩
  · obtain ⟨front, back, rfl, hlen, hcut⟩ := h.resolve_left hshort
    refine ⟨front, ?_, hlen.le, List.prefix_append _ _⟩
    rw [summaryOf, if_neg hshort, sliceTo_eq_some_iff.mpr ⟨back, rfl, hlen⟩, Option.map_some, List.drop_left, if_neg]
    rintro ⟨hhead, hlast⟩
    exact hcut.elim (fun h => h hhead) hlast

theorem length_splitOn (text : List Char) : (text.splitOn '\n').length = text.count '\n' + 1 := by
  induction text with
  | nil => rfl
  | cons c text ih =>
    rw [List.splitOn_cons_eq_if_modifyHead, List.count_cons]
    by_cases hc : (c == '\n') = true
    · rw [if_pos hc, if_pos hc, List.length_cons, ih]
    · rw [if_neg hc, if_neg hc, List.length_modifyHead, ih]

theorem length_lines_le (text : List Char) : (lines text).length ≤ text.count '\n' + 1 := by
  have hsplit := length_splitOn text
  have hlast : (((text.splitOn '\n').getLast?.toList).filter (· ≠ [])).length ≤ 1 := by
    refine (List.length_filter_le _ _).trans ?_
    cases (text.splitOn '\n').getLast? with
    | none => exact Nat.zero_le 1
    | some _ => exact le_rfl
  unfold lines
  simp only
  rw [List.length_append, List.length_map, List.length_dropLast, hsplit]
  omega

theorem count_tailLines {rest : List (List Char)} (h : ∀ line ∈ rest, '\n' ∉ line) :
    (tailLines rest).count '\n' = rest.length := by
  induction rest with
  | nil => rfl
  | cons line rest ih =>
    rw [tailLines_cons, List.count_cons_self, List.count_append,
      List.count_eq_zero_of_not_mem (h line List.mem_cons_self), ih fun l hl => h l (List.mem_cons_of_mem line hl),
      List.length_cons]
    omega

theorem length_firstLines_le (log : List Char) : (firstLines log).length ≤ verifierSummaryLines := by
  rw [firstLines, List.length_take]
  omega

theorem lineCount_of_prefix {log out : List Char} (h : out <+: firstJoined log) :
    (lines out).length ≤ verifierSummaryLines := by
  have hcount := List.Sublist.count_le '\n' h.sublist
  have hlines := length_lines_le out
  have hfirst := length_firstLines_le log
  unfold firstJoined at hcount
  cases hparts : firstLines log with
  | nil =>
    rw [hparts, List.intercalate_nil] at hcount
    have hnone : ([] : List Char).count '\n' = 0 := rfl
    have htwo : 1 ≤ verifierSummaryLines := by decide
    omega
  | cons line rest =>
    have hnot : ∀ l ∈ line :: rest, '\n' ∉ l := fun l hl => newline_not_mem_firstLines (hparts ▸ hl)
    rw [hparts, intercalate_cons, List.count_append, List.count_eq_zero_of_not_mem (hnot line List.mem_cons_self),
      count_tailLines fun l hl => hnot l (List.mem_cons_of_mem line hl)] at hcount
    rw [hparts, List.length_cons] at hfirst
    omega

theorem summaryLoop_all_empty {ls : List (List Char)} (h : ∀ line ∈ ls, line = []) : summaryLoop [] ls = some [] := by
  induction ls with
  | nil => rw [summaryLoop]
  | cons line ls ih =>
    rw [h line List.mem_cons_self, summaryLoop_empty]
    exact ih fun l hl => h l (List.mem_cons_of_mem line hl)

theorem summaryOf_head {joined out : List Char} {c : Char} (h : summaryOf (c :: joined) = some out) :
    out.head? = some c := by
  unfold summaryOf at h
  split at h
  · rw [← Option.some.inj h]
    rfl
  · obtain ⟨front, hslice, rfl⟩ := Option.map_eq_some_iff.mp h
    obtain ⟨back, hjoined, hlen⟩ := sliceTo_eq_some_iff.mp hslice
    cases front with
    | nil => exact absurd hlen.symm (by decide)
    | cons d front =>
      obtain ⟨rfl, -⟩ := List.cons.inj hjoined
      split <;> rfl

/-- Behind empty lines the summary starts with the first character of the first line that has one. -/
theorem summaryLoop_head {ls : List (List Char)} {out : List Char} (hls : ∀ line ∈ ls, '\n' ∉ line)
    (hsome : ∃ line ∈ ls, line ≠ []) (h : summaryLoop [] ls = some out) : ∃ c, out.head? = some c ∧ c ≠ '\n' := by
  induction ls with
  | nil =>
    obtain ⟨line, hmem, -⟩ := hsome
    exact absurd hmem List.not_mem_nil
  | cons line ls ih =>
    cases line with
    | nil =>
      rw [summaryLoop_empty] at h
      refine ih (fun l hl => hls l (List.mem_cons_of_mem [] hl)) ?_ h
      obtain ⟨other, hmem, hne⟩ := hsome
      exact ⟨other, (List.mem_cons.mp hmem).resolve_left hne, hne⟩
    | cons c line =>
      rw [summaryLoop_first hls (List.cons_ne_nil c line), List.cons_append] at h
      refine ⟨c, summaryOf_head h, ?_⟩
      rintro rfl
      exact hls _ List.mem_cons_self List.mem_cons_self

/-- **A verifier log has a good summary iff its first lines do not start with an empty one before others, and are
short enough or cut where a character ends and no line does.** -/
theorem verifier_summary_ok_iff (log : List Char) :
    (∃ out, verifierSummary log = some out ∧ SummaryOk log out) ↔ SummaryFits log := by
  have hnewline : ∀ line ∈ firstLines log, '\n' ∉ line := fun line => newline_not_mem_firstLines
  have hjoined := firstJoined_prefix log
  have hlines : ∀ {out : List Char}, out <+: firstJoined log → byteLen out ≤ verifierSummaryBytes → SummaryOk log out :=
    fun hout hbytes => ⟨hbytes, lineCount_of_prefix hout, hout.trans hjoined⟩
  unfold SummaryFits
  by_cases hempty : ∀ line ∈ firstLines log, line = []
  · refine ⟨fun _ => Or.inl hempty, fun _ => ⟨[], summaryLoop_all_empty hempty, ?_⟩⟩
    exact hlines List.nil_prefix (Nat.zero_le _)
  · have hsome : ∃ line ∈ firstLines log, line ≠ [] := by
      by_contra hnot
      exact hempty fun line hline => by_contra fun hne => hnot ⟨line, hline, hne⟩
    have hsummary : verifierSummary log = summaryLoop [] (firstLines log) := rfl
    rw [hsummary]
    cases hparts : firstLines log with
    | nil =>
      obtain ⟨line, hline, -⟩ := hsome
      rw [hparts] at hline
      exact absurd hline List.not_mem_nil
    | cons line rest =>
      rw [hparts] at hnewline hsome hempty
      cases line with
      | nil =>
        refine ⟨?_, fun h => h.elim (fun hall => absurd hall hempty) fun h => absurd rfl h.1⟩
        rintro ⟨out, hout, hok⟩
        obtain ⟨c, hhead, hc⟩ := summaryLoop_head hnewline hsome hout
        -- the log starts with a line break, the summary does not
        obtain ⟨more, hmore⟩ := hok.front
        have hrest : rest ≠ [] := by
          rintro rfl
          exact hempty fun l hl => List.mem_singleton.mp hl
        obtain ⟨next, others, rfl⟩ := List.exists_cons_of_ne_nil hrest
        obtain ⟨behind, hbehind⟩ := hjoined
        rw [firstJoined, hparts, intercalate_cons, tailLines_cons] at hbehind
        rw [← hbehind] at hmore
        obtain ⟨tail, rfl⟩ := List.head?_eq_some_iff.mp hhead
        exact absurd (List.cons.inj hmore).1 hc
      | cons c line =>
        have hfirst : firstJoined log = (c :: line) ++ tailLines rest := by
          rw [firstJoined, hparts, intercalate_cons]
        rw [summaryLoop_first hnewline (List.cons_ne_nil c line), ← hfirst]
        constructor
        · rintro ⟨out, hout, hok⟩
          exact Or.inr ⟨by simp, cutsWell_of_summaryOf hout hok.bytes⟩
        · rintro (hall | ⟨-, hcut⟩)
          · exact absurd hall hempty
          · obtain ⟨out, hout, hbytes, hfront⟩ := summaryOf_of_cutsWell hcut
            exact ⟨out, hout, hlines hfront hbytes⟩

theorem byteLen_letters (n : ℕ) : byteLen (List.replicate n 'a') = n := by
  induction n with
  | zero => rfl
  | succ n ih =>
    have hletter : (utf8Char 'a').length = 1 := by decide
    rw [List.replicate_succ, byteLen_cons, ih, hletter]
    omega

theorem lines_single {text : List Char} (h : '\n' ∉ text) (hne : text ≠ []) : lines text = [text] := by
  unfold lines
  simp only [List.splitOn_eq_singleton h]
  simp [hne]

/-- A character of more than one byte behind a text with room for one. -/
theorem verifierSummary_panics {front : List Char} (hnewline : '\n' ∉ front) (hne : front ≠ [])
    (hbytes : byteLen front + 1 = verifierSummaryBytes) {c : Char} (hc : 1 < (utf8Char c).length) (hcn : c ≠ '\n') :
    verifierSummary (front ++ [c]) = none := by
  have hnot : '\n' ∉ front ++ [c] := by
    rw [List.mem_append, List.mem_singleton, not_or]
    exact ⟨hnewline, Ne.symm hcn⟩
  have hfirst : front ++ [c] ≠ [] := List.append_ne_nil_of_left_ne_nil hne _
  have hone : verifierSummaryBytes - byteLen front = 1 := by omega
  have hslice : sliceTo 1 [c] = none := sliceTo_inside hc Nat.one_ne_zero
  have hlast : byteLen [c] = (utf8Char c).length := byteLen_cons c []
  rw [verifierSummary, lines_single hnot hfirst]
  show summaryLoop [] [front ++ [c]] = none
  rw [summaryLoop_first (fun l hl => List.mem_singleton.mp hl ▸ hnot) hfirst, tailLines, List.flatMap_nil,
    List.append_nil, summaryOf, if_neg (by rw [byteLen_append]; omega), sliceTo_append (by omega), hone, hslice]
  rfl

/-- Another line behind one of full length. -/
theorem verifierSummary_long {front line : List Char} (hnewline : '\n' ∉ front) (hcr : '\r' ∉ front)
    (hline : '\n' ∉ line) (hline_ne : line ≠ []) (hbytes : byteLen front = verifierSummaryBytes) :
    verifierSummary (front ++ '\n' :: line) = some (front ++ ['\n']) := by
  have hne : front ≠ [] := by
    rintro rfl
    exact absurd hbytes (by decide)
  have hlines : lines (front ++ '\n' :: line) = [front, line] := by
    have hstrip : FluxRs.Apps.stripCr front = front := if_neg fun hlast => hcr (List.mem_of_getLast? hlast)
    unfold lines
    simp only [List.splitOn_append_cons_self_of_not_mem hnewline, List.splitOn_eq_singleton hline]
    simp [hstrip, hline_ne]
  have hboth : ∀ l ∈ [front, line], '\n' ∉ l := by
    intro l hl
    obtain rfl | hl := List.mem_cons.mp hl
    · exact hnewline
    · rw [List.mem_singleton.mp hl]
      exact hline
  have hlast : front.getLast? ≠ some '\n' := fun hlast => hnewline (List.mem_of_getLast? hlast)
  rw [verifierSummary, hlines]
  show summaryLoop [] [front, line] = _
  rw [summaryLoop_first hboth hne, summaryOf,
    if_neg (by rw [byteLen_append, tailLines_cons, byteLen_newline]; omega),
    sliceTo_eq_some_iff.mpr ⟨_, rfl, hbytes⟩, Option.map_some, List.drop_left, if_pos ⟨rfl, hlast⟩]

/-- **The promises fail in three ways**: an empty line in front is lost, a slice ends inside a character, and a line
break is one byte too many. -/
theorem verifier_summary_fails :
    ¬ (∃ out, verifierSummary ['\n', 'a'] = some out ∧ SummaryOk ['\n', 'a'] out) ∧
    ¬ (∃ out, verifierSummary (List.replicate 8191 'a' ++ ['é']) = some out ∧
      SummaryOk (List.replicate 8191 'a' ++ ['é']) out) ∧
    ¬ (∃ out, verifierSummary (List.replicate 8192 'a' ++ ['\n', 'b']) = some out ∧
      SummaryOk (List.replicate 8192 'a' ++ ['\n', 'b']) out) := by
  have hletters : ∀ {n : ℕ} {c : Char}, c ≠ 'a' → c ∉ List.replicate n 'a' := fun hc hmem =>
    hc (List.eq_of_mem_replicate hmem)
  refine ⟨?_, ?_, ?_⟩
  · rintro ⟨out, hout, hok⟩
    have hsummary : verifierSummary ['\n', 'a'] = some ['a'] := by decide
    obtain rfl : ['a'] = out := Option.some.inj (hsummary.symm.trans hout)
    exact absurd hok.front (by decide)
  · rintro ⟨out, hout, -⟩
    rw [verifierSummary_panics (hletters (by decide)) ?_ ?_ (by decide) (by decide)] at hout
    · cases hout
    · exact fun h => absurd (congrArg List.length h) (by rw [List.length_replicate]; decide)
    · rw [byteLen_letters]
      decide
  · rintro ⟨out, hout, hok⟩
    rw [verifierSummary_long (hletters (by decide)) (hletters (by decide)) (by decide) (by decide)
      (by rw [byteLen_letters]; decide)] at hout
    have hbytes := hok.bytes
    rw [← Option.some.inj hout, byteLen_append, byteLen_letters] at hbytes
    exact absurd hbytes (by decide)

end FluxRs.Bpf
