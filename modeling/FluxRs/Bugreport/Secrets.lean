import FluxRs.Bugreport.Assignments

/-!
# FluxRs.Bugreport.Secrets — what a report says does not depend on the secrets in a line

Two lines that differ in one secret only are the same after the stage that masks it, and the stages after it see
one line.
-/

namespace FluxRs.Bugreport

open FluxRs.Lib Rewrite

/-! ### The stages up to the assignments -/

def maskUrls (line : List Char) : List Char := redactQueries false (redactUserinfo line)

def maskSecrets (line : List Char) : List Char := redactAssignments (maskUrls line)

theorem redactOne_of_maskSecrets {line line' : List Char} (h : maskSecrets line = maskSecrets line') :
    redactOne line = redactOne line' :=
  congrArg (fun masked => redactDomains (redactLine (redactTags masked))) h

theorem redactOne_of_maskUrls {line line' : List Char} (h : maskUrls line = maskUrls line') :
    redactOne line = redactOne line' :=
  redactOne_of_maskSecrets (congrArg redactAssignments h)

/-- No line break but the last symbol. -/
def IsLine (text : List Char) : Prop := '\n' ∉ text.dropLast

instance (text : List Char) : Decidable (IsLine text) := inferInstanceAs (Decidable (¬_))

theorem IsLine.tail {c d : Char} {text : List Char} (h : IsLine (c :: d :: text)) : c ≠ '\n' ∧ IsLine (d :: text) := by
  rw [IsLine, List.dropLast_cons_of_ne_nil (List.cons_ne_nil d text), List.mem_cons, not_or] at h
  exact ⟨fun hc => h.1 hc.symm, h.2⟩

theorem splitInclusive_line {c : Char} {text : List Char} : IsLine (c :: text) → splitInclusive (c :: text) = [c :: text] := by
  induction text generalizing c with
  | nil =>
    intro _
    rw [splitInclusive]
    split <;> rfl
  | cons d text ih =>
    intro h
    obtain ⟨hc, hline⟩ := h.tail
    rw [splitInclusive, if_neg hc, ih hline]

/-- A line is one piece of the report. -/
theorem redact_line {text : List Char} (h : IsLine text) : redact text = redactOne text := by
  cases text with
  | nil =>
    simp only [redact, splitInclusive, List.flatMap_nil, redactOne, redactCredentials, redactUserinfo_nil,
      redactQueries_nil, redactAssignments, redactTags, redactLine, redactDomains, Rule.scan_nil]
  | cons c text => rw [redact, splitInclusive_line h, List.flatMap_cons, List.flatMap_nil, List.append_nil]

theorem IsLine.not_mem {text more : List Char} (h : IsLine (text ++ more)) (hne : more ≠ []) : '\n' ∉ text := by
  intro hmem
  refine h ?_
  rw [List.dropLast_append_of_ne_nil hne]
  exact List.mem_append_left _ hmem

theorem IsLine.append {text more : List Char} (htext : '\n' ∉ text) (hmore : IsLine more) : IsLine (text ++ more) := by
  by_cases hne : more = []
  · rw [hne, List.append_nil]
    exact fun h => htext (List.dropLast_subset text h)
  · rw [IsLine, List.dropLast_append_of_ne_nil hne, List.mem_append]
    exact not_or.mpr ⟨htext, hmore⟩

theorem IsLine.right {text more : List Char} (h : IsLine (text ++ more)) : IsLine more := by
  by_cases hne : more = []
  · rw [hne]
    exact List.not_mem_nil
  · rw [IsLine, List.dropLast_append_of_ne_nil hne, List.mem_append, not_or] at h
    exact h.2

/-- A part without a line break may be another one. -/
theorem IsLine.replace {before text text' after : List Char} (h : IsLine (before ++ (text ++ after))) (hne : text ++ after ≠ [])
    (htext' : '\n' ∉ text') : IsLine (before ++ (text' ++ after)) :=
  IsLine.append (h.not_mem hne) (IsLine.append htext' h.right.right)

/-! ### A value and what stands before it -/

/-- A value without the symbols that the scanners take for a part of something else. -/
structure Value where
  text : List Char
  nonempty : text ≠ []
  plain : ∀ c ∈ text, isAsciiWhitespace c = false ∧ isQuote c = false ∧ c ≠ '/' ∧ c ≠ '?' ∧ c ≠ '@'

namespace Value

variable (v : Value)

theorem word : Word v.text := fun c hc => (v.plain c hc).1

theorem apart (post : List Char) : Apart (v.text ++ post) := by
  intro hslash
  obtain ⟨c, cs, hv⟩ := List.exists_cons_of_ne_nil v.nonempty
  rw [hv, List.cons_append, List.head?_cons, Option.some_inj] at hslash
  exact (v.plain c (hv ▸ List.mem_cons_self)).2.2.1 hslash

theorem head (post : List Char) : ∃ c, (v.text ++ post).head? = some c ∧ isAsciiWhitespace c = false ∧ isQuote c = false := by
  obtain ⟨c, cs, hv⟩ := List.exists_cons_of_ne_nil v.nonempty
  have hplain := v.plain c (hv ▸ List.mem_cons_self)
  exact ⟨c, by rw [hv]; rfl, hplain.1, hplain.2.1⟩

theorem inAuthority : ∀ c ∈ v.text, Bugreport.inAuthority c = true := by
  intro c hc
  obtain ⟨hblank, -, hslash, -, hat⟩ := v.plain c hc
  simp [Bugreport.inAuthority, hblank, hslash, hat]

theorem not_break : '\n' ∉ v.text := fun h => absurd (v.word _ h) (by decide)

end Value

theorem Apart.not_joins {text more : List Char} (h : Apart more) : ¬Joins text more := by
  rintro ⟨-, rest, rfl⟩
  exact h rfl

namespace Assignment

variable (a : Assignment)

/-- There is a blank on one side of the separator. -/
def Spaced : Prop := a.before ≠ [] ∨ a.after ≠ []

theorem mem_text {c : Char} (h : c ∈ a.text) :
    c.isAlpha = true ∨ isAsciiWhitespace c = true ∨ isSeparator c = true := by
  rw [text, List.mem_append, List.mem_append, List.mem_cons] at h
  rcases h with h | h | rfl | h
  · exact .inl (a.isAlpha_name c h)
  · exact .inr (.inl (a.blank_before c h))
  · exact .inr (.inr a.separates)
  · exact .inr (.inl (a.blank_after c h))

theorem not_mem_text {c : Char} (h : c ∈ ['/', '?', '@', '"', '\'']) : c ∉ a.text := by
  intro hmem
  simp only [List.mem_cons, List.not_mem_nil, or_false] at h
  have hkind := a.mem_text hmem
  rcases h with rfl | rfl | rfl | rfl | rfl <;> revert hkind <;> decide

theorem quote_not_mem {q : Char} (h : isQuote q = true) : q ∉ a.text := by
  simp only [isQuote, Bool.or_eq_true, beq_iff_eq] at h
  rcases h with rfl | rfl
  · exact a.not_mem_text (by decide)
  · exact a.not_mem_text (by decide)

theorem word_text (h : ¬a.Spaced) : Word a.text := by
  rw [Spaced, not_or, not_not, not_not] at h
  intro c hc
  rw [text, h.1, h.2, List.nil_append, List.mem_append, List.mem_singleton] at hc
  rcases hc with hc | rfl
  · exact not_blank_of_isAlphanum (isAlphanum_of_isAlpha (a.isAlpha_name c hc))
  · exact a.not_blank_separator

theorem head_text (more : List Char) : ∃ c, (a.text ++ more).head? = some c ∧ c.isAlphanum = true := by
  obtain ⟨c, cs, hname⟩ := a.name_eq_cons
  refine ⟨c, by rw [text, hname]; rfl, isAlphanum_of_isAlpha (a.isAlpha_name c ?_)⟩
  rw [hname]
  exact List.mem_cons_self

theorem apart (more : List Char) : Apart (a.text ++ more) := by
  obtain ⟨c, hc, halpha⟩ := a.head_text more
  rw [Apart, hc, ne_eq, Option.some_inj]
  rintro rfl
  exact absurd halpha (by decide)

theorem redactUserinfo_text {more : List Char} (h : Apart more) :
    redactUserinfo (a.text ++ more) = a.text ++ redactUserinfo more :=
  redactUserinfo_literal (a.not_mem_text (by decide)) h.not_joins

/-- An at sign behind the value ends an authority that goes through the whole assignment. -/
theorem hasAt_text {v : Value} {post : List Char} (h : HasAt (a.text ++ (v.text ++ post))) :
    (∀ c ∈ a.text, inAuthority c = true) ∧ HasAt post := by
  have hall : ∀ c ∈ a.text, inAuthority c = true := by
    by_contra hnot
    have hat := (hasAt_append (.inl hnot)).mp h
    have hmem : '@' ∈ a.text := (List.dropWhile_suffix inAuthority).subset (List.mem_of_mem_head? hat)
    exact a.not_mem_text (by decide) hmem
  refine ⟨hall, ?_⟩
  rw [HasAt, List.dropWhile_append_of_pos hall, List.dropWhile_append_of_pos v.inAuthority] at h
  exact h

end Assignment

/-! ### What the URL scanners make of an assignment -/

/-- The rest of the line behind the value's word. -/
def rest (post : List Char) : List Char := redactQueries false (redactUserinfo (post.dropWhile nonblank))

theorem atBlank_rest (post : List Char) : AtBlank (rest post) := by
  intro c hc
  rw [rest, redactQueries_head, redactUserinfo_head] at hc
  exact atBlank_dropWhile post c hc

/-- The value's word stays one word that begins like the value. -/
theorem Value.mask_word (v : Value) (post : List Char) (inUrl : Bool) :
    ∃ word, redactQueries inUrl (redactUserinfo (v.text ++ post)) = word ++ rest post ∧ Word word ∧ word ≠ [] ∧
      word.head?.any isQuote = false := by
  have hsplit : v.text ++ post = v.text ++ post.takeWhile nonblank ++ post.dropWhile nonblank := by
    rw [List.append_assoc, List.takeWhile_append_dropWhile]
  have hblank := atBlank_dropWhile post
  have hblank' : AtBlank (redactUserinfo (post.dropWhile nonblank)) := by
    intro c hc
    rw [redactUserinfo_head] at hc
    exact hblank c hc
  have hword : Word (v.text ++ post.takeWhile nonblank) := v.word.append (word_takeWhile post)
  obtain ⟨c, hc, -, hquote⟩ := v.head (post.takeWhile nonblank)
  have hhead : (redactQueries inUrl (redactUserinfo (v.text ++ post.takeWhile nonblank))).head? = some c := by
    rw [redactQueries_head, redactUserinfo_head, hc]
  refine ⟨redactQueries inUrl (redactUserinfo (v.text ++ post.takeWhile nonblank)), ?_,
    redactQueries_word (redactUserinfo_word hword), ?_, ?_⟩
  · rw [hsplit, redactUserinfo_atBlank _ hblank, redactQueries_append_atBlank _ _ hblank', rest]
  · intro hnil
    rw [hnil] at hhead
    cases hhead
  · rw [hhead]
    exact hquote

/-- The assignments of the two values end alike: what joins one of them to a scheme joins the other. -/
def EndAlike (v₁ v₂ : Value) (post : List Char) : Prop :=
  "//".toList <+: post → (v₁.text.getLast? = some ':' ↔ v₂.text.getLast? = some ':')

theorem redactUserinfo_slashes {text : List Char} (h : "//".toList <+: redactUserinfo text) : "//".toList <+: text := by
  obtain ⟨rest, hrest⟩ := h
  obtain _ | ⟨c, text⟩ := text
  · rw [redactUserinfo_nil] at hrest
    cases hrest
  · have hhead := redactUserinfo_head (c :: text)
    rw [← hrest] at hhead
    obtain rfl : '/' = c := by simpa using hhead
    have hcons : redactUserinfo ('/' :: text) = '/' :: redactUserinfo text := redactUserinfo_cons rfl
    rw [hcons] at hrest
    have htail : redactUserinfo text = '/' :: rest := (List.cons_eq_cons.mp hrest.symm).2
    have hhead' := redactUserinfo_head text
    rw [htail] at hhead'
    obtain ⟨more, rfl⟩ := List.head?_eq_some_iff.mp hhead'.symm
    exact ⟨more, rfl⟩

theorem mask_literal {text post : List Char} (hplain : ∀ c ∈ text, c ≠ '/' ∧ c ≠ '?') (hjoin : ¬Joins text post)
    (hword : Word text) (inUrl : Bool) :
    redactQueries inUrl (redactUserinfo (text ++ post)) = text ++ redactQueries inUrl (redactUserinfo post) := by
  have hslash : '/' ∉ text := fun h => (hplain _ h).1 rfl
  have hquery : '?' ∉ text := fun h => (hplain _ h).2 rfl
  have hjoin' : ¬Joins text (redactUserinfo post) := fun h => hjoin ⟨h.1, redactUserinfo_slashes h.2⟩
  have hall : text.all nonblank = true := by
    rw [List.all_eq_true]
    intro c hc
    rw [nonblank, hword c hc]
    rfl
  rw [redactUserinfo_literal hslash hjoin, redactQueries_literal hslash hquery hjoin', hall, Bool.and_true]

/-- Where the values end alike they are copied, a last colon apart, and what follows is the same. -/
theorem EndAlike.mask {v₁ v₂ : Value} {post : List Char} (h : EndAlike v₁ v₂ post) (inUrl : Bool) :
    ∃ t₁ t₂ more, (∀ c ∈ t₁, c ∈ v₁.text) ∧ (∀ c ∈ t₂, c ∈ v₂.text) ∧
      redactQueries inUrl (redactUserinfo (v₁.text ++ post)) = t₁ ++ more ∧
      redactQueries inUrl (redactUserinfo (v₂.text ++ post)) = t₂ ++ more := by
  have hplain : ∀ (v : Value), ∀ c ∈ v.text, c ≠ '/' ∧ c ≠ '?' := by
    intro v c hc
    obtain ⟨-, -, hslash, hquery, -⟩ := v.plain c hc
    exact ⟨hslash, hquery⟩
  by_cases hcolon : "//".toList <+: post ∧ v₁.text.getLast? = some ':'
  · obtain ⟨u₁, h₁⟩ := List.getLast?_eq_some_iff.mp hcolon.2
    obtain ⟨u₂, h₂⟩ := List.getLast?_eq_some_iff.mp ((h hcolon.1).mp hcolon.2)
    have hcopy : ∀ (v : Value) (u : List Char), v.text = u ++ [':'] →
        redactQueries inUrl (redactUserinfo (v.text ++ post)) = u ++ redactQueries inUrl (redactUserinfo (':' :: post)) := by
      intro v u hu
      have hsub : ∀ c ∈ u, c ∈ v.text := fun c hc => hu ▸ List.mem_append_left _ hc
      rw [hu, List.append_assoc]
      refine mask_literal (fun c hc => hplain v c (hsub c hc)) (Apart.not_joins ?_) (fun c hc => v.word c (hsub c hc)) inUrl
      simp [Apart]
    exact ⟨u₁, u₂, _, fun c hc => h₁ ▸ List.mem_append_left _ hc, fun c hc => h₂ ▸ List.mem_append_left _ hc,
      hcopy v₁ u₁ h₁, hcopy v₂ u₂ h₂⟩
  · have hjoin₁ : ¬Joins v₁.text post := fun hj => hcolon ⟨hj.2, hj.1⟩
    have hjoin₂ : ¬Joins v₂.text post := fun hj => hcolon ⟨hj.2, (h hj.2).mpr hj.1⟩
    exact ⟨v₁.text, v₂.text, _, fun c hc => hc, fun c hc => hc, mask_literal (hplain v₁) hjoin₁ v₁.word inUrl,
      mask_literal (hplain v₂) hjoin₂ v₂.word inUrl⟩

/-! ### The two lines -/

/-- What is written directly behind the text goes with what the scanners mask at its end. -/
def Swallows (before : List Char) : Prop :=
  ∀ word more, word ≠ [] → (∀ c ∈ word, c.isAlphanum = true) → AtBlank more →
    maskSecrets (before ++ (word ++ more)) = maskSecrets before ++ maskSecrets more

theorem Apart.redactUserinfo {text : List Char} (h : Apart text) : Apart (redactUserinfo text) := by
  rw [Apart, redactUserinfo_head]
  exact h

theorem maskUrls_append {before text : List Char} (hapart : Apart text) (h : ¬Open before ∨ ¬HasAt text) :
    maskUrls (before ++ text) = redactQueries false (redactUserinfo before ++ redactUserinfo text) := by
  rw [maskUrls, redactUserinfo_append before hapart h]

theorem scan_of_atBlank {text : List Char} (h : AtBlank text) (prev : Option Char) :
    assignmentRule.scan ⟨prev, text⟩ = redactAssignments text := by
  refine atLetters_assignment.scan_prev ?_ prev
  cases text with
  | nil => rfl
  | cons c text => exact not_isAlpha_of_blank (h c rfl)

theorem last_of_none (text : List Char) : (⟨none, text⟩ : Cursor Char).last = text.getLast? := by
  rw [Cursor.last]
  exact Option.or_none

/-- The lines that begin alike, up to a place where no key ends. -/
theorem maskSecrets_append {before text : List Char} (hbound : Bounded before) (hfits : Fits before.getLast? text) :
    redactAssignments (before ++ text) =
      redactAssignments before ++ (modeOf ⟨none, before⟩).resume before.getLast? text := by
  have happend := @scan_append ⟨none, before⟩ text hbound (by rw [last_of_none]; exact hfits)
  rw [last_of_none] at happend
  exact happend

theorem atBlank_maskUrls {text : List Char} (h : AtBlank text) : AtBlank (maskUrls text) := by
  intro c hc
  rw [maskUrls, redactQueries_head, redactUserinfo_head] at hc
  exact h c hc

section Swallow

variable {before word more : List Char}

theorem not_hasAt_of_alphanum (hword : ∀ c ∈ word, c.isAlphanum = true) (hmore : AtBlank more) : ¬HasAt (word ++ more) := by
  have hall : ∀ c ∈ word, inAuthority c = true := by
    intro c hc
    have halpha := hword c hc
    have hblank := not_blank_of_isAlphanum halpha
    have hslash : c ≠ '/' := by
      rintro rfl
      exact absurd halpha (by decide)
    have hat : c ≠ '@' := by
      rintro rfl
      exact absurd halpha (by decide)
    simp [inAuthority, hblank, hslash, hat]
  rw [HasAt, List.dropWhile_append_of_pos hall]
  exact hmore.not_hasAt

theorem word_of_alphanum (hword : ∀ c ∈ word, c.isAlphanum = true) : Word word :=
  fun c hc => not_blank_of_isAlphanum (hword c hc)

theorem alphanum_not_mem (hword : ∀ c ∈ word, c.isAlphanum = true) {c : Char} (h : c.isAlphanum = false) : c ∉ word := by
  intro hc
  rw [hword c hc] at h
  cases h

theorem apart_of_alphanum (hword : ∀ c ∈ word, c.isAlphanum = true) (hne : word ≠ []) (text : List Char) :
    Apart (word ++ text) := by
  obtain ⟨c, cs, rfl⟩ := List.exists_cons_of_ne_nil hne
  rw [Apart, List.cons_append, List.head?_cons, ne_eq, Option.some_inj]
  rintro rfl
  exact alphanum_not_mem hword (by decide) List.mem_cons_self

theorem maskUrls_word (hword : ∀ c ∈ word, c.isAlphanum = true) (hne : word ≠ []) (hmore : AtBlank more) :
    maskUrls (before ++ (word ++ more)) = redactQueries false (redactUserinfo before ++ (word ++ redactUserinfo more)) := by
  rw [maskUrls_append (apart_of_alphanum hword hne more) (.inr (not_hasAt_of_alphanum hword hmore)), redactUserinfo_atBlank _ hmore,
    redactUserinfo_self (alphanum_not_mem hword (by decide))]

/-- The query that is open at the end of a text, and what comes behind it. -/
theorem InQuery.bounded (h : InQuery false (redactUserinfo before)) : Bounded (maskUrls before) := by
  intro c hc
  rw [maskUrls, h.2, Option.some_inj] at hc
  rw [← hc]
  decide

theorem InQuery.fits (h : InQuery false (redactUserinfo before)) (text : List Char) :
    Fits (maskUrls before).getLast? text := by
  refine .inr fun c hc => ?_
  rw [maskUrls, h.2, Option.some_inj] at hc
  rw [← hc]
  decide

theorem GoesOn.bounded {after : Bool} (h : GoesOn false (redactUserinfo before) after) (hbound : Bounded before) :
    Bounded (maskUrls before) := by
  intro c hc
  rw [maskUrls, h.2, redactUserinfo_last] at hc
  exact hbound c hc

theorem swallows_of_inQuery (h : InQuery false (redactUserinfo before))
    (hmode : modeOf ⟨none, maskUrls before⟩ = .free ∨ modeOf ⟨none, maskUrls before⟩ = .word) : Swallows before := by
  intro word more hne hword hmore
  have hmore' : AtBlank (redactUserinfo more) := by
    intro c hc
    rw [redactUserinfo_head] at hc
    exact hmore c hc
  have hmask := atBlank_maskUrls hmore
  have hurls : maskUrls (before ++ (word ++ more)) = maskUrls before ++ maskUrls more := by
    rw [maskUrls_word hword hne hmore, h.1 _ (apart_of_alphanum hword hne _), dropWhile_word (word_of_alphanum hword), dropWhile_atBlank hmore']
    rfl
  rw [maskSecrets, hurls, maskSecrets_append h.bounded (h.fits _), maskSecrets, maskSecrets]
  refine congrArg (redactAssignments (maskUrls before) ++ ·) ?_
  rcases hmode with hmode | hmode
  · rw [hmode]
    exact scan_of_atBlank hmask _
  · rw [hmode]
    exact @resume_word [] _ (fun c hc => absurd hc List.not_mem_nil) hmask _

theorem swallows_of_word {after : Bool} (h : GoesOn false (redactUserinfo before) after) (hbound : Bounded before)
    (hmode : modeOf ⟨none, maskUrls before⟩ = .word) : Swallows before := by
  intro word more hne hword hmore
  have hmore' : AtBlank (redactUserinfo more) := by
    intro c hc
    rw [redactUserinfo_head] at hc
    exact hmore c hc
  have hmask := atBlank_maskUrls hmore
  obtain ⟨c, cs, rfl⟩ := List.exists_cons_of_ne_nil hne
  have hurls : maskUrls (before ++ (c :: cs ++ more)) = maskUrls before ++ (c :: cs ++ maskUrls more) := by
    rw [maskUrls_word hword hne hmore, h.1 _ (apart_of_alphanum hword hne _), redactQueries_literal (alphanum_not_mem hword (by decide))
      (alphanum_not_mem hword (by decide)) hmore'.apart.not_joins, redactQueries_atBlank hmore']
    rfl
  have hfits : Fits (maskUrls before).getLast? (c :: cs ++ maskUrls more) :=
    .inl ⟨c, rfl, hword c List.mem_cons_self⟩
  rw [maskSecrets, hurls, maskSecrets_append (h.bounded hbound) hfits, hmode, resume_word (word_of_alphanum hword) hmask]
  rfl

end Swallow

/-- What the URL scanners leave stands in the line, if it is not of their masks. -/
theorem mem_redactUserinfo {q : Char} (hmask : q ∉ "://[userinfo-redacted]".toList) {text : List Char} :
    q ∈ redactUserinfo text → q ∈ text := by
  induction text using userinfo_induction with
  | nil =>
    rw [redactUserinfo_nil]
    exact id
  | masked text hat ih =>
    rw [redactUserinfo_masked hat, List.mem_append]
    intro h
    have hmem := (List.dropWhile_suffix inAuthority).subset (ih (h.resolve_left hmask))
    exact List.mem_append_right [':', '/', '/'] hmem
  | plain text hat ih =>
    rw [redactUserinfo_plain hat]
    intro h
    have happend : q ∈ [':', '/', '/'] ++ redactUserinfo text := h
    exact List.mem_append.mpr ((List.mem_append.mp happend).imp_right ih)
  | copy c text hscheme ih =>
    rw [redactUserinfo_cons hscheme, List.mem_cons, List.mem_cons]
    exact Or.imp_right ih

theorem mem_redactQueries {q : Char} (hmask : q ∉ "?[query-redacted]".toList) {text : List Char} {inUrl : Bool} :
    q ∈ redactQueries inUrl text → q ∈ text := by
  induction hn : text.length using Nat.strongRecOn generalizing inUrl text with
  | _ n ih =>
    subst hn
    obtain _ | ⟨c, text⟩ := text
    · rw [redactQueries_nil]
      exact id
    · cases hblank : isAsciiWhitespace c with
      | true =>
        rw [redactQueries_blank hblank, List.mem_cons, List.mem_cons]
        exact Or.imp_right (ih _ (Nat.lt_succ_self _) rfl)
      | false =>
        by_cases hquery : inUrl = true ∧ c = '?'
        · obtain ⟨hurl, rfl⟩ := hquery
          rw [redactQueries_query inUrl hurl, List.mem_append]
          intro h
          have hless := Nat.lt_succ_of_le (List.dropWhile_sublist nonblank (l := text)).length_le
          exact List.mem_cons_of_mem _ ((List.dropWhile_suffix _).subset (ih _ hless rfl (h.resolve_left hmask)))
        · rw [redactQueries_cons hblank (by rw [← Bool.not_eq_true]; exact not_and_or.mp hquery), List.mem_cons,
            List.mem_cons]
          exact Or.imp_right (ih _ (Nat.lt_succ_self _) rfl)

/-- An open quote that the URL scanners leave stands in the line. -/
theorem quote_mem_maskUrls {q : Char} (hq : isQuote q = true) {text : List Char} (h : q ∈ maskUrls text) : q ∈ text := by
  simp only [isQuote, Bool.or_eq_true, beq_iff_eq] at hq
  rcases hq with rfl | rfl
  · exact mem_redactUserinfo (by decide) (mem_redactQueries (by decide) h)
  · exact mem_redactUserinfo (by decide) (mem_redactQueries (by decide) h)

section Lines

variable {before : List Char} {a : Assignment} {v₁ v₂ : Value} {post : List Char}

/-- A mode that goes on behind a blank drops both values. -/
theorem resume_hides {p : Mode} (hmode : p = .line ∨ ∃ q, p = .quoted q ∧ isQuote q = true)
    (halike : (∃ q, p = .quoted q) → EndAlike v₁ v₂ post) {head : List Char} (hsub : ∀ c ∈ head, c ∈ a.text)
    (hbreak : '\n' ∉ a.text) (prev : Option Char) (inUrl : Bool) :
    p.resume prev (head ++ redactQueries inUrl (redactUserinfo (v₁.text ++ post))) =
      p.resume prev (head ++ redactQueries inUrl (redactUserinfo (v₂.text ++ post))) := by
  rcases hmode with rfl | ⟨q, rfl, hquote⟩
  · obtain ⟨w₁, h₁, hw₁, -, -⟩ := v₁.mask_word post inUrl
    obtain ⟨w₂, h₂, hw₂, -, -⟩ := v₂.mask_word post inUrl
    have hline : ∀ {w : List Char}, Word w → '\n' ∉ head ++ w := by
      intro w hw hmem
      rcases List.mem_append.mp hmem with hmem | hmem
      · exact hbreak (hsub _ hmem)
      · exact absurd (hw _ hmem) (by decide)
    rw [h₁, h₂, ← List.append_assoc, ← List.append_assoc, resume_line (hline hw₁), resume_line (hline hw₂)]
  · obtain ⟨t₁, t₂, more, hsub₁, hsub₂, h₁, h₂⟩ := (halike ⟨q, rfl⟩).mask inUrl
    have hpass : ∀ (v : Value) {t : List Char}, (∀ c ∈ t, c ∈ v.text) → q ∉ head ++ t ∧ '\n' ∉ head ++ t := by
      intro v t hsubt
      constructor
      · intro hmem
        rcases List.mem_append.mp hmem with hmem | hmem
        · exact a.quote_not_mem hquote (hsub _ hmem)
        · have hno := (v.plain q (hsubt q hmem)).2.1
          rw [hquote] at hno
          cases hno
      · intro hmem
        rcases List.mem_append.mp hmem with hmem | hmem
        · exact hbreak (hsub _ hmem)
        · exact v.not_break (hsubt _ hmem)
    obtain ⟨hq₁, hb₁⟩ := hpass v₁ hsub₁
    obtain ⟨hq₂, hb₂⟩ := hpass v₂ hsub₂
    rw [h₁, h₂, ← List.append_assoc, ← List.append_assoc, resume_quoted hq₁ hb₁, resume_quoted hq₂ hb₂]

/-- An authority that goes through the assignment hides it whole. -/
theorem redactUserinfo_hides (hopen : Open before) (hname : ∀ c ∈ a.text, inAuthority c = true) (hat : HasAt post) :
    redactUserinfo (before ++ (a.text ++ (v₁.text ++ post))) = redactUserinfo (before ++ (a.text ++ (v₂.text ++ post))) := by
  obtain ⟨start, inside, rfl, hinside⟩ := hopen
  obtain ⟨after, hafter⟩ := List.head?_eq_some_iff.mp hat
  have hsplit : ∀ v : Value, start ++ ':' :: '/' :: '/' :: inside ++ (a.text ++ (v.text ++ post)) =
      start ++ ':' :: '/' :: '/' :: (inside ++ (a.text ++ (v.text ++ post.takeWhile inAuthority)) ++ '@' :: after) := by
    intro v
    conv_lhs => rw [← List.takeWhile_append_dropWhile (p := inAuthority) (l := post), hafter]
    simp only [List.append_assoc, List.cons_append]
  have hall : ∀ v : Value, ∀ c ∈ inside ++ (a.text ++ (v.text ++ post.takeWhile inAuthority)), inAuthority c = true := by
    intro v c hc
    rw [List.mem_append, List.mem_append, List.mem_append] at hc
    rcases hc with hc | hc | hc | hc
    · exact hinside c hc
    · exact hname c hc
    · exact v.inAuthority c hc
    · exact List.mem_takeWhile_imp hc
  rw [hsplit, hsplit, redactUserinfo_hidden (hall v₁), redactUserinfo_hidden (hall v₂)]

/-- Behind a query that is open. -/
theorem maskSecrets_inQuery (h : InQuery false (redactUserinfo before))
    (hmask : ∀ v : Value, maskUrls (before ++ (a.text ++ (v.text ++ post))) =
      redactQueries false (redactUserinfo before ++ (a.text ++ redactUserinfo (v.text ++ post))))
    (hbreak : '\n' ∉ a.text) (hspaced : a.Spaced → ¬Swallows before)
    (halike : (∃ q ∈ before, isQuote q = true) → EndAlike v₁ v₂ post) :
    maskSecrets (before ++ (a.text ++ (v₁.text ++ post))) = maskSecrets (before ++ (a.text ++ (v₂.text ++ post))) := by
  have hurls : ∀ v : Value, maskUrls (before ++ (a.text ++ (v.text ++ post))) = maskUrls before ++
      redactQueries false ((a.text ++ redactUserinfo (v.text ++ post)).dropWhile nonblank) := by
    intro v
    rw [hmask v, h.1 _ (a.apart _)]
    rfl
  by_cases hword : Word a.text
  · have hdrop : ∀ v : Value, (a.text ++ redactUserinfo (v.text ++ post)).dropWhile nonblank =
        redactUserinfo (post.dropWhile nonblank) := by
      intro v
      rw [dropWhile_word hword, redactUserinfo_dropWhile, dropWhile_word v.word]
    rw [maskSecrets, maskSecrets, hurls, hurls, hdrop, hdrop]
  · -- the key is dropped with the query, the value is not
    have hswallow := hspaced (by_contra fun hno => hword (a.word_text hno))
    have hdrop : ∀ text, (a.text ++ text).dropWhile nonblank = a.text.dropWhile nonblank ++ text := by
      intro text
      rw [List.dropWhile_append, if_neg]
      intro hempty
      refine hword fun c hc => ?_
      have hpos := List.dropWhile_eq_nil_iff.mp (List.isEmpty_iff.mp hempty) c hc
      simpa [nonblank] using hpos
    have hsub : ∀ c ∈ a.text.dropWhile nonblank, c ∈ a.text := fun c hc => (List.dropWhile_suffix _).subset hc
    have hrest : ∀ v : Value, maskUrls (before ++ (a.text ++ (v.text ++ post))) = maskUrls before ++
        (a.text.dropWhile nonblank ++ redactQueries false (redactUserinfo (v.text ++ post))) := by
      intro v
      rw [hurls, hdrop, redactQueries_literal (fun hm => a.not_mem_text (by decide) (hsub _ hm))
        (fun hm => a.not_mem_text (by decide) (hsub _ hm)) (v.apart post).redactUserinfo.not_joins, Bool.false_and]
    have hline : ∀ v : Value, maskSecrets (before ++ (a.text ++ (v.text ++ post))) = redactAssignments (maskUrls before) ++
        (modeOf ⟨none, maskUrls before⟩).resume (maskUrls before).getLast?
          (a.text.dropWhile nonblank ++ redactQueries false (redactUserinfo (v.text ++ post))) := by
      intro v
      rw [maskSecrets, hrest, maskSecrets_append h.bounded (h.fits _)]
    rw [hline, hline]
    refine congrArg (redactAssignments (maskUrls before) ++ ·) (resume_hides ?_ ?_ hsub hbreak _ false)
    · cases hmode : modeOf ⟨none, maskUrls before⟩ with
      | free => exact absurd (swallows_of_inQuery h (.inl hmode)) hswallow
      | word => exact absurd (swallows_of_inQuery h (.inr hmode)) hswallow
      | line => exact .inl rfl
      | quoted q => exact .inr ⟨q, rfl, (modeOf_quoted hmode).1⟩
    · rintro ⟨q, hmode⟩
      obtain ⟨hquote, hmem⟩ := modeOf_quoted hmode
      exact halike ⟨q, quote_mem_maskUrls hquote hmem, hquote⟩

/-- Where no query is open. -/
theorem maskSecrets_goesOn {after : Bool} (h : GoesOn false (redactUserinfo before) after) (hbound : Bounded before)
    (hmask : ∀ v : Value, maskUrls (before ++ (a.text ++ (v.text ++ post))) =
      redactQueries false (redactUserinfo before ++ (a.text ++ redactUserinfo (v.text ++ post))))
    (hbreak : '\n' ∉ a.text) (hspaced : a.Spaced → ¬Swallows before)
    (halike : (∃ q ∈ before, isQuote q = true) → EndAlike v₁ v₂ post) :
    maskSecrets (before ++ (a.text ++ (v₁.text ++ post))) = maskSecrets (before ++ (a.text ++ (v₂.text ++ post))) := by
  have hrest : ∀ v : Value, maskUrls (before ++ (a.text ++ (v.text ++ post))) = maskUrls before ++
      (a.text ++ redactQueries (after && a.text.all nonblank) (redactUserinfo (v.text ++ post))) := by
    intro v
    rw [hmask v, h.1 _ (a.apart _), redactQueries_literal (a.not_mem_text (by decide)) (a.not_mem_text (by decide))
      (v.apart post).redactUserinfo.not_joins]
    rfl
  have hline : ∀ v : Value, maskSecrets (before ++ (a.text ++ (v.text ++ post))) = redactAssignments (maskUrls before) ++
      (modeOf ⟨none, maskUrls before⟩).resume (maskUrls before).getLast?
        (a.text ++ redactQueries (after && a.text.all nonblank) (redactUserinfo (v.text ++ post))) := by
    intro v
    rw [maskSecrets, hrest, maskSecrets_append (h.bounded hbound) (.inl (a.head_text _))]
  rw [hline, hline]
  refine congrArg (redactAssignments (maskUrls before) ++ ·) ?_
  obtain ⟨w₁, h₁, hw₁, hne₁, hq₁⟩ := v₁.mask_word post (after && a.text.all nonblank)
  obtain ⟨w₂, h₂, hw₂, hne₂, hq₂⟩ := v₂.mask_word post (after && a.text.all nonblank)
  cases hmode : modeOf ⟨none, maskUrls before⟩ with
  | free =>
    have hprev : (maskUrls before).getLast?.any Char.isAlphanum = false := by
      cases hlast : (maskUrls before).getLast? with
      | none => rfl
      | some c => exact h.bounded hbound c hlast
    rw [h₁, h₂, Mode.resume, Mode.resume, a.scan_text hprev hne₁ hw₁ hq₁ (atBlank_rest post),
      a.scan_text hprev hne₂ hw₂ hq₂ (atBlank_rest post)]
  | word =>
    have hword : Word a.text := a.word_text fun hsp => hspaced hsp (swallows_of_word h hbound hmode)
    rw [h₁, h₂, ← List.append_assoc, ← List.append_assoc, resume_word (hword.append hw₁) (atBlank_rest post),
      resume_word (hword.append hw₂) (atBlank_rest post)]
  | line => exact resume_hides (.inl rfl) (by rintro ⟨q, hq⟩; cases hq) (fun c hc => hc) hbreak _ _
  | quoted q =>
    obtain ⟨hquote, hmem⟩ := modeOf_quoted hmode
    have hbefore := quote_mem_maskUrls hquote hmem
    exact resume_hides (.inr ⟨q, rfl, hquote⟩) (fun _ => halike ⟨q, hbefore, hquote⟩) (fun c hc => hc) hbreak _ _

theorem maskSecrets_assignment (hbound : Bounded before) (hbreak : '\n' ∉ a.text) (hspaced : a.Spaced → ¬Swallows before)
    (halike : (∃ q ∈ before, isQuote q = true) → EndAlike v₁ v₂ post) :
    maskSecrets (before ++ (a.text ++ (v₁.text ++ post))) = maskSecrets (before ++ (a.text ++ (v₂.text ++ post))) := by
  by_cases hopen : Open before ∧ (∀ c ∈ a.text, inAuthority c = true) ∧ HasAt post
  · exact congrArg (fun line => redactAssignments (redactQueries false line))
      (redactUserinfo_hides hopen.1 hopen.2.1 hopen.2.2)
  · have hmask : ∀ v : Value, maskUrls (before ++ (a.text ++ (v.text ++ post))) =
        redactQueries false (redactUserinfo before ++ (a.text ++ redactUserinfo (v.text ++ post))) := by
      intro v
      have hcut : ¬Open before ∨ ¬HasAt (a.text ++ (v.text ++ post)) := by
        rw [← not_and_or]
        exact fun hboth => hopen ⟨hboth.1, a.hasAt_text hboth.2⟩
      rw [maskUrls_append (a.apart _) hcut, a.redactUserinfo_text (v.apart post)]
    rcases redactQueries_cut false (redactUserinfo before) with h | ⟨after, h⟩
    · exact maskSecrets_inQuery h hmask hbreak hspaced halike
    · exact maskSecrets_goesOn h hbound hmask hbreak hspaced halike

end Lines

/-! ### Userinfo and queries -/

theorem not_break_of_word {text : List Char} (h : Word text) : '\n' ∉ text := fun hmem => absurd (h _ hmem) (by decide)

theorem maskUrls_query {before host : List Char} (hhost : Word host) :
    ∃ out, ∀ query, ¬Open (before ++ ':' :: '/' :: '/' :: host) ∨ ¬HasAt query →
      maskUrls (before ++ ':' :: '/' :: '/' :: (host ++ '?' :: query)) =
        out ++ redactQueries false (redactUserinfo (query.dropWhile nonblank)) := by
  have hscheme : ∃ word, Word word ∧ redactUserinfo (before ++ ':' :: '/' :: '/' :: host) =
      redactUserinfo before ++ ':' :: '/' :: '/' :: word := by
    have hapart : Apart (':' :: '/' :: '/' :: host) := by simp [Apart]
    have hcut : ¬HasAt (':' :: '/' :: '/' :: host) := by
      rw [HasAt, List.dropWhile_cons_of_pos (by decide), List.dropWhile_cons_of_neg (by decide)]
      simp
    by_cases hat : HasAt host
    · refine ⟨"[userinfo-redacted]".toList ++ redactUserinfo (host.dropWhile inAuthority), ?_, ?_⟩
      · refine Word.append (forall_of_all (by decide)) (redactUserinfo_word fun c hc => ?_)
        exact hhost c ((List.dropWhile_suffix inAuthority).subset hc)
      · rw [redactUserinfo_append before hapart (.inr hcut), redactUserinfo_masked hat]
        rfl
    · refine ⟨redactUserinfo host, redactUserinfo_word hhost, ?_⟩
      rw [redactUserinfo_append before hapart (.inr hcut), redactUserinfo_plain hat]
  obtain ⟨word, hword, hurl⟩ := hscheme
  obtain ⟨out, hout⟩ := redactQueries_hidden false (redactUserinfo before) hword
  refine ⟨out, fun query hopen => ?_⟩
  have hapart : Apart ('?' :: query) := by simp [Apart]
  have hat : ¬Open (before ++ ':' :: '/' :: '/' :: host) ∨ ¬HasAt ('?' :: query) := by
    rw [HasAt, List.dropWhile_cons_of_pos (by decide)]
    exact hopen
  have hcopy : redactUserinfo ('?' :: query) = '?' :: redactUserinfo query := redactUserinfo_cons rfl
  have hsplit : before ++ ':' :: '/' :: '/' :: (host ++ '?' :: query) =
      before ++ ':' :: '/' :: '/' :: host ++ '?' :: query := by simp
  rw [hsplit, maskUrls_append hapart hat, hurl, hcopy, ← redactUserinfo_dropWhile, ← hout]
  simp

theorem maskUrls_query_hides {before host q₁ q₂ post : List Char} (hhost : Word host) (h₁ : Word q₁) (h₂ : Word q₂)
    (hopen : ¬Open (before ++ ':' :: '/' :: '/' :: host) ∨ ¬HasAt (q₁ ++ post) ∧ ¬HasAt (q₂ ++ post)) :
    maskUrls (before ++ ':' :: '/' :: '/' :: (host ++ '?' :: (q₁ ++ post))) =
      maskUrls (before ++ ':' :: '/' :: '/' :: (host ++ '?' :: (q₂ ++ post))) := by
  obtain ⟨out, hout⟩ := @maskUrls_query before host hhost
  rw [hout _ (hopen.imp_right And.left), hout _ (hopen.imp_right And.right), dropWhile_word h₁, dropWhile_word h₂]

/-! ### Two lines that differ in one secret -/

/-- **Redaction hides the secrets of a line**: an unquoted value unless the mask of something before it has
swallowed the key alone, the userinfo of a URL, and the query of a URL unless an at sign in it ends an authority
that is still open. -/
theorem redact_hides_secrets :
    (∀ (before : List Char) (a : Assignment) (v₁ v₂ : Value) (post : List Char), Bounded before →
      IsLine (before ++ (a.text ++ (v₁.text ++ post))) → (a.Spaced → ¬Swallows before) →
        ((∃ q ∈ before, isQuote q = true) → EndAlike v₁ v₂ post) →
          redact (before ++ (a.text ++ (v₁.text ++ post))) = redact (before ++ (a.text ++ (v₂.text ++ post)))) ∧
      (∀ before u₁ u₂ after : List Char, (∀ c ∈ u₁, inAuthority c = true) → (∀ c ∈ u₂, inAuthority c = true) →
        IsLine (before ++ (':' :: '/' :: '/' :: (u₁ ++ '@' :: after))) →
          redact (before ++ (':' :: '/' :: '/' :: (u₁ ++ '@' :: after))) =
            redact (before ++ (':' :: '/' :: '/' :: (u₂ ++ '@' :: after)))) ∧
      ∀ before host q₁ q₂ post : List Char, Word host → Word q₁ → Word q₂ →
        IsLine (before ++ ':' :: '/' :: '/' :: (host ++ '?' :: (q₁ ++ post))) →
          ¬Open (before ++ ':' :: '/' :: '/' :: host) ∨ ¬HasAt (q₁ ++ post) ∧ ¬HasAt (q₂ ++ post) →
            redact (before ++ ':' :: '/' :: '/' :: (host ++ '?' :: (q₁ ++ post))) =
              redact (before ++ ':' :: '/' :: '/' :: (host ++ '?' :: (q₂ ++ post))) := by
  refine ⟨?_, ?_, ?_⟩
  · intro before a v₁ v₂ post hbound hline hspaced halike
    have hvalue : v₁.text ++ post ≠ [] := fun hnil => v₁.nonempty (List.append_eq_nil_iff.mp hnil).1
    have hbreak : '\n' ∉ a.text := hline.right.not_mem hvalue
    have hline' : IsLine (before ++ (a.text ++ (v₂.text ++ post))) := by
      rw [← List.append_assoc] at hline ⊢
      exact hline.replace hvalue v₂.not_break
    rw [redact_line hline, redact_line hline']
    exact redactOne_of_maskSecrets (maskSecrets_assignment hbound hbreak hspaced halike)
  · intro before u₁ u₂ after h₁ h₂ hline
    have hword : '\n' ∉ ':' :: '/' :: '/' :: u₂ := by
      intro hmem
      rcases List.mem_append.mp (show '\n' ∈ [':', '/', '/'] ++ u₂ from hmem) with hmem | hmem
      · exact absurd hmem (by decide)
      · exact absurd (h₂ _ hmem) (by decide)
    have hline' : IsLine (before ++ (':' :: '/' :: '/' :: (u₂ ++ '@' :: after))) :=
      @IsLine.replace before (':' :: '/' :: '/' :: u₁) _ _ hline (List.cons_ne_nil _ _) hword
    rw [redact_line hline, redact_line hline']
    refine redactOne_of_maskUrls (congrArg (redactQueries false) ?_)
    rw [redactUserinfo_hidden h₁, redactUserinfo_hidden h₂]
  · intro before host q₁ q₂ post hhost h₁ h₂ hline hopen
    have hsplit : ∀ q : List Char, before ++ ':' :: '/' :: '/' :: (host ++ '?' :: (q ++ post)) =
        before ++ ':' :: '/' :: '/' :: host ++ ('?' :: q ++ post) := by
      intro q
      simp
    have hword : '\n' ∉ '?' :: q₂ := by
      rw [List.mem_cons, not_or]
      exact ⟨by decide, not_break_of_word h₂⟩
    have hline' : IsLine (before ++ ':' :: '/' :: '/' :: (host ++ '?' :: (q₂ ++ post))) := by
      rw [hsplit] at hline ⊢
      exact hline.replace (List.cons_ne_nil _ _) hword
    rw [redact_line hline, redact_line hline']
    exact redactOne_of_maskUrls (maskUrls_query_hides hhost h₁ h₂ hopen)

/-- One line for each kind of secret. -/
theorem redact_hides_secrets_example :
    redact "fetch token = abc end".toList = redact "fetch token = xyz end".toList ∧
      redact "get http://a:b@h/p".toList = redact "get http://c@h/p".toList ∧
      redact "get http://h/p?a=1 x".toList = redact "get http://h/p?b x".toList := by
  have hfirst : ¬Swallows "fetch ".toList := by
    intro h
    have hone := h ['a'] [] (List.cons_ne_nil _ _) (forall_of_all (by decide)) atBlank_nil
    exact absurd hone (by decide +kernel)
  have hbounded : Bounded "fetch ".toList := by
    intro c hc
    have hlast : "fetch ".toList.getLast? = some ' ' := by decide
    obtain rfl : ' ' = c := Option.some.inj (hlast.symm.trans hc)
    decide
  have hplain : ∀ c ∈ "fetch ".toList, ¬isQuote c = true := forall_of_all (by decide)
  refine ⟨?_, ?_, ?_⟩
  · exact redact_hides_secrets.1 "fetch ".toList
      ⟨"token".toList, "token".toList, [' '], '=', [' '], by decide, by decide, forall_of_all (by decide), by decide,
        forall_of_all (by decide)⟩
      ⟨"abc".toList, by decide, forall_of_all (by decide)⟩ ⟨"xyz".toList, by decide, forall_of_all (by decide)⟩
      " end".toList hbounded (by decide) (fun _ => hfirst) (fun ⟨q, hq, hquote⟩ => absurd hquote (hplain q hq))
  · exact redact_hides_secrets.2.1 "get http".toList "a:b".toList "c".toList "h/p".toList (forall_of_all (by decide))
      (forall_of_all (by decide)) (by decide)
  · refine redact_hides_secrets.2.2 "get http".toList "h/p".toList "a=1".toList "b".toList " x".toList
      (forall_of_all (by decide)) (forall_of_all (by decide)) (forall_of_all (by decide)) (by decide) (.inr ⟨by decide, by decide⟩)

/-- A mask that swallows the key and not the blank behind it leaves the value; and in an open quote the value's colon
makes a URL of what follows. -/
theorem swallowed_key_leaks :
    redact "http://h?token= x".toList ≠ redact "http://h?token= y".toList ∧
      redact "password=token = x".toList ≠ redact "password=token = y".toList ∧
      redact "password='token=a://q'@h' s".toList ≠ redact "password='token=b//q'@h' s".toList := by
  decide +kernel

end FluxRs.Bugreport
