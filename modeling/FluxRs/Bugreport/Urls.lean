import FluxRs.Bugreport.Redact

/-!
# FluxRs.Bugreport.Urls — what the URL scanners do to the parts of a line

The userinfo scanner and the query scanner on a line in two parts.  Neither looks over a blank, and in one
word only an authority or a query that is still open at the cut reaches into the second part.
-/

namespace FluxRs.Bugreport

open FluxRs.Lib Rewrite

/-! ### Words -/

def nonblank (c : Char) : Bool := !isAsciiWhitespace c

/-- The text ends, or a blank comes next. -/
def AtBlank (text : List Char) : Prop := ∀ c, text.head? = some c → isAsciiWhitespace c = true

/-- No symbol of the text is a blank. -/
def Word (text : List Char) : Prop := ∀ c ∈ text, isAsciiWhitespace c = false

/-- Whether all symbols of a text have a property is a computation. -/
theorem forall_of_all {p : Char → Prop} [DecidablePred p] {text : List Char}
    (h : (text.all fun c => decide (p c)) = true) : ∀ c ∈ text, p c :=
  fun c hc => of_decide_eq_true (List.all_eq_true.mp h c hc)

theorem Word.append {text more : List Char} (h : Word text) (h' : Word more) : Word (text ++ more) := by
  intro c hc
  rcases List.mem_append.mp hc with hc | hc
  · exact h c hc
  · exact h' c hc

theorem Word.tail {c : Char} {text : List Char} (h : Word (c :: text)) : Word text :=
  fun d hd => h d (List.mem_cons_of_mem _ hd)

theorem atBlank_nil : AtBlank [] := by
  intro c h
  cases h

theorem dropWhile_word {text : List Char} (h : Word text) (more : List Char) :
    (text ++ more).dropWhile nonblank = more.dropWhile nonblank := by
  refine List.dropWhile_append_of_pos fun c hc => ?_
  rw [nonblank, h c hc]
  rfl

theorem dropWhile_atBlank {text : List Char} (h : AtBlank text) : text.dropWhile nonblank = text := by
  cases text with
  | nil => rfl
  | cons c text =>
    rw [List.dropWhile_cons_of_neg]
    rw [nonblank, h c rfl]
    exact Bool.false_ne_true

theorem word_takeWhile (text : List Char) : Word (text.takeWhile nonblank) := by
  intro c hc
  have hpos := List.mem_takeWhile_imp hc
  simpa [nonblank] using hpos

theorem atBlank_dropWhile (text : List Char) : AtBlank (text.dropWhile nonblank) := by
  intro c hc
  have hneg := List.head?_dropWhile_not nonblank text
  rw [hc] at hneg
  simpa [nonblank] using hneg

theorem getLast?_dropWhile {p : Char → Bool} {text : List Char} (h : text.dropWhile p ≠ []) :
    (text.dropWhile p).getLast? = text.getLast? := by
  conv_rhs => rw [← List.takeWhile_append_dropWhile (p := p) (l := text)]
  rw [List.getLast?_append]
  cases hlast : (text.dropWhile p).getLast? with
  | none => exact absurd (List.getLast?_eq_none_iff.mp hlast) h
  | some c => rfl

/-- Where the second part starts no scheme goes on that the first part began. -/
def Apart (text : List Char) : Prop := text.head? ≠ some '/'

theorem AtBlank.apart {text : List Char} (h : AtBlank text) : Apart text := by
  intro hslash
  exact absurd (h '/' hslash) (by decide)

/-! ### The userinfo scanner -/

/-- An at sign ends the authority at the front of the text. -/
def HasAt (text : List Char) : Prop := (text.dropWhile inAuthority).head? = some '@'

instance (text : List Char) : Decidable (HasAt text) := inferInstanceAs (Decidable (_ = _))

/-- A scheme's separator is at the front of the text. -/
def isScheme : List Char → Bool
  | ':' :: '/' :: '/' :: _ => true
  | _ => false

theorem isScheme_iff {text : List Char} : isScheme text = true ↔ ∃ rest, text = ':' :: '/' :: '/' :: rest := by
  constructor
  · intro h
    unfold isScheme at h
    split at h
    · rename_i rest
      exact ⟨rest, rfl⟩
    · cases h
  · rintro ⟨rest, rfl⟩
    rfl

/-- An authority is open where the text ends. -/
def Open (text : List Char) : Prop :=
  ∃ before inside, text = before ++ ':' :: '/' :: '/' :: inside ∧ ∀ c ∈ inside, inAuthority c = true

theorem Open.of_suffix {text whole : List Char} (h : Open text) (hsuffix : text <:+ whole) : Open whole := by
  obtain ⟨before, rfl⟩ := hsuffix
  obtain ⟨pre, inside, rfl, hinside⟩ := h
  exact ⟨before ++ pre, inside, (List.append_assoc _ _ _).symm, hinside⟩

theorem isScheme_append {c : Char} {text more : List Char} (h : Apart more) :
    isScheme (c :: (text ++ more)) = isScheme (c :: text) := by
  rw [Bool.eq_iff_iff, isScheme_iff, isScheme_iff]
  constructor
  · rintro ⟨rest, hrest⟩
    match text, hrest with
    | [], hrest =>
      simp only [List.nil_append, List.cons.injEq] at hrest
      obtain ⟨-, rfl⟩ := hrest
      exact absurd rfl h
    | [d], hrest =>
      simp only [List.cons_append, List.nil_append, List.cons.injEq] at hrest
      obtain ⟨-, -, rfl⟩ := hrest
      exact absurd rfl h
    | d :: e :: text, hrest =>
      simp only [List.cons_append, List.cons.injEq] at hrest
      obtain ⟨rfl, rfl, rfl, -⟩ := hrest
      exact ⟨text, rfl⟩
  · rintro ⟨rest, hrest⟩
    exact ⟨rest ++ more, by rw [← List.cons_append, hrest]; rfl⟩

theorem redactUserinfo_prev (prev prev' : Option Char) (text : List Char) :
    userinfoRule.scan ⟨prev, text⟩ = userinfoRule.scan ⟨prev', text⟩ := by
  cases h : userinfoRule.rewrite ⟨prev, text⟩ with
  | some result =>
    have h' : userinfoRule.rewrite ⟨prev', text⟩ = some result := h
    rw [Rule.scan_of_some h, Rule.scan_of_some h']
  | none =>
    have h' : userinfoRule.rewrite ⟨prev', text⟩ = none := h
    cases text with
    | nil => rw [Rule.scan_nil, Rule.scan_nil]
    | cons c text => rw [Rule.scan_of_none h, Rule.scan_of_none h']

@[simp] theorem redactUserinfo_nil : redactUserinfo [] = [] := Rule.scan_nil none

theorem redactUserinfo_masked {text : List Char} (h : HasAt text) :
    redactUserinfo (':' :: '/' :: '/' :: text) =
      "://[userinfo-redacted]".toList ++ redactUserinfo (text.dropWhile inAuthority) := by
  have hstop : (Cursor.skip inAuthority ⟨some '/', text⟩).rest = text.dropWhile inAuthority := Cursor.skip_rest _ _
  have hrule : userinfoRule.rewrite ⟨none, ':' :: '/' :: '/' :: text⟩ =
      some ("://[userinfo-redacted]".toList, Cursor.skip inAuthority ⟨some '/', text⟩) := by
    refine if_pos ?_
    rw [hstop]
    exact h
  rw [redactUserinfo, Rule.scan_of_some hrule, redactUserinfo, ← hstop, redactUserinfo_prev]

theorem redactUserinfo_plain {text : List Char} (h : ¬HasAt text) :
    redactUserinfo (':' :: '/' :: '/' :: text) = ':' :: '/' :: '/' :: redactUserinfo text := by
  have hstop : (Cursor.skip inAuthority ⟨some '/', text⟩).rest = text.dropWhile inAuthority := Cursor.skip_rest _ _
  have hrule : userinfoRule.rewrite ⟨none, ':' :: '/' :: '/' :: text⟩ = some ("://".toList, ⟨some '/', text⟩) := by
    refine if_neg ?_
    rw [hstop]
    exact h
  rw [redactUserinfo, Rule.scan_of_some hrule, redactUserinfo, redactUserinfo_prev]
  rfl

theorem redactUserinfo_cons {c : Char} {text : List Char} (h : isScheme (c :: text) = false) :
    redactUserinfo (c :: text) = c :: redactUserinfo text := by
  have hrule : userinfoRule.rewrite ⟨none, c :: text⟩ = none := by
    show (match c :: text with
      | ':' :: '/' :: '/' :: cs => _
      | _ => none) = none
    split
    · rename_i cs hcs
      rw [hcs] at h
      cases h
    · rfl
  rw [redactUserinfo, Rule.scan_of_none hrule, redactUserinfo, redactUserinfo_prev]

/-- The cases of the userinfo scanner. -/
theorem userinfo_induction {motive : List Char → Prop} (nil : motive [])
    (masked : ∀ text, HasAt text → motive (text.dropWhile inAuthority) → motive (':' :: '/' :: '/' :: text))
    (plain : ∀ text, ¬HasAt text → motive text → motive (':' :: '/' :: '/' :: text))
    (copy : ∀ c text, isScheme (c :: text) = false → motive text → motive (c :: text)) (text : List Char) :
    motive text := by
  induction hn : text.length using Nat.strongRecOn generalizing text with
  | _ n ih =>
    subst hn
    cases text with
    | nil => exact nil
    | cons c text =>
      cases hscheme : isScheme (c :: text) with
      | true =>
        obtain ⟨rest, hrest⟩ := isScheme_iff.mp hscheme
        rw [hrest] at ih ⊢
        by_cases hat : HasAt rest
        · have hdrop := (List.dropWhile_sublist inAuthority (l := rest)).length_le
          refine masked rest hat (ih _ ?_ _ rfl)
          simp only [List.length_cons]
          omega
        · refine plain rest hat (ih _ ?_ _ rfl)
          simp only [List.length_cons]
          omega
      | false => exact copy c text hscheme (ih _ (Nat.lt_succ_self _) _ rfl)

theorem hasAt_append {text more : List Char} (h : ¬(∀ c ∈ text, inAuthority c = true) ∨ ¬HasAt more) :
    HasAt (text ++ more) ↔ HasAt text := by
  unfold HasAt
  by_cases hall : ∀ c ∈ text, inAuthority c = true
  · have hmore := h.resolve_left (not_not_intro hall)
    rw [List.dropWhile_append_of_pos hall, List.dropWhile_eq_nil_iff.mpr hall]
    exact iff_of_false hmore (by simp)
  · have hne : text.dropWhile inAuthority ≠ [] := fun hnil => hall (List.dropWhile_eq_nil_iff.mp hnil)
    rw [List.dropWhile_append, if_neg (by simpa using hne), List.head?_append]
    cases hdrop : text.dropWhile inAuthority with
    | nil => exact absurd hdrop hne
    | cons c rest => rfl

theorem dropWhile_append_of_hasAt {text : List Char} (h : HasAt text) (more : List Char) :
    (text ++ more).dropWhile inAuthority = text.dropWhile inAuthority ++ more := by
  rw [List.dropWhile_append, if_neg]
  intro hempty
  rw [HasAt, List.isEmpty_iff.mp hempty] at h
  cases h

/-- **The userinfo scanner takes a line in parts** where no authority that is open at the cut is ended by an at
sign behind it. -/
theorem redactUserinfo_append (text : List Char) {more : List Char} (hapart : Apart more) :
    ¬Open text ∨ ¬HasAt more → redactUserinfo (text ++ more) = redactUserinfo text ++ redactUserinfo more := by
  induction text using userinfo_induction with
  | nil => exact fun _ => by rw [redactUserinfo_nil, List.nil_append, List.nil_append]
  | masked text hat ih =>
    intro h
    have hopen : ¬Open (text.dropWhile inAuthority) ∨ ¬HasAt more :=
      h.imp_left fun hno hopen => hno (hopen.of_suffix ((List.dropWhile_suffix _).trans (List.suffix_append [':', '/', '/'] _)))
    have hall : ¬∀ c ∈ text, inAuthority c = true := by
      intro hall
      rw [HasAt, List.dropWhile_eq_nil_iff.mpr hall] at hat
      cases hat
    have hwhole : HasAt (text ++ more) := (hasAt_append (.inl hall)).mpr hat
    rw [List.cons_append, List.cons_append, List.cons_append, redactUserinfo_masked hwhole, redactUserinfo_masked hat,
      dropWhile_append_of_hasAt hat, ih hopen, List.append_assoc]
  | plain text hat ih =>
    intro h
    have hopen : ¬Open text ∨ ¬HasAt more :=
      h.imp_left fun hno hopen => hno (hopen.of_suffix (List.suffix_append [':', '/', '/'] _))
    have hwhole : ¬HasAt (text ++ more) := by
      rw [hasAt_append]
      · exact hat
      · exact h.imp_left fun hno hall => hno ⟨[], text, rfl, hall⟩
    rw [List.cons_append, List.cons_append, List.cons_append, redactUserinfo_plain hwhole, redactUserinfo_plain hat,
      ih hopen]
    rfl
  | copy c text hscheme ih =>
    intro h
    have hopen : ¬Open text ∨ ¬HasAt more := h.imp_left fun hno hopen => hno (hopen.of_suffix (List.suffix_cons c text))
    rw [List.cons_append, redactUserinfo_cons, redactUserinfo_cons hscheme, ih hopen, List.cons_append]
    rw [isScheme_append hapart, hscheme]

/-- What stands between a scheme and the first at sign is masked. -/
theorem redactUserinfo_hidden {before inside : List Char} (h : ∀ c ∈ inside, inAuthority c = true) (after : List Char) :
    redactUserinfo (before ++ ':' :: '/' :: '/' :: (inside ++ '@' :: after)) =
      redactUserinfo before ++ "://[userinfo-redacted]".toList ++ redactUserinfo ('@' :: after) := by
  have hdrop : (inside ++ '@' :: after).dropWhile inAuthority = '@' :: after := by
    rw [List.dropWhile_append_of_pos h, List.dropWhile_cons_of_neg (by decide)]
  have hat : HasAt (inside ++ '@' :: after) := by
    rw [HasAt, hdrop]
    rfl
  have hcut : ¬HasAt (':' :: '/' :: '/' :: (inside ++ '@' :: after)) := by
    rw [HasAt, List.dropWhile_cons_of_pos (by decide), List.dropWhile_cons_of_neg (by decide)]
    simp
  have hapart : Apart (':' :: '/' :: '/' :: (inside ++ '@' :: after)) := by
    simp [Apart]
  rw [redactUserinfo_append before hapart (.inr hcut), redactUserinfo_masked hat, hdrop,
    List.append_assoc]

theorem AtBlank.not_hasAt {text : List Char} (h : AtBlank text) : ¬HasAt text := by
  cases text with
  | nil => simp [HasAt]
  | cons c text =>
    have hblank := h c rfl
    have hstop : inAuthority c = false := by
      simp [inAuthority, hblank]
    have hat : c ≠ '@' := by
      rintro rfl
      exact absurd hblank (by decide)
    rw [HasAt, List.dropWhile_cons_of_neg (by rw [hstop]; exact Bool.false_ne_true)]
    simpa using hat

theorem redactUserinfo_atBlank (text : List Char) {more : List Char} (h : AtBlank more) :
    redactUserinfo (text ++ more) = redactUserinfo text ++ redactUserinfo more :=
  redactUserinfo_append text h.apart (.inr h.not_hasAt)

theorem redactUserinfo_head (text : List Char) : (redactUserinfo text).head? = text.head? := by
  induction text using userinfo_induction with
  | nil => rw [redactUserinfo_nil]
  | masked text hat ih =>
    rw [redactUserinfo_masked hat]
    rfl
  | plain text hat ih =>
    rw [redactUserinfo_plain hat]
    rfl
  | copy c text hscheme ih =>
    rw [redactUserinfo_cons hscheme]
    rfl

theorem redactUserinfo_last (text : List Char) : (redactUserinfo text).getLast? = text.getLast? := by
  induction text using userinfo_induction with
  | nil => rw [redactUserinfo_nil]
  | masked text hat ih =>
    have hdrop : (text.dropWhile inAuthority).getLast? = text.getLast? := by
      refine getLast?_dropWhile fun hnil => ?_
      rw [HasAt, hnil] at hat
      cases hat
    rw [redactUserinfo_masked hat, List.getLast?_append, ih, hdrop, List.getLast?_cons, List.getLast?_cons,
      List.getLast?_cons]
    cases ht : text.getLast? with
    | none =>
      rw [List.getLast?_eq_none_iff.mp ht] at hat
      cases hat
    | some c => rfl
  | plain text hat ih =>
    rw [redactUserinfo_plain hat]
    simp only [List.getLast?_cons, ih]
  | copy c text hscheme ih => rw [redactUserinfo_cons hscheme, List.getLast?_cons, List.getLast?_cons, ih]

theorem redactUserinfo_word {text : List Char} : Word text → Word (redactUserinfo text) := by
  induction text using userinfo_induction with
  | nil =>
    rw [redactUserinfo_nil]
    exact id
  | masked text hat ih =>
    intro h
    rw [redactUserinfo_masked hat]
    refine Word.append (forall_of_all (by decide)) (ih fun c hc => ?_)
    exact h c (List.mem_cons_of_mem _ (List.mem_cons_of_mem _ (List.mem_cons_of_mem _ ((List.dropWhile_sublist _).subset hc))))
  | plain text hat ih =>
    intro h
    rw [redactUserinfo_plain hat]
    exact @Word.append [':', '/', '/'] _ (forall_of_all (by decide)) (ih h.tail.tail.tail)
  | copy c text hscheme ih =>
    intro h
    rw [redactUserinfo_cons hscheme]
    exact @Word.append [c] _ (fun d hd => h d (List.mem_cons.mpr (.inl (List.mem_singleton.mp hd)))) (ih h.tail)

/-- A text without a slash is no URL. -/
theorem redactUserinfo_self {text : List Char} (h : '/' ∉ text) : redactUserinfo text = text := by
  induction text with
  | nil => exact redactUserinfo_nil
  | cons c text ih =>
    rw [List.mem_cons, not_or] at h
    rw [redactUserinfo_cons, ih h.2]
    by_contra hscheme
    obtain ⟨rest, hrest⟩ := isScheme_iff.mp (Bool.not_eq_false _ ▸ hscheme)
    obtain ⟨-, rfl⟩ := List.cons_eq_cons.mp hrest
    exact h.2 List.mem_cons_self

/-- What the scanner leaves of the first word is one word. -/
theorem redactUserinfo_dropWhile (text : List Char) :
    (redactUserinfo text).dropWhile nonblank = redactUserinfo (text.dropWhile nonblank) := by
  conv_lhs => rw [← List.takeWhile_append_dropWhile (p := nonblank) (l := text)]
  have hblank := atBlank_dropWhile text
  have hblank' : AtBlank (redactUserinfo (text.dropWhile nonblank)) := by
    intro c hc
    rw [redactUserinfo_head] at hc
    exact hblank c hc
  rw [redactUserinfo_atBlank _ hblank, dropWhile_word (redactUserinfo_word (word_takeWhile text)),
    dropWhile_atBlank hblank']

/-- The separator of a scheme lies across the cut. -/
def Joins (text more : List Char) : Prop := text.getLast? = some ':' ∧ "//".toList <+: more

theorem Joins.cons {text more : List Char} (h : Joins text more) (c : Char) : Joins (c :: text) more := by
  refine ⟨?_, h.2⟩
  rw [List.getLast?_cons, h.1]
  rfl

theorem isScheme_literal {c : Char} {text more : List Char} (hslash : '/' ∉ c :: text) (hjoin : ¬Joins (c :: text) more) :
    isScheme (c :: (text ++ more)) = false := by
  by_contra hscheme
  obtain ⟨rest, hrest⟩ := isScheme_iff.mp (Bool.not_eq_false _ ▸ hscheme)
  obtain ⟨rfl, htext⟩ := List.cons_eq_cons.mp hrest
  cases text with
  | nil => exact hjoin ⟨rfl, rest, htext.symm⟩
  | cons d text =>
    obtain ⟨rfl, -⟩ := List.cons_eq_cons.mp htext
    exact hslash (List.mem_cons_of_mem _ List.mem_cons_self)

/-- A text without a slash in front of another is copied. -/
theorem redactUserinfo_literal {text more : List Char} (hslash : '/' ∉ text) (hjoin : ¬Joins text more) :
    redactUserinfo (text ++ more) = text ++ redactUserinfo more := by
  induction text with
  | nil => rfl
  | cons c text ih =>
    rw [List.cons_append, redactUserinfo_cons (isScheme_literal hslash hjoin),
      ih (fun h => hslash (List.mem_cons_of_mem c h)) (fun h => hjoin (h.cons c)), List.cons_append]

/-! ### The query scanner -/

theorem isPrefixOf_scheme (text : List Char) : "://".toList.isPrefixOf text = isScheme text := by
  rw [Bool.eq_iff_iff, List.isPrefixOf_iff_prefix, isScheme_iff]
  constructor
  · rintro ⟨rest, rfl⟩
    exact ⟨rest, rfl⟩
  · rintro ⟨rest, rfl⟩
    exact ⟨rest, rfl⟩

theorem redactQueries_blank {c : Char} (h : isAsciiWhitespace c = true) (inUrl : Bool) (text : List Char) :
    redactQueries inUrl (c :: text) = c :: redactQueries false text := by
  rw [redactQueries, if_pos h]

theorem redactQueries_query {text : List Char} (inUrl : Bool) (h : inUrl = true) :
    redactQueries inUrl ('?' :: text) = "?[query-redacted]".toList ++ redactQueries false (text.dropWhile nonblank) := by
  rw [redactQueries, if_neg (by decide)]
  simp only [h, Bool.true_or, Bool.true_and]
  rw [if_pos (by decide)]
  rfl

theorem redactQueries_cons {c : Char} {inUrl : Bool} (h : isAsciiWhitespace c = false) (hquery : inUrl = false ∨ c ≠ '?')
    (text : List Char) :
    redactQueries inUrl (c :: text) = c :: redactQueries (inUrl || isScheme (c :: text)) text := by
  rw [redactQueries, if_neg (by rw [h]; exact Bool.false_ne_true)]
  simp only [isPrefixOf_scheme]
  rw [if_neg]
  simp only [Bool.and_eq_true, Bool.or_eq_true, beq_iff_eq, not_and]
  intro hurl hc
  subst hc
  rcases hquery with hfalse | hne
  · rw [hfalse] at hurl
    rcases hurl with hurl | hurl
    · cases hurl
    · obtain ⟨rest, hrest⟩ := isScheme_iff.mp hurl
      cases hrest
  · exact hne rfl

@[simp] theorem redactQueries_nil (inUrl : Bool) : redactQueries inUrl [] = [] := by
  rw [redactQueries]

theorem redactQueries_atBlank {text : List Char} (h : AtBlank text) (inUrl : Bool) :
    redactQueries inUrl text = redactQueries false text := by
  cases text with
  | nil => rw [redactQueries_nil, redactQueries_nil]
  | cons c text => rw [redactQueries_blank (h c rfl), redactQueries_blank (h c rfl)]

/-- A query is open where the text ends: what comes next in the word is dropped. -/
def InQuery (inUrl : Bool) (text : List Char) : Prop :=
  (∀ more, Apart more →
      redactQueries inUrl (text ++ more) = redactQueries inUrl text ++ redactQueries false (more.dropWhile nonblank)) ∧
    (redactQueries inUrl text).getLast? = some ']'

/-- The scanner goes on behind the text with this flag. -/
def GoesOn (inUrl : Bool) (text : List Char) (after : Bool) : Prop :=
  (∀ more, Apart more → redactQueries inUrl (text ++ more) = redactQueries inUrl text ++ redactQueries after more) ∧
    (redactQueries inUrl text).getLast? = text.getLast?

theorem InQuery.of_query {inUrl : Bool} (hurl : inUrl = true) {word : List Char} (h : Word word) :
    InQuery inUrl ('?' :: word) := by
  have hnil := dropWhile_word h []
  rw [List.append_nil, List.dropWhile_nil] at hnil
  refine ⟨fun more _ => ?_, ?_⟩
  · rw [List.cons_append, redactQueries_query inUrl hurl, redactQueries_query inUrl hurl, dropWhile_word h, hnil,
      redactQueries_nil, List.append_nil]
  · rw [redactQueries_query inUrl hurl, hnil, redactQueries_nil]
    rfl

theorem InQuery.cons {c : Char} {text : List Char} {inUrl inUrl' : Bool} (h : InQuery inUrl' text)
    (hstep : ∀ more, Apart more → redactQueries inUrl (c :: (text ++ more)) = c :: redactQueries inUrl' (text ++ more)) :
    InQuery inUrl (c :: text) := by
  have htext := hstep [] (by simp [Apart])
  rw [List.append_nil] at htext
  refine ⟨fun more hapart => ?_, ?_⟩
  · rw [List.cons_append, hstep more hapart, h.1 more hapart, htext, List.cons_append]
  · rw [htext, List.getLast?_cons, h.2]
    rfl

theorem GoesOn.nil (inUrl : Bool) : GoesOn inUrl [] inUrl := by
  refine ⟨fun more _ => ?_, ?_⟩
  · rw [redactQueries_nil, List.nil_append, List.nil_append]
  · rw [redactQueries_nil]

theorem GoesOn.cons {c : Char} {text : List Char} {inUrl inUrl' after : Bool} (h : GoesOn inUrl' text after)
    (hstep : ∀ more, Apart more → redactQueries inUrl (c :: (text ++ more)) = c :: redactQueries inUrl' (text ++ more)) :
    GoesOn inUrl (c :: text) after := by
  have htext := hstep [] (by simp [Apart])
  rw [List.append_nil] at htext
  refine ⟨fun more hapart => ?_, ?_⟩
  · rw [List.cons_append, hstep more hapart, h.1 more hapart, htext, List.cons_append]
  · rw [htext, List.getLast?_cons, List.getLast?_cons, h.2]

/-- **The query scanner takes a line in parts**: at the cut a query is open, or a flag says what comes next. -/
theorem redactQueries_cut (inUrl : Bool) (text : List Char) : InQuery inUrl text ∨ ∃ after, GoesOn inUrl text after := by
  induction hn : text.length using Nat.strongRecOn generalizing inUrl text with
  | _ n ih =>
    subst hn
    cases text with
    | nil => exact .inr ⟨inUrl, GoesOn.nil inUrl⟩
    | cons c text =>
      cases hblank : isAsciiWhitespace c with
      | true =>
        have hstep : ∀ more, Apart more → redactQueries inUrl (c :: (text ++ more)) = c :: redactQueries false (text ++ more) :=
          fun more _ => redactQueries_blank hblank inUrl _
        exact (ih _ (Nat.lt_succ_self _) false text rfl).imp (fun h => h.cons hstep) fun ⟨after, h⟩ => ⟨after, h.cons hstep⟩
      | false =>
        by_cases hquery : inUrl = true ∧ c = '?'
        · obtain ⟨hurl, rfl⟩ := hquery
          by_cases hword : Word text
          · exact .inl (InQuery.of_query hurl hword)
          · have hne : text.dropWhile nonblank ≠ [] := by
              intro hnil
              refine hword fun c hc => ?_
              have hpos := List.dropWhile_eq_nil_iff.mp hnil c hc
              simpa [nonblank] using hpos
            have hdrop : ∀ more, (text ++ more).dropWhile nonblank = text.dropWhile nonblank ++ more := by
              intro more
              rw [List.dropWhile_append, if_neg (by simpa using hne)]
            have hshort : (text.dropWhile nonblank).length < ('?' :: text).length :=
              Nat.lt_succ_of_le (List.dropWhile_sublist _).length_le
            rcases ih _ hshort false _ rfl with h | ⟨after, h⟩
            · refine .inl ⟨fun more hapart => ?_, ?_⟩
              · rw [List.cons_append, redactQueries_query inUrl hurl, redactQueries_query inUrl hurl, hdrop,
                  h.1 more hapart, List.append_assoc]
              · rw [redactQueries_query inUrl hurl, List.getLast?_append, h.2]
                rfl
            · refine .inr ⟨after, fun more hapart => ?_, ?_⟩
              · rw [List.cons_append, redactQueries_query inUrl hurl, redactQueries_query inUrl hurl, hdrop,
                  h.1 more hapart, List.append_assoc]
              · rw [redactQueries_query inUrl hurl, List.getLast?_append, h.2, getLast?_dropWhile hne, List.getLast?_cons]
                cases hlast : text.getLast? with
                | none => exact absurd (congrArg _ (List.getLast?_eq_none_iff.mp hlast)) hne
                | some c => rfl
        · have hne : inUrl = false ∨ c ≠ '?' := by
            by_contra hboth
            rw [not_or, Bool.not_eq_false, not_not] at hboth
            exact hquery hboth
          have hstep : ∀ more, Apart more → redactQueries inUrl (c :: (text ++ more)) =
              c :: redactQueries (inUrl || isScheme (c :: text)) (text ++ more) := by
            intro more hapart
            rw [redactQueries_cons hblank hne, isScheme_append hapart]
          exact (ih _ (Nat.lt_succ_self _) _ text rfl).imp (fun h => h.cons hstep) fun ⟨after, h⟩ => ⟨after, h.cons hstep⟩

theorem redactQueries_append_atBlank (inUrl : Bool) (text : List Char) {more : List Char} (h : AtBlank more) :
    redactQueries inUrl (text ++ more) = redactQueries inUrl text ++ redactQueries false more := by
  rcases redactQueries_cut inUrl text with hcut | ⟨after, hcut⟩
  · rw [hcut.1 more h.apart, dropWhile_atBlank h]
  · rw [hcut.1 more h.apart, redactQueries_atBlank h]

theorem redactQueries_head (inUrl : Bool) (text : List Char) : (redactQueries inUrl text).head? = text.head? := by
  cases text with
  | nil => rw [redactQueries_nil]
  | cons c text =>
    cases hblank : isAsciiWhitespace c with
    | true =>
      rw [redactQueries_blank hblank]
      rfl
    | false =>
      by_cases hquery : inUrl = true ∧ c = '?'
      · obtain ⟨hurl, rfl⟩ := hquery
        rw [redactQueries_query inUrl hurl]
        rfl
      · rw [redactQueries_cons hblank (by rw [← Bool.not_eq_true]; exact not_and_or.mp hquery)]
        rfl

theorem redactQueries_word {inUrl : Bool} {text : List Char} : Word text → Word (redactQueries inUrl text) := by
  induction text generalizing inUrl with
  | nil =>
    rw [redactQueries_nil]
    exact id
  | cons c text ih =>
    intro h
    have hblank := h c List.mem_cons_self
    by_cases hquery : inUrl = true ∧ c = '?'
    · obtain ⟨hurl, rfl⟩ := hquery
      have hnil := dropWhile_word h.tail []
      rw [List.append_nil, List.dropWhile_nil] at hnil
      rw [redactQueries_query inUrl hurl, hnil, redactQueries_nil, List.append_nil]
      exact forall_of_all (by decide)
    · rw [redactQueries_cons hblank (by rw [← Bool.not_eq_true]; exact not_and_or.mp hquery)]
      exact @Word.append [c] _ (fun d hd => List.mem_singleton.mp hd ▸ hblank) (ih h.tail)

/-- A text without a slash and a question mark in front of another is copied; a blank in it ends the URL. -/
theorem redactQueries_literal {text more : List Char} (hslash : '/' ∉ text) (hquery : '?' ∉ text)
    (hjoin : ¬Joins text more) (inUrl : Bool) :
    redactQueries inUrl (text ++ more) = text ++ redactQueries (inUrl && text.all nonblank) more := by
  induction text generalizing inUrl with
  | nil => rw [List.nil_append, List.nil_append, List.all_nil, Bool.and_true]
  | cons c text ih =>
    have ih := ih (fun h => hslash (List.mem_cons_of_mem c h)) (fun h => hquery (List.mem_cons_of_mem c h))
      fun h => hjoin (h.cons c)
    cases hblank : isAsciiWhitespace c with
    | true =>
      have hall : (c :: text).all nonblank = false := by
        rw [List.all_cons, nonblank, hblank]
        rfl
      rw [List.cons_append, redactQueries_blank hblank, ih, hall, Bool.and_false, Bool.false_and, List.cons_append]
    | false =>
      have hall : (c :: text).all nonblank = text.all nonblank := by
        rw [List.all_cons, nonblank, hblank]
        rfl
      have hne : c ≠ '?' := fun hc => hquery (hc ▸ List.mem_cons_self)
      rw [List.cons_append, redactQueries_cons hblank (.inr hne), isScheme_literal hslash hjoin, Bool.or_false, ih, hall,
        List.cons_append]

/-- After a scheme the word is a URL to its end, or to its query. -/
theorem redactQueries_inUrl {word : List Char} (h : Word word) : InQuery true word ∨ GoesOn true word true := by
  induction word with
  | nil => exact .inr (GoesOn.nil true)
  | cons c word ih =>
    have hblank := h c List.mem_cons_self
    by_cases hquery : c = '?'
    · subst hquery
      exact .inl (InQuery.of_query rfl h.tail)
    · have hstep : ∀ more, Apart more → redactQueries true (c :: (word ++ more)) = c :: redactQueries true (word ++ more) :=
        fun more _ => redactQueries_cons hblank (.inr hquery) _
      exact (ih h.tail).imp (fun h => h.cons hstep) fun h => h.cons hstep

/-- **The query of a URL is masked to the next blank**, whatever comes before the URL. -/
theorem redactQueries_hidden (inUrl : Bool) (before : List Char) {word : List Char} (h : Word word) :
    ∃ out, ∀ query, redactQueries inUrl (before ++ ':' :: '/' :: '/' :: (word ++ '?' :: query)) =
      out ++ redactQueries false (query.dropWhile nonblank) := by
  have hword : Word ('/' :: '/' :: word) := @Word.append ['/', '/'] _ (forall_of_all (by decide)) h
  rcases redactQueries_cut inUrl before with hcut | ⟨after, hcut⟩
  · refine ⟨redactQueries inUrl before, fun query => ?_⟩
    have hwhole : Word (':' :: '/' :: '/' :: (word ++ ['?'])) :=
      @Word.append [':', '/', '/'] _ (forall_of_all (by decide)) (h.append (forall_of_all (by decide)))
    have hsplit : ':' :: '/' :: '/' :: (word ++ '?' :: query) = ':' :: '/' :: '/' :: (word ++ ['?']) ++ query := by simp
    rw [hcut.1 _ (by simp [Apart]), hsplit, dropWhile_word hwhole]
  · have hscheme : ∀ query, redactQueries after (':' :: '/' :: '/' :: (word ++ '?' :: query)) =
        ':' :: redactQueries true ('/' :: '/' :: word ++ '?' :: query) := by
      intro query
      rw [redactQueries_cons (by decide) (.inr (by decide))]
      simp [isScheme]
    have hquery : ∀ query : List Char, Apart ('?' :: query) := fun query => by simp [Apart]
    rcases redactQueries_inUrl hword with hin | hon
    · refine ⟨redactQueries inUrl before ++ ':' :: redactQueries true ('/' :: '/' :: word), fun query => ?_⟩
      rw [hcut.1 _ (by simp [Apart]), hscheme, hin.1 _ (hquery query), List.dropWhile_cons_of_pos (by decide)]
      simp
    · refine ⟨redactQueries inUrl before ++ ':' :: redactQueries true ('/' :: '/' :: word) ++ "?[query-redacted]".toList,
        fun query => ?_⟩
      rw [hcut.1 _ (by simp [Apart]), hscheme, hon.1 _ (hquery query), redactQueries_query true rfl]
      simp

end FluxRs.Bugreport
