import FluxRs.Bugreport.Marks

/-!
# FluxRs.Bugreport.Members — the string values of a JSON text

A quote stands between a JSON key and its separator, so that neither the assignment scanner nor the tag scanner
takes the key for one of its own.  A value is hidden where something before it on its line hides all the rest.
-/

namespace FluxRs.Bugreport

open FluxRs.Lib Rewrite

/-! ### Lines of a text -/

/-- The text is whole lines. -/
def Ended (text : List Char) : Prop := ∀ c, text.getLast? = some c → c = '\n'

theorem splitInclusive_ne_nil {text : List Char} (h : text ≠ []) : splitInclusive text ≠ [] := by
  obtain ⟨c, cs, rfl⟩ := List.exists_cons_of_ne_nil h
  rw [splitInclusive]
  split
  · exact List.cons_ne_nil _ _
  · split
    · exact List.cons_ne_nil _ _
    · exact List.cons_ne_nil _ _

theorem splitInclusive_append {text : List Char} (more : List Char) :
    Ended text → splitInclusive (text ++ more) = splitInclusive text ++ splitInclusive more := by
  induction text with
  | nil => exact fun _ => rfl
  | cons c cs ih =>
    intro h
    have hcs : Ended cs := by
      intro d hd
      refine h d ?_
      rw [List.getLast?_cons, hd]
      rfl
    rw [List.cons_append, splitInclusive, splitInclusive]
    by_cases hc : c = '\n'
    · rw [if_pos hc, if_pos hc, ih hcs, List.cons_append]
    · have hne : cs ≠ [] := by
        rintro rfl
        exact hc (h c rfl)
      obtain ⟨line, lines, hlines⟩ := List.exists_cons_of_ne_nil (splitInclusive_ne_nil hne)
      rw [if_neg hc, if_neg hc, ih hcs, hlines]
      rfl

theorem redact_append {text : List Char} (h : Ended text) (more : List Char) :
    redact (text ++ more) = redact text ++ redact more := by
  rw [redact, splitInclusive_append more h, List.flatMap_append]
  rfl

/-- What stands behind the last line break. -/
def lastLine (text : List Char) : List Char := (text.reverse.takeWhile (· != '\n')).reverse

theorem not_mem_lastLine (text : List Char) : '\n' ∉ lastLine text := by
  intro hmem
  have hne := List.mem_takeWhile_imp (List.mem_reverse.mp hmem)
  simp at hne

theorem exists_lastLine (text : List Char) : ∃ before, text = before ++ lastLine text ∧ Ended before := by
  refine ⟨(text.reverse.dropWhile (· != '\n')).reverse, ?_, ?_⟩
  · rw [lastLine, ← List.reverse_append, List.takeWhile_append_dropWhile, List.reverse_reverse]
  · intro c hc
    rw [List.getLast?_reverse] at hc
    have hstop := List.head?_dropWhile_not (fun d : Char => d != '\n') text.reverse
    rw [hc] at hstop
    simpa using hstop

/-! ### Where the rest of a line is hidden -/

/-- A text that leaves every mode but that of a line open: no key and no quote in it, and a mark behind it is seen. -/
structure Neutral (text : List Char) : Prop where
  word : Word text
  head : text.head?.any Char.isAlpha = false
  quotes : ∀ q, isQuote q = true → q ∉ text
  seen : redactAssignments (text ++ " €".toList) ≠ redactAssignments text

theorem neutral_at : Neutral ['@'] where
  word := forall_of_all (by decide)
  head := by decide
  quotes q hq := by
    rw [List.mem_singleton]
    rintro rfl
    exact absurd hq (by decide)
  seen := by decide +kernel

theorem neutral_userinfo : Neutral "[userinfo-redacted]@".toList where
  word := forall_of_all (by decide)
  head := by decide
  quotes q hq := by
    simp only [isQuote, Bool.or_eq_true, beq_iff_eq] at hq
    rcases hq with rfl | rfl <;> decide
  seen := by decide +kernel

theorem Solid.fits {text : List Char} (h : Solid text) (more : List Char) : Fits text.getLast? more :=
  .inr fun c hc => (h c hc).2

theorem Solid.resume {text : List Char} (h : Solid text) (more : List Char) :
    redactAssignments (text ++ more) =
      redactAssignments text ++ (modeOf ⟨none, text⟩).resume text.getLast? more :=
  maskSecrets_append h.bounded (h.fits more)

/-- Behind a text whose rest is hidden nothing is seen. -/
theorem hidden_of_line {text more : List Char} (hsolid : Solid text) (hline : modeOf ⟨none, text⟩ = .line)
    (hbreak : '\n' ∉ more) (after : List Char) :
    redactAssignments (text ++ (more ++ after)) =
      redactAssignments text ++ redactAssignments (after.dropWhile (· != '\n')) := by
  rw [hsolid.resume, hline, resume_line hbreak]

/-- Behind a quote that stays open nothing is seen either, up to the end of the line. -/
theorem hidden_of_quoted {text more after : List Char} {q : Char} (hsolid : Solid text)
    (hquoted : modeOf ⟨none, text⟩ = .quoted q) (hquote : q ∉ more) (hbreak : '\n' ∉ more)
    (hafter : after = [] ∨ after = ['\n']) :
    redactAssignments (text ++ (more ++ after)) = redactAssignments text ++ redactAssignments after := by
  have hq : isQuote q = true := (modeOf_quoted hquoted).1
  have hend : (Mode.quoted q).resume text.getLast? after = redactAssignments after := by
    rcases hafter with rfl | rfl
    · rw [redactAssignments, Rule.scan_nil]
      rfl
    · have hne : '\n' ≠ q := by
        rintro rfl
        exact absurd hq (by decide)
      rw [Mode.resume, resumeQuoted, List.dropWhile_cons_of_neg (by simp)]
      exact if_neg hne
  rw [hsolid.resume, hquoted, resume_quoted hquote hbreak, hend]

/-- What is neutral does not open a line's mode. -/
theorem line_of_neutral {text more : List Char} (hsolid : Solid text) (hmore : Neutral more)
    (hsolid' : Solid (text ++ more)) (hline : modeOf ⟨none, text ++ more⟩ = .line) :
    modeOf ⟨none, text⟩ = .line := by
  have hsame : ∀ after, '\n' ∉ after → redactAssignments (text ++ (more ++ after)) = redactAssignments (text ++ more) := by
    intro after hafter
    have hhidden := hidden_of_line hsolid' hline hafter []
    rw [List.append_nil, List.dropWhile_nil, List.append_assoc] at hhidden
    rw [hhidden, redactAssignments, redactAssignments, Rule.scan_nil, List.append_nil]
  have hresume : ∀ after, '\n' ∉ after →
      (modeOf ⟨none, text⟩).resume text.getLast? (more ++ after) = (modeOf ⟨none, text⟩).resume text.getLast? more := by
    intro after hafter
    have heq := hsame after hafter
    rw [hsolid.resume, hsolid.resume] at heq
    exact List.append_cancel_left heq
  cases hmode : modeOf ⟨none, text⟩ with
  | line => rfl
  | free =>
    have hno := hresume " €".toList (by decide)
    rw [hmode] at hno
    have hhead : (more ++ " €".toList).head?.any Char.isAlpha = false := by
      cases hnil : more with
      | nil => rfl
      | cons c cs =>
        have hhead := hmore.head
        rw [hnil] at hhead
        exact hhead
    rw [Mode.resume, Mode.resume, atLetters_assignment.scan_prev hhead, atLetters_assignment.scan_prev hmore.head] at hno
    exact absurd hno hmore.seen
  | word =>
    have hno := hresume " €".toList (by decide)
    have hnil := dropWhile_word hmore.word []
    rw [List.append_nil, List.dropWhile_nil] at hnil
    rw [hmode, Mode.resume, Mode.resume, dropWhile_word hmore.word, hnil] at hno
    exact absurd hno (by decide +kernel)
  | quoted q =>
    have hquote := (modeOf_quoted hmode).1
    have hopen : ∀ after, (Mode.quoted q).resume text.getLast? (more ++ after) = (Mode.quoted q).resume text.getLast? after :=
      fun after => resume_quoted (hmore.quotes q hquote) (fun h => absurd (hmore.word _ h) (by decide)) _ after
    have hopen' := hopen []
    rw [List.append_nil] at hopen'
    simp only [isQuote, Bool.or_eq_true, beq_iff_eq] at hquote
    rcases hquote with rfl | rfl
    · have hno := hresume "\"€".toList (by decide)
      rw [hmode, hopen, hopen', Mode.resume, Mode.resume] at hno
      exact absurd hno (by decide +kernel)
    · have hno := hresume "'€".toList (by decide)
      rw [hmode, hopen, hopen', Mode.resume, Mode.resume] at hno
      exact absurd hno (by decide +kernel)

/-! ### The line up to a quote -/

theorem not_mem_redactQueries {text : List Char} (h : '\n' ∉ text) (inUrl : Bool) : '\n' ∉ redactQueries inUrl text :=
  fun hmem => h (mem_redactQueries (by decide) hmem)

theorem not_mem_redactUserinfo {text : List Char} (h : '\n' ∉ text) : '\n' ∉ redactUserinfo text :=
  fun hmem => h (mem_redactUserinfo (by decide) hmem)

theorem not_mem_dropWhile {p : Char → Bool} {c : Char} {text : List Char} (h : c ∉ text) : c ∉ text.dropWhile p :=
  fun hmem => h ((List.dropWhile_suffix p).subset hmem)

theorem solid_snoc {c : Char} (h : c.isAlphanum = false ∧ isAsciiWhitespace c = false ∧ isSeparator c = false)
    (text : List Char) : Solid (text ++ [c]) := by
  intro d hd
  rw [List.getLast?_concat, Option.some_inj] at hd
  rw [← hd]
  exact h

theorem solid_of_last {c : Char} {text : List Char} (hlast : text.getLast? = some c)
    (h : c.isAlphanum = false ∧ isAsciiWhitespace c = false ∧ isSeparator c = false) : Solid text := by
  obtain ⟨init, rfl⟩ := List.getLast?_eq_some_iff.mp hlast
  exact solid_snoc h init

theorem redactQueries_quote (inUrl : Bool) (text : List Char) :
    redactQueries inUrl ('"' :: text) = '"' :: redactQueries inUrl text := by
  rw [redactQueries_cons (by decide) (.inr (by decide))]
  have hscheme : isScheme ('"' :: text) = false := rfl
  rw [hscheme, Bool.or_false]

theorem redactQueries_scheme (inUrl : Bool) (text : List Char) :
    redactQueries inUrl (':' :: '/' :: '/' :: text) = ':' :: '/' :: '/' :: redactQueries true text := by
  rw [redactQueries_cons (by decide) (.inr (by decide)), redactQueries_cons (by decide) (.inr (by decide)),
    redactQueries_cons (by decide) (.inr (by decide))]
  have hscheme : isScheme (':' :: '/' :: '/' :: text) = true := rfl
  rw [hscheme, Bool.or_true, Bool.true_or, Bool.true_or]

theorem exists_userinfo (text : List Char) : ∃ out, redactUserinfo (':' :: '/' :: '/' :: text) = ':' :: '/' :: '/' :: out ∧
    ('\n' ∉ text → '\n' ∉ out) := by
  by_cases hat : HasAt text
  · refine ⟨"[userinfo-redacted]".toList ++ redactUserinfo (text.dropWhile inAuthority), ?_, fun h => ?_⟩
    · rw [redactUserinfo_masked hat]
      rfl
    · rw [List.mem_append, not_or]
      exact ⟨by decide, not_mem_redactUserinfo (not_mem_dropWhile h)⟩
  · exact ⟨redactUserinfo text, redactUserinfo_plain hat, not_mem_redactUserinfo⟩

/-- What the URL scanners leave of a line that goes on behind a quote: a part of its own, and what comes from
the rest. -/
structure Stem (start stem : List Char) : Prop where
  solid : Solid stem
  mask : ∀ more, '\n' ∉ more → ∃ out, maskUrls (start ++ '"' :: more) = stem ++ out ∧ '\n' ∉ out

/-- Where no authority is open at a quote: the line is inside a query, which takes what follows along up to a blank,
or the scanners go on behind the quote. -/
theorem maskUrls_quote_cases {start : List Char} (hopen : ¬Open start) :
    ((redactQueries false (redactUserinfo start)).getLast? = some ']' ∧ ∀ more, maskUrls (start ++ '"' :: more) =
        redactQueries false (redactUserinfo start) ++
          redactQueries false (('"' :: redactUserinfo more).dropWhile nonblank)) ∨
      ∃ after, ∀ more, maskUrls (start ++ '"' :: more) =
        redactQueries false (redactUserinfo start) ++ ['"'] ++ redactQueries after (redactUserinfo more) := by
  have hmask : ∀ more, maskUrls (start ++ '"' :: more) =
      redactQueries false (redactUserinfo start ++ '"' :: redactUserinfo more) := by
    intro more
    have hcopy : redactUserinfo ('"' :: more) = '"' :: redactUserinfo more := redactUserinfo_cons rfl
    rw [maskUrls_append (by simp [Apart]) (.inl hopen), hcopy]
  have hapart : ∀ more, Apart ('"' :: more) := fun more => by simp [Apart]
  rcases redactQueries_cut false (redactUserinfo start) with h | ⟨after, h⟩
  · exact .inl ⟨h.2, fun more => by rw [hmask, h.1 _ (hapart _)]⟩
  · refine .inr ⟨after, fun more => ?_⟩
    rw [hmask, h.1 _ (hapart _), redactQueries_quote, List.append_assoc]
    rfl

/-- Where nothing of an authority is open at the quote. -/
theorem stem_of_not_open {start : List Char} (hopen : ¬Open start)
    (hline : modeOf ⟨none, maskUrls (start ++ ['"', '@'])⟩ = .line) :
    ∃ stem, Stem start stem ∧ modeOf ⟨none, stem⟩ = .line := by
  have hat : redactUserinfo ['@'] = ['@'] := redactUserinfo_self (by decide)
  rcases maskUrls_quote_cases hopen with ⟨hlast, hsplit⟩ | ⟨after, hsplit⟩
  · refine ⟨redactQueries false (redactUserinfo start), ⟨solid_of_last hlast (by decide), fun more hmore => ?_⟩, ?_⟩
    · refine ⟨_, hsplit more, not_mem_redactQueries (not_mem_dropWhile ?_) _⟩
      rw [List.mem_cons, not_or]
      exact ⟨by decide, not_mem_redactUserinfo hmore⟩
    · have hnil : (['"', '@'] : List Char).dropWhile nonblank = [] := by decide
      rw [hsplit, hat, hnil, redactQueries_nil, List.append_nil] at hline
      exact hline
  · have hsolid : Solid (redactQueries false (redactUserinfo start) ++ ['"']) := solid_snoc (by decide) _
    refine ⟨_, ⟨hsolid, fun more hmore => ?_⟩, ?_⟩
    · exact ⟨_, hsplit more, not_mem_redactQueries (not_mem_redactUserinfo hmore) _⟩
    · have hcopy : redactQueries after ['@'] = ['@'] := by
        rw [redactQueries_cons (by decide) (.inr (by decide)), redactQueries_nil]
      rw [hsplit, hat, hcopy] at hline
      exact line_of_neutral hsolid neutral_at (solid_snoc (by decide) _) hline

/-- Where an authority is open at the quote its userinfo may go on behind it. -/
theorem stem_of_open {start : List Char} (hopen : Open start)
    (hline : modeOf ⟨none, maskUrls (start ++ ['"', '@'])⟩ = .line) :
    ∃ stem, Stem start stem ∧ modeOf ⟨none, stem⟩ = .line := by
  obtain ⟨before, inside, rfl, hinside⟩ := hopen
  have hbreak : '\n' ∉ inside := fun hmem => absurd (hinside _ hmem) (by decide)
  have hmask : ∀ more, maskUrls (before ++ ':' :: '/' :: '/' :: inside ++ '"' :: more) =
      redactQueries false (redactUserinfo before ++ redactUserinfo (':' :: '/' :: '/' :: (inside ++ '"' :: more))) := by
    intro more
    have hcut : ¬HasAt (':' :: '/' :: '/' :: (inside ++ '"' :: more)) := by
      rw [HasAt, List.dropWhile_cons_of_pos (by decide), List.dropWhile_cons_of_neg (by decide)]
      simp
    rw [List.append_assoc, List.cons_append, List.cons_append, List.cons_append,
      maskUrls_append (by simp [Apart]) (.inr hcut)]
  have hat : redactUserinfo (':' :: '/' :: '/' :: (inside ++ ['"', '@'])) =
      ':' :: '/' :: '/' :: "[userinfo-redacted]@".toList := by
    have hall : ∀ c ∈ inside ++ ['"'], inAuthority c = true := by
      intro c hc
      rcases List.mem_append.mp hc with hc | hc
      · exact hinside c hc
      · rw [List.mem_singleton.mp hc]
        decide
    have hhidden := @redactUserinfo_hidden [] _ hall []
    rw [List.append_assoc, List.nil_append] at hhidden
    refine hhidden.trans ?_
    rw [redactUserinfo_nil, redactUserinfo_self (by decide)]
    rfl
  have hapart : ∀ more, Apart (':' :: '/' :: '/' :: more) := fun more => by simp [Apart]
  have hinside' : ∀ more, '\n' ∉ more → '\n' ∉ inside ++ '"' :: more := by
    intro more hmore
    rw [List.mem_append, List.mem_cons, not_or, not_or]
    exact ⟨hbreak, by decide, hmore⟩
  rw [hmask, hat] at hline
  rcases redactQueries_cut false (redactUserinfo before) with h | ⟨after, h⟩
  · refine ⟨redactQueries false (redactUserinfo before), ⟨solid_of_last h.2 (by decide), fun more hmore => ?_⟩, ?_⟩
    · obtain ⟨out, hout, hno⟩ := exists_userinfo (inside ++ '"' :: more)
      refine ⟨_, by rw [hmask, hout, h.1 _ (hapart _)], not_mem_redactQueries (not_mem_dropWhile ?_) _⟩
      rw [List.mem_cons, List.mem_cons, List.mem_cons, not_or, not_or, not_or]
      exact ⟨by decide, by decide, by decide, hno (hinside' more hmore)⟩
    · have hnil : (':' :: '/' :: '/' :: "[userinfo-redacted]@".toList).dropWhile nonblank = [] := by decide
      rw [h.1 _ (hapart _), hnil, redactQueries_nil, List.append_nil] at hline
      exact hline
  · have hsplit : ∀ more, redactQueries false (redactUserinfo before ++ ':' :: '/' :: '/' :: more) =
        redactQueries false (redactUserinfo before) ++ [':', '/'] ++ ['/'] ++ redactQueries true more := by
      intro more
      rw [h.1 _ (hapart _), redactQueries_scheme, List.append_assoc, List.append_assoc]
      rfl
    have hsolid : Solid (redactQueries false (redactUserinfo before) ++ [':', '/'] ++ ['/']) := solid_snoc (by decide) _
    refine ⟨_, ⟨hsolid, fun more hmore => ?_⟩, ?_⟩
    · obtain ⟨out, hout, hno⟩ := exists_userinfo (inside ++ '"' :: more)
      exact ⟨_, by rw [hmask, hout, hsplit], not_mem_redactQueries (hno (hinside' more hmore)) _⟩
    · have hcopy : redactQueries true "[userinfo-redacted]@".toList = "[userinfo-redacted]@".toList := by
        decide +kernel
      rw [hsplit, hcopy] at hline
      have hlast : (redactQueries false (redactUserinfo before) ++ [':', '/'] ++ ['/'] ++
          "[userinfo-redacted]@".toList).getLast? = some '@' := by
        rw [List.getLast?_append]
        rfl
      exact line_of_neutral hsolid neutral_userinfo (solid_of_last hlast (by decide)) hline

/-- The URL scanners leave the end of a line alone. -/
theorem maskUrls_lineEnd {after : List Char} (hafter : after = [] ∨ after = ['\n']) (text : List Char) :
    maskUrls (text ++ after) = maskUrls text ++ after := by
  have hblank : AtBlank after := by
    rcases hafter with rfl | rfl
    · exact atBlank_nil
    · rintro c ⟨⟩
      decide
  have hself : maskUrls after = after := by
    rcases hafter with rfl | rfl
    · rw [maskUrls, redactUserinfo_nil, redactQueries_nil]
    · rw [maskUrls, redactUserinfo_self (by decide), redactQueries_blank (by decide), redactQueries_nil]
  rw [maskUrls, redactUserinfo_atBlank _ hblank, redactQueries_append_atBlank _ _ ?_]
  · rw [← maskUrls, ← maskUrls, hself]
  · intro c hc
    rw [redactUserinfo_head] at hc
    exact hblank c hc

/-- **A line whose rest is hidden says nothing of what comes behind a quote**, up to the line's end. -/
theorem maskSecrets_hidden {start : List Char} (hline : modeOf ⟨none, maskUrls (start ++ ['"', '@'])⟩ = .line) :
    ∃ out, ∀ more, '\n' ∉ more → ∀ after, after = [] ∨ after = ['\n'] →
      maskSecrets (start ++ '"' :: (more ++ after)) = out ++ redactAssignments after := by
  have hstem : ∃ stem, Stem start stem ∧ modeOf ⟨none, stem⟩ = .line := by
    by_cases hopen : Open start
    · exact stem_of_open hopen hline
    · exact stem_of_not_open hopen hline
  obtain ⟨stem, hstem, hmode⟩ := hstem
  refine ⟨redactAssignments stem, fun more hmore after hafter => ?_⟩
  obtain ⟨out, hout, hno⟩ := hstem.mask more hmore
  have hself : after.dropWhile (· != '\n') = after := by
    rcases hafter with rfl | rfl <;> rfl
  have hassoc : start ++ '"' :: (more ++ after) = (start ++ '"' :: more) ++ after := by simp
  rw [maskSecrets, hassoc, maskUrls_lineEnd hafter, hout, List.append_assoc, hidden_of_line hstem.solid hmode hno, hself]

/-- Where no authority is open at a quote, what the URL scanners leave of the line up to it does not depend on what
follows. -/
theorem maskUrls_quote {start : List Char} (hopen : ¬Open start) :
    Solid (maskUrls (start ++ ['"'])) ∧ ∀ more, ∃ out, maskUrls (start ++ '"' :: more) = maskUrls (start ++ ['"']) ++ out ∧
      ∀ c ∈ ['\n', '\''], c ∉ more → c ∉ out := by
  have hkept : ∀ c ∈ ['\n', '\''], c ∉ "://[userinfo-redacted]".toList ∧ c ∉ "?[query-redacted]".toList ∧ c ≠ '"' := by
    intro c hc
    simp only [List.mem_cons, List.not_mem_nil, or_false] at hc
    rcases hc with rfl | rfl
    · exact ⟨by decide, by decide, by decide⟩
    · exact ⟨by decide, by decide, by decide⟩
  rcases maskUrls_quote_cases hopen with ⟨hlast, hsplit⟩ | ⟨after, hsplit⟩
  · have hstem : maskUrls (start ++ ['"']) = redactQueries false (redactUserinfo start) := by
      have hnil : ['"'].dropWhile nonblank = [] := by decide
      rw [hsplit, redactUserinfo_nil, hnil, redactQueries_nil, List.append_nil]
    rw [hstem]
    refine ⟨solid_of_last hlast (by decide), fun more => ⟨_, hsplit more, fun c hc hnot hmem => ?_⟩⟩
    obtain ⟨huser, hquery, hquote⟩ := hkept c hc
    rcases List.mem_cons.mp ((List.dropWhile_suffix _).subset (mem_redactQueries hquery hmem)) with heq | hmem
    · exact hquote heq
    · exact hnot (mem_redactUserinfo huser hmem)
  · have hstem : maskUrls (start ++ ['"']) = redactQueries false (redactUserinfo start) ++ ['"'] := by
      rw [hsplit, redactUserinfo_nil, redactQueries_nil, List.append_nil]
    rw [hstem]
    refine ⟨solid_snoc (by decide) _, fun more => ⟨_, hsplit more, fun c hc hnot hmem => ?_⟩⟩
    obtain ⟨huser, hquery, -⟩ := hkept c hc
    exact hnot (mem_redactUserinfo huser (mem_redactQueries hquery hmem))

/-- **A quote that is left open hides what comes behind another one**, up to the end of the line and as long as it
is not closed there. -/
theorem maskSecrets_quoted {start : List Char} (hopen : ¬Open start)
    (hquoted : modeOf ⟨none, maskUrls (start ++ ['"'])⟩ = .quoted '\'') :
    ∃ out, ∀ more, '\n' ∉ more → '\'' ∉ more → ∀ after, after = [] ∨ after = ['\n'] →
      maskSecrets (start ++ '"' :: (more ++ after)) = out ++ redactAssignments after := by
  obtain ⟨hsolid, hstem⟩ := maskUrls_quote hopen
  refine ⟨redactAssignments (maskUrls (start ++ ['"'])), fun more hbreak hquote after hafter => ?_⟩
  obtain ⟨out, hout, hnot⟩ := hstem more
  have hassoc : start ++ '"' :: (more ++ after) = (start ++ '"' :: more) ++ after := by simp
  rw [maskSecrets, hassoc, maskUrls_lineEnd hafter, hout, List.append_assoc]
  exact hidden_of_quoted hsolid hquoted (hnot _ (by decide) hquote) (hnot _ (by decide) hbreak) hafter

/-! ### Texts without letters -/

/-- No symbol that a scanner starts at. -/
def Silent (text : List Char) : Prop := ∀ c ∈ text, c.isAlpha = false ∧ c ≠ '/' ∧ c ≠ '?'

theorem Silent.append {text more : List Char} (h : Silent text) (h' : Silent more) : Silent (text ++ more) := by
  intro c hc
  rcases List.mem_append.mp hc with hc | hc
  · exact h c hc
  · exact h' c hc

theorem Silent.tail {c : Char} {text : List Char} (h : Silent (c :: text)) : Silent text :=
  fun d hd => h d (List.mem_cons_of_mem c hd)

theorem Silent.of_suffix {text more : List Char} (h : Silent text) (hsuffix : more <:+ text) : Silent more :=
  fun c hc => h c (hsuffix.subset hc)

theorem Silent.maskUrls {text : List Char} (h : Silent text) : maskUrls text = text := by
  have hslash : '/' ∉ text := fun hmem => (h _ hmem).2.1 rfl
  have hquery : '?' ∉ text := fun hmem => (h _ hmem).2.2 rfl
  have hself := @redactQueries_literal text [] hslash hquery (Apart.not_joins (by simp [Apart])) false
  rw [List.append_nil, redactQueries_nil, List.append_nil] at hself
  rw [Bugreport.maskUrls, redactUserinfo_self hslash, hself]

section Silent

variable {rule : Rule Char} (hrule : AtLetters rule) {text : List Char} (h : Silent text)
include hrule h

theorem scan_silent (prev : Option Char) : rule.scan ⟨prev, text⟩ = text := by
  induction text generalizing prev with
  | nil => exact Rule.scan_nil prev
  | cons c text ih =>
    rw [Rule.scan_of_none (hrule prev c text (h c List.mem_cons_self).1),
      ih (fun d hd => h d (List.mem_cons_of_mem c hd))]

/-- Behind an open quote a part of the text comes through. -/
theorem exists_resumeQuoted (q : Char) : ∃ part, part <:+ text ∧ resumeQuoted rule q text = part := by
  have hsuffix := List.dropWhile_suffix (l := text) fun d => d != q && d != '\n'
  rw [resumeQuoted]
  split
  · exact ⟨[], List.nil_suffix, rfl⟩
  · rename_i c rest hdrop
    rw [hdrop] at hsuffix
    have hrest := (List.suffix_cons c rest).trans hsuffix
    split
    · exact ⟨rest, hrest, scan_silent hrule (h.of_suffix hrest) _⟩
    · exact ⟨c :: rest, hsuffix, scan_silent hrule (h.of_suffix hsuffix) _⟩

end Silent

theorem resumeQuoted_pass (rule : Rule Char) {q : Char} {text : List Char} (hquote : q ∉ text) (hbreak : '\n' ∉ text)
    (more : List Char) : resumeQuoted rule q (text ++ more) = resumeQuoted rule q more := by
  rw [resumeQuoted, resumeQuoted, List.dropWhile_append_of_pos]
  intro c hc
  rw [Bool.and_eq_true, bne_iff_ne, bne_iff_ne]
  exact ⟨fun heq => hquote (heq ▸ hc), fun heq => hbreak (heq ▸ hc)⟩

/-- The quote that closes lets all the rest through. -/
theorem resumeQuoted_close {rule : Rule Char} (hrule : AtLetters rule) {q : Char} {text : List Char} (hquote : q ∉ text)
    (hbreak : '\n' ∉ text) {more : List Char} (hmore : Silent more) : resumeQuoted rule q (text ++ q :: more) = more := by
  rw [resumeQuoted_pass rule hquote hbreak, resumeQuoted, List.dropWhile_cons_of_neg (by simp)]
  show (if q = q then _ else _) = _
  rw [if_pos rfl, scan_silent hrule hmore]

/-- What comes through of a text without a mark has none. -/
theorem TagMode.marks_resume_silent (mode : TagMode) (prev : Option Char) {text : List Char} (h : Silent text)
    (hmark : '€' ∉ text) : marks (mode.resume prev text) = 0 := by
  cases mode with
  | free => rw [resume, scan_silent atLetters_tag h, marks_eq_zero hmark]
  | word =>
    have hsuffix := List.dropWhile_suffix (l := text) inTag
    rw [resume, redactTags, scan_silent atLetters_tag (h.of_suffix hsuffix),
      marks_eq_zero fun hmem => hmark (hsuffix.subset hmem)]
  | quoted q =>
    obtain ⟨part, hsuffix, hpart⟩ := exists_resumeQuoted atLetters_tag h q
    rw [resume, hpart, marks_eq_zero fun hmem => hmark (hsuffix.subset hmem)]

/-- A mark behind both quotes and a blank comes through. -/
theorem TagMode.marks_resume {mode : TagMode} (hvalid : mode.Valid) (prev : Option Char) {text more : List Char}
    (htext : Silent text) (hmore : Silent (' ' :: more)) (hmark : '€' ∉ text) (hbreak : '\n' ∉ text)
    (hquotes : ∀ q, isQuote q = true → q ∈ text) : marks (mode.resume prev (text ++ ' ' :: more)) = marks more := by
  have hzero : ∀ part, part <:+ text → marks (part ++ ' ' :: more) = marks more := by
    intro part hpart
    rw [marks_append, marks_cons ' ' more, marks_eq_zero fun hmem => hmark (hpart.subset hmem), Nat.zero_add]
    exact Nat.zero_add _
  cases mode with
  | free => rw [resume, scan_silent atLetters_tag (htext.append hmore), hzero text List.suffix_rfl]
  | word =>
    have hdrop : (text ++ ' ' :: more).dropWhile inTag = text.dropWhile inTag ++ ' ' :: more := by
      rw [List.dropWhile_append]
      split
      · rename_i hnil
        rw [List.isEmpty_iff.mp hnil, List.dropWhile_cons_of_neg (by decide), List.nil_append]
      · rfl
    have hsuffix := List.dropWhile_suffix (l := text) inTag
    rw [resume, redactTags, hdrop, scan_silent atLetters_tag ((htext.of_suffix hsuffix).append hmore), hzero _ hsuffix]
  | quoted q =>
    obtain ⟨before, after, rfl, hfirst⟩ := List.eq_append_cons_of_mem (hquotes q (hvalid q rfl))
    have hsuffix : after <:+ before ++ q :: after := ⟨before ++ [q], by simp⟩
    have hbreak' : '\n' ∉ before := fun hmem => hbreak (List.mem_append_left _ hmem)
    rw [resume, List.append_assoc, List.cons_append, resumeQuoted_close atLetters_tag hfirst hbreak'
      ((htext.of_suffix hsuffix).append hmore), hzero _ hsuffix]

/-! ### An ending that tells two values apart -/

/-- The quotes of a value and of two members that follow it. -/
def quotes : List Char := "\",\"-\":\"'\",\"-\":\"'".toList

/-- What ends the text: quotes and brackets. -/
def Closers (text : List Char) : Prop := ∀ c ∈ text, c = '"' ∨ c = '}' ∨ c = ']'

/-- The mark, in the last string of the text. -/
def marked (closers : List Char) : List Char := ' ' :: '€' :: closers

section Ending

variable {closers : List Char} (h : Closers closers)
include h

theorem Closers.silent : Silent closers := by
  intro c hc
  rcases h c hc with rfl | rfl | rfl <;> decide

theorem Closers.not_mem {c : Char} (hc : c ≠ '"' ∧ c ≠ '}' ∧ c ≠ ']') : c ∉ closers := by
  intro hmem
  rcases h c hmem with heq | heq | heq
  · exact hc.1 heq
  · exact hc.2.1 heq
  · exact hc.2.2 heq

theorem Closers.marked : Silent (marked closers) := by
  exact @Silent.append [' ', '€'] _ (forall_of_all (by decide)) h.silent

theorem Closers.marks : Bugreport.marks ('€' :: closers) = 1 := by
  rw [marks_cons, marks_eq_zero (h.not_mem (by decide))]
  rfl

end Ending

theorem quote_mem_quotes {q : Char} (h : isQuote q = true) : q ∈ quotes := by
  simp only [isQuote, Bool.or_eq_true, beq_iff_eq] at h
  rcases h with rfl | rfl <;> decide

theorem Mode.resume_blank {mode : Mode} (h : mode = .free ∨ mode = .word) (prev : Option Char) (text : List Char) :
    mode.resume prev (' ' :: text) = redactAssignments (' ' :: text) := by
  rcases h with rfl | rfl
  · rw [resume, atLetters_assignment.scan_prev (by rfl)]
    rfl
  · rw [resume, List.dropWhile_cons_of_neg (by decide)]

theorem TagMode.resume_blank {mode : TagMode} (h : mode = .free ∨ mode = .word) (prev : Option Char) (text : List Char) :
    mode.resume prev (' ' :: text) = redactTags (' ' :: text) := by
  rcases h with rfl | rfl
  · rw [resume, atLetters_tag.scan_prev (by rfl)]
    rfl
  · rw [resume, List.dropWhile_cons_of_neg (by decide)]

/-- Behind a quote that stays open nothing but closers comes through. -/
theorem resumeQuoted_query (rule : Rule Char) {q : Char} (hq : isQuote q = true) (closers : List Char) :
    resumeQuoted rule q (" x://?[query-redacted]".toList ++ marked closers) = resumeQuoted rule q closers := by
  have heuro : " x://?[query-redacted]".toList ++ [' ', '€'] = " x://?[query-redacted] €".toList := by
    decide
  have hsplit : marked closers = [' ', '€'] ++ closers := rfl
  rw [hsplit, ← List.append_assoc, heuro]
  simp only [isQuote, Bool.or_eq_true, beq_iff_eq] at hq
  rcases hq with rfl | rfl
  · exact resumeQuoted_pass rule (by decide) (by decide) closers
  · exact resumeQuoted_pass rule (by decide) (by decide) closers

section Leak

variable {closers : List Char} (h : Closers closers)
include h

theorem maskUrls_query_quotes : maskUrls (" x://?".toList ++ (quotes ++ marked closers)) =
    " x://?[query-redacted]".toList ++ marked closers := by
  have hblank : AtBlank (marked closers) := by
    rintro c ⟨⟩
    decide
  have hblank' : AtBlank (redactUserinfo (marked closers)) := by
    intro c hc
    rw [redactUserinfo_head] at hc
    exact hblank c hc
  have hquery : maskUrls (" x://?".toList ++ quotes) = " x://?[query-redacted]".toList := by
    decide +kernel
  rw [← List.append_assoc, maskUrls, redactUserinfo_atBlank _ hblank, redactQueries_append_atBlank _ _ hblank', ← maskUrls,
    ← maskUrls, hquery, h.marked.maskUrls]

/-- A query takes the quotes that would close a value. -/
theorem redactAssignments_query : redactAssignments (" x://?[query-redacted]".toList ++ marked closers) =
    " x://?[query-redacted]".toList ++ marked closers := by
  have hsolid : Solid " x://?[query-redacted]".toList := solid_of_last (c := ']') (by decide) (by decide)
  have hmode : modeOf ⟨none, " x://?[query-redacted]".toList⟩ = .free := by
    decide +kernel
  have hself : redactAssignments " x://?[query-redacted]".toList = " x://?[query-redacted]".toList := by
    decide +kernel
  rw [hsolid.resume, hmode, hself, Mode.resume, scan_silent atLetters_assignment h.marked]

/-- Where a value is quoted the ending closes it, and both quotes come once more. -/
theorem resume_quoted_quotes {q : Char} (hq : isQuote q = true) (prev : Option Char) :
    ∃ part, (Mode.quoted q).resume prev (' ' :: (quotes ++ marked closers)) = part ++ marked closers ∧ Silent part ∧
      '€' ∉ part ∧ '\n' ∉ part ∧ ∀ q, isQuote q = true → q ∈ part := by
  have hboth : ∀ part : List Char, '"' ∈ part → '\'' ∈ part → ∀ q, isQuote q = true → q ∈ part := by
    intro part hdouble hsingle q hq
    simp only [isQuote, Bool.or_eq_true, beq_iff_eq] at hq
    rcases hq with rfl | rfl
    · exact hdouble
    · exact hsingle
  simp only [isQuote, Bool.or_eq_true, beq_iff_eq] at hq
  rcases hq with rfl | rfl
  · have hpart : Silent ",\"-\":\"'\",\"-\":\"'".toList := forall_of_all (by decide)
    refine ⟨",\"-\":\"'\",\"-\":\"'".toList, ?_, hpart, by decide, by decide, hboth _ (by decide) (by decide)⟩
    exact @resumeQuoted_close _ atLetters_assignment '"' [' '] (by decide) (by decide) _ (hpart.append h.marked)
  · have hpart : Silent "\",\"-\":\"'".toList := forall_of_all (by decide)
    refine ⟨"\",\"-\":\"'".toList, ?_, hpart, by decide, by decide, hboth _ (by decide) (by decide)⟩
    exact @resumeQuoted_close _ atLetters_assignment '\'' " \",\"-\":\"".toList (by decide) (by decide) _
      (hpart.append h.marked)

/-- Where a value is quoted a query in it hides the mark of the ending. -/
theorem marks_ne_quoted {q : Char} (hq : isQuote q = true) {tag : TagMode} (htag : tag.Valid) (prev prev' : Option Char) :
    marks (tag.resume prev' ((Mode.quoted q).resume prev (' ' :: (quotes ++ marked closers)))) ≠
      marks (tag.resume prev' ((Mode.quoted q).resume prev (" x://?[query-redacted]".toList ++ marked closers))) := by
  obtain ⟨part, hpart, hsilent, hmark, hbreak, hboth⟩ := resume_quoted_quotes h hq prev
  have hseen : marks (tag.resume prev' (part ++ marked closers)) = 1 :=
    (TagMode.marks_resume htag prev' hsilent h.marked hmark hbreak hboth).trans h.marks
  obtain ⟨rest, hsuffix, hrest⟩ := exists_resumeQuoted atLetters_assignment h.silent q
  have hhidden : (Mode.quoted q).resume prev (" x://?[query-redacted]".toList ++ marked closers) = rest :=
    (resumeQuoted_query assignmentRule hq closers).trans hrest
  have hzero : marks (tag.resume prev' rest) = 0 :=
    tag.marks_resume_silent prev' (h.silent.of_suffix hsuffix) fun hmem => h.not_mem (by decide) (hsuffix.subset hmem)
  rw [hpart, hseen, hhidden, hzero]
  exact Nat.one_ne_zero

/-- Where a tag is quoted so does it. -/
theorem marks_ne_quotedTag {q : Char} (hq : isQuote q = true) (prev : Option Char) :
    marks ((TagMode.quoted q).resume prev (' ' :: (quotes ++ marked closers))) ≠
      marks ((TagMode.quoted q).resume prev (" x://?[query-redacted]".toList ++ marked closers)) := by
  have hvalid : (TagMode.quoted q).Valid := by
    rintro _ ⟨⟩
    exact hq
  have hquotes : Silent (' ' :: quotes) := forall_of_all (by decide)
  have hseen : marks ((TagMode.quoted q).resume prev (' ' :: quotes ++ marked closers)) = 1 :=
    (TagMode.marks_resume hvalid prev hquotes h.marked (by decide) (by decide)
      fun q hq => List.mem_cons_of_mem ' ' (quote_mem_quotes hq)).trans h.marks
  obtain ⟨rest, hsuffix, hrest⟩ := exists_resumeQuoted atLetters_tag h.silent q
  have hhidden : (TagMode.quoted q).resume prev (" x://?[query-redacted]".toList ++ marked closers) = rest :=
    (resumeQuoted_query tagRule hq closers).trans hrest
  have hzero : marks rest = 0 := marks_eq_zero fun hmem => h.not_mem (by decide) (hsuffix.subset hmem)
  rw [← List.cons_append, hseen, hhidden, hzero]
  exact Nat.one_ne_zero

/-- **Two values come out apart** in every mode but that of a line: a mark of one comes through, or a query of the
other takes the quotes and hides the mark of the ending. -/
theorem exists_marks_ne {mode : Mode} (hline : mode ≠ .line) (hmode : ∀ q, mode = .quoted q → isQuote q = true)
    {tag : TagMode} (htag : tag.Valid) (prev prev' : Option Char) :
    ∃ value ∈ ["€".toList, "x://?".toList],
      marks (tag.resume prev' (mode.resume prev (maskUrls (' ' :: (quotes ++ marked closers))))) ≠
        marks (tag.resume prev' (mode.resume prev (maskUrls (' ' :: (value ++ (quotes ++ marked closers)))))) := by
  have hquotes : Silent (' ' :: quotes) := forall_of_all (by decide)
  have hplain : Silent (' ' :: (quotes ++ marked closers)) := hquotes.append h.marked
  have hquery : maskUrls (' ' :: ("x://?".toList ++ (quotes ++ marked closers))) =
      " x://?[query-redacted]".toList ++ marked closers := maskUrls_query_quotes h
  have hcopy : ∀ {text : List Char}, Silent text → redactAssignments text = text ∧ redactTags text = text :=
    fun htext => ⟨scan_silent atLetters_assignment htext none, scan_silent atLetters_tag htext none⟩
  rw [hplain.maskUrls]
  have hcases : (∃ q, mode = .quoted q) ∨ mode = .free ∨ mode = .word := by
    cases mode with
    | line => exact absurd rfl hline
    | quoted q => exact .inl ⟨q, rfl⟩
    | free => exact .inr (.inl rfl)
    | word => exact .inr (.inr rfl)
  rcases hcases with ⟨q, rfl⟩ | hcopies
  · refine ⟨"x://?".toList, by decide, ?_⟩
    rw [hquery]
    exact marks_ne_quoted h (hmode q rfl) htag prev prev'
  rw [Mode.resume_blank hcopies, (hcopy hplain).1]
  cases htags : tag with
  | quoted q =>
    refine ⟨"x://?".toList, by decide, ?_⟩
    have hblank : " x://?[query-redacted]".toList ++ marked closers =
        ' ' :: ("x://?[query-redacted]".toList ++ marked closers) := rfl
    have hassign := redactAssignments_query h
    rw [hblank] at hassign
    rw [hquery, hblank, Mode.resume_blank hcopies, hassign]
    exact marks_ne_quotedTag h (htag q htags) prev'
  | free | word =>
    refine ⟨"€".toList, by decide, ?_⟩
    have heuro : Silent (' ' :: ("€".toList ++ (quotes ++ marked closers))) :=
      @Silent.append [' ', '€'] _ (forall_of_all (by decide)) (hquotes.append h.marked).tail
    rw [heuro.maskUrls, Mode.resume_blank hcopies, (hcopy heuro).1, TagMode.resume_blank (by simp),
      TagMode.resume_blank (by simp), (hcopy hplain).2, (hcopy heuro).2, marks_cons ' ', marks_cons ' ' ("€".toList ++ _),
      marks_append "€".toList]
    intro heq
    have hone : marks "€".toList = 1 := rfl
    omega

end Leak

/-! ### What the assignment scanner leaves at the end -/

theorem scan_assignment_ne_nil {place : Cursor Char} (h : place.rest ≠ []) : assignmentRule.scan place ≠ [] := by
  obtain ⟨prev, _ | ⟨c, cs⟩⟩ := place
  · exact absurd rfl h
  · cases hkey : SECRET_KEYS.find? (keyAt ⟨prev, c :: cs⟩) with
    | none =>
      rw [Rule.scan_of_none (rewrite_of_no_key hkey)]
      exact List.cons_ne_nil _ _
    | some key =>
      rw [Rule.scan_of_some (rewrite_of_key hkey)]
      exact List.append_ne_nil_of_left_ne_nil (List.cons_ne_nil _ _) _

theorem Solid.append {text more : List Char} (h : Solid more) (hnil : more = [] → Solid text) : Solid (text ++ more) := by
  by_cases hmore : more = []
  · rw [hmore, List.append_nil]
    exact hnil hmore
  · intro c hc
    rw [List.getLast?_append] at hc
    cases hlast : more.getLast? with
    | none => exact absurd (List.getLast?_eq_none_iff.mp hlast) hmore
    | some d =>
      rw [hlast] at hc
      exact h c (hlast.trans hc)

/-- A solid text stays solid. -/
theorem solid_scan (place : Cursor Char) : Solid place.rest → Solid (assignmentRule.scan place) := by
  induction hn : place.rest.length using Nat.strongRecOn generalizing place with
  | _ n ih =>
    subst hn
    intro hsolid
    obtain ⟨prev, _ | ⟨c, cs⟩⟩ := place
    · rw [Rule.scan_nil]
      exact hsolid
    · have hempty : ∀ p : Cursor Char, assignmentRule.scan p = [] → p.rest = [] := by
        intro p hp
        by_contra hne
        exact scan_assignment_ne_nil hne hp
      cases hkey : SECRET_KEYS.find? (keyAt ⟨prev, c :: cs⟩) with
      | none =>
        have hrest := ih _ (Nat.lt_succ_self _) ⟨some c, cs⟩ rfl (hsolid.of_suffix (List.suffix_cons c cs))
        rw [Rule.scan_of_none (rewrite_of_no_key hkey)]
        refine @Solid.append [c] _ hrest fun hnil => ?_
        have hcs : cs = [] := hempty _ hnil
        rw [hcs] at hsolid
        exact hsolid
      | some key =>
        have hmem := List.mem_of_find?_eq_some hkey
        have hadv := Cursor.reaches_advance (key.length - 1) ⟨some c, cs⟩
        have hsuffix := (hadv.trans (reaches_redactValue key _)).1
        have hrest := ih _ (Nat.lt_succ_of_le hsuffix.length_le) _ rfl
          (hsolid.of_suffix (hsuffix.trans (List.suffix_cons c cs)))
        rw [Rule.scan_of_some (rewrite_of_key hkey)]
        refine hrest.append fun hnil => ?_
        have hend := hempty _ hnil
        -- the text ends in a value: the key is not its end, nor is a blank
        have hnamed : (Cursor.advance (key.length - 1) ⟨some c, cs⟩).rest ≠ [] := by
          have hlt := @lt_of_keyAt ⟨prev, c :: cs⟩ key (lowerKey_secret hmem) (List.cons_ne_nil _ _) hsolid.bounded []
            (by rw [Cursor.append_nil]; exact List.find?_some hkey)
          have hpos := List.length_pos_iff.mpr (lowerKey_secret hmem).1
          rw [List.length_cons] at hlt
          intro hdrop
          have hle := List.drop_eq_nil_iff.mp hdrop
          dsimp only at hle
          omega
        have hplace := Solid.skip (hsolid.of_suffix (hadv.1.trans (List.suffix_cons c cs))) hnamed
        obtain ⟨d, ds, hd⟩ := List.exists_cons_of_ne_nil hplace
        cases hsep : isSeparator d with
        | false =>
          rw [redactValue_none (by rw [hd]; exact hsep)] at hend
          exact absurd hend hplace
        | true =>
          rw [redactValue_some hd hsep]
          refine solid_of_last (c := ']') ?_ (by decide)
          rw [List.getLast?_append, List.getLast?_append]
          rfl

/-! ### Members -/

def MEMBER_NAMES : List (List Char) :=
  ["password".toList, "secret".toList, "token".toList, "authorization".toList, "tag".toList]

def isJsonBlank (c : Char) : Bool := c == ' ' || c == '\t' || c == '\n' || c == '\r'

/-- A member of an object in a text, up to the quote of its string. -/
structure Member where
  start : List Char
  name : List Char
  before : List Char
  after : List Char
  named : name ∈ MEMBER_NAMES
  blank_before : ∀ c ∈ before, isJsonBlank c = true
  blank_after : ∀ c ∈ after, isJsonBlank c = true

namespace Member

variable (m : Member)

/-- The text up to the quote. -/
def head : List Char := m.start ++ '"' :: m.name ++ '"' :: m.before ++ ':' :: m.after

/-- The text with this value. -/
def text (value after : List Char) : List Char := m.head ++ '"' :: (value ++ '"' :: after)

/-- A value without quotes, backslashes and line breaks, and for a tag none that is safe. -/
def Admits (value : List Char) : Prop :=
  (∀ c ∈ value, isQuote c = false ∧ c ≠ '\\' ∧ c ≠ '\n' ∧ c ≠ '\r') ∧
    (m.name = "tag".toList → value ∉ SAFE_TAGS)

/-- The report does not depend on the value. -/
def Hides : Prop :=
  ∀ v₁ v₂ after, m.Admits v₁ → m.Admits v₂ → redact (m.text v₁ after) = redact (m.text v₂ after)

/-- The assignment of an authorization hides the rest of the line, also where a userinfo ends in the value. -/
def Covered : Prop := modeOf ⟨none, maskUrls (lastLine m.head ++ ['"', '@'])⟩ = .line

/-- A quote that an assignment has left open hides the value, where no authority is open at it. -/
def Quoted : Prop := ¬Open (lastLine m.head) ∧ modeOf ⟨none, maskUrls (lastLine m.head ++ ['"'])⟩ = .quoted '\''

instance : Decidable m.Covered := inferInstanceAs (Decidable (_ = _))

variable {m}

theorem not_mem_line (after : List Char) : '\n' ∉ after.takeWhile (· != '\n') := by
  intro hmem
  have hne := List.mem_takeWhile_imp hmem
  simp at hne

/-- Two values give one report where their lines do, up to the end of the line. -/
theorem redact_text_eq {v₁ v₂ after : List Char} (h₁ : m.Admits v₁) (h₂ : m.Admits v₂)
    (h : ∃ out, ∀ v, m.Admits v → ∀ end' : List Char, end' = [] ∨ end' = ['\n'] →
      maskSecrets (lastLine m.head ++ '"' :: ((v ++ '"' :: after.takeWhile (· != '\n')) ++ end')) =
        out ++ redactAssignments end') : redact (m.text v₁ after) = redact (m.text v₂ after) := by
  obtain ⟨before, hhead, hended⟩ := exists_lastLine m.head
  obtain ⟨out, hout⟩ := h
  have hbreak : ∀ v, m.Admits v → '\n' ∉ v := fun v hv hmem => (hv.1 _ hmem).2.2.1 rfl
  -- the line of the value, and the text behind it
  have hline : ∀ v, m.Admits v → ∀ more, '\n' ∉ more → '\n' ∉ lastLine m.head ++ '"' :: (v ++ '"' :: more) := by
    intro v hv more hmore
    simp only [List.mem_append, List.mem_cons, not_or]
    exact ⟨not_mem_lastLine _, by decide, hbreak v hv, by decide, hmore⟩
  have hnot := not_mem_line after
  have hsplit := List.takeWhile_append_dropWhile (p := (· != '\n')) (l := after)
  have hstop := List.head?_dropWhile_not (fun d : Char => d != '\n') after
  generalize after.takeWhile (· != '\n') = line at hsplit hnot hout
  generalize after.dropWhile (· != '\n') = rest at hsplit hstop
  subst hsplit
  cases rest with
  | nil =>
    have htext : ∀ v, m.Admits v → redact (m.text v (line ++ [])) =
        redact before ++ redactOne (lastLine m.head ++ '"' :: ((v ++ '"' :: line) ++ [])) := by
      intro v hv
      have hone : IsLine (lastLine m.head ++ '"' :: (v ++ '"' :: line)) :=
        fun hmem => hline v hv line hnot (List.dropLast_subset _ hmem)
      rw [text, hhead, List.append_nil, List.append_assoc, redact_append hended, redact_line hone, List.append_nil,
        ← hhead]
    rw [htext v₁ h₁, htext v₂ h₂]
    refine congrArg (redact before ++ ·) (redactOne_of_maskSecrets ?_)
    rw [hout v₁ h₁ [] (.inl rfl), hout v₂ h₂ [] (.inl rfl)]
  | cons c rest =>
    have hc : c = '\n' := by simpa using hstop
    subst hc
    have htext : ∀ v, m.Admits v → redact (m.text v (line ++ '\n' :: rest)) =
        redact before ++ (redactOne (lastLine m.head ++ '"' :: ((v ++ '"' :: line) ++ ['\n'])) ++ redact rest) := by
      intro v hv
      have hsnoc : lastLine m.head ++ '"' :: ((v ++ '"' :: line) ++ ['\n']) =
          lastLine m.head ++ '"' :: (v ++ '"' :: line) ++ ['\n'] := by simp
      have hone : IsLine (lastLine m.head ++ '"' :: ((v ++ '"' :: line) ++ ['\n'])) := by
        rw [IsLine, hsnoc, List.dropLast_concat]
        exact hline v hv line hnot
      have hended' : Ended (lastLine m.head ++ '"' :: ((v ++ '"' :: line) ++ ['\n'])) := by
        intro d hd
        rw [hsnoc, List.getLast?_concat] at hd
        exact (Option.some.inj hd).symm
      have hassoc : before ++ lastLine m.head ++ '"' :: (v ++ '"' :: (line ++ '\n' :: rest)) =
          before ++ (lastLine m.head ++ '"' :: ((v ++ '"' :: line) ++ ['\n']) ++ rest) := by simp
      rw [text, hhead, hassoc, redact_append hended, redact_append hended', redact_line hone, ← hhead]
    rw [htext v₁ h₁, htext v₂ h₂]
    refine congrArg (fun line => redact before ++ (line ++ redact rest)) (redactOne_of_maskSecrets ?_)
    rw [hout v₁ h₁ _ (.inr rfl), hout v₂ h₂ _ (.inr rfl)]

/-- What a value and the rest of its line are made of. -/
theorem not_mem_value {c : Char} {v after : List Char} (hv : c ∉ v) (hquote : c ≠ '"')
    (hafter : c ∉ after.takeWhile (· != '\n')) : c ∉ v ++ '"' :: after.takeWhile (· != '\n') := by
  rw [List.mem_append, List.mem_cons, not_or, not_or]
  exact ⟨hv, hquote, hafter⟩

theorem hides_of_covered (h : m.Covered) : m.Hides := by
  intro v₁ v₂ after h₁ h₂
  obtain ⟨out, hout⟩ := maskSecrets_hidden h
  refine redact_text_eq h₁ h₂ ⟨out, fun v hv end' hend => hout _ ?_ _ hend⟩
  exact not_mem_value (fun hmem => (hv.1 _ hmem).2.2.1 rfl) (by decide) (not_mem_line after)

/-- Where a quote is left open no value is seen unless the rest of its line closes it. -/
theorem hides_of_quoted (h : m.Quoted) {v₁ v₂ after : List Char} (hopen : '\'' ∉ after.takeWhile (· != '\n'))
    (h₁ : m.Admits v₁) (h₂ : m.Admits v₂) : redact (m.text v₁ after) = redact (m.text v₂ after) := by
  obtain ⟨out, hout⟩ := maskSecrets_quoted h.1 h.2
  refine redact_text_eq h₁ h₂ ⟨out, fun v hv end' hend => hout _ ?_ ?_ _ hend⟩
  · exact not_mem_value (fun hmem => (hv.1 _ hmem).2.2.1 rfl) (by decide) (not_mem_line after)
  · exact not_mem_value (fun hmem => absurd (hv.1 _ hmem).1 (by decide)) (by decide) hopen

/-! ### Where the rest of the line is not hidden -/

/-- The rest of a text behind a value: two members with the quotes and the mark, and what closes the text. -/
def ending (closers : List Char) : List Char := ",\"-\":\"'\",\"-\":\"'".toList ++ marked closers

/-- A value that begins so leaves no authority open and is no safe tag. -/
def probe (value : List Char) : List Char := '@' :: ' ' :: value

theorem admits_probe {value : List Char} (h : value ∈ [[], "€".toList, "x://?".toList]) : m.Admits (probe value) := by
  simp only [List.mem_cons, List.not_mem_nil, or_false] at h
  refine ⟨?_, fun _ => ?_⟩
  · rcases h with rfl | rfl | rfl <;> exact forall_of_all (by decide)
  · rcases h with rfl | rfl | rfl <;> decide

theorem marks_text {closers : List Char} (h : Closers closers) :
    ∃ (n : ℕ) (tag : TagMode), tag.Valid ∧ ∃ prev prev', ∀ value ∈ [[], "€".toList, "x://?".toList],
      marks (redact (m.text (probe value) (ending closers))) =
        n + marks (tag.resume prev' ((modeOf ⟨none, maskUrls (lastLine m.head ++ ['"', '@'])⟩).resume prev
          (maskUrls (' ' :: (value ++ (quotes ++ marked closers)))))) := by
  obtain ⟨before, hhead, hended⟩ := exists_lastLine m.head
  have hsolid : Solid (maskUrls (lastLine m.head ++ ['"', '@'])) := by
    have hlast : (redactUserinfo (lastLine m.head ++ ['"', '@'])).getLast? = some '@' := by
      rw [redactUserinfo_last, List.getLast?_append]
      rfl
    rcases redactQueries_cut false (redactUserinfo (lastLine m.head ++ ['"', '@'])) with hcut | ⟨after, hcut⟩
    · exact solid_of_last hcut.2 (by decide)
    · exact solid_of_last (hcut.2.trans hlast) (by decide)
  have hmasked : Solid (redactAssignments (maskUrls (lastLine m.head ++ ['"', '@']))) := solid_scan ⟨none, _⟩ hsolid
  obtain ⟨n, tag, htag, hmarks⟩ :=
    marks_tag_append ⟨none, redactAssignments (maskUrls (lastLine m.head ++ ['"', '@']))⟩ hmasked
  refine ⟨marks (redact before) + n, tag, htag, (maskUrls (lastLine m.head ++ ['"', '@'])).getLast?,
    (⟨none, redactAssignments (maskUrls (lastLine m.head ++ ['"', '@']))⟩ : Cursor Char).last, fun value hvalue => ?_⟩
  have hline : m.text (probe value) (ending closers) =
      before ++ (lastLine m.head ++ ['"', '@'] ++ ' ' :: (value ++ (quotes ++ marked closers))) := by
    have hending : '"' :: ending closers = quotes ++ marked closers := rfl
    calc m.text (probe value) (ending closers)
        = before ++ lastLine m.head ++ '"' :: ('@' :: ' ' :: (value ++ '"' :: ending closers)) := by
          rw [← hhead]
          rfl
      _ = before ++ (lastLine m.head ++ ['"', '@'] ++ ' ' :: (value ++ (quotes ++ marked closers))) := by
          rw [hending]
          simp only [List.append_assoc, List.cons_append, List.nil_append]
  have hclosers : '\n' ∉ quotes ++ marked closers := by
    simp only [marked, List.mem_append, List.mem_cons, not_or]
    exact ⟨by decide, by decide, by decide, h.not_mem (by decide)⟩
  have hbreak : '\n' ∉ lastLine m.head ++ ['"', '@'] ++ ' ' :: (value ++ (quotes ++ marked closers)) := by
    have hno : '\n' ∉ value := by
      simp only [List.mem_cons, List.not_mem_nil, or_false] at hvalue
      rcases hvalue with rfl | rfl | rfl <;> decide
    have hstart : '\n' ∉ lastLine m.head ++ ['"', '@'] := by
      rw [List.mem_append, not_or]
      exact ⟨not_mem_lastLine _, by decide⟩
    have hrest : '\n' ∉ ' ' :: (value ++ (quotes ++ marked closers)) := by
      rw [List.mem_cons, List.mem_append, not_or, not_or]
      exact ⟨by decide, hno, hclosers⟩
    exact List.mem_append.not.mpr (not_or.mpr ⟨hstart, hrest⟩)
  have hone : IsLine (lastLine m.head ++ ['"', '@'] ++ ' ' :: (value ++ (quotes ++ marked closers))) :=
    fun hmem => hbreak (List.dropLast_subset _ hmem)
  have hblank : AtBlank (' ' :: (value ++ (quotes ++ marked closers))) := by
    rintro c ⟨⟩
    decide
  have hblank' : AtBlank (redactUserinfo (' ' :: (value ++ (quotes ++ marked closers)))) := by
    intro c hc
    rw [redactUserinfo_head] at hc
    exact hblank c hc
  have hurls : maskUrls (lastLine m.head ++ ['"', '@'] ++ ' ' :: (value ++ (quotes ++ marked closers))) =
      maskUrls (lastLine m.head ++ ['"', '@']) ++ maskUrls (' ' :: (value ++ (quotes ++ marked closers))) := by
    rw [maskUrls, redactUserinfo_atBlank _ hblank, redactQueries_append_atBlank _ _ hblank']
    rfl
  rw [hline, redact_append hended, redact_line hone, marks_append, marks_redactOne, maskSecrets, hurls, hsolid.resume,
    Nat.add_assoc]
  exact congrArg (marks (redact before) + ·) (hmarks _)

/-- Whatever closes the text, two values come out apart. -/
theorem leaks_of_not_covered (h : ¬m.Covered) {closers : List Char} (hclosers : Closers closers) :
    ∃ v₁ v₂, m.Admits v₁ ∧ m.Admits v₂ ∧ redact (m.text v₁ (ending closers)) ≠ redact (m.text v₂ (ending closers)) := by
  obtain ⟨n, tag, htag, prev, prev', hmarks⟩ := @marks_text m _ hclosers
  obtain ⟨value, hvalue, hne⟩ := exists_marks_ne hclosers h (fun q hq => (modeOf_quoted hq).1) htag prev prev'
  have hmem : value ∈ [[], "€".toList, "x://?".toList] := List.mem_cons_of_mem _ hvalue
  refine ⟨probe [], probe value, admits_probe (by decide), admits_probe hmem, fun heq => hne ?_⟩
  have hsame := congrArg marks heq
  rw [hmarks [] (by decide), hmarks value hmem] at hsame
  exact Nat.add_left_cancel hsame

end Member

/-- **Which string members a report hides.**  The report does not depend on the value of a member where, and only
where, the assignment of an authorization before it on its line hides the rest of the line; elsewhere two values
come out apart whatever closes the text.  A quote that an assignment has left open hides the value as well, but only
before a rest of the line that does not close it. -/
theorem member_hidden_iff (m : Member) :
    (m.Hides ↔ m.Covered) ∧
    (¬m.Covered → ∀ closers, Closers closers →
      ∃ v₁ v₂, m.Admits v₁ ∧ m.Admits v₂ ∧
        redact (m.text v₁ (Member.ending closers)) ≠ redact (m.text v₂ (Member.ending closers))) ∧
    (m.Quoted → ∀ v₁ v₂ after, '\'' ∉ after.takeWhile (· != '\n') → m.Admits v₁ → m.Admits v₂ →
      redact (m.text v₁ after) = redact (m.text v₂ after)) := by
  refine ⟨⟨fun h => ?_, Member.hides_of_covered⟩, fun h closers hclosers => Member.leaks_of_not_covered h hclosers,
    fun h v₁ v₂ after hopen => Member.hides_of_quoted h hopen⟩
  by_contra hno
  obtain ⟨v₁, v₂, h₁, h₂, hne⟩ := @Member.leaks_of_not_covered m hno [] fun c hc => absurd hc List.not_mem_nil
  exact hne (h v₁ v₂ _ h₁ h₂)

/-- A password behind a text: in an object, behind the assignment of an authorization, behind an open quote. -/
def passwordMember (start : List Char) : Member where
  start := start
  name := "password".toList
  before := []
  after := [' ']
  named := by decide
  blank_before := forall_of_all (by decide)
  blank_after := forall_of_all (by decide)

theorem member_hidden_iff_password :
    (passwordMember "authorization: x \x7b".toList).Hides ∧ ¬(passwordMember "\x7b".toList).Hides ∧
      redact ((passwordMember "password: 'x \x7b".toList).text "a".toList "\x7d".toList) =
        redact ((passwordMember "password: 'x \x7b".toList).text "b".toList "\x7d".toList) := by
  have hquoted : (passwordMember "password: 'x \x7b".toList).Quoted := by
    refine ⟨fun ⟨before, inside, heq, _⟩ => ?_, by decide +kernel⟩
    have hmem : '/' ∈ lastLine (passwordMember "password: 'x \x7b".toList).head := by
      rw [heq]
      simp
    exact absurd hmem (by decide +kernel)
  refine ⟨(member_hidden_iff _).1.mpr (by decide +kernel), fun h => absurd ((member_hidden_iff _).1.mp h) (by decide +kernel),
    (member_hidden_iff _).2.2 hquoted _ _ _ (by decide) ?_ ?_⟩
  · exact ⟨forall_of_all (by decide), fun h => absurd h (by decide)⟩
  · exact ⟨forall_of_all (by decide), fun h => absurd h (by decide)⟩

/-- Two passwords in a status report, and two tags. -/
theorem json_member_leaks :
    redact "\x7b\"password\":\"a\"\x7d".toList ≠ redact "\x7b\"password\":\"b\"\x7d".toList ∧
      redact "\x7b\"tag\":\"home\"\x7d".toList ≠ redact "\x7b\"tag\":\"work\"\x7d".toList := by
  decide +kernel

end FluxRs.Bugreport
