import FluxRs.Bugreport.Secrets

/-!
# FluxRs.Bugreport.Marks — which part of a text comes through

A mark is a symbol that no scanner knows.  The scanners after the assignments keep every mark outside a tag's value, so
that counting marks tells what the tag scanner drops; like the assignment scanner it takes a line in parts.
-/

namespace FluxRs.Bugreport

open FluxRs.Lib Rewrite

/-! ### The mark -/

/-- How often the mark stands in the text. -/
def marks (text : List Char) : ℕ := text.count '€'

@[simp] theorem marks_nil : marks [] = 0 := rfl

@[simp] theorem marks_append (text more : List Char) : marks (text ++ more) = marks text + marks more :=
  List.count_append

theorem marks_cons (c : Char) (text : List Char) : marks (c :: text) = marks [c] + marks text :=
  marks_append [c] text

theorem marks_eq_zero {text : List Char} (h : '€' ∉ text) : marks text = 0 := List.count_eq_zero.mpr h

theorem marks_dropWhile {p : Char → Bool} (hp : p '€' = false) (text : List Char) :
    marks (text.dropWhile p) = marks text := by
  have hzero : marks (text.takeWhile p) = 0 := by
    refine marks_eq_zero fun hmem => ?_
    rw [List.mem_takeWhile_imp hmem] at hp
    cases hp
  conv_rhs => rw [← List.takeWhile_append_dropWhile (p := p) (l := text), marks_append]
  rw [hzero, Nat.zero_add]

theorem not_mem_of_all {p : Char → Bool} (hp : p '€' = false) {text : List Char} (h : text.all p = true) : '€' ∉ text := by
  intro hmem
  rw [List.all_eq_true.mp h _ hmem] at hp
  cases hp

theorem not_mem_read {p : Char → Bool} (hp : p '€' = false) (place : Cursor Char) : '€' ∉ place.read p := by
  intro hmem
  rw [List.mem_takeWhile_imp hmem] at hp
  cases hp

/-- A pass that rewrites what has no mark by what has none keeps the marks. -/
theorem marks_scan {rule : Rule Char}
    (h : ∀ place out next, rule.rewrite place = some (out, next) → marks out + marks next.rest = marks place.rest)
    (place : Cursor Char) : marks (rule.scan place) = marks place.rest := by
  induction place using Rule.scan_induction rule with
  | nil prev => rw [Rule.scan_nil]
  | copy prev a as hnone ih => rw [Rule.scan_of_none hnone, marks_cons, ih, ← marks_cons]
  | replace place out next hsome ih => rw [Rule.scan_of_some hsome, marks_append, ih, h place out next hsome]

theorem not_mem_maskIpv4 {token masked : List Char} (h : maskIpv4 token = some masked) : '€' ∉ masked := by
  have hmasked : ∀ addr port : List Char, '€' ∉ port →
      (if (addr.splitOn '.').length = 4 && (addr.splitOn '.').all isOctet then
        some ((addr.splitOn '.').headD [] ++ ".x.x.x".toList ++ port) else none) = some masked → '€' ∉ masked := by
    intro addr port hport hif
    split at hif
    · rename_i hcond
      cases hif
      rw [Bool.and_eq_true, decide_eq_true_iff] at hcond
      obtain ⟨octet, octets, hoctets⟩ := List.exists_cons_of_ne_nil (List.ne_nil_of_length_pos (by omega) : addr.splitOn '.' ≠ [])
      rw [hoctets, List.all_cons, Bool.and_eq_true] at hcond
      have hdigits : octet.all Char.isDigit = true := by
        have hoctet := hcond.2.1
        simp only [isOctet, Bool.and_eq_true] at hoctet
        exact hoctet.1.2
      rw [hoctets, List.headD_cons, List.mem_append, List.mem_append, not_or, not_or]
      exact ⟨⟨not_mem_of_all (by decide) hdigits, by decide⟩, hport⟩
    · cases hif
  unfold maskIpv4 at h
  dsimp only at h
  split at h
  · rename_i c port hc
    split at h
    · rename_i hcond
      rw [Bool.and_eq_true] at hcond
      refine hmasked _ _ ?_ h
      rw [List.mem_cons, not_or]
      exact ⟨by decide, not_mem_of_all (by decide) hcond.2⟩
    · cases h
  · exact hmasked _ _ List.not_mem_nil h

theorem not_mem_classifyAndMask {token : List Char} (h : '€' ∉ token) : '€' ∉ classifyAndMask token := by
  unfold classifyAndMask
  split
  · rename_i masked hmasked
    exact not_mem_maskIpv4 hmasked
  · split
    · decide
    · split
      · decide
      · exact h

theorem marks_redactLine (text : List Char) : marks (redactLine text) = marks text := by
  refine marks_scan ?_ ⟨none, text⟩
  rintro ⟨prev, _ | ⟨c, cs⟩⟩ out next h
  · cases h
  · dsimp only [lineRule] at h
    split at h
    · rename_i hc
      subst hc
      split at h
      · rename_i hcond
        cases h
        rw [Bool.and_eq_true, decide_eq_true_iff, decide_eq_true_iff] at hcond
        obtain ⟨more, hmore⟩ := List.head?_eq_some_iff.mp hcond.2
        have hdigits : marks cs = marks (':' :: more) := by
          rw [← hmore, Cursor.skip_rest, marks_dropWhile (by decide)]
        rw [Cursor.advance, hmore, marks_cons '"', hdigits]
        rfl
      · cases h
        exact (marks_cons '"' cs).symm
    · split at h
      · rename_i haddr
        cases h
        have hc : marks [c] = 0 := by
          refine marks_eq_zero fun hmem => ?_
          rw [← List.mem_singleton.mp hmem] at haddr
          cases haddr
        rw [marks_eq_zero (not_mem_classifyAndMask (not_mem_read (by decide) _)), Cursor.skip_rest,
          marks_dropWhile (by decide), marks_cons c, hc]
      · cases h

theorem marks_redactDomains (text : List Char) : marks (redactDomains text) = marks text := by
  refine marks_scan ?_ ⟨none, text⟩
  rintro ⟨prev, _ | ⟨c, cs⟩⟩ out next h
  · cases h
  · dsimp only [domainRule] at h
    split at h
    · rename_i hbyte
      cases h
      have hc : marks [c] = 0 := by
        refine marks_eq_zero fun hmem => ?_
        rw [← List.mem_singleton.mp hmem] at hbyte
        cases hbyte
      have hout : ∀ token : List Char, '€' ∉ token →
          marks (if isDomainLike token then "[domain-redacted]".toList else token) = 0 := by
        intro token htoken
        split
        · decide
        · exact marks_eq_zero htoken
      rw [hout _ (not_mem_read (by decide) _), Cursor.skip_rest, marks_dropWhile (by decide), marks_cons c, hc]
    · cases h

/-- The stages after the tags keep the marks. -/
theorem marks_redactOne (line : List Char) : marks (redactOne line) = marks (redactTags (maskSecrets line)) := by
  rw [redactOne, marks_redactDomains, marks_redactLine]
  rfl

/-! ### The tag scanner where a text goes on -/

/-- The symbols of an unquoted tag. -/
def inTag (c : Char) : Bool := c != '\n' && !isAsciiWhitespace c && c != ','

/-- What the tag scanner is in the middle of. -/
inductive TagMode
  | free
  | word
  | quoted (q : Char)
deriving DecidableEq

/-- The text that the tag scanner reads next, where more comes. -/
def TagMode.resume : TagMode → Option Char → List Char → List Char
  | .free, prev, text => tagRule.scan ⟨prev, text⟩
  | .word, _, text => redactTags (text.dropWhile inTag)
  | .quoted q, _, text => resumeQuoted tagRule q text

theorem lowerKey_tag : LowerKey "tag".toList := ⟨by decide, forall_of_all (by decide)⟩

/-- The place of a tag's value, if a separator follows the key. -/
def tagPlace (c : Char) (cs : List Char) : Cursor Char := (Cursor.advance 2 ⟨some c, cs⟩).skip isAsciiWhitespace

theorem rewrite_tag_none {prev : Option Char} {c : Char} {cs : List Char}
    (h : ¬(keyAt ⟨prev, c :: cs⟩ "tag".toList = true ∧ (tagPlace c cs).rest.head?.any isSeparator = true)) :
    tagRule.rewrite ⟨prev, c :: cs⟩ = none := by
  dsimp only [tagRule]
  split
  · rename_i hkey
    split
    · rename_i s tail hplace
      rw [if_neg]
      intro hsep
      refine h ⟨hkey, ?_⟩
      rw [tagPlace, hplace]
      exact hsep
    · rfl
  · rfl

theorem rewrite_tag_some {prev : Option Char} {c s : Char} {cs tail : List Char}
    (hkey : keyAt ⟨prev, c :: cs⟩ "tag".toList = true) (hplace : (tagPlace c cs).rest = s :: tail)
    (hsep : isSeparator s = true) :
    tagRule.rewrite ⟨prev, c :: cs⟩ =
      some (c :: cs.take 2 ++ Cursor.read isAsciiWhitespace (Cursor.advance 2 ⟨some c, cs⟩) ++
          s :: Cursor.read isAsciiWhitespace ⟨some s, tail⟩ ++
            (redactTag (Cursor.skip isAsciiWhitespace ⟨some s, tail⟩)).1,
        (redactTag (Cursor.skip isAsciiWhitespace ⟨some s, tail⟩)).2) := by
  dsimp only [tagRule]
  rw [if_pos hkey]
  rw [tagPlace] at hplace
  rw [hplace]
  exact if_pos hsep

theorem atLetters_tag : AtLetters tagRule := by
  intro prev c text h
  refine rewrite_tag_none fun hboth => ?_
  have hno : keyAt ⟨prev, c :: text⟩ "tag".toList = false := keyAt_of_head lowerKey_tag h
  rw [hno] at hboth
  cases hboth.1

theorem redactTag_quoted {c : Char} (h : isQuote c = true) (prev : Option Char) (cs : List Char) :
    (redactTag ⟨prev, c :: cs⟩).2 = afterQuote c (Cursor.skip (fun d => d != c && d != '\n') ⟨some c, cs⟩) := by
  have hsame : (fun d : Char => d != '\n' && d != c) = fun d => d != c && d != '\n' := by
    funext d
    exact Bool.and_comm _ _
  dsimp only [redactTag]
  rw [if_pos h, hsame, afterQuote]
  simp only [beq_iff_eq]

theorem redactTag_word {c : Char} (h : isQuote c = false) (prev : Option Char) (cs : List Char) :
    (redactTag ⟨prev, c :: cs⟩).2 = Cursor.skip inTag ⟨prev, c :: cs⟩ := by
  dsimp only [redactTag]
  rw [if_neg (by rw [h]; exact Bool.false_ne_true)]
  rfl

/-- The text for a tag has no mark. -/
theorem marks_redactTag (value : Cursor Char) : marks (redactTag value).1 = 0 := by
  have hsafe : ∀ tag : List Char, SAFE_TAGS.contains tag = true → '€' ∉ tag := by
    have hall : ∀ tag ∈ SAFE_TAGS, '€' ∉ tag := by decide
    intro tag htag
    exact hall tag (List.contains_iff_mem.mp htag)
  obtain ⟨prev, _ | ⟨c, cs⟩⟩ := value
  · dsimp only [redactTag]
    split <;> rfl
  · dsimp only [redactTag]
    split
    · rename_i hquote
      have hc : '€' ≠ c := by
        rintro rfl
        exact absurd hquote (by decide)
      split
      · rename_i htag
        refine marks_eq_zero ?_
        have hclose : ∀ b : Bool, '€' ∉ (if b = true then [c] else []) := by
          intro b
          cases b
          · exact List.not_mem_nil
          · simpa using hc
        rw [List.mem_append, List.mem_cons, not_or, not_or]
        exact ⟨⟨hc, hsafe _ htag⟩, hclose _⟩
      · rfl
    · split
      · rename_i htag
        exact marks_eq_zero (hsafe _ htag)
      · rfl

theorem not_isAlpha_of_not_inTag (c : Char) (h : inTag c = false) : c.isAlpha = false := by
  simp only [inTag, Bool.and_eq_false_iff, bne_eq_false_iff_eq, Bool.not_eq_false'] at h
  rcases h with (rfl | h) | rfl
  · rfl
  · exact not_isAlpha_of_blank h
  · rfl

/-- A mode that a text can end in. -/
def TagMode.Valid (mode : TagMode) : Prop := ∀ q, mode = .quoted q → isQuote q = true

theorem redactTag_append {value : Cursor Char} (hne : value.rest ≠ []) :
    ∃ mode : TagMode, mode.Valid ∧ ∀ more,
      ((redactTag value).2.rest ≠ [] → (redactTag (value.append more)).2 = (redactTag value).2.append more) ∧
        ((redactTag value).2.rest = [] →
          tagRule.scan (redactTag (value.append more)).2 = mode.resume value.last more) := by
  obtain ⟨prev, _ | ⟨c, cs⟩⟩ := value
  · exact absurd rfl hne
  cases hquote : isQuote c with
  | false =>
    refine ⟨.word, ?_, fun more => ?_⟩
    · rintro q ⟨⟩
    · rw [Cursor.append_mk, List.cons_append, redactTag_word hquote, redactTag_word hquote, ← List.cons_append,
        ← Cursor.append_mk]
      exact ⟨fun h => Cursor.skip_append_of_ne h more,
        fun h => atLetters_tag.scan_skip_append not_isAlpha_of_not_inTag h more⟩
  | true =>
    refine ⟨if (Cursor.skip (fun d => d != c && d != '\n') ⟨some c, cs⟩).rest.head? = some c then .free else .quoted c,
      ?_, fun more => ?_⟩
    · intro q hq
      split at hq
      · cases hq
      · cases hq
        exact hquote
    · rw [Cursor.append_mk, List.cons_append, redactTag_quoted hquote, redactTag_quoted hquote, ← Cursor.append_mk]
      obtain ⟨hgoes, hends⟩ := atLetters_tag.afterQuote_append c ⟨some c, cs⟩ more
      refine ⟨hgoes, fun h => ?_⟩
      rw [hends h, Cursor.last_cons]
      split
      · rfl
      · rfl

/-- The last symbol of the text, if it has one, is no letter, digit, blank or separator. -/
def Solid (text : List Char) : Prop :=
  ∀ c, text.getLast? = some c → c.isAlphanum = false ∧ isAsciiWhitespace c = false ∧ isSeparator c = false

theorem Solid.bounded {text : List Char} (h : Solid text) : Bounded text := fun c hc => (h c hc).1

theorem Solid.of_suffix {text more : List Char} (h : Solid text) (hsuffix : more <:+ text) : Solid more := by
  obtain ⟨before, rfl⟩ := hsuffix
  intro c hc
  refine h c ?_
  rw [List.getLast?_append, hc]
  rfl

/-- A solid text goes on behind its blanks. -/
theorem Solid.skip {place : Cursor Char} (h : Solid place.rest) (hne : place.rest ≠ []) :
    (place.skip isAsciiWhitespace).rest ≠ [] := by
  intro hnil
  obtain ⟨c, hlast, hblank⟩ := Cursor.last_of_skip_nil hnil hne
  have hrest : place.rest.getLast? = some c := by
    rw [Cursor.last] at hlast
    cases hget : place.rest.getLast? with
    | none => exact absurd (List.getLast?_eq_none_iff.mp hget) hne
    | some d =>
      rw [hget] at hlast
      exact hlast
  rw [(h c hrest).2.1] at hblank
  cases hblank

theorem reaches_redactTag (value : Cursor Char) : value.Reaches (redactTag value).2 := by
  obtain ⟨prev, _ | ⟨c, cs⟩⟩ := value
  · exact ⟨List.suffix_rfl, rfl⟩
  · cases hquote : isQuote c with
    | false =>
      rw [redactTag_word hquote]
      exact Cursor.reaches_skip _ _
    | true =>
      rw [redactTag_quoted hquote]
      exact (Cursor.reaches_cons.trans (Cursor.reaches_skip _ _)).trans (reaches_afterQuote c _)

section Tags

variable {prev : Option Char} {c : Char} {cs : List Char} (hsolid : Solid (c :: cs))
variable (hkey : keyAt ⟨prev, c :: cs⟩ "tag".toList = true)
include hsolid hkey

/-- Two letters and more follow the first one of the key. -/
theorem two_lt_of_tag : 2 < cs.length := by
  have hlt := @lt_of_keyAt ⟨prev, c :: cs⟩ _ lowerKey_tag (List.cons_ne_nil _ _) hsolid.bounded []
    (by rw [Cursor.append_nil]; exact hkey)
  have hlength : "tag".toList.length = 3 := by decide
  rw [hlength, List.length_cons] at hlt
  omega

theorem advance_tag (more : List Char) :
    Cursor.advance 2 ⟨some c, cs ++ more⟩ = (Cursor.advance 2 ⟨some c, cs⟩).append more :=
  @Cursor.advance_append _ ⟨some c, cs⟩ 2 (two_lt_of_tag hsolid hkey).le more

/-- Something other than a blank follows the key. -/
theorem tagPlace_ne : (tagPlace c cs).rest ≠ [] := by
  have hsuffix : (Cursor.advance 2 ⟨some c, cs⟩).rest <:+ c :: cs :=
    (Cursor.reaches_advance 2 ⟨some c, cs⟩).1.trans (List.suffix_cons c cs)
  refine Solid.skip (hsolid.of_suffix hsuffix) fun hnil => ?_
  have hle := List.drop_eq_nil_iff.mp hnil
  have hlt := two_lt_of_tag hsolid hkey
  dsimp only at hle
  omega

theorem tagPlace_append (more : List Char) : tagPlace c (cs ++ more) = (tagPlace c cs).append more := by
  rw [tagPlace, advance_tag hsolid hkey]
  exact Cursor.skip_append_of_ne (tagPlace_ne hsolid hkey) more

end Tags

section Tags

variable {prev : Option Char} {c : Char} {cs : List Char}

/-- What stands before a tag's value. -/
theorem reaches_tagValue {s : Char} {tail : List Char} (hplace : (tagPlace c cs).rest = s :: tail) :
    (⟨some c, cs⟩ : Cursor Char).Reaches ⟨some s, tail⟩ := by
  have hto : (⟨some c, cs⟩ : Cursor Char).Reaches (tagPlace c cs) :=
    (Cursor.reaches_advance 2 ⟨some c, cs⟩).trans (Cursor.reaches_skip _ _)
  cases hp : tagPlace c cs with
  | mk before rest =>
    rw [hp] at hplace hto
    subst hplace
    exact hto.trans Cursor.reaches_cons

/-- A tag's value has begun where a solid text ends. -/
theorem tagValue_ne (hsolid : Solid (c :: cs)) {s : Char} {tail : List Char}
    (hplace : (tagPlace c cs).rest = s :: tail) (hsep : isSeparator s = true) :
    (Cursor.skip isAsciiWhitespace ⟨some s, tail⟩).rest ≠ [] := by
  have hsuffix : s :: tail <:+ c :: cs := by
    rw [← hplace]
    exact ((Cursor.reaches_advance 2 ⟨some c, cs⟩).trans (Cursor.reaches_skip _ _)).1.trans (List.suffix_cons c cs)
  have hend := hsolid.of_suffix hsuffix
  refine @Solid.skip ⟨some s, tail⟩ (hend.of_suffix (List.suffix_cons s tail)) fun hnil => ?_
  have htail : tail = [] := hnil
  have hno := (hend s (by rw [htail]; rfl)).2.2
  rw [hsep] at hno
  cases hno

/-- The scanner's step over a tag, where more comes: a text of its own, and the place behind the value. -/
theorem marks_tag_step (hsolid : Solid (c :: cs)) (hkey : keyAt ⟨prev, c :: cs⟩ "tag".toList = true) {s : Char}
    {tail : List Char} (hplace : (tagPlace c cs).rest = s :: tail) (hsep : isSeparator s = true) :
    ∃ n, ∀ more, marks (tagRule.scan (Cursor.append ⟨prev, c :: cs⟩ more)) =
      n + marks (tagRule.scan (redactTag ((Cursor.skip isAsciiWhitespace ⟨some s, tail⟩).append more)).2) := by
  have hvalue := tagValue_ne hsolid hplace hsep
  refine ⟨marks (c :: cs.take 2 ++ Cursor.read isAsciiWhitespace (Cursor.advance 2 ⟨some c, cs⟩) ++
    s :: Cursor.read isAsciiWhitespace ⟨some s, tail⟩), fun more => ?_⟩
  have hat : keyAt ⟨prev, c :: (cs ++ more)⟩ "tag".toList = true :=
    (@keyAt_append ⟨prev, c :: cs⟩ _ lowerKey_tag (List.cons_ne_nil _ _) hsolid.bounded more).trans hkey
  have hplace' : (tagPlace c (cs ++ more)).rest = s :: (tail ++ more) := by
    rw [tagPlace_append hsolid hkey, Cursor.append, hplace, List.cons_append]
  have hskip : Cursor.skip isAsciiWhitespace ⟨some s, tail ++ more⟩ =
      (Cursor.skip isAsciiWhitespace ⟨some s, tail⟩).append more := Cursor.skip_append_of_ne hvalue more
  have hread : Cursor.read isAsciiWhitespace ⟨some s, tail ++ more⟩ = Cursor.read isAsciiWhitespace ⟨some s, tail⟩ :=
    Cursor.read_append_of_ne hvalue more
  have hread' : Cursor.read isAsciiWhitespace (Cursor.advance 2 ⟨some c, cs ++ more⟩) =
      Cursor.read isAsciiWhitespace (Cursor.advance 2 ⟨some c, cs⟩) := by
    rw [advance_tag hsolid hkey]
    exact Cursor.read_append_of_ne (tagPlace_ne hsolid hkey) more
  have htake : (cs ++ more).take 2 = cs.take 2 := List.take_append_of_le_length (two_lt_of_tag hsolid hkey).le
  rw [Cursor.append_mk, List.cons_append, Rule.scan_of_some (rewrite_tag_some hat hplace' hsep), marks_append,
    marks_append, marks_redactTag, Nat.add_zero, hskip, hread, hread', htake]

end Tags

/-- **The tag scanner takes a line in parts**, as far as the marks go. -/
theorem marks_tag_append (place : Cursor Char) : Solid place.rest →
    ∃ (n : ℕ) (mode : TagMode), mode.Valid ∧
      ∀ more, marks (tagRule.scan (place.append more)) = n + marks (mode.resume place.last more) := by
  induction hn : place.rest.length using Nat.strongRecOn generalizing place with
  | _ n ih =>
    subst hn
    intro hsolid
    obtain ⟨prev, _ | ⟨c, cs⟩⟩ := place
    · refine ⟨0, .free, ?_, fun more => (Nat.zero_add _).symm⟩
      rintro q ⟨⟩
    · have hkey : ∀ more, keyAt ⟨prev, c :: (cs ++ more)⟩ "tag".toList = keyAt ⟨prev, c :: cs⟩ "tag".toList := fun more =>
        @keyAt_append ⟨prev, c :: cs⟩ _ lowerKey_tag (List.cons_ne_nil _ _) hsolid.bounded more
      by_cases htag : keyAt ⟨prev, c :: cs⟩ "tag".toList = true ∧ (tagPlace c cs).rest.head?.any isSeparator = true
      · obtain ⟨hat, hhead⟩ := htag
        obtain ⟨s, tail, hplace⟩ := List.exists_cons_of_ne_nil (tagPlace_ne hsolid hat)
        rw [hplace] at hhead
        have hsep : isSeparator s = true := hhead
        have hvalue := tagValue_ne hsolid hplace hsep
        have hreach := (reaches_tagValue hplace).trans (Cursor.reaches_skip isAsciiWhitespace _)
        have hlast : (⟨prev, c :: cs⟩ : Cursor Char).last = (Cursor.skip isAsciiWhitespace ⟨some s, tail⟩).last := by
          rw [hreach.2, Cursor.last_cons]
        obtain ⟨k, hstep⟩ := marks_tag_step hsolid hat hplace hsep
        obtain ⟨mode, hvalid, hmode⟩ := redactTag_append hvalue
        have hnext := reaches_redactTag (Cursor.skip isAsciiWhitespace ⟨some s, tail⟩)
        have hsuffix := hnext.1.trans hreach.1
        by_cases hnil : (redactTag (Cursor.skip isAsciiWhitespace ⟨some s, tail⟩)).2.rest = []
        · refine ⟨k, mode, hvalid, fun more => ?_⟩
          rw [hstep more, (hmode more).2 hnil, hlast]
        · obtain ⟨n, mode', hvalid', hrest⟩ := ih _ (Nat.lt_succ_of_le hsuffix.length_le) _ rfl
            (hsolid.of_suffix (hsuffix.trans (List.suffix_cons c cs)))
          refine ⟨k + n, mode', hvalid', fun more => ?_⟩
          rw [hstep more, (hmode more).1 hnil, hrest more, hnext.2, hlast, Nat.add_assoc]
      · have hnone : ∀ more, tagRule.rewrite ⟨prev, c :: (cs ++ more)⟩ = none := by
          intro more
          refine rewrite_tag_none fun hboth => htag ?_
          have hat : keyAt ⟨prev, c :: cs⟩ "tag".toList = true := (hkey more).symm.trans hboth.1
          refine ⟨hat, ?_⟩
          have hhead := hboth.2
          rw [tagPlace_append hsolid hat, Cursor.append, List.head?_append_of_ne_nil _ (tagPlace_ne hsolid hat)] at hhead
          exact hhead
        obtain ⟨n, mode, hvalid, hrest⟩ := ih _ (Nat.lt_succ_self _) ⟨some c, cs⟩ rfl
          (hsolid.of_suffix (List.suffix_cons c cs))
        refine ⟨marks [c] + n, mode, hvalid, fun more => ?_⟩
        rw [Cursor.append_mk, List.cons_append, Rule.scan_of_none (hnone more), marks_cons, Cursor.last_cons, Nat.add_assoc,
          ← hrest more, Cursor.append_mk]

end FluxRs.Bugreport
