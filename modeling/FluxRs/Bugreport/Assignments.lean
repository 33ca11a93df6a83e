import FluxRs.Bugreport.Urls

/-!
# FluxRs.Bugreport.Assignments — what the assignment scanner is in the middle of

Where a text ends the scanner copies, or it is inside a value: an unquoted one, one that goes to the line's end,
or a quoted one.  This mode decides what it makes of a text that comes next.
-/

namespace FluxRs.Bugreport

open FluxRs.Lib Rewrite

/-! ### Keys -/

theorem isAlpha_of_toLower {c k : Char} (hk : k.isLower = true) (h : c.toLower = k) : c.isAlpha = true := by
  unfold Char.toLower at h
  split at h
  · rename_i hupper
    exact Bool.or_eq_true_iff.mpr (.inl (decide_eq_true hupper))
  · rw [h]
    exact Bool.or_eq_true_iff.mpr (.inr hk)

theorem isAlphanum_of_isAlpha {c : Char} (h : c.isAlpha = true) : c.isAlphanum = true := by
  rw [Char.isAlphanum, h, Bool.true_or]

/-- All letters of the key are lower-case ones. -/
def LowerKey (key : List Char) : Prop := key ≠ [] ∧ ∀ k ∈ key, k.isLower = true

theorem lowerKey_secret {key : List Char} (h : key ∈ SECRET_KEYS) : LowerKey key := by
  unfold SECRET_KEYS at h
  simp only [List.mem_cons, List.not_mem_nil, or_false] at h
  rcases h with rfl | rfl | rfl | rfl <;> exact ⟨by decide, forall_of_all (by decide)⟩

theorem toLower_of_isLower {c : Char} (h : c.isLower = true) : c.toLower = c := by
  unfold Char.toLower
  rw [dif_neg]
  rintro ⟨-, hle⟩
  have hboth : (decide (c.val ≥ 'a'.val) && decide (c.val ≤ 'z'.val)) = true := h
  have hlow := of_decide_eq_true (Bool.and_eq_true_iff.mp hboth).1
  exact absurd (UInt32.le_trans hlow hle) (by decide)

theorem LowerKey.map_toLower {key : List Char} (h : LowerKey key) : key.map Char.toLower = key :=
  (List.map_congr_left fun k hk => toLower_of_isLower (h.2 k hk)).trans (List.map_id key)

theorem isAlpha_of_eqIgnoreAsciiCase {text key : List Char} (hkey : LowerKey key)
    (h : eqIgnoreAsciiCase text key = true) : ∀ c ∈ text, c.isAlpha = true := by
  intro c hc
  have hmap : text.map Char.toLower = key.map Char.toLower := eq_of_beq h
  have hmem : c.toLower ∈ key := hkey.map_toLower ▸ hmap ▸ List.mem_map_of_mem hc
  exact isAlpha_of_toLower (hkey.2 _ hmem) rfl

theorem keyAt_iff {place : Cursor Char} {key : List Char} :
    keyAt place key = true ↔ key.length ≤ place.rest.length ∧ place.prev.any Char.isAlphanum = false ∧
      eqIgnoreAsciiCase (place.rest.take key.length) key = true ∧
        (place.rest.drop key.length).head?.any Char.isAlphanum = false := by
  rw [keyAt, Bool.and_eq_true, Bool.and_eq_true, Bool.and_eq_true, decide_eq_true_iff, Bool.not_eq_true',
    Bool.not_eq_true', and_assoc, and_assoc]

/-- No text that starts with another symbol than a letter starts with a key. -/
theorem keyAt_of_head {place : Cursor Char} {key : List Char} (hkey : LowerKey key)
    (h : place.rest.head?.any Char.isAlpha = false) : keyAt place key = false := by
  rw [← Bool.not_eq_true, keyAt_iff]
  rintro ⟨hlength, -, heq, -⟩
  obtain ⟨prev, _ | ⟨c, rest⟩⟩ := place
  · exact hkey.1 (List.eq_nil_of_length_eq_zero (Nat.le_zero.mp hlength))
  · have hpos := List.length_pos_iff.mpr hkey.1
    have hmem : c ∈ (c :: rest).take key.length := by
      rw [List.take_cons hpos]
      exact List.mem_cons_self
    have halpha := isAlpha_of_eqIgnoreAsciiCase hkey heq c hmem
    simp only [List.head?_cons, Option.any_some] at h
    rw [h] at halpha
    cases halpha

theorem length_le_of_keyAt {place : Cursor Char} {key key' : List Char} (hkey : LowerKey key)
    (h : keyAt place key = true) (h' : keyAt place key' = true) : key.length ≤ key'.length := by
  by_contra hlt
  rw [not_le] at hlt
  obtain ⟨hlength, -, heq, -⟩ := keyAt_iff.mp h
  obtain ⟨-, -, -, hend⟩ := keyAt_iff.mp h'
  cases hdrop : place.rest.drop key'.length with
  | nil =>
    rw [List.drop_eq_nil_iff] at hdrop
    omega
  | cons c more =>
    have hmem : c ∈ place.rest.take key.length := by
      have hc : place.rest[key'.length]? = some c := by
        rw [← List.head?_drop, hdrop]
        rfl
      rw [List.mem_iff_getElem?]
      exact ⟨key'.length, by rw [List.getElem?_take_of_lt hlt, hc]⟩
    have halpha := isAlpha_of_eqIgnoreAsciiCase hkey heq c hmem
    rw [hdrop, List.head?_cons, Option.any_some, isAlphanum_of_isAlpha halpha] at hend
    cases hend

/-- At one place stands one key at most. -/
theorem keyAt_unique {place : Cursor Char} {key key' : List Char} (hkey : LowerKey key) (hkey' : LowerKey key')
    (h : keyAt place key = true) (h' : keyAt place key' = true) : key = key' := by
  have hlength := Nat.le_antisymm (length_le_of_keyAt hkey h h') (length_le_of_keyAt hkey' h' h)
  obtain ⟨-, -, heq, -⟩ := keyAt_iff.mp h
  obtain ⟨-, -, heq', -⟩ := keyAt_iff.mp h'
  rw [eqIgnoreAsciiCase, beq_iff_eq] at heq heq'
  rw [← hlength, heq, hkey.map_toLower, hkey'.map_toLower] at heq'
  exact heq'

theorem find?_keyAt {place : Cursor Char} {key : List Char} (hkey : key ∈ SECRET_KEYS) (h : keyAt place key = true) :
    SECRET_KEYS.find? (keyAt place) = some key := by
  cases hfind : SECRET_KEYS.find? (keyAt place) with
  | none => exact absurd h (List.find?_eq_none.mp hfind key hkey)
  | some key' =>
    have hmem := List.mem_of_find?_eq_some hfind
    rw [keyAt_unique (lowerKey_secret hmem) (lowerKey_secret hkey) (List.find?_some hfind) h]

/-- The last symbol of the text, if it has one, is neither a letter nor a digit. -/
def Bounded (text : List Char) : Prop := ∀ c, text.getLast? = some c → c.isAlphanum = false

theorem Bounded.tail {c : Char} {text : List Char} (h : Bounded (c :: text)) : Bounded text := by
  intro d hd
  refine h d ?_
  rw [List.getLast?_cons, hd]
  rfl

theorem Bounded.of_suffix {text more : List Char} (h : Bounded text) (hsuffix : more <:+ text) : Bounded more := by
  obtain ⟨before, rfl⟩ := hsuffix
  intro c hc
  refine h c ?_
  rw [List.getLast?_append, hc]
  rfl

/-- A key never ends where a bounded text ends. -/
theorem lt_of_keyAt {place : Cursor Char} {key : List Char} (hkey : LowerKey key) (hne : place.rest ≠ [])
    (hbound : Bounded place.rest) {more : List Char} (h : keyAt (place.append more) key = true) :
    key.length < place.rest.length := by
  by_contra hle
  rw [not_lt] at hle
  obtain ⟨-, -, heq, -⟩ := keyAt_iff.mp h
  have hlast := List.getLast?_eq_some_getLast hne
  have hmem : place.rest.getLast hne ∈ (place.rest ++ more).take key.length := by
    rw [List.take_append, List.take_of_length_le hle]
    exact List.mem_append_left _ (List.getLast_mem hne)
  have halpha := isAlpha_of_eqIgnoreAsciiCase hkey heq _ hmem
  have hno := hbound _ hlast
  rw [isAlphanum_of_isAlpha halpha] at hno
  cases hno

theorem keyAt_append {place : Cursor Char} {key : List Char} (hkey : LowerKey key) (hne : place.rest ≠ [])
    (hbound : Bounded place.rest) (more : List Char) : keyAt (place.append more) key = keyAt place key := by
  by_cases hlt : key.length < place.rest.length
  · have hdrop : place.rest.drop key.length ≠ [] := by
      intro hnil
      rw [List.drop_eq_nil_iff] at hnil
      omega
    rw [Bool.eq_iff_iff, keyAt_iff, keyAt_iff, Cursor.append, List.length_append, List.take_append_of_le_length hlt.le,
      List.drop_append_of_le_length hlt.le, List.head?_append_of_ne_nil _ hdrop]
    refine and_congr_left fun _ => ?_
    omega
  · have hno : keyAt place key = false := by
      rw [← Bool.not_eq_true]
      intro h
      have hself : keyAt (place.append []) key = true := by
        rw [Cursor.append_nil]
        exact h
      exact hlt (lt_of_keyAt hkey hne hbound hself)
    rw [hno, ← Bool.not_eq_true]
    exact fun h => hlt (lt_of_keyAt hkey hne hbound h)

/-! ### Rules that rewrite at letters only -/

/-- The rule leaves every symbol that is not a letter. -/
def AtLetters (rule : Rule Char) : Prop := ∀ prev c text, c.isAlpha = false → rule.rewrite ⟨prev, c :: text⟩ = none

/-- What a rule makes of a text behind an open quote. -/
def resumeQuoted (rule : Rule Char) (q : Char) (text : List Char) : List Char :=
  match text.dropWhile fun d => d != q && d != '\n' with
  | [] => []
  | c :: rest => if c = q then rule.scan ⟨some q, rest⟩ else rule.scan ⟨none, c :: rest⟩

/-- The closing quote is passed, where there is one. -/
def afterQuote (q : Char) (stop : Cursor Char) : Cursor Char := if stop.rest.head? = some q then stop.advance 1 else stop

@[simp] theorem afterQuote_nil (q : Char) (prev : Option Char) : afterQuote q ⟨prev, []⟩ = ⟨prev, []⟩ :=
  if_neg (by simp)

@[simp] theorem afterQuote_self (q : Char) (prev : Option Char) (text : List Char) :
    afterQuote q ⟨prev, q :: text⟩ = ⟨some q, text⟩ :=
  if_pos rfl

theorem afterQuote_of_ne {q c : Char} (h : c ≠ q) (prev : Option Char) (text : List Char) :
    afterQuote q ⟨prev, c :: text⟩ = ⟨prev, c :: text⟩ :=
  if_neg (by simpa using h)

theorem reaches_afterQuote (q : Char) (place : Cursor Char) : place.Reaches (afterQuote q place) := by
  rw [afterQuote]
  split
  · exact Cursor.reaches_advance 1 place
  · exact ⟨List.suffix_rfl, rfl⟩

namespace AtLetters

variable {rule : Rule Char} (hrule : AtLetters rule)
include hrule

/-- Where no key can begin the symbol before does not matter. -/
theorem scan_prev {text : List Char} (h : text.head?.any Char.isAlpha = false) (prev : Option Char) :
    rule.scan ⟨prev, text⟩ = rule.scan ⟨none, text⟩ := by
  cases text with
  | nil => rw [Rule.scan_nil, Rule.scan_nil]
  | cons c text => rw [Rule.scan_of_none (hrule _ c text h), Rule.scan_of_none (hrule _ c text h)]

/-- No key can begin at the symbol where a pass stops. -/
theorem scan_skip {p : Char → Bool} (hp : ∀ c, p c = false → c.isAlpha = false) (place : Cursor Char) :
    rule.scan (place.skip p) = rule.scan ⟨none, place.rest.dropWhile p⟩ := by
  have hhead : (place.rest.dropWhile p).head?.any Char.isAlpha = false := by
    cases hdrop : place.rest.dropWhile p with
    | nil => rfl
    | cons c rest =>
      refine hp c ?_
      have hneg := List.head?_dropWhile_not p place.rest
      rw [hdrop] at hneg
      simpa using hneg
  rw [← hrule.scan_prev hhead (place.skip p).prev, ← Cursor.skip_rest]

/-- Where everything that was there is passed the pass goes on in the text that comes next. -/
theorem scan_skip_append {p : Char → Bool} (hp : ∀ c, p c = false → c.isAlpha = false) {place : Cursor Char}
    (h : (place.skip p).rest = []) (text : List Char) :
    rule.scan ((place.append text).skip p) = rule.scan ⟨none, text.dropWhile p⟩ := by
  rw [Cursor.skip_append, hrule.scan_skip hp, Cursor.append, h, List.nil_append]

/-- Behind a stretch without the quote the scanner goes on after the quote, or at the line's end. -/
theorem scan_afterQuote {q : Char} {place : Cursor Char} {text : List Char}
    (h : place.rest = text.dropWhile fun d => d != q && d != '\n') :
    rule.scan (afterQuote q place) = resumeQuoted rule q text := by
  rw [resumeQuoted, ← h]
  obtain ⟨prev, _ | ⟨c, rest⟩⟩ := place
  · rw [afterQuote_nil]
    exact Rule.scan_nil prev
  · show _ = if c = q then rule.scan ⟨some q, rest⟩ else rule.scan ⟨none, c :: rest⟩
    by_cases hc : c = q
    · rw [if_pos hc, hc, afterQuote_self]
    · have hstop := List.head?_dropWhile_not (fun d => d != q && d != '\n') text
      rw [← h] at hstop
      have hbreak : c = '\n' := by
        simpa [hc] using hstop
      rw [if_neg hc, afterQuote_of_ne hc]
      refine hrule.scan_prev ?_ prev
      rw [hbreak]
      rfl

/-- A quoted value that has begun: it ends before the text goes on, or the quote is open. -/
theorem afterQuote_append (q : Char) (place : Cursor Char) (text : List Char) :
    ((afterQuote q (place.skip fun d => d != q && d != '\n')).rest ≠ [] →
        afterQuote q ((place.append text).skip fun d => d != q && d != '\n') =
          (afterQuote q (place.skip fun d => d != q && d != '\n')).append text) ∧
      ((afterQuote q (place.skip fun d => d != q && d != '\n')).rest = [] →
        rule.scan (afterQuote q ((place.append text).skip fun d => d != q && d != '\n')) =
          if (place.skip fun d => d != q && d != '\n').rest.head? = some q then rule.scan ⟨place.last, text⟩
          else resumeQuoted rule q text) := by
  have hlast := Cursor.last_skip (fun d => d != q && d != '\n') place
  cases hstop : place.skip fun d => d != q && d != '\n' with
  | mk before rest =>
  cases rest with
  | nil =>
    -- the quote is open
    have hrest : ((place.append text).skip fun d => d != q && d != '\n').rest =
        text.dropWhile fun d => d != q && d != '\n' := by
      rw [Cursor.skip_append, Cursor.skip_rest, hstop]
      rfl
    rw [afterQuote_nil, if_neg (by simp)]
    exact ⟨fun h => absurd rfl h, fun _ => hrule.scan_afterQuote hrest⟩
  | cons d rest =>
    have hgoes : (place.append text).skip (fun d => d != q && d != '\n') = ⟨before, d :: (rest ++ text)⟩ := by
      rw [Cursor.skip_append_of_ne (by rw [hstop]; exact List.cons_ne_nil _ _), hstop]
      rfl
    rw [hgoes]
    by_cases hclosed : d = q
    · subst hclosed
      rw [afterQuote_self, afterQuote_self, if_pos (by rfl)]
      refine ⟨fun _ => rfl, fun h => ?_⟩
      have hnil : rest = [] := h
      rw [← hlast, hstop, hnil]
      rfl
    · rw [afterQuote_of_ne hclosed, afterQuote_of_ne hclosed]
      exact ⟨fun _ => rfl, fun h => absurd h (List.cons_ne_nil _ _)⟩

end AtLetters

/-! ### The mode where a text ends -/

/-- What the scanner is in the middle of. -/
inductive Mode
  | free
  | word
  | line
  | quoted (q : Char)
deriving DecidableEq

/-- The mode where a value ends that the text does not end before. -/
def valueMode (key : List Char) (value : Cursor Char) : Mode :=
  if eqIgnoreAsciiCase key "authorization".toList then .line
  else
    match value.rest with
    | c :: cs =>
      if isQuote c then
        if (Cursor.skip (fun d => d != c && d != '\n') ⟨some c, cs⟩).rest.head? = some c then .free else .quoted c
      else .word
    | [] => .word

/-- The mode where the rest after a key is all read. -/
def keyMode (key : List Char) (named : Cursor Char) : Mode :=
  match (named.skip isAsciiWhitespace).rest with
  | c :: cs => if isSeparator c then valueMode key (Cursor.skip isAsciiWhitespace ⟨some c, cs⟩) else .free
  | [] => .free

/-- What the scanner makes of a text that comes next. -/
def Mode.resume : Mode → Option Char → List Char → List Char
  | .free, prev, text => assignmentRule.scan ⟨prev, text⟩
  | .word, _, text => redactAssignments (text.dropWhile nonblank)
  | .line, _, text => redactAssignments (text.dropWhile (· != '\n'))
  | .quoted q, _, text => resumeQuoted assignmentRule q text

theorem find?_keyAt_of_head {place : Cursor Char} (h : place.rest.head?.any Char.isAlpha = false) :
    SECRET_KEYS.find? (keyAt place) = none := by
  rw [List.find?_eq_none]
  intro key hkey
  rw [keyAt_of_head (lowerKey_secret hkey) h]
  exact Bool.false_ne_true

theorem rewrite_of_key {prev : Option Char} {c : Char} {text key : List Char}
    (h : SECRET_KEYS.find? (keyAt ⟨prev, c :: text⟩) = some key) :
    assignmentRule.rewrite ⟨prev, c :: text⟩ =
      some (c :: text.take (key.length - 1) ++ (redactValue key (Cursor.advance (key.length - 1) ⟨some c, text⟩)).1,
        (redactValue key (Cursor.advance (key.length - 1) ⟨some c, text⟩)).2) := by
  unfold assignmentRule
  simp only [h]

theorem rewrite_of_no_key {prev : Option Char} {c : Char} {text : List Char}
    (h : SECRET_KEYS.find? (keyAt ⟨prev, c :: text⟩) = none) : assignmentRule.rewrite ⟨prev, c :: text⟩ = none := by
  unfold assignmentRule
  simp only [h]

theorem atLetters_assignment : AtLetters assignmentRule := by
  intro prev c text h
  exact rewrite_of_no_key (find?_keyAt_of_head h)

/-! ### One assignment in front of more text -/

/-- A text may come behind this symbol without changing what the scanner made of the symbol. -/
def Fits (last : Option Char) (text : List Char) : Prop :=
  (∃ c, text.head? = some c ∧ c.isAlphanum = true) ∨ ∀ c, last = some c → isAsciiWhitespace c = false ∧ isSeparator c = false

theorem not_isAlpha_of_blank {c : Char} (h : isAsciiWhitespace c = true) : c.isAlpha = false := by
  simp only [isAsciiWhitespace, Bool.or_eq_true, beq_iff_eq] at h
  rcases h with (((rfl | rfl) | rfl) | rfl) | rfl <;> decide

/-- No key begins at a blank, and none at a line break. -/
theorem not_isAlpha_of_nonblank (c : Char) (h : nonblank c = false) : c.isAlpha = false := by
  rw [nonblank, Bool.not_eq_false'] at h
  exact not_isAlpha_of_blank h

theorem not_isAlpha_of_break (c : Char) (h : (c != '\n') = false) : c.isAlpha = false := by
  rw [bne_eq_false_iff_eq] at h
  rw [h]
  rfl

theorem skipValue_line {key : List Char} (h : eqIgnoreAsciiCase key "authorization".toList = true)
    (value : Cursor Char) : skipValue key value = value.skip (· != '\n') := by
  rw [skipValue, if_pos h]

theorem skipValue_word {key : List Char} (h : ¬eqIgnoreAsciiCase key "authorization".toList = true) {c : Char}
    (hquote : isQuote c = false) (prev : Option Char) (text : List Char) :
    skipValue key ⟨prev, c :: text⟩ = Cursor.skip nonblank ⟨prev, c :: text⟩ := by
  rw [skipValue, if_neg h]
  show (if isQuote c = true then _ else _) = _
  rw [if_neg (by rw [hquote]; exact Bool.false_ne_true)]
  rfl

theorem skipValue_quoted {key : List Char} (h : ¬eqIgnoreAsciiCase key "authorization".toList = true) {c : Char}
    (hquote : isQuote c = true) (prev : Option Char) (text : List Char) :
    skipValue key ⟨prev, c :: text⟩ = afterQuote c (Cursor.skip (fun d => d != c && d != '\n') ⟨some c, text⟩) := by
  rw [skipValue, if_neg h]
  show (if isQuote c = true then _ else _) = _
  rw [if_pos hquote]
  rfl

/-- A value that has begun: it ends before the text goes on, or the mode tells how it goes on. -/
theorem skipValue_append (key : List Char) {value : Cursor Char} (hne : value.rest ≠ []) (text : List Char) :
    ((skipValue key value).rest ≠ [] → skipValue key (value.append text) = (skipValue key value).append text) ∧
      ((skipValue key value).rest = [] →
        assignmentRule.scan (skipValue key (value.append text)) = (valueMode key value).resume value.last text) := by
  obtain ⟨prev, _ | ⟨c, cs⟩⟩ := value
  · exact absurd rfl hne
  by_cases hauth : eqIgnoreAsciiCase key "authorization".toList = true
  · rw [skipValue_line hauth, skipValue_line hauth, valueMode, if_pos hauth]
    exact ⟨fun h => Cursor.skip_append_of_ne h text, fun h => atLetters_assignment.scan_skip_append not_isAlpha_of_break h text⟩
  · cases hquote : isQuote c with
    | false =>
      have hmode : valueMode key ⟨prev, c :: cs⟩ = .word := by
        rw [valueMode, if_neg hauth]
        exact if_neg (by rw [hquote]; exact Bool.false_ne_true)
      rw [Cursor.append_mk, List.cons_append, skipValue_word hauth hquote, skipValue_word hauth hquote, hmode,
        ← List.cons_append, ← Cursor.append_mk]
      exact ⟨fun h => Cursor.skip_append_of_ne h text, fun h => atLetters_assignment.scan_skip_append not_isAlpha_of_nonblank h text⟩
    | true =>
      rw [Cursor.append_mk, List.cons_append, skipValue_quoted hauth hquote, skipValue_quoted hauth hquote]
      have hmode : valueMode key ⟨prev, c :: cs⟩ =
          if (Cursor.skip (fun d => d != c && d != '\n') ⟨some c, cs⟩).rest.head? = some c then .free else .quoted c := by
        rw [valueMode, if_neg hauth]
        exact if_pos hquote
      rw [hmode, ← Cursor.append_mk]
      obtain ⟨hgoes, hends⟩ := atLetters_assignment.afterQuote_append c ⟨some c, cs⟩ text
      refine ⟨hgoes, fun h => ?_⟩
      rw [hends h, Cursor.last_cons]
      split
      · rfl
      · rfl

/-- A value that has not begun where the text goes on. -/
theorem scan_skipValue_nil (key : List Char) {value : Cursor Char} (h : value.rest = []) {c : Char}
    (hquote : isQuote c = false) (prev : Option Char) (text : List Char) (last : Option Char) :
    assignmentRule.scan (skipValue key ⟨prev, c :: text⟩) = (valueMode key value).resume last (c :: text) := by
  have hnil : ∀ p, (Cursor.skip p (⟨prev, []⟩ : Cursor Char)).rest = [] := fun p => rfl
  by_cases hauth : eqIgnoreAsciiCase key "authorization".toList = true
  · rw [skipValue_line hauth, valueMode, if_pos hauth]
    exact atLetters_assignment.scan_skip_append not_isAlpha_of_break (hnil _) (c :: text)
  · rw [skipValue_word hauth hquote, valueMode, if_neg hauth, h]
    exact atLetters_assignment.scan_skip_append not_isAlpha_of_nonblank (hnil _) (c :: text)

theorem redactValue_none {key : List Char} {named : Cursor Char}
    (h : (named.skip isAsciiWhitespace).rest.head?.any isSeparator = false) :
    redactValue key named = (named.read isAsciiWhitespace, named.skip isAsciiWhitespace) := by
  rw [redactValue]
  cases hplace : (named.skip isAsciiWhitespace).rest with
  | nil => rfl
  | cons c cs =>
    rw [hplace] at h
    exact if_neg (by rw [show isSeparator c = false from h]; exact Bool.false_ne_true)

theorem redactValue_some {key : List Char} {named : Cursor Char} {c : Char} {cs : List Char}
    (h : (named.skip isAsciiWhitespace).rest = c :: cs) (hsep : isSeparator c = true) :
    redactValue key named =
      (named.read isAsciiWhitespace ++ c :: Cursor.read isAsciiWhitespace ⟨some c, cs⟩ ++
        "[credential-redacted]".toList, skipValue key (Cursor.skip isAsciiWhitespace ⟨some c, cs⟩)) := by
  rw [redactValue, h]
  exact if_pos hsep

theorem keyMode_some {key : List Char} {named : Cursor Char} {c : Char} {cs : List Char}
    (h : (named.skip isAsciiWhitespace).rest = c :: cs) (hsep : isSeparator c = true) :
    keyMode key named = valueMode key (Cursor.skip isAsciiWhitespace ⟨some c, cs⟩) := by
  rw [keyMode, h]
  exact if_pos hsep

theorem not_blank_of_isAlphanum {c : Char} (h : c.isAlphanum = true) : isAsciiWhitespace c = false := by
  rw [← Bool.not_eq_true]
  intro hblank
  simp only [isAsciiWhitespace, Bool.or_eq_true, beq_iff_eq] at hblank
  rcases hblank with (((rfl | rfl) | rfl) | rfl) | rfl <;> exact absurd h (by decide)

theorem not_separator_of_isAlphanum {c : Char} (h : c.isAlphanum = true) : isSeparator c = false := by
  rw [← Bool.not_eq_true]
  intro hsep
  simp only [isSeparator, Bool.or_eq_true, beq_iff_eq] at hsep
  rcases hsep with rfl | rfl <;> exact absurd h (by decide)

theorem not_quote_of_isAlphanum {c : Char} (h : c.isAlphanum = true) : isQuote c = false := by
  rw [← Bool.not_eq_true]
  intro hquote
  simp only [isQuote, Bool.or_eq_true, beq_iff_eq] at hquote
  rcases hquote with rfl | rfl <;> exact absurd h (by decide)

theorem Fits.alphanum {last : Option Char} {text : List Char} (h : Fits last text) {c : Char} (hlast : last = some c)
    (hc : isAsciiWhitespace c = true ∨ isSeparator c = true) : ∃ d more, text = d :: more ∧ d.isAlphanum = true := by
  rcases h with ⟨d, hd, halpha⟩ | h
  · obtain ⟨more, rfl⟩ := List.head?_eq_some_iff.mp hd
    exact ⟨d, more, rfl, halpha⟩
  · obtain ⟨hblank, hsep⟩ := h c hlast
    rw [hblank, hsep] at hc
    rcases hc with hc | hc <;> cases hc

/-- What follows a key: it ends before the text goes on, or the mode tells how it goes on. -/
theorem redactValue_append (key : List Char) {named : Cursor Char} (hne : named.rest ≠ []) {text : List Char}
    (hfits : Fits named.last text) :
    ((redactValue key named).2.rest ≠ [] →
        redactValue key (named.append text) = ((redactValue key named).1, (redactValue key named).2.append text)) ∧
      ((redactValue key named).2.rest = [] →
        (redactValue key (named.append text)).1 = (redactValue key named).1 ∧
          assignmentRule.scan (redactValue key (named.append text)).2 = (keyMode key named).resume named.last text) := by
  cases hplace : (named.skip isAsciiWhitespace).rest with
  | nil =>
    -- only blanks follow the key
    obtain ⟨c, hlast, hc⟩ := Cursor.last_of_skip_nil hplace hne
    obtain ⟨d, more, rfl, hd⟩ := hfits.alphanum hlast (.inl hc)
    have hstop : ∀ a, (d :: more).head? = some a → isAsciiWhitespace a = false := by
      rintro _ ⟨⟩
      exact not_blank_of_isAlphanum hd
    have hmode : keyMode key named = .free := by
      rw [keyMode, hplace]
    have hself : redactValue key named = (named.read isAsciiWhitespace, named.skip isAsciiWhitespace) :=
      redactValue_none (by rw [hplace]; rfl)
    have hmore : redactValue key (named.append (d :: more)) = (named.read isAsciiWhitespace, ⟨named.last, d :: more⟩) := by
      rw [redactValue_none, Cursor.skip_append_stop hplace hstop, Cursor.read_append_stop hstop]
      rw [Cursor.skip_append_stop hplace hstop]
      exact not_separator_of_isAlphanum hd
    rw [hself, hmore, hmode]
    exact ⟨fun h => absurd hplace h, fun _ => ⟨rfl, rfl⟩⟩
  | cons s tail =>
    have hskip : (named.append text).skip isAsciiWhitespace = (named.skip isAsciiWhitespace).append text :=
      Cursor.skip_append_of_ne (by rw [hplace]; exact List.cons_ne_nil _ _) text
    have hread : (named.append text).read isAsciiWhitespace = named.read isAsciiWhitespace :=
      Cursor.read_append_of_ne (by rw [hplace]; exact List.cons_ne_nil _ _) text
    have hmore : ((named.append text).skip isAsciiWhitespace).rest = s :: (tail ++ text) := by
      rw [hskip, Cursor.append, hplace, List.cons_append]
    cases hsep : isSeparator s with
    | false =>
      rw [redactValue_none (by rw [hplace]; exact hsep), redactValue_none (by rw [hmore]; exact hsep), hskip, hread]
      exact ⟨fun _ => rfl, fun h => absurd (hplace.symm.trans h) (List.cons_ne_nil _ _)⟩
    | true =>
      rw [redactValue_some hmore hsep, redactValue_some hplace hsep, keyMode_some hplace hsep, hread, ← Cursor.append_mk]
      have hlast : named.last = (Cursor.skip isAsciiWhitespace ⟨some s, tail⟩).last := by
        rw [Cursor.last_skip, ← Cursor.last_skip isAsciiWhitespace named]
        cases hn : named.skip isAsciiWhitespace with
        | mk before rest =>
          rw [hn] at hplace
          subst hplace
          exact Cursor.last_cons
      rw [hlast] at hfits ⊢
      by_cases hvalue : (Cursor.skip isAsciiWhitespace ⟨some s, tail⟩).rest = []
      · -- the value has not begun
        have hnil : (skipValue key (Cursor.skip isAsciiWhitespace ⟨some s, tail⟩)).rest = [] := by
          have hle := skipValue_le key (Cursor.skip isAsciiWhitespace ⟨some s, tail⟩)
          rw [hvalue] at hle
          exact List.eq_nil_of_length_eq_zero (Nat.le_zero.mp hle)
        have hedge : ∃ c, (⟨some s, tail⟩ : Cursor Char).last = some c ∧ (isAsciiWhitespace c = true ∨ isSeparator c = true) := by
          by_cases htail : tail = []
          · exact ⟨s, by rw [htail, Cursor.last_nil], .inr hsep⟩
          · obtain ⟨c, hc, hblank⟩ := Cursor.last_of_skip_nil hvalue htail
            exact ⟨c, hc, .inl hblank⟩
        obtain ⟨c, hc, hedge⟩ := hedge
        rw [Cursor.last_skip] at hfits
        obtain ⟨d, more, rfl, hd⟩ := hfits.alphanum hc hedge
        have hstop : ∀ a, (d :: more).head? = some a → isAsciiWhitespace a = false := by
          rintro _ ⟨⟩
          exact not_blank_of_isAlphanum hd
        rw [Cursor.skip_append_stop hvalue hstop, Cursor.read_append_stop hstop]
        refine ⟨fun h => absurd hnil h, fun _ => ⟨rfl, ?_⟩⟩
        exact scan_skipValue_nil key hvalue (not_quote_of_isAlphanum hd) _ more _
      · rw [Cursor.skip_append_of_ne hvalue, Cursor.read_append_of_ne hvalue]
        obtain ⟨hgoes, hends⟩ := skipValue_append key hvalue text
        exact ⟨fun h => by rw [hgoes h], fun h => ⟨rfl, hends h⟩⟩

/-! ### The whole text in front of more text -/

/-- The mode where the text ends. -/
def modeOf (place : Cursor Char) : Mode :=
  match _h : place.rest with
  | [] => .free
  | c :: cs =>
    match SECRET_KEYS.find? (keyAt place) with
    | none => modeOf ⟨some c, cs⟩
    | some key =>
      let named := Cursor.advance (key.length - 1) ⟨some c, cs⟩
      if (redactValue key named).2.rest = [] then keyMode key named else modeOf (redactValue key named).2
termination_by place.rest.length
decreasing_by
  · rw [_h]
    exact Nat.lt_succ_self _
  · have hvalue := redactValue_le key (Cursor.advance (key.length - 1) ⟨some c, cs⟩)
    have hadv := advance_le (key.length - 1) ⟨some c, cs⟩
    rw [_h, List.length_cons]
    exact Nat.lt_succ_of_le (Nat.le_trans hvalue hadv)

theorem modeOf_nil (prev : Option Char) : modeOf ⟨prev, []⟩ = .free := by
  rw [modeOf]

theorem modeOf_none {prev : Option Char} {c : Char} {cs : List Char}
    (h : SECRET_KEYS.find? (keyAt ⟨prev, c :: cs⟩) = none) : modeOf ⟨prev, c :: cs⟩ = modeOf ⟨some c, cs⟩ := by
  rw [modeOf]
  simp only [h]

theorem modeOf_some {prev : Option Char} {c : Char} {cs key : List Char}
    (h : SECRET_KEYS.find? (keyAt ⟨prev, c :: cs⟩) = some key) :
    modeOf ⟨prev, c :: cs⟩ =
      if (redactValue key (Cursor.advance (key.length - 1) ⟨some c, cs⟩)).2.rest = [] then
        keyMode key (Cursor.advance (key.length - 1) ⟨some c, cs⟩)
      else modeOf (redactValue key (Cursor.advance (key.length - 1) ⟨some c, cs⟩)).2 := by
  rw [modeOf]
  simp only [h]

theorem find?_keyAt_append {place : Cursor Char} (hne : place.rest ≠ []) (hbound : Bounded place.rest) (text : List Char) :
    SECRET_KEYS.find? (keyAt (place.append text)) = SECRET_KEYS.find? (keyAt place) := by
  have hsame : ∀ key ∈ SECRET_KEYS, keyAt (place.append text) key = keyAt place key :=
    fun key hkey => keyAt_append (lowerKey_secret hkey) hne hbound text
  unfold SECRET_KEYS at hsame ⊢
  simp only [List.mem_cons, List.not_mem_nil, or_false, forall_eq_or_imp, forall_eq] at hsame
  obtain ⟨h₁, h₂, h₃, h₄⟩ := hsame
  simp only [List.find?, h₁, h₂, h₃, h₄]

theorem reaches_skipValue (key : List Char) (value : Cursor Char) : value.Reaches (skipValue key value) := by
  obtain ⟨prev, _ | ⟨c, cs⟩⟩ := value
  · rw [skipValue]
    split
    · exact Cursor.reaches_skip _ _
    · exact ⟨List.suffix_rfl, rfl⟩
  · by_cases hauth : eqIgnoreAsciiCase key "authorization".toList = true
    · rw [skipValue_line hauth]
      exact Cursor.reaches_skip _ _
    · cases hquote : isQuote c with
      | false =>
        rw [skipValue_word hauth hquote]
        exact Cursor.reaches_skip _ _
      | true =>
        rw [skipValue_quoted hauth hquote]
        exact (Cursor.reaches_cons.trans (Cursor.reaches_skip _ _)).trans (reaches_afterQuote c _)

theorem reaches_redactValue (key : List Char) (named : Cursor Char) : named.Reaches (redactValue key named).2 := by
  have hplace := Cursor.reaches_skip isAsciiWhitespace named
  cases hhead : (named.skip isAsciiWhitespace).rest.head?.any isSeparator with
  | false =>
    rw [redactValue_none hhead]
    exact hplace
  | true =>
    cases hskip : named.skip isAsciiWhitespace with
    | mk before rest =>
      rw [hskip] at hhead hplace
      obtain _ | ⟨c, cs⟩ := rest
      · cases hhead
      · rw [redactValue_some (by rw [hskip]) hhead]
        exact ((hplace.trans Cursor.reaches_cons).trans (Cursor.reaches_skip _ _)).trans (reaches_skipValue key _)

theorem scan_of_rest_nil {place : Cursor Char} (h : place.rest = []) : assignmentRule.scan place = [] := by
  obtain ⟨prev, rest⟩ := place
  subst h
  exact Rule.scan_nil prev

/-- **The assignment scanner takes a line in parts**: the mode at the cut tells what it makes of the second part. -/
theorem scan_append (place : Cursor Char) {text : List Char} :
    Bounded place.rest → Fits place.last text →
      assignmentRule.scan (place.append text) = assignmentRule.scan place ++ (modeOf place).resume place.last text := by
  induction hn : place.rest.length using Nat.strongRecOn generalizing place with
  | _ n ih =>
    subst hn
    intro hbound hfits
    obtain ⟨prev, _ | ⟨c, cs⟩⟩ := place
    · rw [modeOf_nil, Rule.scan_nil, Cursor.append_mk, List.nil_append, List.nil_append]
      rfl
    · have hfind := @find?_keyAt_append ⟨prev, c :: cs⟩ (List.cons_ne_nil _ _) hbound text
      rw [Cursor.append_mk, List.cons_append] at hfind ⊢
      cases hkey : SECRET_KEYS.find? (keyAt ⟨prev, c :: cs⟩) with
      | none =>
        rw [hkey] at hfind
        rw [Cursor.last_cons] at hfits ⊢
        rw [Rule.scan_of_none (rewrite_of_no_key hfind), Rule.scan_of_none (rewrite_of_no_key hkey), modeOf_none hkey,
          ← Cursor.append_mk, ih _ (Nat.lt_succ_self _) ⟨some c, cs⟩ rfl hbound.tail hfits, List.cons_append]
      | some key =>
        rw [hkey] at hfind
        have hmem := List.mem_of_find?_eq_some hkey
        have hat := List.find?_some hkey
        have hlt : key.length < (c :: cs).length := by
          refine @lt_of_keyAt ⟨prev, c :: cs⟩ key (lowerKey_secret hmem) (List.cons_ne_nil _ _) hbound [] ?_
          rw [Cursor.append_nil]
          exact hat
        have hpos := List.length_pos_iff.mpr (lowerKey_secret hmem).1
        rw [List.length_cons] at hlt
        have hnamed : (Cursor.advance (key.length - 1) ⟨some c, cs⟩).rest ≠ [] := by
          intro hnil
          have hle := List.drop_eq_nil_iff.mp hnil
          dsimp only at hle
          omega
        have hlast : (Cursor.advance (key.length - 1) ⟨some c, cs⟩).last = (⟨prev, c :: cs⟩ : Cursor Char).last := by
          rw [Cursor.last_advance, Cursor.last_cons]
        have hmore : Cursor.advance (key.length - 1) ⟨some c, cs ++ text⟩ =
            (Cursor.advance (key.length - 1) ⟨some c, cs⟩).append text := by
          rw [← Cursor.append_mk, Cursor.advance_append]
          dsimp only
          omega
        have htake : (cs ++ text).take (key.length - 1) = cs.take (key.length - 1) :=
          List.take_append_of_le_length (by omega)
        rw [Rule.scan_of_some (rewrite_of_key hfind), Rule.scan_of_some (rewrite_of_key hkey), modeOf_some hkey, hmore,
          htake, ← hlast]
        rw [← hlast] at hfits
        obtain ⟨hgoes, hends⟩ := redactValue_append key hnamed hfits
        by_cases hnil : (redactValue key (Cursor.advance (key.length - 1) ⟨some c, cs⟩)).2.rest = []
        · obtain ⟨hout, hscan⟩ := hends hnil
          rw [if_pos hnil, hout, hscan, scan_of_rest_nil hnil, List.append_nil]
        · have hreach := reaches_redactValue key (Cursor.advance (key.length - 1) ⟨some c, cs⟩)
          have hcons : (⟨prev, c :: cs⟩ : Cursor Char).Reaches ⟨some c, cs⟩ := Cursor.reaches_cons
          have hwhole := hcons.trans ((Cursor.reaches_advance (key.length - 1) ⟨some c, cs⟩).trans hreach)
          have hvalue := redactValue_le key (Cursor.advance (key.length - 1) ⟨some c, cs⟩)
          have hadv := advance_le (key.length - 1) ⟨some c, cs⟩
          have hless := Nat.lt_succ_of_le (Nat.le_trans hvalue hadv)
          rw [if_neg hnil, hgoes hnil, ih _ hless _ rfl (hbound.of_suffix hwhole.1) (hreach.2 ▸ hfits), hreach.2]
          simp only [List.append_assoc]

/-! ### What each mode drops -/

theorem resume_word {word rest : List Char} (hword : Word word) (hrest : AtBlank rest) (prev : Option Char) :
    Mode.word.resume prev (word ++ rest) = redactAssignments rest := by
  rw [Mode.resume, dropWhile_word hword, dropWhile_atBlank hrest]

theorem resume_line {text : List Char} (h : '\n' ∉ text) (prev : Option Char) (more : List Char) :
    Mode.line.resume prev (text ++ more) = redactAssignments (more.dropWhile (· != '\n')) := by
  rw [Mode.resume, List.dropWhile_append_of_pos]
  intro c hc
  rw [bne_iff_ne]
  exact fun heq => h (heq ▸ hc)

theorem resume_quoted {q : Char} {text : List Char} (hquote : q ∉ text) (h : '\n' ∉ text) (prev : Option Char)
    (more : List Char) : (Mode.quoted q).resume prev (text ++ more) = (Mode.quoted q).resume prev more := by
  rw [Mode.resume, Mode.resume, resumeQuoted, resumeQuoted, List.dropWhile_append_of_pos]
  intro c hc
  rw [Bool.and_eq_true, bne_iff_ne, bne_iff_ne]
  exact ⟨fun heq => hquote (heq ▸ hc), fun heq => h (heq ▸ hc)⟩

theorem valueMode_quoted {key : List Char} {value : Cursor Char} {q : Char} (h : valueMode key value = .quoted q) :
    isQuote q = true ∧ q ∈ value.rest := by
  rw [valueMode] at h
  split at h
  · cases h
  · split at h
    · rename_i c cs hc
      split at h
      · rename_i hquote
        split at h
        · cases h
        · cases h
          exact ⟨hquote, hc ▸ List.mem_cons_self⟩
      · cases h
    · cases h

theorem keyMode_quoted {key : List Char} {named : Cursor Char} {q : Char} (h : keyMode key named = .quoted q) :
    isQuote q = true ∧ q ∈ named.rest := by
  rw [keyMode] at h
  split at h
  · rename_i c cs hc
    split at h
    · obtain ⟨hquote, hmem⟩ := valueMode_quoted h
      refine ⟨hquote, (Cursor.skip_suffix isAsciiWhitespace named).subset ?_⟩
      rw [hc]
      exact List.mem_cons_of_mem c ((Cursor.skip_suffix _ _).subset hmem)
    · cases h
  · cases h

/-- The quote that is open stands in the text. -/
theorem modeOf_quoted {place : Cursor Char} {q : Char} : modeOf place = .quoted q → isQuote q = true ∧ q ∈ place.rest := by
  induction hn : place.rest.length using Nat.strongRecOn generalizing place with
  | _ n ih =>
    subst hn
    intro h
    obtain ⟨prev, _ | ⟨c, cs⟩⟩ := place
    · rw [modeOf_nil] at h
      cases h
    · cases hkey : SECRET_KEYS.find? (keyAt ⟨prev, c :: cs⟩) with
      | none =>
        rw [modeOf_none hkey] at h
        exact (ih _ (Nat.lt_succ_self _) rfl h).imp_right (List.mem_cons_of_mem c)
      | some key =>
        rw [modeOf_some hkey] at h
        have hadv := Cursor.reaches_advance (key.length - 1) ⟨some c, cs⟩
        split at h
        · exact (keyMode_quoted h).imp_right fun hmem => List.mem_cons_of_mem c (hadv.1.subset hmem)
        · have hreach := hadv.trans (reaches_redactValue key _)
          have hless := Nat.lt_succ_of_le hreach.1.length_le
          exact (ih _ hless rfl h).imp_right fun hmem => List.mem_cons_of_mem c (hreach.1.subset hmem)

/-! ### An assignment with an unquoted value -/

/-- A secret's key and a separator, with blanks around the separator or not. -/
structure Assignment where
  key : List Char
  name : List Char
  before : List Char
  separator : Char
  after : List Char
  secret : key ∈ SECRET_KEYS
  named : eqIgnoreAsciiCase name key = true
  blank_before : ∀ c ∈ before, isAsciiWhitespace c = true
  separates : isSeparator separator = true
  blank_after : ∀ c ∈ after, isAsciiWhitespace c = true

namespace Assignment

/-- The text up to the value. -/
def text (a : Assignment) : List Char := a.name ++ (a.before ++ a.separator :: a.after)

/-- What the scanner makes of the text behind the value. -/
def behind (a : Assignment) (rest : List Char) : List Char :=
  if eqIgnoreAsciiCase a.key "authorization".toList then redactAssignments (rest.dropWhile (· != '\n'))
  else redactAssignments rest

variable (a : Assignment)

theorem isAlpha_name : ∀ c ∈ a.name, c.isAlpha = true := isAlpha_of_eqIgnoreAsciiCase (lowerKey_secret a.secret) a.named

theorem length_name : a.name.length = a.key.length := by
  have hlength := congrArg List.length (eq_of_beq a.named)
  rwa [List.length_map, List.length_map] at hlength

theorem not_blank_separator : isAsciiWhitespace a.separator = false := by
  have hsep := a.separates
  simp only [isSeparator, Bool.or_eq_true, beq_iff_eq] at hsep
  rcases hsep with h | h <;> rw [h] <;> decide

theorem not_isAlphanum_separator : a.separator.isAlphanum = false := by
  have hsep := a.separates
  simp only [isSeparator, Bool.or_eq_true, beq_iff_eq] at hsep
  rcases hsep with h | h <;> rw [h] <;> decide

theorem name_eq_cons : ∃ c cs, a.name = c :: cs := by
  cases hname : a.name with
  | nil =>
    have hlength := a.length_name
    rw [hname] at hlength
    exact absurd (List.eq_nil_of_length_eq_zero hlength.symm) (lowerKey_secret a.secret).1
  | cons c cs => exact ⟨c, cs, rfl⟩

theorem keyAt_text {prev : Option Char} (hprev : prev.any Char.isAlphanum = false) (more : List Char) :
    keyAt ⟨prev, a.text ++ more⟩ a.key = true := by
  rw [keyAt_iff, text, List.append_assoc, ← a.length_name]
  refine ⟨?_, hprev, ?_, ?_⟩
  · rw [List.length_append]
    omega
  · rw [List.take_left]
    exact a.named
  · rw [List.drop_left]
    cases hbefore : a.before with
    | nil => exact a.not_isAlphanum_separator
    | cons b bs =>
      have hblank := a.blank_before b (hbefore ▸ List.mem_cons_self)
      rw [← Bool.not_eq_true]
      intro halpha
      rw [not_blank_of_isAlphanum halpha] at hblank
      cases hblank

/-- **The scanner masks an unquoted value**: what it makes of the text does not depend on the value. -/
theorem scan_text {prev : Option Char} (hprev : prev.any Char.isAlphanum = false) {word rest : List Char}
    (hne : word ≠ []) (hword : Word word) (hquote : word.head?.any isQuote = false) (hrest : AtBlank rest) :
    assignmentRule.scan ⟨prev, a.text ++ (word ++ rest)⟩ = a.text ++ "[credential-redacted]".toList ++ a.behind rest := by
  obtain ⟨c, cs, hname⟩ := a.name_eq_cons
  obtain ⟨d, ds, rfl⟩ := List.exists_cons_of_ne_nil hne
  have hfind := find?_keyAt a.secret (a.keyAt_text hprev (d :: ds ++ rest))
  have htext : a.text ++ (d :: ds ++ rest) = c :: (cs ++ (a.before ++ a.separator :: (a.after ++ (d :: ds ++ rest)))) := by
    simp only [text, hname, List.cons_append, List.append_assoc]
  have hlength : a.key.length - 1 = cs.length := by
    rw [← a.length_name, hname, List.length_cons, Nat.add_sub_cancel]
  rw [htext] at hfind ⊢
  rw [Rule.scan_of_some (rewrite_of_key hfind), hlength, List.take_left, Cursor.advance_length]
  -- the blanks before and after the separator
  have hstop : ∀ p, (Cursor.skip isAsciiWhitespace ⟨p, a.before ++ a.separator :: (a.after ++ (d :: ds ++ rest))⟩).rest =
      a.separator :: (a.after ++ (d :: ds ++ rest)) := by
    intro p
    rw [Cursor.skip_rest, List.dropWhile_append_of_pos a.blank_before,
      List.dropWhile_cons_of_neg (by rw [a.not_blank_separator]; exact Bool.false_ne_true)]
  have hread : ∀ p, Cursor.read isAsciiWhitespace ⟨p, a.before ++ a.separator :: (a.after ++ (d :: ds ++ rest))⟩ =
      a.before := by
    intro p
    rw [Cursor.read, List.takeWhile_append_of_pos a.blank_before,
      List.takeWhile_cons_of_neg (by rw [a.not_blank_separator]; exact Bool.false_ne_true), List.append_nil]
  have hd : isAsciiWhitespace d = false := hword d List.mem_cons_self
  have hread' : Cursor.read isAsciiWhitespace ⟨some a.separator, a.after ++ (d :: ds ++ rest)⟩ = a.after := by
    rw [Cursor.read, List.takeWhile_append_of_pos a.blank_after, List.cons_append,
      List.takeWhile_cons_of_neg (by rw [hd]; exact Bool.false_ne_true), List.append_nil]
  have hvalue : Cursor.skip isAsciiWhitespace ⟨some a.separator, a.after ++ (d :: ds ++ rest)⟩ =
      ⟨(⟨some a.separator, a.after⟩ : Cursor Char).last, d :: (ds ++ rest)⟩ := by
    rw [Cursor.skip_append_of_all a.blank_after, List.cons_append, Cursor.skip_cons_of_neg hd]
  rw [redactValue_some (hstop _) a.separates, hread, hread', hvalue]
  -- the value
  have hbehind : ∀ p, assignmentRule.scan (skipValue a.key ⟨p, d :: (ds ++ rest)⟩) = a.behind rest := by
    intro p
    rw [behind]
    by_cases hauth : eqIgnoreAsciiCase a.key "authorization".toList = true
    · have hpass : ∀ e ∈ d :: ds, (e != '\n') = true := by
        intro e he
        rw [bne_iff_ne]
        rintro rfl
        exact absurd (hword _ he) (by decide)
      rw [skipValue_line hauth, if_pos hauth, atLetters_assignment.scan_skip not_isAlpha_of_break, ← List.cons_append,
        List.dropWhile_append_of_pos hpass]
      rfl
    · rw [skipValue_word hauth hquote, if_neg hauth, atLetters_assignment.scan_skip not_isAlpha_of_nonblank,
        ← List.cons_append, dropWhile_word hword, dropWhile_atBlank hrest]
      rfl
  rw [hbehind, text, hname]
  simp only [List.append_assoc, List.cons_append]

end Assignment

end FluxRs.Bugreport
