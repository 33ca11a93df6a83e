import FluxRs.Lib.Carry
import FluxRs.Bugreport.Bytes

/-!
# FluxRs.Bugreport.Carried — a stretch of a text on its way through the scanners

A stretch is marked and the six scanners run over the text: what bears a mark at the end is what a report has in the
place of the stretch.  The scanners before the addresses put a mask for what they hide, and the runs of hex digits, dots
and colons around it stay what they were.
-/

namespace FluxRs.Bugreport

open FluxRs.Lib Rewrite

/-! ### The scanners before the addresses -/

/-- The symbols of an IPv4 address. -/
def inQuad (c : Char) : Bool := c.isDigit || c == '.'

/-- The symbols without which there is no address. -/
def isLoud (c : Char) : Bool := c == ':' || inQuad c

/-- A letter is in no IPv4 address. -/
theorem not_inQuad_of_isAlpha {c : Char} (h : c.isAlpha = true) : inQuad c = false := by
  rw [← Bool.not_eq_true]
  intro hquad
  rw [inQuad, Bool.or_eq_true, beq_iff_eq] at hquad
  rcases hquad with hdigit | rfl
  · unfold Char.isDigit at hdigit
    unfold Char.isAlpha Char.isUpper Char.isLower at h
    simp only [UInt32.le_iff_toNat_le, ge_iff_le, Bool.or_eq_true, Bool.and_eq_true, decide_eq_true_eq] at h hdigit
    obtain ⟨h, -⟩ | ⟨h, -⟩ := h <;> exact absurd (Nat.le_trans h hdigit.2) (by decide)
  · exact absurd h (by decide)

theorem not_isLoud_of_isAlpha {c : Char} (h : c.isAlpha = true) : isLoud c = false := by
  rw [isLoud, not_inQuad_of_isAlpha h, Bool.or_false, beq_eq_false_iff_ne]
  rintro rfl
  exact absurd h (by decide)

theorem not_isLoud_of_blank {c : Char} (h : isAsciiWhitespace c = true) : isLoud c = false := by
  simp only [isAsciiWhitespace, Bool.or_eq_true, beq_iff_eq] at h
  rcases h with (((rfl | rfl) | rfl) | rfl) | rfl <;> decide

theorem not_isAddrByte_of_blank {c : Char} (h : isAsciiWhitespace c = true) : isAddrByte c = false := by
  simp only [isAsciiWhitespace, Bool.or_eq_true, beq_iff_eq] at h
  rcases h with (((rfl | rfl) | rfl) | rfl) | rfl <;> decide

theorem not_isAddrByte_of_quote {c : Char} (h : isQuote c = true) : isAddrByte c = false := by
  rw [isQuote, Bool.or_eq_true, beq_iff_eq, beq_iff_eq] at h
  rcases h with rfl | rfl <;> decide

/-- Where a text goes on with a run, what came before ends in no run. -/
def Stops (dropped rest : List Char) : Prop :=
  ∀ a, rest.head? = some a → isAddrByte a = true → ∃ c, dropped.getLast? = some c ∧ isAddrByte c = false

theorem stops_nil (dropped : List Char) : Stops dropped [] := by
  rintro a ⟨⟩

/-- A pass over all that a test admits stops outside a run where the symbols of a run are admitted. -/
theorem stops_of_dropWhile {p : Char → Bool} (hp : ∀ c, p c = false → isAddrByte c = false) (dropped text : List Char) :
    Stops dropped (text.dropWhile p) := by
  intro a ha hrun
  have hnot := List.head?_dropWhile_not p text
  rw [ha] at hnot
  rw [hp a (by simpa using hnot)] at hrun
  cases hrun

/-- What a quoted value takes of its line. -/
theorem afterQuote_split {q : Char} (hq : isQuote q = true) (cs : List Char) :
    ∃ dropped, q :: cs = dropped ++ (afterQuote q (Cursor.skip (fun d => d != q && d != '\n') ⟨some q, cs⟩)).rest ∧
      Stops dropped (afterQuote q (Cursor.skip (fun d => d != q && d != '\n') ⟨some q, cs⟩)).rest ∧ '\n' ∉ dropped ∧
      dropped = q :: cs.takeWhile (fun d => d != q && d != '\n') ++
        if (Cursor.skip (fun d => d != q && d != '\n') ⟨some q, cs⟩).rest.head? = some q then [q] else [] := by
  have hbreak : '\n' ≠ q := by
    rintro rfl
    exact absurd hq (by decide)
  have htaken : '\n' ∉ q :: cs.takeWhile (fun d => d != q && d != '\n') := by
    rw [List.mem_cons, not_or]
    refine ⟨hbreak, fun hmem => ?_⟩
    have hnot := List.mem_takeWhile_imp hmem
    simp at hnot
  have hsplit : cs = cs.takeWhile (fun d => d != q && d != '\n') ++
      (Cursor.skip (fun d => d != q && d != '\n') ⟨some q, cs⟩).rest := by
    rw [Cursor.skip_rest, List.takeWhile_append_dropWhile]
  rw [afterQuote]
  by_cases hclosed : (Cursor.skip (fun d => d != q && d != '\n') ⟨some q, cs⟩).rest.head? = some q
  · rw [if_pos hclosed, if_pos hclosed]
    obtain ⟨more, hmore⟩ := List.head?_eq_some_iff.mp hclosed
    refine ⟨_, ?_, ?_, ?_, rfl⟩
    · rw [hmore] at hsplit
      rw [Cursor.advance, hmore]
      conv_lhs => rw [hsplit]
      simp
    · intro a _ _
      exact ⟨q, by rw [List.getLast?_concat], not_isAddrByte_of_quote hq⟩
    · rw [List.mem_append, not_or]
      exact ⟨htaken, by simpa using hbreak⟩
  · rw [if_neg hclosed, if_neg hclosed, List.append_nil]
    refine ⟨_, ?_, ?_, htaken, rfl⟩
    · rw [List.cons_append, ← hsplit]
    · intro a ha hrun
      exfalso
      rw [Cursor.skip_rest] at ha hclosed
      have hnot := List.head?_dropWhile_not (fun d : Char => d != q && d != '\n') cs
      rw [ha] at hnot hclosed
      have hor : a = q ∨ a = '\n' := by
        by_contra hno
        rw [not_or] at hno
        simp [hno.1, hno.2] at hnot
      rcases hor with rfl | rfl
      · exact hclosed rfl
      · exact absurd hrun (by decide)

/-- What the value of a secret takes of its line. -/
theorem skipValue_split (key : List Char) (value : Cursor Char) :
    ∃ dropped, value.rest = dropped ++ (skipValue key value).rest ∧ Stops dropped (skipValue key value).rest ∧
      '\n' ∉ dropped := by
  have hskip : ∀ p : Char → Bool, (∀ c, p c = false → isAddrByte c = false) → p '\n' = false →
      ∃ dropped, value.rest = dropped ++ (value.skip p).rest ∧ Stops dropped (value.skip p).rest ∧ '\n' ∉ dropped := by
    intro p hp hbreak
    rw [Cursor.skip_rest]
    refine ⟨value.rest.takeWhile p, List.takeWhile_append_dropWhile.symm, stops_of_dropWhile hp _ _, fun hmem => ?_⟩
    rw [List.mem_takeWhile_imp hmem] at hbreak
    cases hbreak
  by_cases hauth : eqIgnoreAsciiCase key "authorization".toList = true
  · rw [skipValue_line hauth]
    refine hskip _ (fun c hc => ?_) (by decide)
    obtain rfl := bne_eq_false_iff_eq.mp hc
    decide
  · obtain ⟨prev, _ | ⟨c, cs⟩⟩ := value
    · rw [skipValue, if_neg hauth]
      exact ⟨[], rfl, stops_nil [], List.not_mem_nil⟩
    · by_cases hquote : isQuote c = true
      · rw [skipValue_quoted hauth hquote]
        obtain ⟨dropped, hsplit, hstops, hbreak, -⟩ := afterQuote_split hquote cs
        exact ⟨dropped, hsplit, hstops, hbreak⟩
      · rw [skipValue_word hauth (by simpa using hquote)]
        refine hskip _ (fun d hd => not_isAddrByte_of_blank ?_) (by decide)
        rwa [nonblank, Bool.not_eq_false'] at hd

/-- What a tag's value takes of its line; a well-known tag is copied. -/
theorem redactTag_split (value : Cursor Char) :
    ∃ dropped, value.rest = dropped ++ (redactTag value).2.rest ∧ Stops dropped (redactTag value).2.rest ∧
      '\n' ∉ dropped ∧ ((redactTag value).1 = dropped ∨ (redactTag value).1 = "[node-redacted]".toList) := by
  obtain ⟨prev, _ | ⟨c, cs⟩⟩ := value
  · exact ⟨[], rfl, stops_nil [], List.not_mem_nil, .inr (by dsimp only [redactTag]; decide)⟩
  · by_cases hquote : isQuote c = true
    · rw [redactTag_quoted hquote]
      obtain ⟨dropped, hsplit, hstops, hbreak, hdropped⟩ := afterQuote_split hquote cs
      refine ⟨dropped, hsplit, hstops, hbreak, ?_⟩
      have hsame : (fun d : Char => d != '\n' && d != c) = fun d => d != c && d != '\n' := by
        funext d
        exact Bool.and_comm _ _
      dsimp only [redactTag]
      rw [if_pos hquote, hsame]
      split
      · left
        rw [hdropped, Cursor.read]
        simp only [beq_iff_eq]
      · exact .inr rfl
    · have hword : isQuote c = false := by simpa using hquote
      rw [redactTag_word hword, Cursor.skip_rest]
      refine ⟨(c :: cs).takeWhile inTag, List.takeWhile_append_dropWhile.symm, stops_of_dropWhile ?_ _ _,
        fun hmem => ?_, ?_⟩
      · intro d hd
        simp only [inTag, Bool.and_eq_false_iff, bne_eq_false_iff_eq, Bool.not_eq_false'] at hd
        rcases hd with (rfl | hd) | rfl
        · decide
        · exact not_isAddrByte_of_blank hd
        · decide
      · have hnot := List.mem_takeWhile_imp hmem
        exact absurd hnot (by decide)
      · dsimp only [redactTag]
        rw [if_neg hquote]
        split
        · exact .inl rfl
        · exact .inr rfl

/-- The case of a letter does not matter. -/
theorem isAddrByte_toLower {c : Char} (h : isAddrByte c = true) : isAddrByte c.toLower = true := by
  by_cases hc : c.toNat < 128
  · have hall : ∀ n < 128, isAddrByte (Char.ofNat n) = true → isAddrByte (Char.ofNat n).toLower = true := by decide
    have hn := hall c.toNat hc
    rw [Char.ofNat_toNat] at hn
    exact hn h
  · rwa [toLower_wide (Nat.not_lt.mp hc)]

/-- A key that is found is a word with a letter that is in no address. -/
theorem name_of_key {place : Cursor Char} {key : List Char} (hkey : LowerKey key)
    (hout : key.all isAddrByte = false) (h : keyAt place key = true) :
    (∀ c ∈ place.rest.take key.length, c.isAlpha = true) ∧
      ∃ a ∈ place.rest.take key.length, isAddrByte a = false := by
  obtain ⟨-, -, heq, -⟩ := keyAt_iff.mp h
  refine ⟨isAlpha_of_eqIgnoreAsciiCase hkey heq, ?_⟩
  obtain ⟨k, hk, hrun⟩ : ∃ k ∈ key, isAddrByte k = false := by simpa using hout
  have hmap : (place.rest.take key.length).map Char.toLower = key := by
    rw [eqIgnoreAsciiCase, beq_iff_eq, hkey.map_toLower] at heq
    exact heq
  rw [← hmap] at hk
  obtain ⟨a, ha, rfl⟩ := List.mem_map.mp hk
  refine ⟨a, ha, ?_⟩
  rw [← Bool.not_eq_true] at hrun ⊢
  exact fun hrun' => hrun (isAddrByte_toLower hrun')

theorem count_eq_zero_of_forall {c : Char} {p : Char → Bool} (hc : p c = false) {text : List Char}
    (h : ∀ d ∈ text, p d = true) : text.count c = 0 := by
  rw [List.count_eq_zero]
  intro hmem
  rw [h c hmem] at hc
  cases hc

theorem filter_isLoud_nil {text : List Char} (h : ∀ c ∈ text, isLoud c = false) : text.filter isLoud = [] :=
  List.filter_eq_nil_iff.mpr fun c hc => by rw [h c hc]; exact Bool.false_ne_true

/-- A masked assignment hides. -/
theorem hides_of_name {name before after mask dropped rest : List Char} {s : Char}
    (hname : ∀ c ∈ name, c.isAlpha = true) (hkept : ∃ a ∈ name, isAddrByte a = false)
    (hbefore : ∀ c ∈ before, isAsciiWhitespace c = true) (hs : isSeparator s = true)
    (hafter : ∀ c ∈ after, isAsciiWhitespace c = true)
    (hmask : mask ∈ ["[credential-redacted]".toList, "[node-redacted]".toList]) (hstops : Stops dropped rest) :
    Hides isAddrByte isLoud [':'] (name ++ (before ++ s :: (after ++ dropped)))
      (name ++ (before ++ s :: (after ++ mask))) rest := by
  have hmasks : ∀ m ∈ ["[credential-redacted]".toList, "[node-redacted]".toList],
      m.getLast? = some ']' ∧ m.any isLoud = false := by decide
  obtain ⟨hmaskLast, hnone⟩ := hmasks mask hmask
  have hquiet : ∀ c ∈ mask, isLoud c = false := by simpa using hnone
  have hconsumed : name ++ (before ++ s :: (after ++ dropped)) = (name ++ (before ++ s :: after)) ++ dropped := by simp
  have hout : name ++ (before ++ s :: (after ++ mask)) = (name ++ (before ++ s :: after)) ++ mask := by simp
  rw [hconsumed, hout]
  refine ⟨⟨_, mask, List.prefix_append _ _, rfl, ?_, hquiet⟩, ?_, ?_, ?_⟩
  · obtain ⟨a, ha, hno⟩ := hkept
    exact ⟨a, List.mem_append_left _ ha, hno⟩
  · rw [List.filter_append, List.filter_append, List.filter_append, filter_isLoud_nil hquiet, List.append_nil,
      filter_isLoud_nil fun c hc => not_isLoud_of_isAlpha (hname c hc),
      filter_isLoud_nil fun c hc => not_isLoud_of_blank (hbefore c hc), List.filter_cons,
      filter_isLoud_nil fun c hc => not_isLoud_of_blank (hafter c hc)]
    rw [isSeparator, Bool.or_eq_true, beq_iff_eq, beq_iff_eq] at hs
    rcases hs with rfl | rfl <;> decide
  · intro a ha
    rw [List.getLast?_append, hmaskLast, Option.some_or] at ha
    obtain rfl := Option.some.inj ha
    decide
  · intro a b ha hrun hb
    obtain ⟨c, hc, hno⟩ := hstops a ha hrun
    rw [List.getLast?_append, hc, Option.some_or] at hb
    obtain rfl := Option.some.inj hb
    exact hno

/-- What the scanners before the addresses do at a place: the stretch stays, or a part of it is hidden, and the line
breaks stay. -/
def Lawful (rule : Rule Char) : Prop := ∀ place out next, rule.rewrite place = some (out, next) →
  ∃ consumed, place.rest = consumed ++ next.rest ∧ out.count '\n' = consumed.count '\n' ∧
    (out = consumed ∨ Hides isAddrByte isLoud [':'] consumed out next.rest)

/-- `redact_userinfo`. -/
theorem lawful_userinfo : Lawful userinfoRule := by
  rintro ⟨prev, rest⟩ out next h
  dsimp only [userinfoRule] at h
  split at h
  · rename_i cs
    split at h
    · rename_i hat
      cases h
      have hsplit : ':' :: '/' :: '/' :: cs = ("://".toList ++ cs.takeWhile inAuthority) ++
          (Cursor.skip inAuthority ⟨some '/', cs⟩).rest := by
        rw [Cursor.skip_rest, List.append_assoc, List.takeWhile_append_dropWhile]
        rfl
      refine ⟨_, hsplit, ?_, .inr ?_⟩
      · rw [List.count_append,
          count_eq_zero_of_forall (p := inAuthority) (by decide) fun d hd => List.mem_takeWhile_imp hd]
        decide
      · refine ⟨⟨"://".toList, "[userinfo-redacted]".toList, List.prefix_append _ _, by decide,
          ⟨'/', by decide, by decide⟩, forall_of_all (by decide)⟩, by decide, ?_, ?_⟩
        · intro a ha
          obtain rfl := Option.some.inj ha
          decide
        · intro a b ha hrun
          rw [hat] at ha
          obtain rfl := Option.some.inj ha
          exact absurd hrun (by decide)
    · cases h
      exact ⟨"://".toList, rfl, rfl, .inl rfl⟩
  · cases h

theorem take_skip_read (p : Char → Bool) (place : Cursor Char) : place.rest = place.read p ++ (place.skip p).rest := by
  rw [Cursor.skip_rest]
  exact List.takeWhile_append_dropWhile.symm

theorem blank_of_read (place : Cursor Char) : ∀ c ∈ place.read isAsciiWhitespace, isAsciiWhitespace c = true :=
  fun _ hc => List.mem_takeWhile_imp hc

/-- `redact_assignments`. -/
theorem lawful_assignment : Lawful assignmentRule := by
  rintro ⟨prev, _ | ⟨c, cs⟩⟩ out next h
  · cases h
  cases hfind : SECRET_KEYS.find? (keyAt ⟨prev, c :: cs⟩) with
  | none =>
    rw [rewrite_of_no_key hfind] at h
    cases h
  | some key =>
    rw [rewrite_of_key hfind] at h
    obtain ⟨rfl, rfl⟩ := Prod.mk.inj (Option.some.inj h)
    have hmem := List.mem_of_find?_eq_some hfind
    have hkey := lowerKey_secret hmem
    have hout : ∀ key ∈ SECRET_KEYS, key.all isAddrByte = false := by decide
    obtain ⟨hname, hkept⟩ := name_of_key hkey (hout key hmem) (List.find?_some hfind)
    obtain ⟨n, hn⟩ : ∃ n, key.length = n + 1 := Nat.exists_eq_succ_of_ne_zero (by simpa using hkey.1)
    rw [hn, List.take_succ_cons] at hname hkept
    rw [hn, Nat.add_sub_cancel]
    have hnamed : c :: cs = c :: cs.take n ++ (Cursor.advance n ⟨some c, cs⟩).rest :=
      congrArg (c :: ·) (List.take_append_drop n cs).symm
    have hread := take_skip_read isAsciiWhitespace (Cursor.advance n ⟨some c, cs⟩)
    cases hsep : ((Cursor.advance n ⟨some c, cs⟩).skip isAsciiWhitespace).rest.head?.any isSeparator with
    | false =>
      rw [redactValue_none hsep]
      refine ⟨_, ?_, rfl, .inl rfl⟩
      rw [List.append_assoc, ← hread]
      exact hnamed
    | true =>
      obtain ⟨s, hhead, hs⟩ := (Option.any_eq_true _ _).mp hsep
      obtain ⟨tail, hplace⟩ := List.head?_eq_some_iff.mp hhead
      obtain ⟨dropped, hvalue, hstops, hbreak⟩ := skipValue_split key (Cursor.skip isAsciiWhitespace ⟨some s, tail⟩)
      have htail := take_skip_read isAsciiWhitespace ⟨some s, tail⟩
      rw [redactValue_some hplace hs]
      refine ⟨c :: cs.take n ++ (Cursor.read isAsciiWhitespace (Cursor.advance n ⟨some c, cs⟩) ++
        s :: (Cursor.read isAsciiWhitespace ⟨some s, tail⟩ ++ dropped)), ?_, ?_, .inr ?_⟩
      · rw [hnamed, hread, hplace]
        dsimp only at htail
        conv_lhs => rw [htail, hvalue]
        simp
      · have hnone := List.count_eq_zero.mpr hbreak
        have hmask : "[credential-redacted]".toList.count '\n' = 0 := by decide
        simp only [List.count_append, List.count_cons, hnone, hmask]
        omega
      · have hhides := hides_of_name hname hkept (blank_of_read (Cursor.advance n ⟨some c, cs⟩)) hs
          (blank_of_read ⟨some s, tail⟩) List.mem_cons_self hstops
        rw [List.append_assoc, List.cons_append]
        exact hhides

/-- `redact_tags`. -/
theorem lawful_tag : Lawful tagRule := by
  rintro ⟨prev, _ | ⟨c, cs⟩⟩ out next h
  · cases h
  by_cases hboth : keyAt ⟨prev, c :: cs⟩ "tag".toList = true ∧ (tagPlace c cs).rest.head?.any isSeparator = true
  · obtain ⟨hfound, hsep⟩ := hboth
    obtain ⟨s, hhead, hs⟩ := (Option.any_eq_true _ _).mp hsep
    obtain ⟨tail, hplace⟩ := List.head?_eq_some_iff.mp hhead
    rw [rewrite_tag_some hfound hplace hs] at h
    obtain ⟨rfl, rfl⟩ := Prod.mk.inj (Option.some.inj h)
    obtain ⟨hname, hkept⟩ := name_of_key lowerKey_tag (by decide) hfound
    obtain ⟨dropped, hvalue, hstops, hbreak, hout⟩ := redactTag_split (Cursor.skip isAsciiWhitespace ⟨some s, tail⟩)
    have hlength : "tag".toList.length = 2 + 1 := rfl
    rw [hlength, List.take_succ_cons] at hname hkept
    have hnamed : c :: cs = c :: cs.take 2 ++ (Cursor.advance 2 ⟨some c, cs⟩).rest :=
      congrArg (c :: ·) (List.take_append_drop 2 cs).symm
    have hread := take_skip_read isAsciiWhitespace (Cursor.advance 2 ⟨some c, cs⟩)
    have htail := take_skip_read isAsciiWhitespace ⟨some s, tail⟩
    rw [tagPlace] at hplace
    have hassoc : ∀ more, c :: cs.take 2 ++ Cursor.read isAsciiWhitespace (Cursor.advance 2 ⟨some c, cs⟩) ++
        s :: Cursor.read isAsciiWhitespace ⟨some s, tail⟩ ++ more =
          c :: cs.take 2 ++ (Cursor.read isAsciiWhitespace (Cursor.advance 2 ⟨some c, cs⟩) ++
            s :: (Cursor.read isAsciiWhitespace ⟨some s, tail⟩ ++ more)) := by simp
    have hrest : c :: cs = c :: cs.take 2 ++ (Cursor.read isAsciiWhitespace (Cursor.advance 2 ⟨some c, cs⟩) ++
        s :: (Cursor.read isAsciiWhitespace ⟨some s, tail⟩ ++ dropped)) ++
          (redactTag (Cursor.skip isAsciiWhitespace ⟨some s, tail⟩)).2.rest := by
      rw [hnamed, hread, hplace]
      dsimp only at htail
      conv_lhs => rw [htail, hvalue]
      simp
    rw [hassoc]
    rcases hout with hout | hout
    · rw [hout]
      exact ⟨_, hrest, rfl, .inl rfl⟩
    · rw [hout]
      refine ⟨_, hrest, ?_, .inr ?_⟩
      · have hnone := List.count_eq_zero.mpr hbreak
        have hmask : "[node-redacted]".toList.count '\n' = 0 := by decide
        simp only [List.count_append, List.count_cons, hnone, hmask]
      · exact hides_of_name hname hkept (blank_of_read (Cursor.advance 2 ⟨some c, cs⟩)) hs
          (blank_of_read ⟨some s, tail⟩) (List.mem_cons_of_mem _ List.mem_cons_self) hstops
  · rw [rewrite_tag_none hboth] at h
    cases h

theorem Lawful.masking {rule : Rule Char} (h : Lawful rule) : rule.Masking isAddrByte isLoud [':'] := by
  intro place out next hsome
  obtain ⟨consumed, hrest, -, hout⟩ := h place out next hsome
  exact ⟨consumed, hrest, hout⟩

/-! ### Marked lines -/

/-- `redact_queries` over a marked line. -/
def carryQueries (inUrl : Bool) : List (Char × Bool) → List (Char × Bool)
  | [] => []
  | x :: t =>
    if isAsciiWhitespace x.1 then x :: carryQueries false t
    else
      let inUrl := inUrl || "://".toList.isPrefixOf (x.1 :: plain t)
      if inUrl && x.1 == '?' then
        remark (x :: t.takeWhile fun y => !isAsciiWhitespace y.1) "?[query-redacted]".toList ++
          carryQueries false (t.dropWhile fun y => !isAsciiWhitespace y.1)
      else x :: carryQueries inUrl t
termination_by t => t.length
decreasing_by
  · exact Nat.lt_succ_self _
  · exact Nat.lt_succ_of_le (List.dropWhile_sublist _).length_le
  · exact Nat.lt_succ_self _

theorem plain_dropWhile (p : Char → Bool) (t : List (Char × Bool)) :
    plain (t.dropWhile fun y => p y.1) = (plain t).dropWhile p := List.dropWhile_map.symm

/-- The marks change nothing. -/
theorem plain_carryQueries (inUrl : Bool) (t : List (Char × Bool)) :
    plain (carryQueries inUrl t) = redactQueries inUrl (plain t) := by
  induction inUrl, t using carryQueries.induct with
  | case1 inUrl => rw [carryQueries, plain_nil, redactQueries]
  | case2 inUrl x t hblank ih =>
    rw [carryQueries, if_pos hblank, plain_cons, ih, plain_cons, redactQueries, if_pos hblank]
  | case3 inUrl x t hblank inUrl' hquery ih =>
    rw [carryQueries, if_neg hblank, plain_cons, redactQueries, if_neg hblank]
    dsimp only
    rw [if_pos hquery, if_pos hquery, plain_append, plain_remark, ih, plain_dropWhile fun c => !isAsciiWhitespace c]
  | case4 inUrl x t hblank inUrl' hquery ih =>
    rw [carryQueries, if_neg hblank, plain_cons, redactQueries, if_neg hblank]
    dsimp only
    rw [if_neg hquery, if_neg hquery, plain_cons, ih]

/-- `redact_queries` masks too. -/
theorem masks_queries (inUrl : Bool) (t : List (Char × Bool)) :
    Masks isAddrByte isLoud [':'] t (carryQueries inUrl t) := by
  induction inUrl, t using carryQueries.induct with
  | case1 inUrl =>
    rw [carryQueries]
    exact .nil
  | case2 inUrl x t hblank ih =>
    rw [carryQueries, if_pos hblank]
    exact .copy x ih
  | case3 inUrl x t hblank inUrl' hquery ih =>
    rw [carryQueries, if_neg hblank]
    dsimp only
    rw [if_pos hquery]
    have hask : x.1 = '?' := by
      rw [Bool.and_eq_true, beq_iff_eq] at hquery
      exact hquery.2
    have hsplit : x :: t = (x :: t.takeWhile fun y => !isAsciiWhitespace y.1) ++
        t.dropWhile fun y => !isAsciiWhitespace y.1 :=
      congrArg (x :: ·) List.takeWhile_append_dropWhile.symm
    conv_lhs => rw [hsplit]
    refine .replace ⟨⟨['?'], "[query-redacted]".toList, ?_, by decide, ⟨'?', by decide, by decide⟩,
      forall_of_all (by decide)⟩, by decide, ?_, ?_⟩ ih
    · rw [plain_cons, hask]
      exact ⟨_, rfl⟩
    · intro a ha
      obtain rfl := Option.some.inj ha
      decide
    · intro a b ha hrun
      rw [plain_dropWhile fun c => !isAsciiWhitespace c] at ha
      have hnot := List.head?_dropWhile_not (fun c => !isAsciiWhitespace c) (plain t)
      rw [ha] at hnot
      rw [not_isAddrByte_of_blank (by simpa using hnot)] at hrun
      cases hrun
  | case4 inUrl x t hblank inUrl' hquery ih =>
    rw [carryQueries, if_neg hblank]
    dsimp only
    rw [if_neg hquery]
    exact .copy x ih

/-- `redact_credentials` over a marked line. -/
def carryCredentials (t : List (Char × Bool)) : List (Char × Bool) :=
  tagRule.carry none (assignmentRule.carry none (carryQueries false (userinfoRule.carry none t)))

/-- One line over a marked text. -/
def carryOne (t : List (Char × Bool)) : List (Char × Bool) :=
  domainRule.carry none (lineRule.carry none (carryCredentials t))

/-- The lines of a marked text. -/
def splitMarked : List (Char × Bool) → List (List (Char × Bool))
  | [] => []
  | x :: t =>
    if x.1 = '\n' then [x] :: splitMarked t
    else
      match splitMarked t with
      | [] => [[x]]
      | line :: lines => (x :: line) :: lines

/-- `redact` over a marked text: what it copies keeps its marks. -/
def redactMarked (t : List (Char × Bool)) : List (Char × Bool) := (splitMarked t).flatMap carryOne

/-- What a report has in the place of the middle of a text. -/
def standIn (pre mid post : List Char) : List Char := picked (redactMarked (bare pre ++ (tagged mid ++ bare post)))

theorem forward_line : lineRule.Forward := by
  rintro ⟨prev, _ | ⟨c, cs⟩⟩ out next h
  · cases h
  · dsimp only [lineRule] at h
    split at h
    · split at h
      · cases h
        exact (List.drop_suffix _ _).trans ((Cursor.skip_suffix _ _).trans (List.suffix_cons _ _))
      · cases h
        exact List.suffix_cons _ _
    · split at h
      · cases h
        exact (Cursor.skip_suffix _ _).trans (List.suffix_cons _ _)
      · cases h

theorem forward_domain : domainRule.Forward := by
  rintro ⟨prev, _ | ⟨c, cs⟩⟩ out next h
  · cases h
  · dsimp only [domainRule] at h
    split at h
    · cases h
      exact (Cursor.skip_suffix _ _).trans (List.suffix_cons _ _)
    · cases h

/-- The marks change nothing in a line. -/
theorem plain_carryCredentials (t : List (Char × Bool)) : plain (carryCredentials t) = redactCredentials (plain t) := by
  rw [carryCredentials, Rule.plain_carry lawful_tag.masking.forward, Rule.plain_carry lawful_assignment.masking.forward,
    plain_carryQueries, Rule.plain_carry lawful_userinfo.masking.forward]
  rfl

/-- A line without marks gets none. -/
theorem picked_carryOne_bare (line : List Char) : picked (carryOne (bare line)) = [] := by
  obtain ⟨queried, hqueries⟩ := (masks_queries false (bare (userinfoRule.scan ⟨none, line⟩))).bare_right rfl
  rw [carryOne, carryCredentials, Rule.carry_bare lawful_userinfo.masking.forward, hqueries,
    Rule.carry_bare lawful_assignment.masking.forward, Rule.carry_bare lawful_tag.masking.forward,
    Rule.carry_bare forward_line, Rule.carry_bare forward_domain, picked_bare]

theorem plain_carryOne (t : List (Char × Bool)) : plain (carryOne t) = redactOne (plain t) := by
  rw [carryOne, Rule.plain_carry forward_domain, Rule.plain_carry forward_line, plain_carryCredentials]
  rfl

theorem splitMarked_plain (t : List (Char × Bool)) : (splitMarked t).map plain = splitInclusive (plain t) := by
  induction t with
  | nil => rfl
  | cons x t ih =>
    rw [splitMarked, plain_cons, splitInclusive, ← ih]
    split
    · rfl
    · cases splitMarked t with
      | nil => rfl
      | cons line lines => rfl

/-- **Without its marks the text comes out as `redact` leaves it.** -/
theorem plain_redactMarked (t : List (Char × Bool)) : plain (redactMarked t) = redact (plain t) := by
  rw [redact, ← splitMarked_plain, List.flatMap_map, redactMarked, plain, List.map_flatMap]
  congr 1
  funext line
  exact plain_carryOne line

end FluxRs.Bugreport
