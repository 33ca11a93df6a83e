import FluxRs.Lib.Slices
import FluxRs.Bugreport.Marks

/-!
# FluxRs.Bugreport.Bytes — the scanners over the bytes of a line

`bugreport.rs` goes over the bytes of a line and cuts the parts that it copies out of the text, which fails inside a
character.  Here the scanners are written that way, and they give what the scanners over characters give.
-/

namespace FluxRs.Bugreport

open FluxRs.Lib Rewrite Slices

/-! ### Bytes -/

/-- The length of a character, from its first byte. -/
def utf8Len (byte : U8) : ℕ :=
  if 0xF0 ≤ byte.toNat then 4 else if 0xE0 ≤ byte.toNat then 3 else if 0xC0 ≤ byte.toNat then 2 else 1

/-- The character at an offset, as it is. -/
def copyAt (line : List Char) (i : ℕ) : Option (List Char × ℕ) := do
  let byte ← (utf8 line)[i]?
  let out ← slice line i (min (i + utf8Len byte) (utf8 line).length)
  return (out, i + utf8Len byte)

/-- `bytes[i..].starts_with(key)`. -/
def startsWith (bytes : List U8) (i : ℕ) (key : List Char) : Bool := (utf8 key).isPrefixOf (bytes.drop i)

/-- Bytes that are pushed as characters, one by one. -/
def asChars (bytes : List U8) (i j : ℕ) : List Char := ((bytes.drop i).take (j - i)).map asChar

/-- `key_at`. -/
def keyAtByte (bytes : List U8) (i : ℕ) (key : List Char) : Bool :=
  i + key.length ≤ bytes.length && !(0 < i && test Char.isAlphanum bytes (i - 1)) &&
    eqIgnoreAsciiCase (asChars bytes i (i + key.length)) key && !test Char.isAlphanum bytes (i + key.length)

/-- One round of a scanner without a state: at an offset, what is pushed and the next offset. -/
abbrev Round := List Char → ℕ → Option (List Char × ℕ)

/-- A scanner's loop over a line. -/
def Round.scan (round : Round) (line : List Char) : Option (List Char) :=
  loop (fun (_ : Unit) i => (round line i).map fun (out, next) => (out, (), next)) (utf8 line).length
    (utf8 line).length () 0

/-! ### The six scanners -/

/-- One round of `redact_userinfo`. -/
def userinfoRound : Round := fun line i =>
  let bytes := utf8 line
  if startsWith bytes i "://".toList then
    let stop := findEnd inAuthority bytes (i + 3)
    if test (· == '@') bytes stop then some ("://[userinfo-redacted]".toList, stop) else some ("://".toList, i + 3)
  else copyAt line i

/-- One round of `redact_queries`, with the flag that a scheme came before. -/
def queriesRound (line : List Char) (inUrl : Bool) (i : ℕ) : Option (List Char × Bool × ℕ) :=
  let bytes := utf8 line
  if test isAsciiWhitespace bytes i then some (asChars bytes i (i + 1), false, i + 1)
  else
    let inUrl := inUrl || startsWith bytes i "://".toList
    if inUrl && test (· == '?') bytes i then
      some ("?[query-redacted]".toList, false, findEnd (fun c => !isAsciiWhitespace c) bytes (i + 1))
    else (copyAt line i).map fun (out, next) => (out, inUrl, next)

/-- The offset behind a secret's value. -/
def skipValueAt (bytes : List U8) (key : List Char) (value : ℕ) : ℕ :=
  if eqIgnoreAsciiCase key "authorization".toList then findEnd (· != '\n') bytes value
  else
    match bytes[value]?.map asChar with
    | some quote =>
      if isQuote quote then
        let stop := findEnd (fun d => d != quote && d != '\n') bytes (value + 1)
        if test (· == quote) bytes stop then stop + 1 else stop
      else findEnd (fun c => !isAsciiWhitespace c) bytes value
    | none => value

/-- One round of `redact_assignments`. -/
def assignmentRound : Round := fun line i =>
  let bytes := utf8 line
  match SECRET_KEYS.find? (keyAtByte bytes i) with
  | some key => do
    let name ← slice line i (i + key.length)
    let place := findEnd isAsciiWhitespace bytes (i + key.length)
    let before := asChars bytes (i + key.length) place
    if test isSeparator bytes place then
      let value := findEnd isAsciiWhitespace bytes (place + 1)
      return (name ++ (before ++ asChars bytes place value ++ "[credential-redacted]".toList),
        skipValueAt bytes key value)
    else return (name ++ before, place)
  | none => copyAt line i

/-- The text for a tag's value, and the offset behind it. -/
def tagAt (line : List Char) (value : ℕ) : Option (List Char × ℕ) :=
  let bytes := utf8 line
  match bytes[value]?.map asChar with
  | some quote =>
    if isQuote quote then do
      let stop := findEnd (fun d => d != '\n' && d != quote) bytes (value + 1)
      let tag ← slice line (value + 1) stop
      let closed := test (· == quote) bytes stop
      return (if SAFE_TAGS.contains tag then quote :: tag ++ (if closed then [quote] else [])
          else "[node-redacted]".toList,
        if closed then stop + 1 else stop)
    else do
      let stop := findEnd (fun d => d != '\n' && !isAsciiWhitespace d && d != ',') bytes value
      let tag ← slice line value stop
      return (if SAFE_TAGS.contains tag then tag else "[node-redacted]".toList, stop)
  | none => do
    let tag ← slice line value value
    return (if SAFE_TAGS.contains tag then tag else "[node-redacted]".toList, value)

/-- One round of `redact_tags`. -/
def tagRound : Round := fun line i =>
  let bytes := utf8 line
  let separator := findEnd isAsciiWhitespace bytes (i + 3)
  if keyAtByte bytes i "tag".toList && test isSeparator bytes separator then do
    let name ← slice line i (separator + 1)
    let value := findEnd isAsciiWhitespace bytes (separator + 1)
    let (out, next) ← tagAt line value
    return (name ++ asChars bytes (separator + 1) value ++ out, next)
  else copyAt line i

/-- One round of `redact_line`. -/
def lineRound : Round := fun line i =>
  let bytes := utf8 line
  if test (· == '"') bytes i then
    let stop := findEnd Char.isDigit bytes (i + 1)
    if 6 ≤ stop - (i + 1) && test (· == ':') bytes stop then some ("\"[cookie-redacted]:".toList, stop + 1)
    else some (['"'], i + 1)
  else if test isAddrByte bytes i then do
    let stop := findEnd isAddrByte bytes i
    let token ← slice line i stop
    return (classifyAndMask token, stop)
  else copyAt line i

/-- One round of `redact_domains`. -/
def domainRound : Round := fun line i =>
  let bytes := utf8 line
  if test isDomainByte bytes i then do
    let stop := findEnd isDomainByte bytes i
    let token ← slice line i stop
    return (if isDomainLike token then "[domain-redacted]".toList else token, stop)
  else copyAt line i

/-- The loop of `redact_queries`. -/
def scanQueries (line : List Char) : Option (List Char) :=
  loop (queriesRound line) (utf8 line).length (utf8 line).length false 0

/-- One line, as `redact` composes the scanners. -/
def scanOne (line : List Char) : Option (List Char) := do
  let line ← userinfoRound.scan line
  let line ← scanQueries line
  let line ← assignmentRound.scan line
  let line ← tagRound.scan line
  let line ← lineRound.scan line
  domainRound.scan line

/-- `redact` over bytes; `none` stands for a cut inside a character or a loop without an end. -/
def scanText (text : List Char) : Option (List Char) := ((splitInclusive text).mapM scanOne).map List.flatten

/-! ### Bytes at the place of a character -/

variable {line : List Char} {place : Cursor Char} {i : ℕ}

/-- `utf8_len` gives the length of the character whose first byte it is asked for. -/
theorem utf8Len_head {c : Char} {byte : U8} {bytes : List U8} (h : utf8Char c = byte :: bytes) :
    utf8Len byte = (utf8Char c).length := by
  have hword : ∀ v bound lead : ℕ, lead + bound ≤ 256 → 0 < bound →
      (UInt8.ofNat (v % bound + lead)).toBitVec.toNat = v % bound + lead := by
    intro v bound lead hsum hpos
    have hmod := Nat.mod_lt v hpos
    show (v % bound + lead) % 256 = v % bound + lead
    omega
  by_cases hc : c.toNat < 128
  · rw [utf8Char_ascii hc] at h ⊢
    obtain ⟨rfl, rfl⟩ := List.cons.inj h
    rw [utf8Len, BitVec.toNat_ofNat, if_neg (by omega), if_neg (by omega), if_neg (by omega)]
    rfl
  · have hwide : ¬c.val.toNat ≤ 0x7f := fun hle => hc (Nat.lt_succ_of_le hle)
    rw [h]
    unfold utf8Char String.utf8EncodeChar at h
    simp only at h
    rw [if_neg hwide] at h
    split at h
    · obtain ⟨rfl, rfl⟩ := List.cons.inj h
      rw [utf8Len, hword _ _ _ (by omega) (by omega), if_neg (by omega), if_neg (by omega), if_pos (by omega)]
      rfl
    · split at h
      · obtain ⟨rfl, rfl⟩ := List.cons.inj h
        rw [utf8Len, hword _ _ _ (by omega) (by omega), if_neg (by omega), if_pos (by omega)]
        rfl
      · obtain ⟨rfl, rfl⟩ := List.cons.inj h
        rw [utf8Len, hword _ _ _ (by omega) (by omega), if_pos (by omega)]
        rfl

theorem utf8Char_cons (c : Char) : ∃ byte bytes, utf8Char c = byte :: bytes :=
  List.exists_cons_of_length_pos (length_utf8Char_pos c)

/-- **A scanner that finds nothing copies one whole character.** -/
theorem copyAt_eq {prev : Option Char} {c : Char} {cs : List Char} (h : At line ⟨prev, c :: cs⟩ i) :
    ∃ j, copyAt line i = some ([c], j) ∧ At line ⟨some c, cs⟩ j := by
  obtain ⟨pre, rfl, -, rfl⟩ := h
  obtain ⟨byte, bytes, hbytes⟩ := utf8Char_cons c
  have hget : (utf8 (pre ++ c :: cs))[size pre]? = some byte := by
    rw [getElem?_size, utf8_cons, hbytes]
    rfl
  have hnext : size pre + utf8Len byte = size (pre ++ [c]) := by
    rw [utf8Len_head hbytes, size_append, size_cons, size_nil, Nat.add_zero]
  have hle : size (pre ++ [c]) ≤ (utf8 (pre ++ c :: cs)).length := by
    rw [← size, size_append, size_append, size_cons, size_cons, size_nil]
    omega
  have hslice := slice_eq pre [c] cs
  rw [List.singleton_append] at hslice
  refine ⟨size (pre ++ [c]), ?_, pre ++ [c], by simp, Cursor.behind_cons pre c cs, rfl⟩
  rw [copyAt, hget]
  simp only [Option.bind_eq_bind, Option.bind_some, hnext, Nat.min_eq_left hle, hslice]
  rfl

theorem toLower_wide {c : Char} (hc : 128 ≤ c.toNat) : c.toLower = c := by
  unfold Char.toLower
  rw [dif_neg]
  rintro ⟨-, h⟩
  have hle : c.toNat ≤ 90 := h
  omega

theorem eqIgnoreAsciiCase_cons (c k : Char) (cs ks : List Char) :
    eqIgnoreAsciiCase (c :: cs) (k :: ks) = (c.toLower == k.toLower && eqIgnoreAsciiCase cs ks) := rfl

variable {key : List Char}

/-- The bytes spell a key where the characters do. -/
theorem eqIgnoreAsciiCase_bytes (hkey : ∀ k ∈ key, k.toLower.toNat < 128) (rest : List Char) :
    eqIgnoreAsciiCase (((utf8 rest).take key.length).map asChar) key =
      eqIgnoreAsciiCase (rest.take key.length) key := by
  induction key generalizing rest with
  | nil => simp
  | cons k ks ih =>
    have hk := hkey k List.mem_cons_self
    cases rest with
    | nil => rfl
    | cons c cs =>
      have hrest := ih (fun k hk => hkey k (List.mem_cons_of_mem _ hk)) cs
      rw [List.length_cons, List.take_succ_cons, eqIgnoreAsciiCase_cons]
      by_cases hc : c.toNat < 128
      · rw [utf8_cons, utf8Char_ascii hc, List.singleton_append, List.take_succ_cons, List.map_cons, asChar_ascii hc,
          eqIgnoreAsciiCase_cons, hrest]
      · have hwide := Nat.not_lt.mp hc
        have hne : ∀ d : Char, 128 ≤ d.toNat → (d.toLower == k.toLower) = false := by
          intro d hd
          rw [beq_eq_false_iff_ne, toLower_wide hd]
          rintro rfl
          omega
        cases hbytes : utf8Char c with
        | nil => exact absurd hbytes (List.ne_nil_of_length_pos (length_utf8Char_pos c))
        | cons byte bytes =>
          have hbyte := asChar_wide (utf8Char_wide hwide byte (hbytes ▸ List.mem_cons_self))
          rw [utf8_cons, hbytes, List.cons_append, List.take_succ_cons, List.map_cons, eqIgnoreAsciiCase_cons,
            hne _ hbyte, hne _ hwide, Bool.false_and, Bool.false_and]

/-- What spells a key is as long as the key, in characters and in bytes. -/
theorem size_of_key (hkey : ∀ k ∈ key, k.toLower.toNat < 128) {text : List Char}
    (h : eqIgnoreAsciiCase text key = true) :
    text.length = key.length ∧ ∀ c ∈ text, c.toNat < 128 := by
  induction key generalizing text with
  | nil =>
    cases text with
    | nil => exact ⟨rfl, fun c hc => absurd hc List.not_mem_nil⟩
    | cons c cs => cases h
  | cons k ks ih =>
    cases text with
    | nil => cases h
    | cons c cs =>
      rw [eqIgnoreAsciiCase_cons, Bool.and_eq_true, beq_iff_eq] at h
      obtain ⟨hlength, hall⟩ := ih (fun k hk => hkey k (List.mem_cons_of_mem _ hk)) h.2
      refine ⟨by rw [List.length_cons, List.length_cons, hlength], fun d hd => ?_⟩
      rcases List.mem_cons.mp hd with rfl | hd
      · by_contra hwide
        have hk := hkey k List.mem_cons_self
        rw [← h.1, toLower_wide (Nat.not_lt.mp hwide)] at hk
        exact hwide hk
      · exact hall d hd

/-- An ASCII text and its bytes are the same. -/
theorem utf8_ascii {text : List Char} (h : ∀ c ∈ text, c.toNat < 128) :
    (utf8 text).map asChar = text ∧ size text = text.length := by
  induction text with
  | nil => exact ⟨rfl, rfl⟩
  | cons c cs ih =>
    have hc := h c List.mem_cons_self
    obtain ⟨hmap, hsize⟩ := ih fun d hd => h d (List.mem_cons_of_mem _ hd)
    refine ⟨?_, ?_⟩
    · rw [utf8_cons, utf8Char_ascii hc, List.singleton_append, List.map_cons, asChar_ascii hc, hmap]
    · rw [size_cons, utf8Char_ascii hc, hsize, List.length_cons]
      exact Nat.add_comm _ _

theorem size_read {p : Char → Bool} (hascii : ∀ c, p c = true → c.toNat < 128) (place : Cursor Char) :
    size (place.read p) = (place.read p).length :=
  (utf8_ascii fun c hc => hascii c (List.mem_takeWhile_imp hc)).2

/-- Bytes that are pushed one by one come out as what the cursor reads where that is ASCII. -/
theorem asChars_eq {p : Char → Bool} (h : At line place i) (hp : Uniform p)
    (hascii : ∀ c, p c = true → c.toNat < 128) :
    asChars (utf8 line) i (findEnd p (utf8 line) i) = place.read p := by
  obtain ⟨pre, hline, -, rfl⟩ := h
  have hlength : findEnd p (utf8 line) (size pre) - size pre = (utf8 (place.rest.takeWhile p)).length := by
    rw [hline, findEnd_size hp, size_append, ← size]
    exact Nat.add_sub_cancel_left _ _
  rw [asChars, hlength, hline, drop_size]
  conv_lhs => rw [← List.takeWhile_append_dropWhile (p := p) (l := place.rest), utf8_append]
  rw [List.take_left' (by rw [List.takeWhile_append_dropWhile]),
    (utf8_ascii fun c hc => hascii c (List.mem_takeWhile_imp hc)).1, Cursor.read]

theorem uniform_isAlphanum : Uniform Char.isAlphanum := by
  refine ⟨false, fun c hc => ?_⟩
  rw [← Bool.not_eq_true]
  intro h
  unfold Char.isAlphanum Char.isAlpha Char.isUpper Char.isLower Char.isDigit at h
  simp only [UInt32.le_iff_toNat_le, ge_iff_le, Bool.or_eq_true, Bool.and_eq_true, decide_eq_true_eq] at h
  obtain (⟨-, h⟩ | ⟨-, h⟩) | ⟨-, h⟩ := h <;> exact absurd (Nat.le_trans hc h) (by decide)

/-- **A key is found over bytes where it is found over characters.** -/
theorem keyAtByte_eq (h : At line place i) (hkey : ∀ k ∈ key, k.toLower.toNat < 128) :
    keyAtByte (utf8 line) i key = keyAt place key := by
  obtain ⟨pre, hline, hplace, rfl⟩ := h
  have hspell : eqIgnoreAsciiCase (asChars (utf8 line) (size pre) (size pre + key.length)) key =
      eqIgnoreAsciiCase (place.rest.take key.length) key := by
    rw [asChars, hline, drop_size, Nat.add_sub_cancel_left]
    exact eqIgnoreAsciiCase_bytes hkey _
  have hprev : place.prev = pre.getLast? := congrArg Cursor.prev hplace
  rw [keyAtByte, keyAt, hspell, hline, test_size_pred uniform_isAlphanum, hprev]
  cases h : eqIgnoreAsciiCase (place.rest.take key.length) key with
  | false => rw [Bool.and_false, Bool.and_false, Bool.false_and, Bool.false_and]
  | true =>
    obtain ⟨hlength, hascii⟩ := size_of_key hkey h
    have hrest : key.length ≤ place.rest.length := by
      rw [← hlength]
      exact List.length_take_le' _ _
    have hbytes : size pre + key.length ≤ (utf8 (pre ++ place.rest)).length := by
      have hle := length_le_size place.rest
      rw [← size, size_append]
      omega
    have hbehind : size pre + key.length = size (pre ++ place.rest.take key.length) := by
      rw [size_append, (utf8_ascii hascii).2, hlength]
    have htest := test_size uniform_isAlphanum (pre ++ place.rest.take key.length) (place.rest.drop key.length)
    rw [List.append_assoc, List.take_append_drop, ← hbehind] at htest
    rw [htest, decide_eq_true hrest, decide_eq_true hbytes]

/-- A key is cut out whole, and the scanner goes on behind it. -/
theorem slice_key (h : At line place i) (hkey : ∀ k ∈ key, k.toLower.toNat < 128) (hfound : keyAt place key = true) :
    slice line i (i + key.length) = some (place.rest.take key.length) ∧
      At line (place.advance key.length) (i + key.length) := by
  obtain ⟨pre, hline, hplace, rfl⟩ := h
  have hspell : eqIgnoreAsciiCase (place.rest.take key.length) key = true := by
    rw [keyAt, Bool.and_eq_true, Bool.and_eq_true] at hfound
    exact hfound.1.2
  obtain ⟨hlength, hascii⟩ := size_of_key hkey hspell
  have hbehind : size pre + key.length = size (pre ++ place.rest.take key.length) := by
    rw [size_append, (utf8_ascii hascii).2, hlength]
  have hsplit : line = pre ++ (place.rest.take key.length ++ place.rest.drop key.length) := by
    rw [List.take_append_drop]
    exact hline
  have hadvance := Cursor.behind_advance pre (place.rest.take key.length) (place.rest.drop key.length)
  rw [List.take_append_drop, ← hplace, hlength] at hadvance
  refine ⟨?_, pre ++ place.rest.take key.length, ?_, ?_, hbehind⟩
  · rw [hbehind]
    conv_lhs => rw [hsplit]
    exact slice_eq pre _ _
  · rw [hadvance, Cursor.behind_rest, List.append_assoc]
    exact hsplit
  · rw [hadvance, Cursor.behind_rest]

/-- The bytes go on with an ASCII text where the characters do. -/
theorem startsWith_eq (h : At line place i) (hkey : ∀ k ∈ key, k.toNat < 128) :
    startsWith (utf8 line) i key = key.isPrefixOf place.rest := by
  obtain ⟨pre, hline, -, rfl⟩ := h
  rw [startsWith, hline, drop_size]
  generalize place.rest = rest
  induction key generalizing rest with
  | nil => rfl
  | cons k ks ih =>
    have hk := hkey k List.mem_cons_self
    rw [utf8_cons, utf8Char_ascii hk, List.singleton_append]
    cases rest with
    | nil => rfl
    | cons c cs =>
      have hrest := ih (fun k hk => hkey k (List.mem_cons_of_mem _ hk)) cs
      by_cases hc : c.toNat < 128
      · have hbeq : (BitVec.ofNat 8 k.toNat == BitVec.ofNat 8 c.toNat) = (k == c) := by
          rw [Bool.eq_iff_iff, beq_iff_eq, beq_iff_eq]
          refine ⟨fun h => ?_, fun h => by rw [h]⟩
          rw [← asChar_ascii hk, ← asChar_ascii hc, h]
        rw [utf8_cons, utf8Char_ascii hc, List.singleton_append, List.isPrefixOf, List.isPrefixOf, hrest, hbeq]
      · obtain ⟨byte, bytes, hbytes⟩ := utf8Char_cons c
        have hwide := utf8Char_wide (Nat.not_lt.mp hc) byte (hbytes ▸ List.mem_cons_self)
        have hbyte : (BitVec.ofNat 8 k.toNat == byte) = false := by
          rw [beq_eq_false_iff_ne]
          rintro rfl
          rw [BitVec.toNat_ofNat] at hwide
          omega
        have hchar : (k == c) = false := by
          rw [beq_eq_false_iff_ne]
          rintro rfl
          exact hc hk
        rw [utf8_cons, hbytes, List.cons_append, List.isPrefixOf, List.isPrefixOf, hbyte, hchar, Bool.false_and,
          Bool.false_and]

/-- A loop over ASCII characters counts them. -/
theorem findEnd_eq {p : Char → Bool} (h : At line place i) (hp : Uniform p)
    (hascii : ∀ c, p c = true → c.toNat < 128) : findEnd p (utf8 line) i = i + (place.read p).length := by
  obtain ⟨pre, hline, -, rfl⟩ := h
  rw [hline, findEnd_size hp, size_append, ← size_read hascii]
  rfl

/-- A byte that is pushed as a character. -/
theorem asChars_cons {prev : Option Char} {c : Char} {cs : List Char} (h : At line ⟨prev, c :: cs⟩ i)
    (hc : c.toNat < 128) {j : ℕ} (hj : i + 1 ≤ j) : asChars (utf8 line) i j = c :: asChars (utf8 line) (i + 1) j := by
  have hdrop : (utf8 line).drop i = BitVec.ofNat 8 c.toNat :: (utf8 line).drop (i + 1) := by
    obtain ⟨pre, hline, -, rfl⟩ := h
    obtain rfl : line = pre ++ c :: cs := hline
    rw [← List.drop_drop, drop_size, utf8_cons, utf8Char_ascii hc]
    rfl
  obtain ⟨n, rfl⟩ := Nat.exists_eq_add_of_le hj
  rw [asChars, hdrop, asChars]
  have hn : i + 1 + n - i = n + 1 := by omega
  rw [hn, Nat.add_sub_cancel_left, List.take_succ_cons, List.map_cons, asChar_ascii hc]

theorem asChars_one {prev : Option Char} {c : Char} {cs : List Char} (h : At line ⟨prev, c :: cs⟩ i)
    (hc : c.toNat < 128) : asChars (utf8 line) i (i + 1) = [c] := by
  obtain ⟨pre, rfl, -, rfl⟩ := h
  rw [asChars, drop_size, utf8_cons, utf8Char_ascii hc, Nat.add_sub_cancel_left, List.singleton_append,
    List.take_succ_cons, List.take_zero, List.map_cons, asChar_ascii hc, List.map_nil]

/-- The byte at a place is one that every test takes for the character. -/
theorem lead_eq {prev : Option Char} {c : Char} {cs : List Char} (h : At line ⟨prev, c :: cs⟩ i) :
    ∃ d, (utf8 line)[i]?.map asChar = some d ∧ (∀ p, Uniform p → p d = p c) ∧ (c.toNat < 128 → d = c) := by
  obtain ⟨pre, rfl, -, rfl⟩ := h
  obtain ⟨byte, bytes, hbytes⟩ := utf8Char_cons c
  refine ⟨asChar byte, ?_, fun p hp => hp.bytes c byte (hbytes ▸ List.mem_cons_self), fun hc => ?_⟩
  · rw [getElem?_size, utf8_cons, hbytes]
    rfl
  · rw [utf8Char_ascii hc] at hbytes
    obtain ⟨rfl, -⟩ := List.cons.inj hbytes
    exact asChar_ascii hc

/-- There is no byte behind the end. -/
theorem lead_none {prev : Option Char} (h : At line ⟨prev, []⟩ i) : (utf8 line)[i]? = none := by
  obtain ⟨pre, rfl, -, rfl⟩ := h
  rw [getElem?_size]
  rfl

/-! ### Tests of the scanners -/

theorem uniform_isAsciiWhitespace : Uniform isAsciiWhitespace :=
  ((((uniform_beq (by decide)).or (uniform_beq (by decide))).or (uniform_beq (by decide))).or
    (uniform_beq (by decide))).or (uniform_beq (by decide))

theorem uniform_nonblank : Uniform fun c => !isAsciiWhitespace c := uniform_isAsciiWhitespace.not

theorem uniform_inAuthority : Uniform inAuthority :=
  ((uniform_bne (by decide)).and uniform_nonblank).and (uniform_bne (by decide))

theorem uniform_isSeparator : Uniform isSeparator := (uniform_beq (by decide)).or (uniform_beq (by decide))

theorem uniform_isQuote : Uniform isQuote := (uniform_beq (by decide)).or (uniform_beq (by decide))

theorem uniform_isDigit : Uniform Char.isDigit := by
  refine ⟨false, fun c hc => ?_⟩
  rw [← Bool.not_eq_true]
  intro h
  simp only [Char.isDigit, UInt32.le_iff_toNat_le, ge_iff_le, Bool.and_eq_true, decide_eq_true_eq] at h
  exact absurd (Nat.le_trans hc h.2) (by decide)

theorem uniform_isAsciiHexdigit : Uniform isAsciiHexdigit := by
  have hletter : ∀ low high : Char, high.toNat < 128 → Uniform fun c => low.val ≤ c.val && c.val ≤ high.val := by
    intro low high hhigh
    refine ⟨false, fun c hc => ?_⟩
    rw [← Bool.not_eq_true]
    intro h
    simp only [UInt32.le_iff_toNat_le, Bool.and_eq_true, decide_eq_true_eq] at h
    exact absurd (Nat.le_trans hc h.2) (Nat.not_le.mpr hhigh)
  exact (uniform_isDigit.or (hletter 'a' 'f' (by decide))).or (hletter 'A' 'F' (by decide))

theorem uniform_isAddrByte : Uniform isAddrByte :=
  (uniform_isAsciiHexdigit.or (uniform_beq (by decide))).or (uniform_beq (by decide))

theorem uniform_isDomainByte : Uniform isDomainByte :=
  ((uniform_isAlphanum.or (uniform_beq (by decide))).or (uniform_beq (by decide))).or (uniform_beq (by decide))

theorem ascii_of_isQuote {c : Char} (h : isQuote c = true) : c.toNat < 128 := by
  rw [isQuote, Bool.or_eq_true, beq_iff_eq, beq_iff_eq] at h
  rcases h with rfl | rfl <;> decide

theorem ascii_of_isSeparator {c : Char} (h : isSeparator c = true) : c.toNat < 128 := by
  rw [isSeparator, Bool.or_eq_true, beq_iff_eq, beq_iff_eq] at h
  rcases h with rfl | rfl <;> decide

theorem ascii_of_isDigit {c : Char} (h : c.isDigit = true) : c.toNat < 128 := by
  simp only [Char.isDigit, UInt32.le_iff_toNat_le, ge_iff_le, Bool.and_eq_true, decide_eq_true_eq] at h
  exact Nat.lt_of_le_of_lt h.2 (by decide)

theorem ascii_of_isAsciiWhitespace {c : Char} (h : isAsciiWhitespace c = true) : c.toNat < 128 := by
  simp only [isAsciiWhitespace, Bool.or_eq_true, beq_iff_eq] at h
  rcases h with (((rfl | rfl) | rfl) | rfl) | rfl <;> decide

/-! ### The rounds -/

/-- **A scanner whose rounds do what a rule does gives what the rule gives.** -/
theorem Round.scan_eq {round : Round} {rule : Rule Char}
    (h : ∀ place i, At line place i →
      (rule.rewrite place = none ∧ round line i = copyAt line i) ∨
        ∃ out next j, rule.rewrite place = some (out, next) ∧ round line i = some (out, j) ∧ At line next j) :
    round.scan line = some (rule.scan ⟨none, line⟩) := by
  refine loop_eq (fun _ place => rule.scan place) (fun _ prev => Rule.scan_nil prev) ?_ (at_start line)
    (length_le_size line)
  rintro - ⟨prev, rest⟩ i hplace hrest
  rcases h _ i hplace with ⟨hnone, hround⟩ | ⟨out, next, j, hsome, hround, hnext⟩
  · cases rest with
    | nil => exact absurd rfl hrest
    | cons c cs =>
      obtain ⟨j, hcopy, hnext⟩ := copyAt_eq hplace
      refine ⟨[c], (), _, j, ?_, hnext, Nat.lt_succ_self _, Rule.scan_of_none hnone⟩
      rw [hround, hcopy]
      rfl
  · refine ⟨out, (), next, j, ?_, hnext, rule.progress hsome, Rule.scan_of_some hsome⟩
    rw [hround]
    rfl

theorem scheme_ascii : ∀ k ∈ "://".toList, k.toNat < 128 := forall_of_all (by decide)

/-- `redact_userinfo` over bytes. -/
theorem userinfoRound_scan (line : List Char) : userinfoRound.scan line = some (redactUserinfo line) := by
  refine Round.scan_eq fun place i h => ?_
  have hstart := startsWith_eq h scheme_ascii
  unfold userinfoRound userinfoRule
  dsimp only
  split
  · rename_i cs hcs
    obtain ⟨prev, rest⟩ := place
    obtain rfl : rest = _ := hcs
    have hscheme : startsWith (utf8 line) i "://".toList = true := hstart
    have hbehind : At line ⟨some '/', cs⟩ (i + 3) := ((h.step (by decide)).step (by decide)).step (by decide)
    have hstop := hbehind.skip uniform_inAuthority
    rw [if_pos hscheme, hstop.test_char (by decide)]
    by_cases hat : (Cursor.skip inAuthority ⟨some '/', cs⟩).rest.head? = some '@'
    · rw [if_pos (decide_eq_true hat), if_pos hat]
      exact .inr ⟨_, _, _, rfl, rfl, hstop⟩
    · rw [if_neg hat, if_neg (by simpa using hat)]
      exact .inr ⟨_, _, _, rfl, rfl, hbehind⟩
  · rename_i hno
    have hscheme : startsWith (utf8 line) i "://".toList = false := by
      rw [hstart, ← Bool.not_eq_true, List.isPrefixOf_iff_prefix]
      rintro ⟨cs, hcs⟩
      exact hno cs hcs.symm
    rw [if_neg (by rw [hscheme]; decide)]
    exact .inl ⟨rfl, rfl⟩

/-- `redact_queries` over bytes. -/
theorem scanQueries_eq (line : List Char) : scanQueries line = some (redactQueries false line) := by
  refine loop_eq (fun inUrl place => redactQueries inUrl place.rest) (fun s prev => by rw [redactQueries]) ?_
    (at_start line) (length_le_size line)
  rintro inUrl ⟨prev, rest⟩ i h hrest
  cases rest with
  | nil => exact absurd rfl hrest
  | cons c cs =>
    have hblank := h.test uniform_isAsciiWhitespace
    have hstart := startsWith_eq h scheme_ascii
    have hmark := h.test (uniform_beq (a := '?') (by decide))
    rw [List.head?_cons, Option.any_some] at hblank hmark
    rw [queriesRound]
    dsimp only
    rw [hblank, hstart, hmark, redactQueries]
    by_cases hc : isAsciiWhitespace c = true
    · have hascii := ascii_of_isAsciiWhitespace hc
      rw [if_pos hc, if_pos hc, asChars_one h hascii]
      exact ⟨[c], false, _, _, rfl, h.step hascii, Nat.lt_succ_self _, rfl⟩
    · rw [if_neg hc, if_neg hc]
      by_cases hquery : ((inUrl || "://".toList.isPrefixOf (c :: cs)) && c == '?') = true
      · have hask : c = '?' := by
          rw [Bool.and_eq_true, beq_iff_eq] at hquery
          exact hquery.2
        have hbehind := h.step (by rw [hask]; decide)
        have hstop := hbehind.skip uniform_nonblank
        rw [if_pos hquery, if_pos hquery]
        refine ⟨_, false, _, _, rfl, hstop, ?_, ?_⟩
        · exact Nat.lt_succ_of_le (Cursor.skip_le _ _)
        · rw [Cursor.skip_rest]
      · obtain ⟨j, hcopy, hnext⟩ := copyAt_eq h
        rw [if_neg hquery, if_neg hquery, hcopy]
        exact ⟨[c], _, _, j, rfl, hnext, Nat.lt_succ_self _, rfl⟩

/-- The place behind a value is found over bytes too. -/
theorem skipValueAt_eq (key : List Char) (h : At line place i) :
    At line (skipValue key place) (skipValueAt (utf8 line) key i) := by
  rw [skipValue, skipValueAt]
  split
  · exact h.skip (uniform_bne (by decide))
  · obtain ⟨prev, rest⟩ := place
    cases rest with
    | nil =>
      rw [lead_none h]
      exact h
    | cons c cs =>
      obtain ⟨d, hd, htest, hascii⟩ := lead_eq h
      rw [hd]
      dsimp only
      rw [htest isQuote uniform_isQuote]
      by_cases hc : isQuote c = true
      · have hone := ascii_of_isQuote hc
        obtain rfl := hascii hone
        have hstop := (h.step hone).skip ((uniform_bne (a := d) hone).and (uniform_bne (a := '\n') (by decide)))
        rw [if_pos hc, if_pos hc, hstop.test_char hone]
        by_cases hclosed : (Cursor.skip (fun e => e != d && e != '\n') ⟨some d, cs⟩).rest.head? = some d
        · rw [if_pos hclosed, if_pos (decide_eq_true hclosed)]
          exact hstop.advance hclosed hone
        · rw [if_neg hclosed, if_neg (by simpa using hclosed)]
          exact hstop
      · rw [if_neg hc, if_neg hc]
        exact h.skip uniform_nonblank

theorem LowerKey.ascii (h : LowerKey key) : ∀ k ∈ key, k.toLower.toNat < 128 := by
  intro k hk
  have hlower := h.2 k hk
  have hsame := toLower_of_isLower hlower
  unfold Char.isLower at hlower
  simp only [UInt32.le_iff_toNat_le, ge_iff_le, Bool.and_eq_true, decide_eq_true_eq] at hlower
  rw [hsame]
  exact Nat.lt_of_le_of_lt hlower.2 (by decide)

/-- The key that a round finds over bytes. -/
theorem find?_keyAtByte (h : At line place i) {keys : List (List Char)}
    (hascii : ∀ key ∈ keys, ∀ k ∈ key, k.toLower.toNat < 128) :
    keys.find? (keyAtByte (utf8 line) i) = keys.find? (keyAt place) := by
  induction keys with
  | nil => rfl
  | cons key keys ih =>
    rw [List.find?_cons, List.find?_cons, keyAtByte_eq h (hascii key List.mem_cons_self),
      ih fun key hkey => hascii key (List.mem_cons_of_mem _ hkey)]

/-- `redact_assignments` over bytes. -/
theorem assignmentRound_scan (line : List Char) : assignmentRound.scan line = some (redactAssignments line) := by
  refine Round.scan_eq fun place i h => ?_
  have hfind : SECRET_KEYS.find? (keyAtByte (utf8 line) i) = SECRET_KEYS.find? (keyAt place) :=
    find?_keyAtByte h fun key hkey => (lowerKey_secret hkey).ascii
  rw [assignmentRound]
  dsimp only
  rw [hfind]
  unfold assignmentRule
  dsimp only
  cases hkey : SECRET_KEYS.find? (keyAt place) with
  | none =>
    refine .inl ⟨?_, rfl⟩
    split
    · rfl
    · rfl
  | some key =>
    have hlower := lowerKey_secret (List.mem_of_find?_eq_some hkey)
    obtain ⟨n, hn⟩ : ∃ n, key.length = n + 1 := Nat.exists_eq_succ_of_ne_zero (by simpa using hlower.1)
    obtain ⟨hslice, hnamed⟩ := slice_key h hlower.ascii (List.find?_some hkey)
    have hfound := List.find?_some hkey
    obtain ⟨prev, rest⟩ := place
    cases rest with
    | nil =>
      rw [keyAt, List.length_nil, hn] at hfound
      cases hfound
    | cons c cs =>
      right
      rw [hn, Cursor.advance_succ] at hnamed
      rw [hn, List.take_succ_cons] at hslice
      have hplace := hnamed.skip uniform_isAsciiWhitespace
      have hbefore := asChars_eq hnamed uniform_isAsciiWhitespace fun d hd => ascii_of_isAsciiWhitespace hd
      have hsep := hplace.test uniform_isSeparator
      dsimp only
      rw [hn, Nat.add_sub_cancel, hslice, hbefore, hsep, redactValue, Option.bind_eq_bind, Option.bind_some]
      cases hrest : (Cursor.skip isAsciiWhitespace (Cursor.advance n ⟨some c, cs⟩)) with
      | mk before behind =>
        rw [hrest] at hplace
        cases behind with
        | nil => exact ⟨_, _, _, rfl, rfl, hplace⟩
        | cons s tail =>
          rw [List.head?_cons, Option.any_some]
          dsimp only
          by_cases hs : isSeparator s = true
          · have hone := ascii_of_isSeparator hs
            have hbehind := hplace.step hone
            have hvalue := hbehind.skip uniform_isAsciiWhitespace
            have hle : findEnd isAsciiWhitespace (utf8 line) (i + (n + 1)) + 1 ≤
                findEnd isAsciiWhitespace (utf8 line) (findEnd isAsciiWhitespace (utf8 line) (i + (n + 1)) + 1) :=
              Nat.le_add_right _ _
            have hblank := asChars_eq hbehind uniform_isAsciiWhitespace fun d hd => ascii_of_isAsciiWhitespace hd
            rw [if_pos hs, if_pos hs, asChars_cons hplace hone hle, hblank]
            exact ⟨_, _, _, rfl, rfl, skipValueAt_eq key hvalue⟩
          · rw [if_neg hs, if_neg hs]
            exact ⟨_, _, _, rfl, rfl, hplace⟩

/-- A tag's value and the place behind it are found over bytes too. -/
theorem tagAt_eq (h : At line place i) :
    ∃ j, tagAt line i = some ((redactTag place).1, j) ∧ At line (redactTag place).2 j := by
  rw [tagAt]
  dsimp only
  obtain ⟨prev, rest⟩ := place
  cases rest with
  | nil =>
    have hslice := @At.slice_mid [] [] line _ i h rfl
    rw [lead_none h]
    rw [size_nil, Nat.add_zero] at hslice
    dsimp only [Option.map_none]
    rw [hslice]
    exact ⟨i, rfl, h⟩
  | cons c cs =>
    obtain ⟨d, hd, htest, hascii⟩ := lead_eq h
    rw [hd]
    dsimp only
    rw [htest isQuote uniform_isQuote]
    by_cases hc : isQuote c = true
    · have hone := ascii_of_isQuote hc
      obtain rfl := hascii hone
      have huniform : Uniform fun e => e != '\n' && e != d := (uniform_bne (by decide)).and (uniform_bne hone)
      have hstart := h.step hone
      have hstop := hstart.skip huniform
      rw [if_pos hc, hstart.slice huniform, hstop.test_char hone, redactTag]
      dsimp only
      rw [if_pos hc]
      by_cases hclosed : (Cursor.skip (fun e => e != '\n' && e != d) ⟨some d, cs⟩).rest.head? = some d
      · have hbeq : ((Cursor.skip (fun e => e != '\n' && e != d) ⟨some d, cs⟩).rest.head? == some d) = true :=
          beq_iff_eq.mpr hclosed
        rw [decide_eq_true hclosed, hbeq]
        exact ⟨_, rfl, hstop.advance hclosed hone⟩
      · have hbeq : ((Cursor.skip (fun e => e != '\n' && e != d) ⟨some d, cs⟩).rest.head? == some d) = false :=
          beq_eq_false_iff_ne.mpr hclosed
        rw [decide_eq_false hclosed, hbeq]
        exact ⟨_, rfl, hstop⟩
    · have huniform : Uniform fun e => e != '\n' && !isAsciiWhitespace e && e != ',' :=
        ((uniform_bne (by decide)).and uniform_nonblank).and (uniform_bne (by decide))
      rw [if_neg hc, h.slice huniform, redactTag]
      dsimp only
      rw [if_neg hc]
      exact ⟨_, rfl, h.skip huniform⟩

/-- A tag's name is cut out with its separator. -/
theorem slice_name {prev before : Option Char} {c s : Char} {cs tail : List Char} (h : At line ⟨prev, c :: cs⟩ i)
    (hfound : keyAt ⟨prev, c :: cs⟩ "tag".toList = true)
    (hskip : (Cursor.advance 2 ⟨some c, cs⟩).skip isAsciiWhitespace = ⟨before, s :: tail⟩) (hs : isSeparator s = true) :
    slice line i (findEnd isAsciiWhitespace (utf8 line) (i + 3) + 1) =
      some (c :: cs.take 2 ++ (Cursor.advance 2 ⟨some c, cs⟩).read isAsciiWhitespace ++ [s]) := by
  have htag := lowerKey_tag.ascii
  have hspell : eqIgnoreAsciiCase ((c :: cs).take (2 + 1)) "tag".toList = true := by
    rw [keyAt, Bool.and_eq_true, Bool.and_eq_true] at hfound
    exact hfound.1.2
  obtain ⟨hthree, hascii⟩ := size_of_key htag hspell
  rw [List.take_succ_cons] at hthree hascii
  have hnamed : At line (Cursor.advance 2 ⟨some c, cs⟩) (i + 3) := by
    have h3 := (slice_key h htag hfound).2
    have hlength : "tag".toList.length = 2 + 1 := rfl
    rwa [hlength, Cursor.advance_succ] at h3
  have hend := findEnd_eq hnamed uniform_isAsciiWhitespace fun d hd => ascii_of_isAsciiWhitespace hd
  have hread : (Cursor.advance 2 ⟨some c, cs⟩).read isAsciiWhitespace ++ s :: tail = cs.drop 2 := by
    have hrest : ((Cursor.advance 2 ⟨some c, cs⟩).skip isAsciiWhitespace).rest = s :: tail := by rw [hskip]
    rw [← hrest, Cursor.skip_rest]
    exact List.takeWhile_append_dropWhile
  have hblank := size_read (fun d hd => ascii_of_isAsciiWhitespace hd) (Cursor.advance 2 ⟨some c, cs⟩)
  have hsize : size (c :: cs.take 2 ++ (Cursor.advance 2 ⟨some c, cs⟩).read isAsciiWhitespace ++ [s]) =
      3 + ((Cursor.advance 2 ⟨some c, cs⟩).read isAsciiWhitespace).length + 1 := by
    rw [size_append, size_append, (utf8_ascii hascii).2, hthree, hblank, size_cons,
      utf8Char_ascii (ascii_of_isSeparator hs)]
    rfl
  have hsplit : c :: cs =
      (c :: cs.take 2 ++ (Cursor.advance 2 ⟨some c, cs⟩).read isAsciiWhitespace ++ [s]) ++ tail := by
    simp [hread, List.take_append_drop]
  have hmid := h.slice_mid hsplit
  rw [hsize, ← Nat.add_assoc, ← Nat.add_assoc, ← hend] at hmid
  exact hmid

/-- `redact_tags` over bytes. -/
theorem tagRound_scan (line : List Char) : tagRound.scan line = some (redactTags line) := by
  refine Round.scan_eq fun place i h => ?_
  have htag := lowerKey_tag.ascii
  rw [tagRound]
  dsimp only
  rw [keyAtByte_eq h htag]
  unfold tagRule
  dsimp only
  obtain ⟨prev, rest⟩ := place
  cases rest with
  | nil => exact .inl ⟨rfl, rfl⟩
  | cons c cs =>
    dsimp only
    cases hfound : keyAt ⟨prev, c :: cs⟩ "tag".toList with
    | false => exact .inl ⟨rfl, rfl⟩
    | true =>
      obtain ⟨-, hnamed⟩ := slice_key h htag hfound
      have hlength : "tag".toList.length = 2 + 1 := rfl
      rw [hlength, Cursor.advance_succ] at hnamed
      have hplace := hnamed.skip uniform_isAsciiWhitespace
      have hsep := hplace.test uniform_isSeparator
      rw [if_pos rfl, Bool.true_and, hsep]
      cases hskip : (Cursor.advance 2 ⟨some c, cs⟩).skip isAsciiWhitespace with
      | mk before behind =>
        rw [hskip] at hplace
        cases behind with
        | nil => exact .inl ⟨rfl, rfl⟩
        | cons s tail =>
          rw [List.head?_cons, Option.any_some]
          dsimp only
          by_cases hs : isSeparator s = true
          · right
            have hone := ascii_of_isSeparator hs
            have hbehind := hplace.step hone
            have hvalue := hbehind.skip uniform_isAsciiWhitespace
            have hblank := asChars_eq hbehind uniform_isAsciiWhitespace fun d hd => ascii_of_isAsciiWhitespace hd
            obtain ⟨j, htagged, hnext⟩ := tagAt_eq hvalue
            have hname := slice_name h hfound hskip hs
            rw [if_pos hs, if_pos hs, hname, hblank, htagged]
            refine ⟨_, _, j, rfl, ?_, hnext⟩
            simp
          · rw [if_neg hs, if_neg hs]
            exact .inl ⟨rfl, rfl⟩

/-- `redact_line` over bytes. -/
theorem lineRound_scan (line : List Char) : lineRound.scan line = some (redactLine line) := by
  refine Round.scan_eq fun place i h => ?_
  have haddr := h.test uniform_isAddrByte
  obtain ⟨prev, rest⟩ := place
  rw [lineRound]
  dsimp only at haddr ⊢
  rw [h.test_char (by decide), haddr]
  cases rest with
  | nil => exact .inl ⟨rfl, rfl⟩
  | cons c cs =>
    rw [List.head?_cons, Option.any_some]
    unfold lineRule
    dsimp only
    by_cases hc : c = '"'
    · subst hc
      have hstart := h.step (by decide)
      have hstop := hstart.skip uniform_isDigit
      have hlength := findEnd_eq hstart uniform_isDigit fun d hd => ascii_of_isDigit hd
      have hquote : decide (some '"' = some '"') = true := by decide
      right
      rw [if_pos rfl, if_pos hquote, hstop.test_char (by decide), hlength, Nat.add_sub_cancel_left, ← hlength]
      by_cases hcookie : (6 ≤ ((⟨some '"', cs⟩ : Cursor Char).read Char.isDigit).length &&
          (Cursor.skip Char.isDigit ⟨some '"', cs⟩).rest.head? = some ':') = true
      · have hadvance : At line ((Cursor.skip Char.isDigit ⟨some '"', cs⟩).advance 1)
            (findEnd Char.isDigit (utf8 line) (i + 1) + 1) := by
          rw [Bool.and_eq_true, decide_eq_true_eq, decide_eq_true_eq] at hcookie
          exact hstop.advance hcookie.2 (by decide)
        rw [if_pos hcookie, if_pos hcookie]
        exact ⟨_, _, _, rfl, rfl, hadvance⟩
      · rw [if_neg hcookie, if_neg hcookie]
        exact ⟨_, _, _, rfl, rfl, hstart⟩
    · have hquote : ¬decide (some c = some '"') = true := by simpa using hc
      rw [if_neg hc, if_neg hquote]
      by_cases hrun : isAddrByte c = true
      · right
        have hstop := h.skip uniform_isAddrByte
        rw [Cursor.skip_cons_of_pos hrun] at hstop
        rw [if_pos hrun, if_pos hrun, h.slice uniform_isAddrByte]
        exact ⟨_, _, _, rfl, rfl, hstop⟩
      · rw [if_neg hrun, if_neg hrun]
        exact .inl ⟨rfl, rfl⟩

/-- `redact_domains` over bytes. -/
theorem domainRound_scan (line : List Char) : domainRound.scan line = some (redactDomains line) := by
  refine Round.scan_eq fun place i h => ?_
  have hbyte := h.test uniform_isDomainByte
  obtain ⟨prev, rest⟩ := place
  rw [domainRound]
  dsimp only at hbyte ⊢
  rw [hbyte]
  cases rest with
  | nil => exact .inl ⟨rfl, rfl⟩
  | cons c cs =>
    rw [List.head?_cons, Option.any_some]
    by_cases hc : isDomainByte c = true
    · right
      have hslice := h.slice uniform_isDomainByte
      have hstop := h.skip uniform_isDomainByte
      rw [Cursor.skip_cons_of_pos hc] at hstop
      rw [if_pos hc, hslice]
      refine ⟨_, _, _, ?_, rfl, hstop⟩
      unfold domainRule
      dsimp only
      rw [if_pos hc]
    · left
      rw [if_neg hc]
      refine ⟨?_, rfl⟩
      unfold domainRule
      dsimp only
      rw [if_neg hc]

/-- **The scanners over bytes give what the scanners over characters give**: they cut nothing inside a character and
their loops end. -/
theorem scanText_eq (text : List Char) : scanText text = some (redact text) := by
  have hone : ∀ line, scanOne line = some (redactOne line) := by
    intro line
    rw [scanOne, userinfoRound_scan]
    simp only [Option.bind_eq_bind, Option.bind_some, scanQueries_eq, assignmentRound_scan, tagRound_scan,
      lineRound_scan, domainRound_scan]
    rfl
  have hlines : ∀ lines : List (List Char), lines.mapM scanOne = some (lines.map redactOne) := by
    intro lines
    induction lines with
    | nil => rfl
    | cons line lines ih =>
      rw [List.mapM_cons, hone, ih]
      rfl
  rw [scanText, hlines, redact, List.flatMap]
  rfl

end FluxRs.Bugreport
