import FluxRs.Lib.Boundary
import FluxRs.Lib.Rewrite

/-!
# FluxRs.Lib.Slices — a text scanned by its bytes

A loop over the bytes of a text goes by byte offsets and cuts stretches out of the text; a cut inside a character
fails.  Where a test says the same of every byte of a wide character, the loop does what a loop over the characters
does, and its cuts are at their ends.
-/

namespace FluxRs.Lib.Slices

open Rewrite

/-! ### Cuts at byte offsets -/

/-- The text from an offset on; there is none inside a character and none behind the end. -/
def dropBytes : List Char → ℕ → Option (List Char)
  | text, 0 => some text
  | [], _ + 1 => none
  | c :: cs, n + 1 => if (utf8Char c).length ≤ n + 1 then dropBytes cs (n + 1 - (utf8Char c).length) else none

/-- The text up to an offset. -/
def takeBytes : List Char → ℕ → Option (List Char)
  | _, 0 => some []
  | [], _ + 1 => none
  | c :: cs, n + 1 =>
    if (utf8Char c).length ≤ n + 1 then (takeBytes cs (n + 1 - (utf8Char c).length)).map (c :: ·) else none

/-- The stretch between two offsets. -/
def slice (text : List Char) (i j : ℕ) : Option (List Char) :=
  if i ≤ j then (dropBytes text i).bind (takeBytes · (j - i)) else none

/-- The offset at which a text ends. -/
def size (text : List Char) : ℕ := (utf8 text).length

variable {pre mid rest : List Char}

@[simp] theorem size_nil : size [] = 0 := rfl

@[simp] theorem size_append (text more : List Char) : size (text ++ more) = size text + size more := by
  rw [size, utf8_append, List.length_append, size, size]

theorem size_cons (c : Char) (text : List Char) : size (c :: text) = (utf8Char c).length + size text := by
  rw [size, utf8_cons, List.length_append, size]

theorem length_le_size (text : List Char) : text.length ≤ size text := length_le_length_utf8 text

/-- The cut behind a prefix. -/
theorem dropBytes_size (pre rest : List Char) : dropBytes (pre ++ rest) (size pre) = some rest := by
  induction pre with
  | nil => cases rest <;> rfl
  | cons c pre ih =>
    have hpos := length_utf8Char_pos c
    obtain ⟨n, hn⟩ : ∃ n, size (c :: pre) = n + 1 := ⟨size (c :: pre) - 1, by rw [size_cons]; omega⟩
    have hsize := size_cons c pre
    rw [List.cons_append, hn, dropBytes, if_pos (by omega)]
    have hrest : n + 1 - (utf8Char c).length = size pre := by omega
    rw [hrest, ih]

/-- The cut before a suffix. -/
theorem takeBytes_size (mid rest : List Char) : takeBytes (mid ++ rest) (size mid) = some mid := by
  induction mid with
  | nil => cases rest <;> rfl
  | cons c mid ih =>
    have hpos := length_utf8Char_pos c
    obtain ⟨n, hn⟩ : ∃ n, size (c :: mid) = n + 1 := ⟨size (c :: mid) - 1, by rw [size_cons]; omega⟩
    have hsize := size_cons c mid
    rw [List.cons_append, hn, takeBytes, if_pos (by omega)]
    have hrest : n + 1 - (utf8Char c).length = size mid := by omega
    rw [hrest, ih]
    rfl

/-- **A cut between characters gives what stands between them.** -/
theorem slice_eq (pre mid rest : List Char) :
    slice (pre ++ (mid ++ rest)) (size pre) (size (pre ++ mid)) = some mid := by
  have hle : size pre ≤ size (pre ++ mid) := by
    rw [size_append]
    exact Nat.le_add_right _ _
  have hdiff : size (pre ++ mid) - size pre = size mid := by
    rw [size_append]
    exact Nat.add_sub_cancel_left _ _
  rw [slice, if_pos hle, dropBytes_size, Option.bind_some, hdiff, takeBytes_size]

/-! ### Tests of a byte -/

/-- `byte as char`. -/
def asChar (byte : U8) : Char := Char.ofNat byte.toNat

/-- There is a byte at the offset, and the test is true of it. -/
def test (p : Char → Bool) (bytes : List U8) (i : ℕ) : Bool := bytes[i]?.any fun byte => p (asChar byte)

/-- The offset at which a loop stops that goes on while the test is true. -/
def findEnd (p : Char → Bool) (bytes : List U8) (i : ℕ) : ℕ :=
  i + ((bytes.drop i).takeWhile fun byte => p (asChar byte)).length

/-- A test that says the same of all characters that are not ASCII. -/
def Uniform (p : Char → Bool) : Prop := ∃ b, ∀ c : Char, 128 ≤ c.toNat → p c = b

theorem Uniform.not {p : Char → Bool} (h : Uniform p) : Uniform fun c => !p c := by
  obtain ⟨b, hb⟩ := h
  exact ⟨!b, fun c hc => congrArg (!·) (hb c hc)⟩

theorem Uniform.and {p q : Char → Bool} (h : Uniform p) (h' : Uniform q) : Uniform fun c => p c && q c := by
  obtain ⟨b, hb⟩ := h
  obtain ⟨b', hb'⟩ := h'
  exact ⟨b && b', fun c hc => congrArg₂ (· && ·) (hb c hc) (hb' c hc)⟩

theorem Uniform.or {p q : Char → Bool} (h : Uniform p) (h' : Uniform q) : Uniform fun c => p c || q c := by
  obtain ⟨b, hb⟩ := h
  obtain ⟨b', hb'⟩ := h'
  exact ⟨b || b', fun c hc => congrArg₂ (· || ·) (hb c hc) (hb' c hc)⟩

theorem uniform_beq {a : Char} (ha : a.toNat < 128) : Uniform (· == a) := by
  refine ⟨false, fun c hc => ?_⟩
  rw [beq_eq_false_iff_ne]
  rintro rfl
  omega

theorem uniform_bne {a : Char} (ha : a.toNat < 128) : Uniform (· != a) := (uniform_beq ha).not

theorem asChar_ofNat {n : ℕ} (hn : n < 256) : (asChar (BitVec.ofNat 8 n)).toNat = n := by
  have hvalid : n.isValidChar := Or.inl (by omega)
  rw [asChar, BitVec.toNat_ofNat, Nat.mod_eq_of_lt hn, Char.ofNat, dif_pos hvalid]
  rfl

/-- The byte of an ASCII character is the character. -/
theorem asChar_ascii {c : Char} (hc : c.toNat < 128) : asChar (BitVec.ofNat 8 c.toNat) = c := by
  apply Char.ext
  apply UInt32.toNat_inj.mp
  exact asChar_ofNat (by omega)

/-- The bytes of the other characters are no ASCII characters. -/
theorem asChar_wide {byte : U8} (h : 128 ≤ byte.toNat) : 128 ≤ (asChar byte).toNat := by
  have hbyte := asChar_ofNat byte.isLt
  rw [BitVec.ofNat_toNat, BitVec.setWidth_eq] at hbyte
  omega

variable {p : Char → Bool}

/-- The test says of the bytes of a character what it says of the character. -/
theorem Uniform.bytes (h : Uniform p) (c : Char) : ∀ byte ∈ utf8Char c, p (asChar byte) = p c := by
  intro byte hmem
  by_cases hc : c.toNat < 128
  · rw [utf8Char_ascii hc, List.mem_singleton] at hmem
    rw [hmem, asChar_ascii hc]
  · obtain ⟨b, hb⟩ := h
    rw [hb c (Nat.not_lt.mp hc), hb _ (asChar_wide (utf8Char_wide (Nat.not_lt.mp hc) byte hmem))]

theorem drop_size (pre rest : List Char) : (utf8 (pre ++ rest)).drop (size pre) = utf8 rest := by
  rw [utf8_append, size, List.drop_left]

theorem getElem?_size (pre rest : List Char) : (utf8 (pre ++ rest))[size pre]? = (utf8 rest).head? := by
  rw [List.head?_eq_getElem?, ← drop_size pre rest, List.getElem?_drop, Nat.add_zero]

/-- At the place of a character a test of the byte is a test of the character. -/
theorem test_size (h : Uniform p) (pre rest : List Char) :
    test p (utf8 (pre ++ rest)) (size pre) = rest.head?.any p := by
  rw [test, getElem?_size]
  cases rest with
  | nil => rfl
  | cons c cs =>
    cases hbytes : utf8Char c with
    | nil => exact absurd hbytes (List.ne_nil_of_length_pos (length_utf8Char_pos c))
    | cons byte bytes =>
      rw [utf8_cons, hbytes, List.cons_append, List.head?_cons, Option.any_some, List.head?_cons, Option.any_some]
      exact h.bytes c byte (hbytes ▸ List.mem_cons_self)

/-- The byte before an offset. -/
theorem test_size_pred (h : Uniform p) (pre rest : List Char) :
    (decide (0 < size pre) && test p (utf8 (pre ++ rest)) (size pre - 1)) = pre.getLast?.any p := by
  rcases List.eq_nil_or_concat pre with rfl | ⟨pre, c, rfl⟩
  · rfl
  · have hpos := length_utf8Char_pos c
    have hsize : size (pre ++ [c]) = size pre + (utf8Char c).length := by
      rw [size_append, size_cons, size_nil, Nat.add_zero]
    have hindex : size (pre ++ [c]) - 1 = size pre + ((utf8Char c).length - 1) := by omega
    have hget : (utf8 (pre ++ [c] ++ rest))[size (pre ++ [c]) - 1]? =
        some ((utf8Char c).getLast (List.ne_nil_of_length_pos hpos)) := by
      rw [hindex, List.append_assoc, ← List.getElem?_drop, drop_size, List.singleton_append, utf8_cons,
        List.getElem?_append_left (by omega), ← List.getLast?_eq_getElem?, List.getLast?_eq_some_getLast]
    rw [List.concat_eq_append, test, hget, List.getLast?_concat, Option.any_some, Option.any_some,
      h.bytes c _ (List.getLast_mem _)]
    have hlt : 0 < size (pre ++ [c]) := by omega
    rw [decide_eq_true hlt, Bool.true_and]

/-- The bytes that a loop passes are those of the characters that satisfy the test. -/
theorem takeWhile_bytes (h : Uniform p) (text : List Char) :
    (utf8 text).takeWhile (fun byte => p (asChar byte)) = utf8 (text.takeWhile p) := by
  induction text with
  | nil => rfl
  | cons c cs ih =>
    cases hc : p c with
    | true =>
      have hall : ∀ byte ∈ utf8Char c, p (asChar byte) = true := fun byte hmem => (h.bytes c byte hmem).trans hc
      rw [utf8_cons, List.takeWhile_append_of_pos hall, ih, List.takeWhile_cons_of_pos hc, utf8_cons]
    | false =>
      rw [List.takeWhile_cons_of_neg (by simp [hc]), utf8_nil, utf8_cons]
      cases hbytes : utf8Char c with
      | nil => exact absurd hbytes (List.ne_nil_of_length_pos (length_utf8Char_pos c))
      | cons byte bytes =>
        have hbyte := h.bytes c byte (hbytes ▸ List.mem_cons_self)
        rw [List.cons_append, List.takeWhile_cons_of_neg (by simp [hbyte, hc])]

/-- A loop that passes what satisfies a test stops between two characters. -/
theorem findEnd_size (h : Uniform p) (pre rest : List Char) :
    findEnd p (utf8 (pre ++ rest)) (size pre) = size (pre ++ rest.takeWhile p) := by
  rw [findEnd, drop_size, takeWhile_bytes h, size_append]
  rfl

/-! ### A place in a text and its offset -/

variable {line : List Char} {place : Cursor Char} {i : ℕ}

/-- The offset at which a cursor of the line stands. -/
def At (line : List Char) (place : Cursor Char) (i : ℕ) : Prop :=
  ∃ pre, line = pre ++ place.rest ∧ place = Cursor.behind pre place.rest ∧ i = size pre

theorem at_start (line : List Char) : At line ⟨none, line⟩ 0 := ⟨[], rfl, rfl, rfl⟩

/-- What a loop over bytes passes, the cursor skips. -/
theorem At.skip (h : At line place i) (hp : Uniform p) : At line (place.skip p) (findEnd p (utf8 line) i) := by
  obtain ⟨pre, hline, hplace, rfl⟩ := h
  refine ⟨pre ++ place.rest.takeWhile p, ?_, ?_, ?_⟩
  · rw [Cursor.skip_rest, List.append_assoc, List.takeWhile_append_dropWhile]
    exact hline
  · rw [Cursor.skip_rest, ← Cursor.behind_skip, ← hplace]
  · rw [hline, findEnd_size hp]

theorem At.test (h : At line place i) (hp : Uniform p) : test p (utf8 line) i = place.rest.head?.any p := by
  obtain ⟨pre, hline, hplace, rfl⟩ := h
  rw [hline]
  exact test_size hp pre place.rest

theorem At.test_char (h : At line place i) {a : Char} (ha : a.toNat < 128) :
    Slices.test (· == a) (utf8 line) i = decide (place.rest.head? = some a) := by
  rw [h.test (uniform_beq ha)]
  cases place.rest with
  | nil => rfl
  | cons c cs =>
    rw [List.head?_cons, Option.any_some, Bool.eq_iff_iff, beq_iff_eq, decide_eq_true_eq, Option.some.injEq]

/-- An ASCII character is one byte on. -/
theorem At.step {prev : Option Char} {c : Char} {cs : List Char} (h : At line ⟨prev, c :: cs⟩ i) (hc : c.toNat < 128) :
    At line ⟨some c, cs⟩ (i + 1) := by
  obtain ⟨pre, hline, hplace, rfl⟩ := h
  refine ⟨pre ++ [c], by rw [hline]; simp, Cursor.behind_cons pre c cs, ?_⟩
  rw [size_append, size_cons, utf8Char_ascii hc]
  rfl

theorem At.advance {c : Char} (h : At line place i) (hhead : place.rest.head? = some c) (hc : c.toNat < 128) :
    At line (place.advance 1) (i + 1) := by
  obtain ⟨prev, rest⟩ := place
  cases rest with
  | nil => cases hhead
  | cons d ds =>
    obtain rfl : d = c := Option.some.inj hhead
    exact h.step hc

/-- A stretch whose length is known is cut out whole. -/
theorem At.slice_mid (h : At line place i) (hrest : place.rest = mid ++ rest) :
    Slices.slice line i (i + size mid) = some mid := by
  obtain ⟨pre, hline, hplace, rfl⟩ := h
  rw [hline, hrest, ← size_append]
  exact slice_eq pre mid rest

/-- What a loop passes is what the cursor reads. -/
theorem At.slice (h : At line place i) (hp : Uniform p) :
    slice line i (findEnd p (utf8 line) i) = some (place.read p) := by
  obtain ⟨pre, hline, hplace, rfl⟩ := h
  have hsplit : line = pre ++ (place.rest.takeWhile p ++ place.rest.dropWhile p) := by
    rw [List.takeWhile_append_dropWhile]
    exact hline
  have hend := findEnd_size hp pre place.rest
  rw [← hline] at hend
  rw [hend, hsplit]
  exact slice_eq pre _ _

/-! ### Loops -/

/-- A loop over the bytes: a round gives what it pushes, a state and the next offset, or it fails. -/
def loop {σ : Type} (round : σ → ℕ → Option (List Char × σ × ℕ)) (length : ℕ) : ℕ → σ → ℕ → Option (List Char)
  | 0, _, i => if i < length then none else some []
  | n + 1, s, i =>
    if i < length then do
      let (out, s, i) ← round s i
      let more ← loop round length n s i
      return out ++ more
    else some []

/-- **A loop whose rounds do what the steps of a pass over the characters do gives what the pass gives.** -/
theorem loop_eq {σ : Type} {round : σ → ℕ → Option (List Char × σ × ℕ)} (pass : σ → Cursor Char → List Char)
    (hnil : ∀ s prev, pass s ⟨prev, []⟩ = [])
    (hround : ∀ s place i, At line place i → place.rest ≠ [] → ∃ out s' next j, round s i = some (out, s', j) ∧
      At line next j ∧ next.rest.length < place.rest.length ∧ pass s place = out ++ pass s' next)
    {n : ℕ} {s : σ} (h : At line place i) (hn : place.rest.length ≤ n) :
    loop round (size line) n s i = some (pass s place) := by
  have hdone : ∀ {place i} s, At line place i → place.rest = [] → ¬i < size line ∧ pass s place = [] := by
    rintro ⟨prev, rest⟩ i s ⟨pre, hline, -, rfl⟩ hrest
    obtain rfl : rest = [] := hrest
    rw [hline, List.append_nil]
    exact ⟨Nat.lt_irrefl _, hnil s prev⟩
  induction n generalizing s place i with
  | zero =>
    obtain ⟨hlt, hpass⟩ := hdone s h (List.length_eq_zero_iff.mp (Nat.le_zero.mp hn))
    rw [loop, if_neg hlt, hpass]
  | succ n ih =>
    by_cases hrest : place.rest = []
    · obtain ⟨hlt, hpass⟩ := hdone s h hrest
      rw [loop, if_neg hlt, hpass]
    · obtain ⟨out, s', next, j, hout, hnext, hless, hpass⟩ := hround s place i h hrest
      have hlt : i < size line := by
        obtain ⟨pre, hline, -, rfl⟩ := h
        have hle := length_le_size place.rest
        have hpos := List.length_pos_of_ne_nil hrest
        rw [hline, size_append]
        omega
      have hmore := @ih next j s' hnext (by omega)
      rw [loop, if_pos hlt, hout]
      simp only [Option.bind_eq_bind, Option.bind_some, hmore, hpass]
      rfl

end FluxRs.Lib.Slices
