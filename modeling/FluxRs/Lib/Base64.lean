import FluxRs.Lib.Bytes
import Mathlib.Data.List.Basic

/-!
# FluxRs.Lib.Base64 — base64 in both alphabets, padded or not

Three bytes are four digits; one or two bytes at the end are two or three digits and, if padded, as many
equals signs as are missing.  One reader undoes every variant, so that no text is the encoding of two
byte strings.
-/

namespace FluxRs.Lib.Base64

/-- The digits of the standard alphabet, or of the one for URLs. -/
def digit (urlSafe : Bool) (n : ℕ) : Char :=
  ("ABCDEFGHIJKLMNOPQRSTUVWXYZabcdefghijklmnopqrstuvwxyz0123456789".toList ++
    if urlSafe then ['-', '_'] else ['+', '/']).getD n 'A'

/-- The value of a digit of either alphabet. -/
def value (c : Char) : Option ℕ :=
  if 'A' ≤ c ∧ c ≤ 'Z' then some (c.toNat - 'A'.toNat)
  else if 'a' ≤ c ∧ c ≤ 'z' then some (c.toNat - 'a'.toNat + 26)
  else if '0' ≤ c ∧ c ≤ '9' then some (c.toNat - '0'.toNat + 52)
  else if c = '+' ∨ c = '-' then some 62
  else if c = '/' ∨ c = '_' then some 63
  else none

theorem value_digit (urlSafe : Bool) {n : ℕ} (h : n < 64) : value (digit urlSafe n) = some n := by
  have hall : ∀ urlSafe : Bool, ∀ n < 64, value (digit urlSafe n) = some n := by decide +kernel
  exact hall urlSafe n h

/-- The digits at the end, and what fills up the group. -/
def padding (padded : Bool) (n : ℕ) : List Char := if padded then List.replicate n '=' else []

def encode (urlSafe padded : Bool) : List U8 → List Char
  | [] => []
  | [a] => digit urlSafe (a.toNat / 4) :: digit urlSafe (a.toNat % 4 * 16) :: padding padded 2
  | [a, b] =>
    digit urlSafe (a.toNat / 4) :: digit urlSafe (a.toNat % 4 * 16 + b.toNat / 16) ::
      digit urlSafe (b.toNat % 16 * 4) :: padding padded 1
  | a :: b :: c :: rest =>
    digit urlSafe (a.toNat / 4) :: digit urlSafe (a.toNat % 4 * 16 + b.toNat / 16) ::
      digit urlSafe (b.toNat % 16 * 4 + c.toNat / 64) :: digit urlSafe (c.toNat % 64) :: encode urlSafe padded rest

/-- The bytes of a row of values. -/
def bytesOf : List ℕ → List U8
  | a :: b :: c :: d :: rest =>
    BitVec.ofNat 8 (a * 4 + b / 16) :: BitVec.ofNat 8 (b % 16 * 16 + c / 4) :: BitVec.ofNat 8 (c % 4 * 64 + d) ::
      bytesOf rest
  | [a, b, c] => [BitVec.ofNat 8 (a * 4 + b / 16), BitVec.ofNat 8 (b % 16 * 16 + c / 4)]
  | [a, b] => [BitVec.ofNat 8 (a * 4 + b / 16)]
  | _ => []

/-- What a text encodes, in whichever variant. -/
def decode (text : List Char) : List U8 := bytesOf (text.filterMap value)

theorem filterMap_digit (urlSafe : Bool) {n : ℕ} (h : n < 64) (rest : List Char) :
    (digit urlSafe n :: rest).filterMap value = n :: rest.filterMap value :=
  List.filterMap_cons_some (value_digit urlSafe h)

theorem filterMap_padding (padded : Bool) (n : ℕ) : (padding padded n).filterMap value = [] := by
  refine List.filterMap_eq_nil_iff.mpr fun c hc => ?_
  unfold padding at hc
  split_ifs at hc
  · rw [List.eq_of_mem_replicate hc]
    decide
  · cases hc

theorem ofNat_eq {a : U8} {n : ℕ} (h : n = a.toNat) : BitVec.ofNat 8 n = a := by
  rw [h, BitVec.ofNat_toNat, BitVec.setWidth_eq]

/-- **Every variant is undone by the one reader.** -/
theorem decode_encode (urlSafe padded : Bool) (bytes : List U8) : decode (encode urlSafe padded bytes) = bytes := by
  unfold decode
  induction bytes using encode.induct with
  | case1 => rfl
  | case2 a =>
    have ha := a.isLt
    rw [encode, filterMap_digit _ (by omega), filterMap_digit _ (by omega), filterMap_padding]
    rw [bytesOf, ofNat_eq (a := a) (by omega)]
  | case3 a b =>
    have ha := a.isLt
    have hb := b.isLt
    rw [encode, filterMap_digit _ (by omega), filterMap_digit _ (by omega), filterMap_digit _ (by omega), filterMap_padding]
    rw [bytesOf, ofNat_eq (a := a) (by omega), ofNat_eq (a := b) (by omega)]
  | case4 a b c rest ih =>
    have ha := a.isLt
    have hb := b.isLt
    have hc := c.isLt
    rw [encode, filterMap_digit _ (by omega), filterMap_digit _ (by omega), filterMap_digit _ (by omega),
      filterMap_digit _ (by omega), bytesOf, ih]
    rw [ofNat_eq (a := a) (by omega), ofNat_eq (a := b) (by omega), ofNat_eq (a := c) (by omega)]

theorem encode_inj {urlSafe padded urlSafe' padded' : Bool} {bytes bytes' : List U8}
    (h : encode urlSafe padded bytes = encode urlSafe' padded' bytes') : bytes = bytes' := by
  have hdecode := congrArg decode h
  rwa [decode_encode, decode_encode] at hdecode

/-! ### The characters and the length of an encoding -/

/-- A character of some variant. -/
def IsSymbol (c : Char) : Prop := (value c).isSome = true ∨ c = '='

theorem isSymbol_digit (urlSafe : Bool) {n : ℕ} (h : n < 64) : IsSymbol (digit urlSafe n) := by
  rw [IsSymbol, value_digit urlSafe h]
  exact .inl rfl

theorem isSymbol_padding {padded : Bool} {n : ℕ} : ∀ c ∈ padding padded n, IsSymbol c := by
  intro c hc
  unfold padding at hc
  split_ifs at hc
  · exact .inr (List.eq_of_mem_replicate hc)
  · cases hc

theorem isSymbol_of_mem {urlSafe padded : Bool} {bytes : List U8} : ∀ c ∈ encode urlSafe padded bytes, IsSymbol c := by
  induction bytes using encode.induct with
  | case1 => simp [encode]
  | case2 a =>
    have ha := a.isLt
    simp only [encode, List.forall_mem_cons]
    exact ⟨isSymbol_digit _ (by omega), isSymbol_digit _ (by omega), isSymbol_padding⟩
  | case3 a b =>
    have ha := a.isLt
    have hb := b.isLt
    simp only [encode, List.forall_mem_cons]
    exact ⟨isSymbol_digit _ (by omega), isSymbol_digit _ (by omega), isSymbol_digit _ (by omega), isSymbol_padding⟩
  | case4 a b c rest ih =>
    have ha := a.isLt
    have hb := b.isLt
    have hc := c.isLt
    simp only [encode, List.forall_mem_cons]
    exact ⟨isSymbol_digit _ (by omega), isSymbol_digit _ (by omega), isSymbol_digit _ (by omega),
      isSymbol_digit _ (by omega), ih⟩

theorem length_le_length_encode (urlSafe padded : Bool) (bytes : List U8) :
    bytes.length ≤ (encode urlSafe padded bytes).length := by
  induction bytes using encode.induct with
  | case1 => simp [encode]
  | case2 a => simp [encode]
  | case3 a b => simp [encode]
  | case4 a b c rest ih =>
    simp only [encode, List.length_cons]
    omega

end FluxRs.Lib.Base64
