import FluxRs.Lib.Bytes
import Mathlib.Data.List.Forall2
import Mathlib.Data.List.TakeWhile

/-!
# FluxRs.Lib.Percent — percent-encoded text and encoded forms

The bytes of a text, its percent-encodings, and the pairs of an `application/x-www-form-urlencoded` text.
An encoding keeps a character as it is or spells the bytes of its UTF-8 form.
-/

namespace FluxRs.Lib

/-! ### UTF-8 -/

def utf8Char (c : Char) : List U8 := (String.utf8EncodeChar c).map UInt8.toBitVec

def utf8 (text : List Char) : List U8 := text.flatMap utf8Char

@[simp] theorem utf8_nil : utf8 [] = [] := rfl

@[simp] theorem utf8_cons (c : Char) (text : List Char) : utf8 (c :: text) = utf8Char c ++ utf8 text := List.flatMap_cons

theorem utf8_append (text more : List Char) : utf8 (text ++ more) = utf8 text ++ utf8 more := List.flatMap_append

theorem utf8Char_ascii {c : Char} (h : c.toNat < 128) : utf8Char c = [BitVec.ofNat 8 c.toNat] := by
  have hsmall : c.val.toNat ≤ 0x7f := Nat.le_of_lt_succ h
  unfold utf8Char String.utf8EncodeChar
  simp only
  rw [if_pos hsmall]
  rfl

theorem length_utf8Char_pos (c : Char) : 0 < (utf8Char c).length := by
  rw [utf8Char, List.length_map, String.length_utf8EncodeChar]
  exact Char.utf8Size_pos c

theorem length_le_length_utf8 (text : List Char) : text.length ≤ (utf8 text).length := by
  induction text with
  | nil => simp
  | cons c text ih =>
    have hpos := length_utf8Char_pos c
    rw [utf8_cons, List.length_append, List.length_cons]
    omega

/-- A decoder that reads the longest text at the front and then goes on. -/
structure TextDecoder where
  decode : List U8 → List Char
  nil : decode [] = []
  utf8_append : ∀ (text : List Char) (bytes : List U8), decode (utf8 text ++ bytes) = text ++ decode bytes

theorem TextDecoder.utf8 (decoder : TextDecoder) (text : List Char) : decoder.decode (utf8 text) = text := by
  have h := decoder.utf8_append text []
  rwa [List.append_nil, decoder.nil, List.append_nil] at h

/-- The character at the front of some bytes. -/
def frontChar (bytes : List U8) : Option Char := (bytes.map UInt8.ofBitVec).toByteArray.utf8DecodeChar? 0

theorem frontChar_utf8Char (c : Char) (bytes : List U8) : frontChar (utf8Char c ++ bytes) = some c := by
  have hchar : (utf8Char c).map UInt8.ofBitVec = String.utf8EncodeChar c := by
    rw [utf8Char, List.map_map]
    exact List.map_id _
  rw [frontChar, List.map_append, hchar, List.toByteArray_append]
  exact ByteArray.utf8DecodeChar?_utf8EncodeChar_append

/-- A byte that starts no character becomes the replacement character. -/
def lossyFrom : ℕ → List U8 → List Char
  | 0, _ => []
  | _ + 1, [] => []
  | n + 1, byte :: bytes =>
    match frontChar (byte :: bytes) with
    | some c => c :: lossyFrom n ((byte :: bytes).drop (utf8Char c).length)
    | none => Char.ofNat 0xFFFD :: lossyFrom n bytes

/-- Enough rounds are as good as any. -/
theorem lossyFrom_rounds : ∀ (n m : ℕ) {bytes : List U8}, bytes.length ≤ n → bytes.length ≤ m →
    lossyFrom n bytes = lossyFrom m bytes
  | 0, m, bytes, hn, _ => by
    obtain rfl := List.length_eq_zero_iff.mp (Nat.le_zero.mp hn)
    cases m <;> rfl
  | n + 1, 0, bytes, _, hm => by
    obtain rfl := List.length_eq_zero_iff.mp (Nat.le_zero.mp hm)
    rfl
  | n + 1, m + 1, [], _, _ => rfl
  | n + 1, m + 1, byte :: bytes, hn, hm => by
    rw [List.length_cons] at hn hm
    rw [lossyFrom, lossyFrom]
    cases frontChar (byte :: bytes) with
    | none =>
      simp only
      rw [lossyFrom_rounds n m (by omega) (by omega)]
    | some c =>
      have hpos := length_utf8Char_pos c
      simp only
      rw [lossyFrom_rounds n m]
      · rw [List.length_drop, List.length_cons]
        omega
      · rw [List.length_drop, List.length_cons]
        omega

/-- The decoder that replaces what is not UTF-8. -/
def TextDecoder.lossy : TextDecoder where
  decode bytes := lossyFrom bytes.length bytes
  nil := rfl
  utf8_append := by
    intro text bytes
    induction text with
    | nil => rfl
    | cons c text ih =>
      have hpos := length_utf8Char_pos c
      have hfront := frontChar_utf8Char c (FluxRs.Lib.utf8 text ++ bytes)
      rw [utf8_cons, List.append_assoc]
      cases hchar : utf8Char c with
      | nil =>
        rw [hchar] at hpos
        cases hpos
      | cons byte rest =>
        rw [hchar, List.cons_append] at hfront
        rw [List.cons_append, List.length_cons, lossyFrom, hfront]
        simp only
        rw [hchar, ← List.cons_append, List.drop_left, List.cons_append, ← ih]
        rw [lossyFrom_rounds _ (FluxRs.Lib.utf8 text ++ bytes).length]
        · have hlen := @List.length_append _ rest (FluxRs.Lib.utf8 text ++ bytes)
          omega
        · exact le_rfl

theorem utf8_injective : Function.Injective utf8 := by
  intro text text' h
  have hdecode := congrArg TextDecoder.lossy.decode h
  rwa [TextDecoder.utf8, TextDecoder.utf8] at hdecode

namespace Percent

/-! ### Percent-encoding -/

def hexDigit (c : Char) : Option ℕ :=
  if '0' ≤ c ∧ c ≤ '9' then some (c.toNat - '0'.toNat)
  else if 'a' ≤ c ∧ c ≤ 'f' then some (c.toNat - 'a'.toNat + 10)
  else if 'A' ≤ c ∧ c ≤ 'F' then some (c.toNat - 'A'.toNat + 10)
  else none

/-- The byte of the two digits of an escape. -/
def escaped (high low : Char) : Option U8 :=
  (hexDigit high).bind fun h => (hexDigit low).map fun l => BitVec.ofNat 8 (16 * h + l)

/-- The bytes of a text; an escape that is not complete stands for itself. -/
def decode : List Char → List U8
  | [] => []
  | [c] => utf8Char c
  | [c, d] => utf8Char c ++ utf8Char d
  | c :: high :: low :: rest =>
    if c = '%' then
      match escaped high low with
      | some byte => byte :: decode rest
      | none => utf8Char c ++ decode (high :: low :: rest)
    else utf8Char c ++ decode (high :: low :: rest)

theorem decode_cons_of_ne {c : Char} (h : c ≠ '%') (text : List Char) : decode (c :: text) = utf8Char c ++ decode text := by
  match text with
  | [] => simp [decode]
  | [d] => simp [decode]
  | high :: low :: rest => rw [decode, if_neg h]

theorem decode_escape {high low : Char} {byte : U8} (h : escaped high low = some byte) (text : List Char) :
    decode ('%' :: high :: low :: text) = byte :: decode text := by
  rw [decode, if_pos rfl, h]

/-- The text spells these bytes with one escape each. -/
inductive Escapes : List Char → List U8 → Prop
  | nil : Escapes [] []
  | cons {high low : Char} {byte : U8} {text : List Char} {bytes : List U8} :
      escaped high low = some byte → Escapes text bytes → Escapes ('%' :: high :: low :: text) (byte :: bytes)

/-- The first text is an encoding of the second one. -/
inductive Spells : List Char → List Char → Prop
  | nil : Spells [] []
  | literal {c : Char} {encoded text : List Char} : c ≠ '%' → Spells encoded text → Spells (c :: encoded) (c :: text)
  | escape {c : Char} {spelled encoded text : List Char} :
      Escapes spelled (utf8Char c) → Spells encoded text → Spells (spelled ++ encoded) (c :: text)

theorem Escapes.decode_append {spelled : List Char} {bytes : List U8} (h : Escapes spelled bytes) (more : List Char) :
    decode (spelled ++ more) = bytes ++ decode more := by
  induction h with
  | nil => rfl
  | cons hescape _ ih =>
    rw [List.cons_append, List.cons_append, List.cons_append, decode_escape hescape, ih, List.cons_append]

/-- An encoding decodes to its text, whatever stands behind it. -/
theorem Spells.decode_append {encoded text : List Char} (h : Spells encoded text) (more : List Char) :
    decode (encoded ++ more) = utf8 text ++ decode more := by
  induction h with
  | nil => rfl
  | literal hne _ ih => rw [List.cons_append, decode_cons_of_ne hne, ih, utf8_cons, List.append_assoc]
  | escape hspelled _ ih => rw [List.append_assoc, hspelled.decode_append, ih, utf8_cons, List.append_assoc]

theorem Spells.decode_eq {encoded text : List Char} (h : Spells encoded text) : decode encoded = utf8 text := by
  have happend := h.decode_append []
  rwa [List.append_nil, decode, List.append_nil] at happend

/-- A text without escapes spells itself. -/
theorem spells_self {text : List Char} (h : '%' ∉ text) : Spells text text := by
  induction text with
  | nil => exact .nil
  | cons c text ih =>
    rw [List.mem_cons, not_or] at h
    exact .literal (Ne.symm h.1) (ih h.2)

theorem Spells.append {encoded text encoded' text' : List Char} (h : Spells encoded text) (h' : Spells encoded' text') :
    Spells (encoded ++ encoded') (text ++ text') := by
  induction h with
  | nil => exact h'
  | literal hne _ ih => exact .literal hne ih
  | escape hspelled _ ih =>
    rw [List.append_assoc]
    exact .escape hspelled ih

/-! ### Changing the literal characters -/

theorem Escapes.not_mem {spelled : List Char} {bytes : List U8} (h : Escapes spelled bytes) {c : Char}
    (hne : c ≠ '%') (hhex : hexDigit c = none) : c ∉ spelled := by
  induction h with
  | nil => simp
  | @cons high low byte text bytes hescape _ ih =>
    have hdigits : c ≠ high ∧ c ≠ low := by
      constructor
      · rintro rfl
        rw [escaped, hhex] at hescape
        cases hescape
      · rintro rfl
        rw [escaped, hhex] at hescape
        simp at hescape
    simp only [List.mem_cons, not_or]
    exact ⟨hne, hdigits.1, hdigits.2, ih⟩

/-- A literal character replaced by one of its escapes. -/
theorem Spells.replace {encoded text : List Char} (h : Spells encoded text) {c : Char} {by_ : List Char}
    (hne : c ≠ '%') (hhex : hexDigit c = none) (hby : Escapes by_ (utf8Char c)) :
    Spells (encoded.flatMap fun x => if x = c then by_ else [x]) text := by
  induction h with
  | nil => exact .nil
  | @literal d encoded text hd _ ih =>
    rw [List.flatMap_cons]
    split_ifs with hdc
    · subst hdc
      exact .escape hby ih
    · exact .literal hd ih
  | @escape d spelled encoded text hspelled _ ih =>
    have hnot := hspelled.not_mem hne hhex
    have hkeep : ∀ {part : List Char}, c ∉ part → part.flatMap (fun x => if x = c then by_ else [x]) = part := by
      intro part
      induction part with
      | nil => exact fun _ => rfl
      | cons x part ih =>
        intro hpart
        rw [List.mem_cons, not_or] at hpart
        rw [List.flatMap_cons, if_neg (Ne.symm hpart.1), ih hpart.2, List.singleton_append]
    rw [List.flatMap_append, hkeep hnot]
    exact .escape hspelled ih

/-! ### Forms -/

/-- A plus sign of a form stands for a blank. -/
def plusToSpace (text : List Char) : List Char := text.map fun c => if c = '+' then ' ' else c

def component (decoder : TextDecoder) (text : List Char) : List Char := decoder.decode (decode (plusToSpace text))

/-- The pairs of a form: segments between ampersands, each cut at its first equals sign. -/
def formParse (decoder : TextDecoder) (text : List Char) : List (List Char × List Char) :=
  ((text.splitOn '&').filter (· ≠ [])).map fun segment =>
    (component decoder (segment.takeWhile (· ≠ '=')), component decoder ((segment.dropWhile (· ≠ '=')).drop 1))

/-- The second text is the first one with some plus signs made blanks. -/
def Blanked : List Char → List Char → Prop := List.Forall₂ fun c d => d = c ∨ (c = '+' ∧ d = ' ')

theorem Blanked.refl (text : List Char) : Blanked text text := List.forall₂_same.mpr fun _ _ => .inl rfl

theorem Blanked.eq_of_plus {text blanked : List Char} (h : Blanked text blanked) (hplus : '+' ∉ text) :
    blanked = text := by
  induction h with
  | nil => rfl
  | cons hcd _ ih =>
    rw [List.mem_cons, not_or] at hplus
    rcases hcd with rfl | ⟨rfl, -⟩
    · rw [ih hplus.2]
    · exact absurd rfl hplus.1

theorem Blanked.eq_of_blank {text blanked : List Char} (h : Blanked text blanked) (hblank : ' ' ∉ blanked) :
    blanked = text := by
  induction h with
  | nil => rfl
  | cons hcd _ ih =>
    rw [List.mem_cons, not_or] at hblank
    rcases hcd with rfl | ⟨-, rfl⟩
    · rw [ih hblank.2]
    · exact absurd rfl hblank.1

/-- What a form reads of an encoding: the text, with a blank for every literal plus sign. -/
theorem Spells.plusToSpace {encoded text : List Char} (h : Spells encoded text) :
    ∃ blanked, Spells (plusToSpace encoded) blanked ∧ Blanked text blanked ∧ (blanked = text ↔ '+' ∉ encoded) := by
  induction h with
  | nil => exact ⟨[], .nil, .refl [], by simp⟩
  | @literal c encoded text hne _ ih =>
    obtain ⟨blanked, hspells, hblanked, heq⟩ := ih
    by_cases hc : c = '+'
    · subst hc
      refine ⟨' ' :: blanked, ?_, .cons (.inr ⟨rfl, rfl⟩) hblanked, ?_⟩
      · rw [Percent.plusToSpace, List.map_cons, if_pos rfl]
        exact .literal (by decide) hspells
      · exact iff_of_false (by simp) (by simp)
    · refine ⟨c :: blanked, ?_, .cons (.inl rfl) hblanked, ?_⟩
      · rw [Percent.plusToSpace, List.map_cons, if_neg hc]
        exact .literal hne hspells
      · rw [List.cons_inj_right, heq, List.mem_cons, not_or]
        exact ⟨fun h => ⟨Ne.symm hc, h⟩, And.right⟩
  | @escape c spelled encoded text hspelled _ ih =>
    obtain ⟨blanked, hspells, hblanked, heq⟩ := ih
    have hnot := hspelled.not_mem (c := '+') (by decide) (by decide)
    have hkeep : spelled.map (fun c => if c = '+' then ' ' else c) = spelled := by
      refine (List.map_congr_left fun x hx => ?_).trans (List.map_id' spelled)
      rw [if_neg]
      rintro rfl
      exact hnot hx
    refine ⟨c :: blanked, ?_, .cons (.inl rfl) hblanked, ?_⟩
    · rw [Percent.plusToSpace, List.map_append, hkeep]
      exact .escape hspelled hspells
    · rw [List.cons_inj_right, heq, List.mem_append, not_or]
      exact ⟨fun h => ⟨hnot, h⟩, And.right⟩

theorem Spells.component {encoded text : List Char} (h : Spells encoded text) (decoder : TextDecoder) :
    Blanked text (component decoder encoded) ∧ (component decoder encoded = text ↔ '+' ∉ encoded) := by
  obtain ⟨blanked, hspells, hblanked, heq⟩ := h.plusToSpace
  have hcomponent : Percent.component decoder encoded = blanked := by
    rw [Percent.component, hspells.decode_eq, decoder.utf8]
  rw [hcomponent]
  exact ⟨hblanked, heq⟩

/-- A parameter of a query and how it is written: its name, and behind an equals sign its value. -/
structure Param where
  name : List Char
  value : List Char
  nameText : List Char
  valueText : Option (List Char)
  name_spelled : Spells nameText name
  value_spelled : Spells (valueText.getD []) value
  name_plain : '&' ∉ nameText ∧ '=' ∉ nameText
  value_plain : '&' ∉ valueText.getD []

namespace Param

def text (param : Param) : List Char :=
  match param.valueText with
  | none => param.nameText
  | some value => param.nameText ++ '=' :: value

theorem ampersand_not_mem_text (param : Param) : '&' ∉ param.text := by
  have hvalue := param.value_plain
  unfold text
  split
  · exact param.name_plain.1
  · rename_i value heq
    rw [heq] at hvalue
    simp only [List.mem_append, List.mem_cons, not_or]
    exact ⟨param.name_plain.1, by decide, hvalue⟩

/-- The text is cut at the equals sign behind the name. -/
theorem cut_text (param : Param) :
    param.text.takeWhile (· ≠ '=') = param.nameText ∧
    (param.text.dropWhile (· ≠ '=')).drop 1 = param.valueText.getD [] := by
  have hall : ∀ c ∈ param.nameText, decide (c ≠ '=') = true := by
    intro c hc
    refine decide_eq_true ?_
    rintro rfl
    exact param.name_plain.2 hc
  unfold text
  split
  · rename_i heq
    rw [heq, List.takeWhile_eq_self_iff.mpr hall, List.dropWhile_eq_nil_iff.mpr hall]
    exact ⟨rfl, rfl⟩
  · rename_i value heq
    rw [heq, List.takeWhile_append_of_pos hall, List.dropWhile_append_of_pos hall]
    simp

end Param

/-- The text of a query. -/
def queryText (params : List Param) : List Char := ['&'].intercalate (params.map Param.text)

/-- What a form reads of a query. -/
theorem formParse_queryText (decoder : TextDecoder) (params : List Param) :
    formParse decoder (queryText params) = (params.filter fun param => param.text ≠ []).map fun param =>
      (component decoder param.nameText, component decoder (param.valueText.getD [])) := by
  unfold formParse queryText
  have hcut : ∀ param : Param,
      (component decoder (param.text.takeWhile (· ≠ '=')), component decoder ((param.text.dropWhile (· ≠ '=')).drop 1)) =
        (component decoder param.nameText, component decoder (param.valueText.getD [])) := by
    intro param
    rw [param.cut_text.1, param.cut_text.2]
  by_cases hparams : params = []
  · subst hparams
    rfl
  · rw [List.splitOn_intercalate]
    · rw [List.filter_map, List.map_map]
      exact List.map_congr_left fun param _ => hcut param
    · intro text htext
      obtain ⟨param, -, rfl⟩ := List.mem_map.mp htext
      exact param.ampersand_not_mem_text
    · simpa using hparams

end Percent

end FluxRs.Lib
