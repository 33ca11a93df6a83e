import FluxRs.Lib.Boundary
import FluxRs.Nodes.Sources

/-!
# FluxRs.Nodes.Jsonc — comments of a config masked

`strip_jsonc_comments`: one pass over the bytes with a string state, an escape state and whole comments taken at
once.  What it is compared with is a lexing of the text into string literals, comments and other bytes.
-/

namespace FluxRs.Nodes.Jsonc

open FluxRs.Lib

def quote : U8 := 0x22
def backslash : U8 := 0x5C
def slash : U8 := 0x2F
def star : U8 := 0x2A
def space : U8 := 0x20

/-- `matches!(byte, b'\r' | b'\n')`. -/
def isBreak (byte : U8) : Bool := byte == 0x0D || byte == 0x0A

def mask (byte : U8) : U8 := if isBreak byte then byte else space

/-- `windows(2).position(|pair| pair == b"*/")`. -/
def closing : List U8 → Option ℕ
  | [] => none
  | byte :: rest => if byte = star ∧ rest.head? = some slash then some 0 else (closing rest).map (· + 1)

/-- The loop of `strip_jsonc_comments` on the bytes from `offset` on, with what it leaves of them in `out`. -/
def scan (inString escaped : Bool) : List U8 → List U8
  | [] => []
  | byte :: rest =>
    if inString then
      if escaped then byte :: scan true false rest
      else if byte = backslash then byte :: scan true true rest
      else if byte = quote then byte :: scan false escaped rest
      else byte :: scan true escaped rest
    else if byte = quote then byte :: scan true escaped rest
    else if byte = slash then
      if rest.head? = some slash then
        -- the position counts from the slash, which is no break
        let length := rest.findIdx isBreak + 1
        ((byte :: rest).take length).map mask ++ scan false escaped ((byte :: rest).drop length)
      else if rest.head? = some star then
        match closing (rest.drop 1) with
        -- the comment is not closed: the loop ends
        | none => byte :: rest
        | some length =>
          ((byte :: rest).take (2 + length + 2)).map mask ++ scan false escaped ((byte :: rest).drop (2 + length + 2))
      else byte :: scan false escaped rest
    else byte :: scan false escaped rest
  termination_by bytes => bytes.length
  decreasing_by
    all_goals
      simp only [List.length_cons, List.length_drop]
      omega

/-- `none` where the `expect` on `String::from_utf8(out)` panics. -/
def stripJsoncComments (input : List Char) : Option (List Char) :=
  (fromUtf8 (scan false false (utf8 input))).map String.toList

/-! ### The lexical structure of a text -/

/-- What stands between the quotes of a literal: no quote but behind a backslash. -/
inductive Inside : List U8 → Prop
  | nil : Inside []
  | plain {byte : U8} {bytes : List U8} : byte ≠ quote → byte ≠ backslash → Inside bytes → Inside (byte :: bytes)
  | escape {byte : U8} {bytes : List U8} : Inside bytes → Inside (backslash :: byte :: bytes)

/-- A piece of a text.  A literal and a block comment without their end run to the end of the text. -/
inductive Piece
  | literal (inside : List U8)
  | openLiteral (inside : List U8)
  | line (inside : List U8)
  | block (inside : List U8)
  | openBlock (inside : List U8)
  | other (byte : U8)

namespace Piece

def bytes : Piece → List U8
  | literal inside => quote :: inside ++ [quote]
  | openLiteral inside => quote :: inside
  | line inside => slash :: slash :: inside
  | block inside => slash :: star :: inside ++ [star, slash]
  | openBlock inside => slash :: star :: inside
  | other byte => [byte]

/-- A complete comment. -/
def IsComment : Piece → Prop
  | line _ => True
  | block _ => True
  | _ => False

def masked (piece : Piece) : List U8 :=
  match piece with
  | line _ => piece.bytes.map mask
  | block _ => piece.bytes.map mask
  | _ => piece.bytes

/-- A piece in front of `behind`, as the lexical rules have it. -/
def Fits (behind : List U8) : Piece → Prop
  | literal inside => Inside inside
  | openLiteral inside => behind = [] ∧ (Inside inside ∨ ∃ front, Inside front ∧ inside = front ++ [backslash])
  | line inside => (∀ byte ∈ inside, isBreak byte = false) ∧ ∀ byte, behind.head? = some byte → isBreak byte = true
  | block inside => ¬ [star, slash] <:+: inside ++ [star]
  | openBlock inside => behind = [] ∧ ¬ [star, slash] <:+: inside
  | other byte => byte ≠ quote ∧ (byte = slash → behind.head? ≠ some slash ∧ behind.head? ≠ some star)

theorem bytes_ne_nil (piece : Piece) : piece.bytes ≠ [] := by
  cases piece <;> exact List.cons_ne_nil _ _

@[simp] theorem length_masked (piece : Piece) : piece.masked.length = piece.bytes.length := by
  cases piece <;> simp [masked]

end Piece

def spell (pieces : List Piece) : List U8 := pieces.flatMap Piece.bytes

def masks (pieces : List Piece) : List U8 := pieces.flatMap Piece.masked

@[simp] theorem spell_cons (piece : Piece) (pieces : List Piece) : spell (piece :: pieces) = piece.bytes ++ spell pieces :=
  List.flatMap_cons

@[simp] theorem masks_cons (piece : Piece) (pieces : List Piece) : masks (piece :: pieces) = piece.masked ++ masks pieces :=
  List.flatMap_cons

/-- Every piece fits what stands behind it. -/
def Lexes : List Piece → Prop
  | [] => True
  | piece :: pieces => piece.Fits (spell pieces) ∧ Lexes pieces

/-! ### The end of a block comment -/

theorem close_prefix_iff {byte : U8} {rest : List U8} :
    [star, slash] <+: byte :: rest ↔ byte = star ∧ rest.head? = some slash := by
  rw [List.cons_prefix_cons]
  constructor
  · rintro ⟨rfl, more, rfl⟩
    exact ⟨rfl, rfl⟩
  · rintro ⟨rfl, hhead⟩
    obtain ⟨more, rfl⟩ := List.head?_eq_some_iff.mp hhead
    exact ⟨rfl, more, rfl⟩

theorem closing_none_iff {bytes : List U8} : closing bytes = none ↔ ¬ [star, slash] <:+: bytes := by
  induction bytes with
  | nil => simp [closing]
  | cons byte rest ih =>
    rw [closing, List.infix_cons_iff, close_prefix_iff]
    by_cases hend : byte = star ∧ rest.head? = some slash
    · rw [if_pos hend]
      simp [hend]
    · rw [if_neg hend, Option.map_eq_none_iff, ih]
      simp [hend]

theorem closing_append {inside : List U8} (h : ¬ [star, slash] <:+: inside ++ [star]) (rest : List U8) :
    closing (inside ++ star :: slash :: rest) = some inside.length := by
  induction inside with
  | nil => rfl
  | cons byte inside ih =>
    rw [List.cons_append, List.infix_cons_iff, close_prefix_iff, not_or] at h
    have hend : ¬ (byte = star ∧ (inside ++ star :: slash :: rest).head? = some slash) := by
      rintro ⟨hbyte, hhead⟩
      refine h.1 ⟨hbyte, ?_⟩
      cases inside with
      | nil => exact absurd (Option.some.inj hhead) (by decide)
      | cons next inside => exact hhead
    rw [List.cons_append, closing, if_neg hend, ih h.2]
    rfl

theorem closing_some {bytes : List U8} {length : ℕ} (h : closing bytes = some length) :
    ∃ inside rest, bytes = inside ++ star :: slash :: rest ∧ ¬ [star, slash] <:+: inside ++ [star] := by
  induction bytes generalizing length with
  | nil => cases h
  | cons byte bytes ih =>
    rw [closing] at h
    by_cases hend : byte = star ∧ bytes.head? = some slash
    · obtain ⟨rfl, hhead⟩ := hend
      obtain ⟨rest, rfl⟩ := List.head?_eq_some_iff.mp hhead
      exact ⟨[], rest, rfl, by decide⟩
    · rw [if_neg hend] at h
      obtain ⟨shorter, hclosing, -⟩ := Option.map_eq_some_iff.mp h
      obtain ⟨inside, rest, rfl, hinside⟩ := ih hclosing
      refine ⟨byte :: inside, rest, rfl, ?_⟩
      rw [List.cons_append, List.infix_cons_iff, close_prefix_iff, not_or]
      refine ⟨?_, hinside⟩
      rintro ⟨hbyte, hhead⟩
      refine hend ⟨hbyte, ?_⟩
      cases inside with
      | nil => exact absurd hhead (by decide)
      | cons next inside => exact hhead

/-! ### The scanner on one piece -/

theorem scan_nil (inString escaped : Bool) : scan inString escaped [] = [] := by rw [scan]

theorem scan_other {byte : U8} {rest : List U8} (hquote : byte ≠ quote)
    (hslash : byte = slash → rest.head? ≠ some slash ∧ rest.head? ≠ some star) :
    scan false false (byte :: rest) = byte :: scan false false rest := by
  rw [scan, if_neg Bool.false_ne_true, if_neg hquote]
  by_cases hbyte : byte = slash
  · rw [if_pos hbyte, if_neg (hslash hbyte).1, if_neg (hslash hbyte).2]
  · rw [if_neg hbyte]

theorem scan_blank {blank : List U8} (h : ∀ byte ∈ blank, byte = space ∨ isBreak byte = true) (rest : List U8) :
    scan false false (blank ++ rest) = blank ++ scan false false rest := by
  induction blank with
  | nil => rfl
  | cons byte blank ih =>
    have hbyte : byte ≠ quote ∧ byte ≠ slash := by
      obtain rfl | hbreak := h byte List.mem_cons_self
      · decide
      · constructor <;> (rintro rfl; exact absurd hbreak (by decide))
    rw [List.cons_append, scan_other hbyte.1 fun hslash => absurd hslash hbyte.2]
    rw [ih fun b hb => h b (List.mem_cons_of_mem byte hb), List.cons_append]

theorem scan_inside {inside : List U8} (h : Inside inside) (rest : List U8) :
    scan true false (inside ++ rest) = inside ++ scan true false rest := by
  induction h with
  | nil => rfl
  | plain hquote hbackslash _ ih =>
    rw [List.cons_append, scan, if_pos rfl, if_neg Bool.false_ne_true, if_neg hbackslash, if_neg hquote, ih]
    rfl
  | @escape byte bytes _ ih =>
    rw [List.cons_append, scan, if_pos rfl, if_neg Bool.false_ne_true, if_pos rfl, List.cons_append, scan,
      if_pos rfl, if_pos rfl, ih]
    rfl

theorem scan_open (rest : List U8) : scan false false (quote :: rest) = quote :: scan true false rest := by
  rw [scan, if_neg Bool.false_ne_true, if_pos rfl]

theorem scan_shut (rest : List U8) : scan true false (quote :: rest) = quote :: scan false false rest := by
  rw [scan, if_pos rfl, if_neg Bool.false_ne_true, if_neg (by decide), if_pos rfl]

theorem scan_line {inside rest : List U8} (hinside : ∀ byte ∈ inside, isBreak byte = false)
    (hrest : ∀ byte, rest.head? = some byte → isBreak byte = true) :
    scan false false (slash :: slash :: inside ++ rest) =
      (slash :: slash :: inside).map mask ++ scan false false rest := by
  have hlength : (slash :: (inside ++ rest)).findIdx isBreak + 1 = (slash :: slash :: inside).length := by
    have hslash : isBreak slash = false := by decide
    have hin : inside.findIdx isBreak = inside.length :=
      List.findIdx_eq_length.mpr fun byte hbyte => hinside byte hbyte
    have hend : rest.findIdx isBreak = 0 := by
      cases rest with
      | nil => rfl
      | cons byte rest => rw [List.findIdx_cons, hrest byte rfl]; rfl
    rw [List.findIdx_cons, hslash, List.findIdx_append, hin, hend]
    simp
  rw [List.cons_append, List.cons_append, scan, if_neg Bool.false_ne_true, if_neg (by decide), if_pos rfl,
    if_pos List.head?_cons]
  simp only
  rw [hlength, ← List.cons_append, ← List.cons_append, List.take_left, List.drop_left]

theorem scan_star (rest : List U8) :
    scan false false (slash :: star :: rest) =
      match closing rest with
      | none => slash :: star :: rest
      | some length =>
        ((slash :: star :: rest).take (2 + length + 2)).map mask ++
          scan false false ((slash :: star :: rest).drop (2 + length + 2)) := by
  have hslash : ¬ (star :: rest).head? = some slash := by
    rw [List.head?_cons]
    decide
  rw [scan, if_neg Bool.false_ne_true, if_neg (by decide), if_pos rfl, if_neg hslash, if_pos List.head?_cons]
  rfl

theorem scan_block {inside : List U8} (h : ¬ [star, slash] <:+: inside ++ [star]) (rest : List U8) :
    scan false false (slash :: star :: inside ++ [star, slash] ++ rest) =
      (slash :: star :: inside ++ [star, slash]).map mask ++ scan false false rest := by
  have hlength : 2 + inside.length + 2 = (slash :: star :: inside ++ [star, slash]).length := by
    simp only [List.length_append, List.length_cons, List.length_nil]
    omega
  have htext : slash :: star :: inside ++ [star, slash] ++ rest = slash :: star :: (inside ++ star :: slash :: rest) := by
    simp
  rw [htext, scan_star, closing_append h rest]
  simp only
  rw [← htext, hlength, List.take_left, List.drop_left]

theorem scan_openBlock {inside : List U8} (h : ¬ [star, slash] <:+: inside) :
    scan false false (slash :: star :: inside) = slash :: star :: inside := by
  rw [scan_star, closing_none_iff.mpr h]

/-- One piece is masked as a whole, whatever stands behind it. -/
theorem scan_piece (piece : Piece) {behind : List U8} (h : piece.Fits behind) :
    scan false false (piece.bytes ++ behind) = piece.masked ++ scan false false behind := by
  cases piece with
  | literal inside =>
    show scan false false (quote :: inside ++ [quote] ++ behind) = quote :: inside ++ [quote] ++ _
    rw [List.cons_append, List.cons_append, scan_open, List.append_assoc, scan_inside h, List.singleton_append,
      scan_shut]
    simp
  | openLiteral inside =>
    obtain ⟨rfl, hinside⟩ := h
    show scan false false (quote :: inside ++ []) = quote :: inside ++ _
    rw [List.append_nil, scan_open, scan_nil, List.append_nil]
    obtain hinside | ⟨front, hfront, rfl⟩ := hinside
    · have hscan := scan_inside hinside []
      rw [scan_nil, List.append_nil] at hscan
      rw [hscan]
    · have hlast : scan true false [backslash] = [backslash] := by decide +kernel
      rw [scan_inside hfront, hlast]
  | line inside => exact scan_line h.1 h.2
  | block inside => exact scan_block h behind
  | openBlock inside =>
    obtain ⟨rfl, hinside⟩ := h
    show scan false false (slash :: star :: inside ++ []) = slash :: star :: inside ++ _
    rw [List.append_nil, scan_openBlock hinside, scan_nil, List.append_nil]
  | other byte => exact scan_other h.1 h.2

/-- **The scanner masks the complete comments of a lexing and leaves everything else.** -/
theorem scan_spell {pieces : List Piece} (h : Lexes pieces) : scan false false (spell pieces) = masks pieces := by
  induction pieces with
  | nil => exact scan_nil false false
  | cons piece pieces ih => rw [spell_cons, scan_piece piece h.1, ih h.2, masks_cons]

-- the star of an opening is not the star of an ending
example : scan false false [slash, star, slash, star] = [slash, star, slash, star] := by decide +kernel

/-! ### Every text has one lexing -/

theorem inside_cut {inside inside' behind behind' : List U8} (h : Inside inside) (h' : Inside inside')
    (heq : inside ++ quote :: behind = inside' ++ quote :: behind') : inside = inside' := by
  induction h generalizing inside' with
  | nil =>
    cases h' with
    | nil => rfl
    | plain hquote _ _ => exact absurd (List.cons.inj heq).1.symm hquote
    | escape _ => exact absurd (List.cons.inj heq).1 (by decide)
  | plain hquote hbackslash _ ih =>
    cases h' with
    | nil => exact absurd (List.cons.inj heq).1 hquote
    | plain _ _ hrest =>
      obtain ⟨rfl, htail⟩ := List.cons.inj heq
      rw [ih hrest htail]
    | escape _ => exact absurd (List.cons.inj heq).1 hbackslash
  | escape _ ih =>
    cases h' with
    | nil => exact absurd (List.cons.inj heq).1 (by decide)
    | plain _ hbackslash _ => exact absurd (List.cons.inj heq).1.symm hbackslash
    | escape hrest =>
      obtain ⟨rfl, htail⟩ := List.cons.inj (List.cons.inj heq).2
      rw [ih hrest htail]

theorem inside_open {inside inside' dangling behind : List U8} (h : Inside inside) (h' : Inside inside')
    (hdangling : dangling = [] ∨ dangling = [backslash]) :
    inside ++ dangling ≠ inside' ++ quote :: behind := by
  intro heq
  induction h generalizing inside' with
  | nil =>
    obtain rfl | rfl := hdangling
    · exact absurd heq.symm (by simp)
    · cases h' with
      | nil => exact absurd (List.cons.inj heq).1 (by decide)
      | plain _ hbackslash _ => exact absurd (List.cons.inj heq).1.symm hbackslash
      | escape _ => exact absurd (List.cons.inj heq).2.symm (by simp)
  | plain hquote hbackslash _ ih =>
    cases h' with
    | nil => exact absurd (List.cons.inj heq).1 hquote
    | plain _ _ hrest => exact ih hrest (List.cons.inj heq).2
    | escape _ => exact absurd (List.cons.inj heq).1 hbackslash
  | escape _ ih =>
    cases h' with
    | nil => exact absurd (List.cons.inj heq).1 (by decide)
    | plain _ hbackslash _ => exact absurd (List.cons.inj heq).1.symm hbackslash
    | escape hrest => exact ih hrest (List.cons.inj (List.cons.inj heq).2).2

/-! What a text starts with decides its first piece. -/

section First

variable {piece : Piece} {rest behind : List U8}

theorem first_quote (h : piece.Fits behind) (heq : quote :: rest = piece.bytes ++ behind) :
    (∃ inside, piece = .literal inside ∧ Inside inside ∧ rest = inside ++ quote :: behind) ∨
      ∃ inside dangling, piece = .openLiteral (inside ++ dangling) ∧ behind = [] ∧ Inside inside ∧
        (dangling = [] ∨ dangling = [backslash]) ∧ rest = inside ++ dangling := by
  cases piece with
  | literal inside =>
    refine Or.inl ⟨inside, rfl, h, ?_⟩
    rw [(List.cons.inj heq).2]
    simp
  | openLiteral inside =>
    obtain ⟨rfl, hinside⟩ := h
    have hrest := (List.cons.inj heq).2
    rw [List.append_eq, List.append_nil] at hrest
    subst hrest
    obtain hinside | ⟨front, hfront, rfl⟩ := hinside
    · exact Or.inr ⟨rest, [], by rw [List.append_nil], rfl, hinside, Or.inl rfl, (List.append_nil rest).symm⟩
    · exact Or.inr ⟨front, [backslash], rfl, rfl, hfront, Or.inr rfl, rfl⟩
  | line inside => exact absurd (List.cons.inj heq).1 (by decide)
  | block inside => exact absurd (List.cons.inj heq).1 (by decide)
  | openBlock inside => exact absurd (List.cons.inj heq).1 (by decide)
  | other byte => exact absurd (List.cons.inj heq).1.symm h.1

theorem first_slash (h : piece.Fits behind) (heq : slash :: slash :: rest = piece.bytes ++ behind) :
    ∃ inside, piece = .line inside ∧ rest = inside ++ behind := by
  cases piece with
  | literal inside => exact absurd (List.cons.inj heq).1 (by decide)
  | openLiteral inside => exact absurd (List.cons.inj heq).1 (by decide)
  | line inside => exact ⟨inside, rfl, (List.cons.inj (List.cons.inj heq).2).2⟩
  | block inside => exact absurd (List.cons.inj (List.cons.inj heq).2).1 (by decide)
  | openBlock inside => exact absurd (List.cons.inj (List.cons.inj heq).2).1 (by decide)
  | other byte =>
    obtain ⟨rfl, hbehind⟩ := List.cons.inj heq
    exact absurd (congrArg List.head? hbehind.symm) (h.2 rfl).1

theorem first_star (h : piece.Fits behind) (heq : slash :: star :: rest = piece.bytes ++ behind) :
    (∃ inside, piece = .block inside ∧ ¬ [star, slash] <:+: inside ++ [star] ∧ rest = inside ++ star :: slash :: behind) ∨
      piece = .openBlock rest ∧ ¬ [star, slash] <:+: rest := by
  cases piece with
  | literal inside => exact absurd (List.cons.inj heq).1 (by decide)
  | openLiteral inside => exact absurd (List.cons.inj heq).1 (by decide)
  | line inside => exact absurd (List.cons.inj (List.cons.inj heq).2).1 (by decide)
  | block inside =>
    refine Or.inl ⟨inside, rfl, h, ?_⟩
    rw [(List.cons.inj (List.cons.inj heq).2).2]
    simp
  | openBlock inside =>
    obtain ⟨rfl, hinside⟩ := h
    have hrest := (List.cons.inj (List.cons.inj heq).2).2
    rw [List.append_eq, List.append_nil] at hrest
    subst hrest
    exact Or.inr ⟨rfl, hinside⟩
  | other byte =>
    obtain ⟨rfl, hbehind⟩ := List.cons.inj heq
    exact absurd (congrArg List.head? hbehind.symm) (h.2 rfl).2

theorem first_other {byte : U8} (h : piece.Fits behind) (hquote : byte ≠ quote)
    (hslash : byte = slash → rest.head? ≠ some slash ∧ rest.head? ≠ some star)
    (heq : byte :: rest = piece.bytes ++ behind) : piece = .other byte := by
  cases piece with
  | literal inside => exact absurd (List.cons.inj heq).1 hquote
  | openLiteral inside => exact absurd (List.cons.inj heq).1 hquote
  | line inside =>
    obtain ⟨hbyte, rfl⟩ := List.cons.inj heq
    exact absurd rfl (hslash hbyte).1
  | block inside =>
    obtain ⟨hbyte, rfl⟩ := List.cons.inj heq
    exact absurd rfl (hslash hbyte).2
  | openBlock inside =>
    obtain ⟨hbyte, rfl⟩ := List.cons.inj heq
    exact absurd rfl (hslash hbyte).2
  | other other =>
    rw [(List.cons.inj heq).1]

end First

theorem line_cut {inside inside' behind behind' : List U8} (h : (Piece.line inside).Fits behind)
    (h' : (Piece.line inside').Fits behind') (heq : inside ++ behind = inside' ++ behind') : inside = inside' := by
  have htake : ∀ {inside behind : List U8}, (Piece.line inside).Fits behind →
      (inside ++ behind).takeWhile (fun byte => !isBreak byte) = inside := by
    intro inside behind h
    rw [List.takeWhile_append_of_pos fun byte hbyte => by rw [h.1 byte hbyte]; rfl]
    cases behind with
    | nil => exact List.append_nil inside
    | cons byte behind =>
      rw [List.takeWhile_cons, h.2 byte rfl]
      exact List.append_nil inside
  rw [← htake h, ← htake h', heq]

theorem block_cut {inside inside' behind behind' : List U8} (h : ¬ [star, slash] <:+: inside ++ [star])
    (h' : ¬ [star, slash] <:+: inside' ++ [star])
    (heq : inside ++ star :: slash :: behind = inside' ++ star :: slash :: behind') : inside = inside' := by
  have hlength := (closing_append h behind).symm.trans (heq ▸ closing_append h' behind')
  exact (List.append_inj heq (Option.some.inj hlength)).1

theorem block_open {inside behind : List U8} : [star, slash] <:+: inside ++ star :: slash :: behind :=
  ⟨inside, behind, by simp⟩

/-- The first piece of a text is the only one that fits there. -/
theorem fits_unique {piece piece' : Piece} {behind behind' : List U8} (h : piece.Fits behind)
    (h' : piece'.Fits behind') (heq : piece.bytes ++ behind = piece'.bytes ++ behind') : piece = piece' := by
  cases piece with
  | literal inside =>
    have hrest : quote :: (inside ++ quote :: behind) = piece'.bytes ++ behind' := by
      rw [← heq]
      simp [Piece.bytes]
    obtain ⟨inside', rfl, hinside', hin⟩ | ⟨inside', dangling, rfl, -, hinside', hdangling, hin⟩ := first_quote h' hrest
    · rw [inside_cut h hinside' hin]
    · exact absurd hin.symm (inside_open hinside' h hdangling)
  | openLiteral inside =>
    obtain ⟨rfl, hinside⟩ := h
    rw [List.append_nil] at heq
    obtain ⟨front, dangling, hfront, hdangling, rfl⟩ : ∃ front dangling, Inside front ∧
        (dangling = [] ∨ dangling = [backslash]) ∧ inside = front ++ dangling := by
      obtain hinside | ⟨front, hfront, hin⟩ := hinside
      · exact ⟨inside, [], hinside, Or.inl rfl, (List.append_nil inside).symm⟩
      · exact ⟨front, [backslash], hfront, Or.inr rfl, hin⟩
    obtain ⟨inside', rfl, hinside', hin⟩ | ⟨inside', dangling', rfl, -, -, -, hin⟩ := first_quote h' heq
    · exact absurd hin (inside_open hfront hinside' hdangling)
    · rw [hin]
  | line inside =>
    obtain ⟨inside', rfl, hin⟩ := first_slash h' heq
    rw [line_cut h h' hin]
  | block inside =>
    have hrest : slash :: star :: (inside ++ star :: slash :: behind) = piece'.bytes ++ behind' := by
      rw [← heq]
      simp [Piece.bytes]
    obtain ⟨inside', rfl, hinside', hin⟩ | ⟨-, hopen⟩ := first_star h' hrest
    · rw [block_cut h hinside' hin]
    · exact absurd block_open hopen
  | openBlock inside =>
    obtain ⟨rfl, hinside⟩ := h
    rw [List.append_nil] at heq
    obtain ⟨inside', rfl, -, rfl⟩ | ⟨rfl, -⟩ := first_star h' heq
    · exact absurd block_open hinside
    · rfl
  | other byte => exact (first_other h' h.1 h.2 heq).symm

theorem lexes_unique {pieces pieces' : List Piece} (h : Lexes pieces) (h' : Lexes pieces')
    (heq : spell pieces = spell pieces') : pieces = pieces' := by
  induction pieces generalizing pieces' with
  | nil =>
    cases pieces' with
    | nil => rfl
    | cons piece' pieces' =>
      rw [spell_cons] at heq
      exact absurd (List.append_eq_nil_iff.mp heq.symm).1 piece'.bytes_ne_nil
  | cons piece pieces ih =>
    cases pieces' with
    | nil =>
      rw [spell_cons] at heq
      exact absurd (List.append_eq_nil_iff.mp heq).1 piece.bytes_ne_nil
    | cons piece' pieces' =>
      rw [spell_cons, spell_cons] at heq
      obtain rfl := fits_unique h.1 h'.1 heq
      rw [ih h.2 h'.2 (List.append_cancel_left heq)]

/-- A quote starts a literal, closed or not. -/
theorem literal_or_open : ∀ rest : List U8,
    (∃ inside behind, Inside inside ∧ rest = inside ++ quote :: behind) ∨
      Inside rest ∨ ∃ front, Inside front ∧ rest = front ++ [backslash]
  | [] => Or.inr (Or.inl Inside.nil)
  | [byte] => by
    by_cases hquote : byte = quote
    · exact Or.inl ⟨[], [], Inside.nil, by rw [hquote]; rfl⟩
    · by_cases hbackslash : byte = backslash
      · exact Or.inr (Or.inr ⟨[], Inside.nil, by rw [hbackslash]; rfl⟩)
      · exact Or.inr (Or.inl (Inside.plain hquote hbackslash Inside.nil))
  | byte :: next :: rest => by
    by_cases hquote : byte = quote
    · exact Or.inl ⟨[], next :: rest, Inside.nil, by rw [hquote]; rfl⟩
    · by_cases hbackslash : byte = backslash
      · subst hbackslash
        obtain ⟨inside, behind, hinside, rfl⟩ | hrest | ⟨front, hfront, rfl⟩ := literal_or_open rest
        · exact Or.inl ⟨backslash :: next :: inside, behind, Inside.escape hinside, rfl⟩
        · exact Or.inr (Or.inl (Inside.escape hrest))
        · exact Or.inr (Or.inr ⟨backslash :: next :: front, Inside.escape hfront, rfl⟩)
      · obtain ⟨inside, behind, hinside, hrest⟩ | hrest | ⟨front, hfront, hrest⟩ := literal_or_open (next :: rest)
        · exact Or.inl ⟨byte :: inside, behind, Inside.plain hquote hbackslash hinside, by rw [hrest]; rfl⟩
        · exact Or.inr (Or.inl (Inside.plain hquote hbackslash hrest))
        · exact Or.inr (Or.inr ⟨byte :: front, Inside.plain hquote hbackslash hfront, by rw [hrest]; rfl⟩)

/-- Every text that is not empty starts with a piece. -/
theorem exists_piece (byte : U8) (rest : List U8) :
    ∃ (piece : Piece) (behind : List U8), piece.Fits behind ∧ piece.bytes ++ behind = byte :: rest := by
  by_cases hquote : byte = quote
  · subst hquote
    obtain ⟨inside, behind, hinside, rfl⟩ | hrest := literal_or_open rest
    · exact ⟨.literal inside, behind, hinside, by simp [Piece.bytes]⟩
    · exact ⟨.openLiteral rest, [], ⟨rfl, hrest⟩, List.append_nil _⟩
  by_cases hslash : byte = slash ∧ rest.head? = some slash
  · obtain ⟨rfl, hhead⟩ := hslash
    obtain ⟨line, rfl⟩ := List.head?_eq_some_iff.mp hhead
    refine ⟨.line (line.takeWhile fun byte => !isBreak byte), line.dropWhile fun byte => !isBreak byte, ⟨?_, ?_⟩, ?_⟩
    · intro byte hbyte
      simpa using List.mem_takeWhile_imp hbyte
    · intro byte hbyte
      have hnot := List.head?_dropWhile_not (fun byte => !isBreak byte) line
      rw [hbyte] at hnot
      simpa using hnot
    · show slash :: slash :: _ ++ _ = _
      rw [List.cons_append, List.cons_append, List.takeWhile_append_dropWhile]
  by_cases hstar : byte = slash ∧ rest.head? = some star
  · obtain ⟨rfl, hhead⟩ := hstar
    obtain ⟨block, rfl⟩ := List.head?_eq_some_iff.mp hhead
    cases hclosing : closing block with
    | none => exact ⟨.openBlock block, [], ⟨rfl, closing_none_iff.mp hclosing⟩, List.append_nil _⟩
    | some length =>
      obtain ⟨inside, behind, rfl, hinside⟩ := closing_some hclosing
      exact ⟨.block inside, behind, hinside, by simp [Piece.bytes]⟩
  · exact ⟨.other byte, rest, ⟨hquote, fun h => ⟨fun hs => hslash ⟨h, hs⟩, fun hs => hstar ⟨h, hs⟩⟩⟩, rfl⟩

/-- **Every text has a lexing**, one piece after the other. -/
theorem exists_lexing (bytes : List U8) : ∃ pieces, Lexes pieces ∧ spell pieces = bytes := by
  induction hlength : bytes.length using Nat.strong_induction_on generalizing bytes with
  | _ length ih =>
    cases bytes with
    | nil => exact ⟨[], trivial, rfl⟩
    | cons byte rest =>
      obtain ⟨piece, behind, hfits, hbytes⟩ := exists_piece byte rest
      have hpiece := List.length_pos_of_ne_nil piece.bytes_ne_nil
      have hshorter : behind.length < length := by
        rw [← hlength, ← hbytes, List.length_append]
        omega
      obtain ⟨pieces, hpieces, rfl⟩ := ih behind.length hshorter behind rfl
      exact ⟨piece :: pieces, ⟨hfits, hpieces⟩, hbytes⟩

/-! ### What masking keeps -/

theorem mask_blank (byte : U8) : mask byte = space ∨ isBreak (mask byte) = true := by
  unfold mask
  by_cases h : isBreak byte = true
  · rw [if_pos h]
    exact Or.inr h
  · rw [if_neg h]
    exact Or.inl rfl

theorem mask_ascii (byte : U8) : (mask byte).toNat < 128 := by
  obtain h | h := mask_blank byte
  · rw [h]
    decide
  · have hbreak : mask byte = 0x0D ∨ mask byte = 0x0A := by simpa [isBreak] using h
    obtain hbyte | hbyte := hbreak <;> rw [hbyte] <;> decide

/-- A line break stands where it stood. -/
theorem mask_break_iff {byte brk : U8} (hbreak : isBreak brk = true) : mask byte = brk ↔ byte = brk := by
  unfold mask
  by_cases h : isBreak byte = true
  · rw [if_pos h]
  · rw [if_neg h]
    constructor
    · rintro rfl
      exact absurd hbreak (by decide)
    · rintro rfl
      exact absurd hbreak h

theorem map_mask_blank (bytes : List U8) : ∀ byte ∈ bytes.map mask, byte = space ∨ isBreak byte = true := by
  intro byte hbyte
  obtain ⟨old, -, rfl⟩ := List.mem_map.mp hbyte
  exact mask_blank old

namespace Piece

theorem masked_blank {piece : Piece} (h : piece.IsComment) :
    piece.masked ≠ [] ∧ ∀ byte ∈ piece.masked, byte = space ∨ isBreak byte = true := by
  cases piece with
  | line inside => exact ⟨List.cons_ne_nil _ _, map_mask_blank _⟩
  | block inside => exact ⟨List.cons_ne_nil _ _, map_mask_blank _⟩
  | literal _ => exact h.elim
  | openLiteral _ => exact h.elim
  | openBlock _ => exact h.elim
  | other _ => exact h.elim

theorem masked_of_comment {piece : Piece} (h : piece.IsComment) : piece.masked = piece.bytes.map mask := by
  cases piece with
  | line _ => rfl
  | block _ => rfl
  | literal _ => exact h.elim
  | openLiteral _ => exact h.elim
  | openBlock _ => exact h.elim
  | other _ => exact h.elim

theorem masked_of_not_comment {piece : Piece} (h : ¬ piece.IsComment) : piece.masked = piece.bytes := by
  cases piece with
  | line _ => exact absurd trivial h
  | block _ => exact absurd trivial h
  | literal _ => rfl
  | openLiteral _ => rfl
  | openBlock _ => rfl
  | other _ => rfl

/-- Byte by byte, a piece is masked or left. -/
theorem forall₂_masked (piece : Piece) :
    List.Forall₂ (fun old new => new = old ∨ new = mask old) piece.bytes piece.masked := by
  by_cases h : piece.IsComment
  · rw [masked_of_comment h, List.forall₂_map_right_iff]
    exact List.forall₂_same.mpr fun byte _ => Or.inr rfl
  · rw [masked_of_not_comment h]
    exact List.forall₂_same.mpr fun byte _ => Or.inl rfl

end Piece

theorem forall₂_masks (pieces : List Piece) :
    List.Forall₂ (fun old new => new = old ∨ new = mask old) (spell pieces) (masks pieces) := by
  induction pieces with
  | nil => exact List.Forall₂.nil
  | cons piece pieces ih =>
    rw [spell_cons, masks_cons]
    exact List.rel_append piece.forall₂_masked ih

theorem length_masks (pieces : List Piece) : (masks pieces).length = (spell pieces).length :=
  (forall₂_masks pieces).length_eq.symm

theorem masks_break_iff (pieces : List Piece) (i : ℕ) {brk : U8} (hbreak : isBreak brk = true) :
    (masks pieces)[i]? = some brk ↔ (spell pieces)[i]? = some brk := by
  have hbytes := forall₂_masks pieces
  by_cases hi : i < (spell pieces).length
  · have hi' : i < (masks pieces).length := (length_masks pieces).symm ▸ hi
    have hbyte := hbytes.get hi hi'
    rw [List.getElem?_eq_getElem hi, List.getElem?_eq_getElem hi', Option.some_inj, Option.some_inj]
    rw [List.get_eq_getElem, List.get_eq_getElem] at hbyte
    obtain heq | heq := hbyte
    · simp only at heq
      rw [heq]
    · simp only at heq
      rw [heq]
      exact mask_break_iff hbreak
  · have hi' : ¬ i < (masks pieces).length := (length_masks pieces).symm ▸ hi
    rw [List.getElem?_eq_none (Nat.not_lt.mp hi), List.getElem?_eq_none (Nat.not_lt.mp hi')]

/-- Only a comment changes the first byte of a text, and a comment starts with a slash. -/
theorem head_masks {pieces : List Piece} (h : (spell pieces).head? ≠ some slash) :
    (masks pieces).head? = (spell pieces).head? := by
  cases pieces with
  | nil => rfl
  | cons piece pieces =>
    rw [spell_cons] at h
    rw [masks_cons, spell_cons]
    cases piece with
    | line inside => exact absurd rfl h
    | block inside => exact absurd rfl h
    | literal _ => rfl
    | openLiteral _ => rfl
    | openBlock _ => rfl
    | other _ => rfl

/-- The masked text of a piece is left by a second pass. -/
theorem scan_masked {piece : Piece} {pieces : List Piece} (h : piece.Fits (spell pieces)) :
    scan false false (piece.masked ++ masks pieces) = piece.masked ++ scan false false (masks pieces) := by
  have hnil : spell pieces = [] → masks pieces = [] := fun hspell =>
    List.length_eq_zero_iff.mp (by rw [length_masks, hspell]; rfl)
  cases piece with
  | literal inside => exact scan_piece (.literal inside) h
  | openLiteral inside => exact scan_piece (.openLiteral inside) ⟨hnil h.1, h.2⟩
  | line inside => exact scan_blank (map_mask_blank _) _
  | block inside => exact scan_blank (map_mask_blank _) _
  | openBlock inside => exact scan_piece (.openBlock inside) ⟨hnil h.1, h.2⟩
  | other byte =>
    refine scan_piece (.other byte) ⟨h.1, fun hslash => ?_⟩
    rw [head_masks (h.2 hslash).1]
    exact h.2 hslash

theorem scan_masks {pieces : List Piece} (h : Lexes pieces) : scan false false (masks pieces) = masks pieces := by
  induction pieces with
  | nil => exact scan_nil false false
  | cons piece pieces ih => rw [masks_cons, scan_masked h.1, ih h.2]

/-! A comment starts and ends between characters, so that what is masked is a text again. -/

theorem isUtf8_masks {pieces : List Piece} (h : Lexes pieces) (front : List U8)
    (htext : IsUtf8 (front ++ spell pieces)) : IsUtf8 (front ++ masks pieces) := by
  have hslash : slash.toNat < 128 := by decide
  have hmask : ∀ bytes : List U8, IsUtf8 (bytes.map mask) := fun bytes => isUtf8_ascii fun byte hbyte => by
    obtain ⟨old, -, rfl⟩ := List.mem_map.mp hbyte
    exact mask_ascii old
  induction pieces generalizing front with
  | nil => exact htext
  | cons piece pieces ih =>
    by_cases hcomment : piece.IsComment
    · -- the text is cut in front of the comment and behind it
      obtain ⟨hfront, hbehind⟩ : IsUtf8 front ∧ IsUtf8 (spell pieces) := by
        cases piece with
        | line inside =>
          have hcut : IsUtf8 (front ++ slash :: (slash :: inside ++ spell pieces)) := htext
          refine ⟨(hcut.cut hslash).1, ?_⟩
          cases hspell : spell pieces with
          | nil => exact isUtf8_nil
          | cons byte behind =>
            have hbreak : isBreak byte = true := h.1.2 byte (by rw [hspell]; rfl)
            have hascii : byte.toNat < 128 := by
              rw [← (mask_break_iff hbreak).mpr rfl]
              exact mask_ascii byte
            rw [hspell] at hcut
            exact (hcut.cut hslash).2.cut_before hascii
        | block inside =>
          have hcut : IsUtf8 (front ++ slash :: (star :: inside ++ [star, slash] ++ spell pieces)) := htext
          have hend : IsUtf8 ((star :: inside ++ [star]) ++ slash :: spell pieces) := by
            have hbehind := (hcut.cut hslash).2
            simpa using hbehind
          exact ⟨(hcut.cut hslash).1, (hend.cut hslash).2⟩
        | literal _ => exact hcomment.elim
        | openLiteral _ => exact hcomment.elim
        | openBlock _ => exact hcomment.elim
        | other _ => exact hcomment.elim
      rw [masks_cons, Piece.masked_of_comment hcomment]
      exact hfront.append ((hmask _).append (ih h.2 [] hbehind))
    · rw [masks_cons, Piece.masked_of_not_comment hcomment, ← List.append_assoc]
      exact ih h.2 (front ++ piece.bytes) (by rw [List.append_assoc]; exact htext)

/-- **Stripping comments masks exactly the complete comments of the text's one lexing**, never panics, keeps the
length and every line break, and is done after one pass. -/
theorem strip_jsonc_comments_masks (text : List Char) :
    ∃ out, stripJsoncComments text = some out ∧ stripJsoncComments out = some out ∧
      (utf8 out).length = (utf8 text).length ∧
      (∀ (i : ℕ) (brk : U8), isBreak brk = true → ((utf8 out)[i]? = some brk ↔ (utf8 text)[i]? = some brk)) ∧
      ∃ pieces, Lexes pieces ∧ spell pieces = utf8 text ∧
        (∀ pieces', Lexes pieces' → spell pieces' = utf8 text → pieces' = pieces) ∧
        utf8 out = pieces.flatMap Piece.masked ∧
        ∀ piece ∈ pieces,
          (piece.IsComment → piece.masked = piece.bytes.map mask ∧ piece.masked ≠ [] ∧
            ∀ byte ∈ piece.masked, byte = space ∨ isBreak byte = true) ∧
          (¬ piece.IsComment → piece.masked = piece.bytes) := by
  obtain ⟨pieces, hlexes, hspell⟩ := exists_lexing (utf8 text)
  obtain ⟨out, hout⟩ := isUtf8_masks hlexes [] (hspell ▸ isUtf8_utf8 text)
  have hout : utf8 out = masks pieces := hout
  have hstrip : stripJsoncComments text = some out := by
    rw [stripJsoncComments, ← hspell, scan_spell hlexes, ← hout, fromUtf8_utf8, Option.map_some, String.toList_ofList]
  have hagain : stripJsoncComments out = some out := by
    rw [stripJsoncComments, hout, scan_masks hlexes, ← hout, fromUtf8_utf8, Option.map_some, String.toList_ofList]
  refine ⟨out, hstrip, hagain, ?_, ?_, pieces, hlexes, hspell, ?_, hout, ?_⟩
  · rw [hout, length_masks, hspell]
  · intro i brk hbreak
    rw [hout, ← hspell]
    exact masks_break_iff pieces i hbreak
  · intro pieces' hlexes' hspell'
    exact lexes_unique hlexes' hlexes (hspell'.trans hspell.symm)
  · intro piece _
    refine ⟨fun hcomment => ?_, Piece.masked_of_not_comment⟩
    exact ⟨Piece.masked_of_comment hcomment, Piece.masked_blank hcomment⟩

end FluxRs.Nodes.Jsonc
