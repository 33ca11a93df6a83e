import Mathlib.Data.List.Basic

/-!
# FluxRs.Lib.Split — the parts of a text between separators, and its ends
-/

namespace FluxRs.Lib

variable {α : Type} [DecidableEq α] {sep : α} {text front : List α} {parts : List (List α)}

/-- A part holds no separator and nothing that the text does not. -/
theorem part_of_mem_splitOn {part : List α} (h : part ∈ text.splitOn sep) :
    sep ∉ part ∧ ∀ c ∈ part, c ∈ text := by
  induction text generalizing part with
  | nil =>
    rw [List.splitOn_nil, List.mem_singleton] at h
    rw [h]
    exact ⟨List.not_mem_nil, fun c hc => hc⟩
  | cons d text ih =>
    rw [List.splitOn_cons_eq_if_modifyHead] at h
    by_cases hd : (d == sep) = true
    · rw [if_pos hd] at h
      obtain rfl | hmem := List.mem_cons.mp h
      · exact ⟨List.not_mem_nil, fun c hc => absurd hc List.not_mem_nil⟩
      · exact ⟨(ih hmem).1, fun c hc => List.mem_cons_of_mem d ((ih hmem).2 c hc)⟩
    · rw [if_neg hd] at h
      cases hsplit : text.splitOn sep with
      | nil => exact absurd hsplit (List.splitOn_ne_nil sep text)
      | cons first rest =>
        rw [hsplit, List.modifyHead_cons] at h
        rw [hsplit] at ih
        obtain rfl | hmem := List.mem_cons.mp h
        · obtain ⟨hsep, hin⟩ := ih List.mem_cons_self
          refine ⟨?_, ?_⟩
          · intro hmem
            obtain rfl | hmem := List.mem_cons.mp hmem
            · exact hd (beq_self_eq_true _)
            · exact hsep hmem
          · intro c hc
            obtain rfl | hc := List.mem_cons.mp hc
            · exact List.mem_cons_self
            · exact List.mem_cons_of_mem d (hin c hc)
        · obtain ⟨hsep, hin⟩ := ih (List.mem_cons_of_mem first hmem)
          exact ⟨hsep, fun c hc => List.mem_cons_of_mem d (hin c hc)⟩

/-- The first part, and the text behind its separator if there is one. -/
theorem splitOn_eq_cons_iff :
    text.splitOn sep = front :: parts ↔ sep ∉ front ∧
      (text = front ∧ parts = [] ∨ ∃ back, text = front ++ sep :: back ∧ back.splitOn sep = parts) := by
  constructor
  · intro h
    refine ⟨(part_of_mem_splitOn (h ▸ List.mem_cons_self)).1, ?_⟩
    by_cases hmem : sep ∈ text
    · obtain ⟨before, back, rfl, hnot⟩ := List.eq_append_cons_of_mem hmem
      rw [List.splitOn_append_cons_self_of_not_mem hnot] at h
      obtain ⟨rfl, hparts⟩ := List.cons.inj h
      exact Or.inr ⟨back, rfl, hparts⟩
    · rw [List.splitOn_eq_singleton hmem] at h
      obtain ⟨rfl, hparts⟩ := List.cons.inj h
      exact Or.inl ⟨rfl, hparts.symm⟩
  · rintro ⟨hnot, ⟨rfl, rfl⟩ | ⟨back, rfl, rfl⟩⟩
    · exact List.splitOn_eq_singleton hnot
    · exact List.splitOn_append_cons_self_of_not_mem hnot back

/-- A text behind another one ends it or starts with a separator. -/
def Follows (sep : α) (behind : List α) : Prop := behind = [] ∨ behind.head? = some sep

theorem head_splitOn_iff :
    (text.splitOn sep).head? = some front ↔ sep ∉ front ∧ ∃ behind, Follows sep behind ∧ text = front ++ behind := by
  constructor
  · intro h
    obtain ⟨parts, hparts⟩ := List.head?_eq_some_iff.mp h
    obtain ⟨hnot, ⟨rfl, -⟩ | ⟨back, rfl, -⟩⟩ := splitOn_eq_cons_iff.mp hparts
    · exact ⟨hnot, [], Or.inl rfl, (List.append_nil _).symm⟩
    · exact ⟨hnot, sep :: back, Or.inr rfl, rfl⟩
  · rintro ⟨hnot, behind, hbehind, rfl⟩
    obtain rfl | hhead := hbehind
    · rw [List.append_nil, List.splitOn_eq_singleton hnot]
      rfl
    · obtain ⟨back, rfl⟩ := List.head?_eq_some_iff.mp hhead
      rw [List.splitOn_append_cons_self_of_not_mem hnot]
      rfl

/-! ### Ends -/

/-- `strip_prefix`. -/
def stripPrefix (front text : List α) : Option (List α) :=
  if front.isPrefixOf text then some (text.drop front.length) else none

/-- `strip_suffix`. -/
def stripSuffix (back text : List α) : Option (List α) :=
  if back.isSuffixOf text then some (text.take (text.length - back.length)) else none

theorem stripPrefix_eq_some_iff {rest : List α} : stripPrefix front text = some rest ↔ text = front ++ rest := by
  unfold stripPrefix
  constructor
  · intro h
    split at h
    · rename_i hfront
      obtain ⟨more, rfl⟩ := List.isPrefixOf_iff_prefix.mp hfront
      rw [List.drop_left] at h
      rw [Option.some.inj h]
    · cases h
  · rintro rfl
    rw [if_pos (List.isPrefixOf_iff_prefix.mpr (List.prefix_append _ _)), List.drop_left]

theorem stripSuffix_eq_some_iff {back rest : List α} : stripSuffix back text = some rest ↔ text = rest ++ back := by
  unfold stripSuffix
  constructor
  · intro h
    split at h
    · rename_i hsuffix
      obtain ⟨more, rfl⟩ := List.isSuffixOf_iff_suffix.mp hsuffix
      rw [List.length_append, Nat.add_sub_cancel, List.take_left] at h
      rw [Option.some.inj h]
    · cases h
  · rintro rfl
    rw [if_pos (List.isSuffixOf_iff_suffix.mpr (List.suffix_append _ _)), List.length_append, Nat.add_sub_cancel,
      List.take_left]

end FluxRs.Lib
