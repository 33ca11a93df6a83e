import FluxRs.Lib.Percent

/-!
# FluxRs.Lib.Boundary — where the bytes of a text may be cut

A byte below 128 is a character of its own, so that the bytes before it and the bytes behind it are texts too.
-/

namespace FluxRs.Lib

variable {text : List Char} {front back bytes more : List U8} {byte : U8}

def IsUtf8 (bytes : List U8) : Prop := ∃ text, utf8 text = bytes

theorem isUtf8_utf8 (text : List Char) : IsUtf8 (utf8 text) := ⟨text, rfl⟩

theorem isUtf8_nil : IsUtf8 [] := ⟨[], rfl⟩

theorem IsUtf8.append (h : IsUtf8 bytes) (hmore : IsUtf8 more) : IsUtf8 (bytes ++ more) := by
  obtain ⟨text, rfl⟩ := h
  obtain ⟨behind, rfl⟩ := hmore
  exact ⟨text ++ behind, utf8_append text behind⟩

theorem utf8Char_wide {c : Char} (hc : 128 ≤ c.toNat) : ∀ byte ∈ utf8Char c, 128 ≤ byte.toNat := by
  have hwide : ¬ c.val.toNat ≤ 0x7f := Nat.not_le.mpr hc
  -- every byte of a longer form is a remainder below some bound plus a lead of 128 or more
  have hlead : ∀ v bound lead : ℕ, 128 ≤ lead → lead + bound ≤ 256 → 0 < bound →
      128 ≤ (UInt8.ofNat (v % bound + lead)).toBitVec.toNat := by
    intro v bound lead hlead hsum hpos
    have hmod := Nat.mod_lt v hpos
    show 128 ≤ (v % bound + lead) % 256
    omega
  unfold utf8Char String.utf8EncodeChar
  simp only
  rw [if_neg hwide]
  intro byte hmem
  obtain ⟨word, hword, rfl⟩ := List.mem_map.mp hmem
  split at hword
  · simp only [List.mem_cons, List.not_mem_nil, or_false] at hword
    obtain rfl | rfl := hword <;> exact hlead _ _ _ (by omega) (by omega) (by omega)
  · split at hword
    · simp only [List.mem_cons, List.not_mem_nil, or_false] at hword
      obtain rfl | rfl | rfl := hword <;> exact hlead _ _ _ (by omega) (by omega) (by omega)
    · simp only [List.mem_cons, List.not_mem_nil, or_false] at hword
      obtain rfl | rfl | rfl | rfl := hword <;> exact hlead _ _ _ (by omega) (by omega) (by omega)

theorem ascii_of_mem_utf8Char {c : Char} (hmem : byte ∈ utf8Char c) (hbyte : byte.toNat < 128) : utf8Char c = [byte] := by
  by_cases hc : c.toNat < 128
  · rw [utf8Char_ascii hc] at hmem ⊢
    rw [List.mem_singleton.mp hmem]
  · have hwide := utf8Char_wide (Nat.not_lt.mp hc) byte hmem
    omega

theorem isUtf8_ascii (h : ∀ byte ∈ bytes, byte.toNat < 128) : IsUtf8 bytes := by
  induction bytes with
  | nil => exact isUtf8_nil
  | cons byte bytes ih =>
    have hbyte := h byte List.mem_cons_self
    have hchar : (Char.ofNat byte.toNat).toNat = byte.toNat := by
      have hvalid : byte.toNat.isValidChar := Or.inl (by omega)
      rw [Char.ofNat, dif_pos hvalid]
      rfl
    have hfront : IsUtf8 [byte] := by
      refine ⟨[Char.ofNat byte.toNat], ?_⟩
      rw [utf8_cons, utf8_nil, List.append_nil, utf8Char_ascii (by rw [hchar]; exact hbyte), hchar,
        BitVec.ofNat_toNat, BitVec.setWidth_eq]
    exact hfront.append (ih fun b hb => h b (List.mem_cons_of_mem byte hb))

theorem utf8_cut (hbyte : byte.toNat < 128) (h : utf8 text = front ++ byte :: back) :
    ∃ before c behind, text = before ++ c :: behind ∧ utf8 before = front ∧ utf8Char c = [byte] ∧
      utf8 behind = back := by
  induction text generalizing front with
  | nil =>
    rw [utf8_nil] at h
    exact absurd h.symm (by simp)
  | cons c text ih =>
    rw [utf8_cons] at h
    obtain ⟨between, rfl, hrest⟩ | ⟨between, hchar, hrest⟩ := List.append_eq_append_iff.mp h
    · obtain ⟨before, d, behind, rfl, rfl, hd, hback⟩ := ih hrest
      exact ⟨c :: before, d, behind, rfl, utf8_cons c before, hd, hback⟩
    · cases between with
      | nil =>
        rw [List.append_nil] at hchar
        rw [List.nil_append] at hrest
        obtain ⟨before, d, behind, rfl, hbefore, hd, hback⟩ := @ih [] hrest.symm
        refine ⟨c :: before, d, behind, rfl, ?_, hd, hback⟩
        rw [utf8_cons, hbefore, List.append_nil, hchar]
      | cons b between =>
        obtain ⟨rfl, rfl⟩ := List.cons.inj hrest
        -- the byte is one of the character's own, which then has no other
        have hone := ascii_of_mem_utf8Char (hchar ▸ List.mem_append_right front List.mem_cons_self) hbyte
        rw [hone] at hchar
        obtain ⟨rfl, rfl⟩ : front = [] ∧ between = [] := by
          have hlen := congrArg List.length hchar
          simp only [List.length_append, List.length_cons, List.length_nil] at hlen
          exact ⟨List.length_eq_zero_iff.mp (by omega), List.length_eq_zero_iff.mp (by omega)⟩
        exact ⟨[], c, text, rfl, rfl, hone, rfl⟩

theorem IsUtf8.cut (h : IsUtf8 (front ++ byte :: back)) (hbyte : byte.toNat < 128) : IsUtf8 front ∧ IsUtf8 back := by
  obtain ⟨text, htext⟩ := h
  obtain ⟨before, c, behind, -, hfront, -, hback⟩ := utf8_cut hbyte htext
  exact ⟨⟨before, hfront⟩, ⟨behind, hback⟩⟩

/-- **A byte below 128 ends a text and starts another.** -/
theorem IsUtf8.cut_before (h : IsUtf8 (front ++ byte :: back)) (hbyte : byte.toNat < 128) :
    IsUtf8 (byte :: back) := by
  refine @IsUtf8.append [byte] back (isUtf8_ascii ?_) (h.cut hbyte).2
  intro b hb
  rw [List.mem_singleton.mp hb]
  exact hbyte

end FluxRs.Lib
