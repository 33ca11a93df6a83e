import FluxRs.Daemon.CacheRuns
import FluxRs.Lib.Boundary

/-!
# FluxRs.Daemon.EffectiveFiles — the effective configurations left by an earlier instance

`effective_path`, `is_effective_name` and `clean_stale_effective` of `crates/fluxd/src/layout.rs`.
-/

namespace FluxRs.Daemon

open FluxRs.Lib

/-- The name in `Layout::effective_path`. -/
def effectiveName (generation : ℕ) : FileName := utf8 ("sing-box.".toList ++ decimal generation ++ ".json".toList)

/-- `is_effective_name`; the number has to fit a `u64`. -/
def isEffectiveName (name : FileName) : Bool :=
  match Nodes.fromUtf8 name with
  | none => false
  | some text =>
    match (stripPrefix "sing-box.".toList text.toList).bind (stripSuffix ".json".toList) with
    | none => false
    | some middle =>
      !middle.isEmpty && (utf8 middle).all (fun byte => 0x30 ≤ byte && byte ≤ 0x39) && decide (decimalValue middle < 2 ^ 64)

/-- `clean_stale_effective`: the names that were removed. -/
def cleanStaleEffective (ownUid : ℕ) (calls : SweepCalls) : FileCalls (List FileName) := sweep ownUid calls isEffectiveName

/-! ### Names -/

theorem utf8Char_digit_iff (c : Char) :
    (utf8Char c).all (fun byte => 0x30 ≤ byte && byte ≤ 0x39) = true ↔ c.isDigit = true := by
  constructor
  · intro h
    have hbytes : ∀ byte ∈ utf8Char c, 48 ≤ byte.toNat ∧ byte.toNat ≤ 57 := by
      intro byte hbyte
      have hrange := List.all_eq_true.mp h byte hbyte
      rw [Bool.and_eq_true, decide_eq_true_eq, decide_eq_true_eq] at hrange
      exact hrange
    by_cases hc : c.toNat < 128
    · have hbyte := hbytes (BitVec.ofNat 8 c.toNat) (by rw [utf8Char_ascii hc]; exact List.mem_singleton_self _)
      rw [BitVec.toNat_ofNat] at hbyte
      unfold Char.isDigit
      rw [Bool.and_eq_true, decide_eq_true_eq, decide_eq_true_eq]
      show 48 ≤ c.toNat ∧ c.toNat ≤ 57
      omega
    · -- a longer form has no byte below 128
      obtain ⟨byte, hbyte⟩ := List.exists_mem_of_length_pos (length_utf8Char_pos c)
      have hwide := utf8Char_wide (Nat.not_lt.mp hc) byte hbyte
      have hsmall := (hbytes byte hbyte).2
      omega
  · intro h
    obtain ⟨d, hd, rfl⟩ := digitChar_isDigit h
    have hdigit : ∀ d < 10, (utf8Char (Nat.digitChar d)).all (fun byte => 0x30 ≤ byte && byte ≤ 0x39) = true := by decide
    exact hdigit d hd

/-- The bytes of a text are digits exactly where its characters are. -/
theorem utf8_digits_iff (text : List Char) :
    (utf8 text).all (fun byte => 0x30 ≤ byte && byte ≤ 0x39) = true ↔ ∀ c ∈ text, c.isDigit = true := by
  rw [utf8, List.all_flatMap, List.all_eq_true]
  exact forall₂_congr fun c _ => utf8Char_digit_iff c

/-- The check accepts decimal numbers that fit 64 bits, in any spelling, between its two fixed parts. -/
theorem isEffectiveName_iff (name : FileName) : isEffectiveName name = true ↔
    ∃ middle, IsDecimal middle ∧ decimalValue middle < 2 ^ 64 ∧
      name = utf8 ("sing-box.".toList ++ middle ++ ".json".toList) := by
  constructor
  · intro h
    unfold isEffectiveName at h
    split at h
    · cases h
    · rename_i text htext
      split at h
      · cases h
      · rename_i middle hmiddle
        rw [Bool.and_eq_true, Bool.and_eq_true, Bool.not_eq_true', List.isEmpty_eq_false_iff, decide_eq_true_eq,
          utf8_digits_iff] at h
        obtain ⟨rest, hfront, hback⟩ := Option.bind_eq_some_iff.mp hmiddle
        refine ⟨middle, ⟨h.1.1, h.1.2⟩, h.2, ?_⟩
        rw [Nodes.fromUtf8_eq_some htext, stripPrefix_eq_some_iff.mp hfront, stripSuffix_eq_some_iff.mp hback,
          List.append_assoc]
  · rintro ⟨middle, hdecimal, hbound, rfl⟩
    have hmiddle : (stripPrefix "sing-box.".toList ("sing-box.".toList ++ middle ++ ".json".toList)).bind
        (stripSuffix ".json".toList) = some middle := by
      rw [List.append_assoc, stripPrefix_eq_some_iff.mpr rfl, Option.bind_some, stripSuffix_eq_some_iff.mpr rfl]
    unfold isEffectiveName
    rw [Nodes.fromUtf8_utf8]
    simp only [String.toList_ofList]
    rw [hmiddle]
    simp only [hbound, decide_true, Bool.and_true, (utf8_digits_iff middle).mpr hdecimal.digit]
    rw [Bool.not_eq_true', List.isEmpty_eq_false_iff]
    exact hdecimal.ne_nil

/-- The name that is given to a generation is recognised. -/
theorem isEffectiveName_effectiveName {generation : ℕ} (h : generation < 2 ^ 64) :
    isEffectiveName (effectiveName generation) = true :=
  (isEffectiveName_iff _).mpr
    ⟨decimal generation, isDecimal_decimal generation, by rwa [decimalValue_decimal], rfl⟩

/-! ### The cleanup of a cold start -/

/-- **A cold start removes the effective files of its own and nothing else**: what goes is an own regular file
`sing-box.<decimal digits>.json` whose number fits 64 bits; where the cleanup succeeds over the whole directory, no
such file of its own is left, and so none of any generation. -/
theorem clean_stale_exact (ownUid : ℕ) (volume : Volume FileName) (calls : SweepCalls) :
    let (out, after) := cleanStaleEffective ownUid calls volume
    (∀ name, after.live name = volume.live name ∨
      after.live name = none ∧ (∃ bytes synced, volume.live name = some (.file ownUid bytes synced)) ∧
        ∃ middle, IsDecimal middle ∧ decimalValue middle < 2 ^ 64 ∧
          name = utf8 ("sing-box.".toList ++ middle ++ ".json".toList)) ∧
      ∀ removed entries, out = .ok removed → calls.readDir = .ok entries →
        (∀ name, volume.live name ≠ none → .ok name ∈ entries) →
          (∀ middle, IsDecimal middle → decimalValue middle < 2 ^ 64 → ∀ bytes synced,
            after.live (utf8 ("sing-box.".toList ++ middle ++ ".json".toList)) ≠ some (.file ownUid bytes synced)) ∧
          ∀ generation < 2 ^ 64, ∀ bytes synced,
            after.live (effectiveName generation) ≠ some (.file ownUid bytes synced) := by
  have hexact := @sweep_exact ownUid volume isEffectiveName calls
  unfold cleanStaleEffective
  generalize sweep ownUid calls isEffectiveName volume = result at hexact ⊢
  obtain ⟨out, after⟩ := result
  obtain ⟨hchange, hclean⟩ := hexact
  refine ⟨fun name => (hchange name).imp id ?_, ?_⟩
  · rintro ⟨hnone, hname, hown⟩
    exact ⟨hnone, hown, (isEffectiveName_iff name).mp hname⟩
  · intro removed entries hok hread hlisted
    refine ⟨fun middle hdecimal hbound bytes synced => ?_, fun generation hbound bytes synced => ?_⟩
    · exact hclean removed entries hok hread hlisted _ bytes synced
        ((isEffectiveName_iff _).mpr ⟨middle, hdecimal, hbound, rfl⟩)
    · exact hclean removed entries hok hread hlisted _ bytes synced (isEffectiveName_effectiveName hbound)

end FluxRs.Daemon
