import FluxRs.Lib.Checked
import FluxRs.Lib.Split
import FluxRs.Lib.Words
import FluxRs.Nodes.Sources

/-!
# FluxRs.Release.Modinfo — the version magic of a module file

`crates/flux-core/src/modinfo.rs`: the records of a `.modinfo` section, the section found in an ELF file of any shape,
and the small ELF file that packaging writes.  A sum that overflows panics in the model.
-/

namespace FluxRs.Release

open FluxRs.Lib FluxRs.Lib.Checked
open FluxRs.Nodes (fromUtf8 fromUtf8_utf8)

/-! ### Records -/

/-- `"vermagic="`. -/
def vermagicKey : List Char := "vermagic=".toList

/-- The loop over the records. -/
def vermagicRecords : List (List U8) → Option (List Char)
  | [] => none
  | record :: rest =>
    match fromUtf8 record with
    | none => none
    | some text =>
      match stripPrefix vermagicKey text.toList with
      | some value => if value ≠ [] then some value else vermagicRecords rest
      | none => vermagicRecords rest

def vermagicFromModinfo (modinfo : List U8) : Option (List Char) := vermagicRecords (modinfo.splitOn 0)

/-! ### Sections -/

/-- `get(start..stop)`. -/
def getRange (bytes : List U8) (start stop : ℕ) (error : String) : Checked String (List U8) :=
  okOr (if start ≤ stop ∧ stop ≤ bytes.length then some ((bytes.take stop).drop start) else none) error

/-- `u16_le`, `u32_le` and `u64_le`: a field of `k` bytes. -/
def fieldLe (k : ℕ) (bytes : List U8) (off : ℕ) : Checked String ℕ := do
  let word ← getRange bytes off (off + k) "truncated ELF field"
  return ofLe word

/-- `checked_add`. -/
def checkedSum (a b : ℕ) (error : String) : Checked String ℕ := okOr (if a + b < 2 ^ 64 then some (a + b) else none) error

/-- `checked_mul`. -/
def checkedProduct (a b : ℕ) (error : String) : Checked String ℕ :=
  okOr (if a * b < 2 ^ 64 then some (a * b) else none) error

/-- What the ELF header says of the section headers. -/
structure SectionTable where
  shoff : ℕ
  shentsize : ℕ
  shnum : ℕ
  shstrndx : ℕ

def sectionTable (elf : List U8) : Checked String SectionTable := do
  ensure (64 ≤ elf.length) "not a little-endian ELF64 file"
  let magic ← slice elf 0 4
  let elfClass ← index elf 4
  let data ← index elf 5
  ensure (magic = [0x7f, 0x45, 0x4c, 0x46] ∧ elfClass = 2 ∧ data = 1) "not a little-endian ELF64 file"
  let shoff ← fieldLe 8 elf 0x28
  let shentsize ← fieldLe 2 elf 0x3a
  let shnum ← fieldLe 2 elf 0x3c
  let shstrndx ← fieldLe 2 elf 0x3e
  ensure (¬ (shentsize < 64 ∨ shnum ≤ shstrndx)) "invalid ELF section-header table"
  return ⟨shoff, shentsize, shnum, shstrndx⟩

/-- The header of a section.  Its end is a plain sum. -/
def sectionHeader (elf : List U8) (table : SectionTable) (i : ℕ) : Checked String (List U8) := do
  let distance ← checkedProduct i table.shentsize "section offset overflow"
  let start ← checkedSum table.shoff distance "section offset overflow"
  let stop ← addUsize start table.shentsize
  getRange elf start stop "section header is out of bounds"

/-- The bytes that a section header points to. -/
def sectionPayload (elf header : List U8) (error : String) : Checked String (List U8) := do
  let offset ← fieldLe 8 header 0x18
  let size ← fieldLe 8 header 0x20
  let stop ← checkedSum offset size "overflow"
  getRange elf offset stop error

def sectionName (strings header : List U8) : Checked String String := do
  let nameOffset ← fieldLe 4 header 0
  let tail ← okOr (if nameOffset ≤ strings.length then some (strings.drop nameOffset) else none) "invalid section name"
  okOr (fromUtf8 (tail.takeWhile (· ≠ 0))) "section name is not UTF-8"

/-- The loop over the section headers. -/
def findSection (elf strings : List U8) (table : SectionTable) (wanted : String) : List ℕ → Checked String (List U8)
  | [] => fail "ELF section is missing"
  | i :: rest => do
    let header ← sectionHeader elf table i
    let name ← sectionName strings header
    if name = wanted then sectionPayload elf header "section payload is out of bounds"
    else findSection elf strings table wanted rest

def elf64Section (elf : List U8) (wanted : String) : Checked String (List U8) := do
  let table ← sectionTable elf
  let stringsHeader ← sectionHeader elf table table.shstrndx
  let strings ← sectionPayload elf stringsHeader "section-name string table is out of bounds"
  findSection elf strings table wanted (List.range table.shnum)

def vermagicFromElf (elf : List U8) : Checked String (List Char) := do
  let modinfo ← elf64Section elf ".modinfo"
  okOr (vermagicFromModinfo modinfo) "ELF .modinfo has no vermagic="

/-! ### The file that packaging writes -/

/-- `copy_from_slice` at an offset. -/
def copyAt (off : ℕ) (data bytes : List U8) : List U8 := bytes.take off ++ data ++ bytes.drop (off + data.length)

/-- `b"\0.modinfo\0.shstrtab\0"`. -/
def shstrtab : List U8 :=
  0 :: utf8 ".modinfo".toList ++ 0 :: utf8 ".shstrtab".toList ++ [0]

def shstrtabOff : ℕ := 64 + 3 * 64

def modinfoOff : ℕ := shstrtabOff + shstrtab.length

/-- The copies of `write_section_header` into the slot at an offset. -/
def sectionHeaderCopies (slot name shType offset size : ℕ) : List (ℕ × List U8) :=
  [(slot, leBytes 4 name), (slot + 4, leBytes 4 shType), (slot + 0x18, leBytes 8 offset), (slot + 0x20, leBytes 8 size)]

/-- The copies in front of the records, in their order. -/
def headerCopies (modinfoLen : ℕ) : List (ℕ × List U8) :=
  [(0, [0x7f, 0x45, 0x4c, 0x46]), (4, [2]), (5, [1]), (6, [1]), (16, leBytes 2 1), (18, leBytes 2 183),
    (20, leBytes 4 1), (40, leBytes 8 64), (52, leBytes 2 64), (58, leBytes 2 64), (60, leBytes 2 3), (62, leBytes 2 2)] ++
  sectionHeaderCopies 128 1 1 modinfoOff modinfoLen ++ sectionHeaderCopies 192 10 3 shstrtabOff shstrtab.length ++
  [(shstrtabOff, shstrtab)]

def copyAll (copies : List (ℕ × List U8)) (bytes : List U8) : List U8 :=
  copies.foldl (fun bytes copy => copyAt copy.1 copy.2 bytes) bytes

def relocElfWithModinfo (modinfo : List U8) : List U8 :=
  copyAt modinfoOff modinfo
    (copyAll (headerCopies modinfo.length) (List.replicate (modinfoOff + modinfo.length) 0))

/-! ### The records of a section -/

/-- The value of a record that has one. -/
def vermagicOf (record : List U8) : Option (List Char) :=
  (fromUtf8 record).bind fun text => (stripPrefix vermagicKey text.toList).filter (· ≠ [])

/-- Records up to the first with a value are text. -/
def TextFirst (records : List (List U8)) : Prop :=
  ∀ before good after, records = before ++ good :: after → (∀ record ∈ before, vermagicOf record = none) →
    (vermagicOf good).isSome = true → ∀ record ∈ before, (fromUtf8 record).isSome = true

theorem textFirst_cons {record : List U8} {records : List (List U8)} (hnone : vermagicOf record = none) :
    TextFirst (record :: records) ↔
      ((fromUtf8 record).isSome = true ∨ records.findSome? vermagicOf = none) ∧ TextFirst records := by
  constructor
  · intro h
    refine ⟨?_, ?_⟩
    · by_cases hfind : records.findSome? vermagicOf = none
      · exact Or.inr hfind
      · obtain ⟨value, hvalue⟩ := Option.ne_none_iff_exists'.mp hfind
        obtain ⟨before, good, after, rfl, hgood, hbefore⟩ := List.findSome?_eq_some_iff.mp hvalue
        refine Or.inl (h (record :: before) good after rfl ?_ (by rw [hgood]; rfl) record List.mem_cons_self)
        intro r hr
        obtain rfl | hr := List.mem_cons.mp hr
        · exact hnone
        · exact hbefore r hr
    · rintro before good after rfl hbefore hgood r hr
      refine h (record :: before) good after rfl ?_ hgood r (List.mem_cons_of_mem record hr)
      intro r hr
      obtain rfl | hr := List.mem_cons.mp hr
      · exact hnone
      · exact hbefore r hr
  · rintro ⟨hfirst, h⟩ before good after heq hbefore hgood r hr
    cases before with
    | nil => exact absurd hr List.not_mem_nil
    | cons first before =>
      obtain ⟨rfl, rfl⟩ := List.cons.inj heq
      have hrest : ∀ r ∈ before, vermagicOf r = none := fun r hr => hbefore r (List.mem_cons_of_mem _ hr)
      obtain rfl | hr := List.mem_cons.mp hr
      · refine hfirst.resolve_right fun hfind => ?_
        rw [List.findSome?_eq_none_iff] at hfind
        rw [hfind good (List.mem_append_right _ List.mem_cons_self)] at hgood
        cases hgood
      · exact h before good after rfl hrest hgood r hr

theorem vermagicOf_eq_some_iff {record : List U8} {value : List Char} :
    vermagicOf record = some value ↔
      ∃ text, fromUtf8 record = some text ∧ stripPrefix vermagicKey text.toList = some value ∧ value ≠ [] := by
  unfold vermagicOf
  rw [Option.bind_eq_some_iff]
  refine exists_congr fun text => and_congr_right fun _ => ?_
  rw [Option.filter_eq_some_iff, decide_eq_true_eq]

section Round

variable {record : List U8} {records : List (List U8)} {text : String} {value : List Char}

theorem vermagicRecords_found (h : vermagicOf record = some value) :
    vermagicRecords (record :: records) = some value := by
  obtain ⟨text, htext, hstrip, hne⟩ := vermagicOf_eq_some_iff.mp h
  rw [vermagicRecords, htext]
  simp only
  rw [hstrip]
  exact if_pos hne

theorem vermagicRecords_skip (htext : fromUtf8 record = some text) (h : vermagicOf record = none) :
    vermagicRecords (record :: records) = vermagicRecords records := by
  rw [vermagicRecords, htext]
  simp only
  cases hstrip : stripPrefix vermagicKey text.toList with
  | none => rfl
  | some value =>
    refine if_neg fun hne => ?_
    rw [vermagicOf_eq_some_iff.mpr ⟨text, htext, hstrip, hne⟩] at h
    cases h

theorem vermagicRecords_stop (htext : fromUtf8 record = none) : vermagicRecords (record :: records) = none := by
  rw [vermagicRecords, htext]

end Round

theorem vermagicRecords_none {records : List (List U8)} (h : records.findSome? vermagicOf = none) :
    vermagicRecords records = none := by
  induction records with
  | nil => rfl
  | cons record records ih =>
    have hnone := List.findSome?_eq_none_iff.mp h
    cases htext : fromUtf8 record with
    | none => exact vermagicRecords_stop htext
    | some text =>
      rw [vermagicRecords_skip htext (hnone record List.mem_cons_self)]
      exact ih (List.findSome?_eq_none_iff.mpr fun r hr => hnone r (List.mem_cons_of_mem record hr))

/-- **The loop finds the first value iff nothing before it fails to be text.** -/
theorem vermagicRecords_eq_iff (records : List (List U8)) :
    vermagicRecords records = records.findSome? vermagicOf ↔ TextFirst records := by
  induction records with
  | nil =>
    refine ⟨fun _ before good after h => ?_, fun _ => rfl⟩
    exact absurd h.symm (by simp)
  | cons record records ih =>
    rw [List.findSome?_cons]
    cases hvalue : vermagicOf record with
    | some value =>
      rw [vermagicRecords_found hvalue]
      refine ⟨fun _ => ?_, fun _ => rfl⟩
      rintro before good after heq hbefore - r hr
      cases before with
      | nil => exact absurd hr List.not_mem_nil
      | cons first before =>
        obtain ⟨rfl, -⟩ := List.cons.inj heq
        rw [hbefore record List.mem_cons_self] at hvalue
        cases hvalue
    | none =>
      rw [textFirst_cons hvalue, ← ih]
      cases htext : fromUtf8 record with
      | none =>
        rw [vermagicRecords_stop htext]
        constructor
        · intro h
          exact ⟨Or.inr h.symm, (vermagicRecords_none h.symm).trans h⟩
        · rintro ⟨hsome | hfind, -⟩
          · cases hsome
          · exact hfind.symm
      | some text =>
        rw [vermagicRecords_skip htext hvalue]
        exact ⟨fun h => ⟨Or.inl rfl, h⟩, fun h => h.2⟩

/-! ### No overflow -/

theorem getRange_ok {bytes range : List U8} {start stop : ℕ} {error : String} :
    getRange bytes start stop error = .ok range ↔
      (start ≤ stop ∧ stop ≤ bytes.length) ∧ range = (bytes.take stop).drop start := by
  rw [getRange, okOr_ok]
  constructor
  · intro h
    split at h
    · rename_i hrange
      exact ⟨hrange, (Option.some.inj h).symm⟩
    · cases h
  · rintro ⟨hrange, rfl⟩
    exact if_pos hrange

theorem meets_getRange (bytes : List U8) (start stop : ℕ) (error : String) :
    Meets (getRange bytes start stop error) fun range => range.length = stop - start ∧ stop ≤ bytes.length := by
  refine Meets.mono (meets_okOr _ error) fun range h => ?_
  obtain ⟨hrange, rfl⟩ := getRange_ok.mp (okOr_ok.mpr h : getRange bytes start stop error = .ok range)
  refine ⟨?_, hrange.2⟩
  rw [List.length_drop, List.length_take]
  omega

theorem meets_fieldLe (k : ℕ) (bytes : List U8) (off : ℕ) : Meets (fieldLe k bytes off) fun n => n < 256 ^ k := by
  refine Meets.bind (meets_getRange bytes off (off + k) _) fun word hword => meets_ok ?_
  have hlt := ofLe_lt word
  rwa [hword.1, Nat.add_sub_cancel_left] at hlt

theorem meets_checkedSum (a b : ℕ) (error : String) : Meets (checkedSum a b error) fun n => n = a + b ∧ n < 2 ^ 64 := by
  refine Meets.mono (meets_okOr _ error) fun n h => ?_
  split at h
  · rename_i hlt
    rw [← Option.some.inj h]
    exact ⟨rfl, hlt⟩
  · cases h

theorem meets_checkedProduct (a b : ℕ) (error : String) :
    Meets (checkedProduct a b error) fun n => n = a * b ∧ n < 2 ^ 64 := by
  refine Meets.mono (meets_okOr _ error) fun n h => ?_
  split at h
  · rename_i hlt
    rw [← Option.some.inj h]
    exact ⟨rfl, hlt⟩
  · cases h

/-- What a file says at an offset. -/
def fieldAt (k : ℕ) (elf : List U8) (off : ℕ) : ℕ := ofLe ((elf.take (off + k)).drop off)

theorem fieldLe_ok {k : ℕ} {elf : List U8} {off n : ℕ} :
    fieldLe k elf off = .ok n ↔ off + k ≤ elf.length ∧ n = fieldAt k elf off := by
  rw [fieldLe, bind_ok]
  constructor
  · rintro ⟨word, hword, hn⟩
    obtain ⟨hrange, rfl⟩ := getRange_ok.mp hword
    exact ⟨hrange.2, (Except.ok.inj hn).symm⟩
  · rintro ⟨hlen, rfl⟩
    exact ⟨_, getRange_ok.mpr ⟨⟨by omega, hlen⟩, rfl⟩, rfl⟩

/-- A file whose header passes the checks of the section table. -/
structure HeaderOk (elf : List U8) : Prop where
  length : 64 ≤ elf.length
  magic : elf.take 4 = [0x7f, 0x45, 0x4c, 0x46]
  elfClass : elf[4]? = some 2
  data : elf[5]? = some 1
  shentsize : 64 ≤ fieldAt 2 elf 0x3a
  shstrndx : fieldAt 2 elf 0x3e < fieldAt 2 elf 0x3c

/-- The header of the section names ends within the range of addresses if it starts there. -/
def NamesFit (elf : List U8) : Prop :=
  HeaderOk elf →
    fieldAt 8 elf 0x28 + fieldAt 2 elf 0x3e * fieldAt 2 elf 0x3a < 2 ^ 64 →
      fieldAt 8 elf 0x28 + fieldAt 2 elf 0x3e * fieldAt 2 elf 0x3a + fieldAt 2 elf 0x3a < 2 ^ 64

/-- The section table of a file, as its fields have it. -/
def tableAt (elf : List U8) : SectionTable :=
  ⟨fieldAt 8 elf 0x28, fieldAt 2 elf 0x3a, fieldAt 2 elf 0x3c, fieldAt 2 elf 0x3e⟩

theorem sectionTable_ok {elf : List U8} {table : SectionTable} :
    sectionTable elf = .ok table ↔ HeaderOk elf ∧ table = tableAt elf := by
  unfold sectionTable
  simp only [bind_ok, ensure_ok, slice_ok, index_ok, fieldLe_ok, List.drop_zero]
  constructor
  · rintro ⟨-, hlen, magic, ⟨-, rfl⟩, elfClass, hclass, data, hdata, -, ⟨hmagic, rfl, rfl⟩, shoff, ⟨-, rfl⟩, shentsize,
      ⟨-, rfl⟩, shnum, ⟨-, rfl⟩, shstrndx, ⟨-, rfl⟩, -, htable, hreturn⟩
    rw [not_or, Nat.not_lt, Nat.not_le] at htable
    exact ⟨⟨hlen, hmagic, hclass, hdata, htable.1, htable.2⟩, (Except.ok.inj hreturn).symm⟩
  · rintro ⟨h, rfl⟩
    have hlen := h.length
    have htable : ¬ (fieldAt 2 elf 0x3a < 64 ∨ fieldAt 2 elf 0x3c ≤ fieldAt 2 elf 0x3e) := by
      rw [not_or, Nat.not_lt, Nat.not_le]
      exact ⟨h.shentsize, h.shstrndx⟩
    exact ⟨(), hlen, _, ⟨⟨by omega, by omega⟩, rfl⟩, _, h.elfClass, _, h.data, (), ⟨h.magic, rfl, rfl⟩,
      _, ⟨by omega, rfl⟩, _, ⟨by omega, rfl⟩, _, ⟨by omega, rfl⟩, _, ⟨by omega, rfl⟩, (), htable, rfl⟩

theorem meets_sectionTable (elf : List U8) :
    Meets (sectionTable elf) fun table => HeaderOk elf ∧ table = tableAt elf := by
  refine ⟨?_, fun table => sectionTable_ok.mp⟩
  unfold sectionTable
  refine (Meets.ensure (Q := fun _ => True) fun hlen => ?_).1
  refine Meets.bind (meets_slice (by omega) (by omega)) fun magic _ => ?_
  refine Meets.bind (meets_index (by omega)) fun elfClass _ => ?_
  refine Meets.bind (meets_index (by omega)) fun data _ => ?_
  refine Meets.ensure fun _ => ?_
  refine Meets.bind (meets_fieldLe 8 elf _) fun shoff _ => ?_
  refine Meets.bind (meets_fieldLe 2 elf _) fun shentsize _ => ?_
  refine Meets.bind (meets_fieldLe 2 elf _) fun shnum _ => ?_
  refine Meets.bind (meets_fieldLe 2 elf _) fun shstrndx _ => ?_
  exact Meets.ensure fun _ => meets_ok trivial

/-- A section header that can be read ends within the file. -/
theorem meets_sectionHeader {elf : List U8} {table : SectionTable} {i : ℕ}
    (hfit : table.shoff + i * table.shentsize < 2 ^ 64 →
      table.shoff + i * table.shentsize + table.shentsize < 2 ^ 64) :
    Meets (sectionHeader elf table i) fun _ => table.shoff + i * table.shentsize + table.shentsize ≤ elf.length := by
  refine Meets.bind (meets_checkedProduct _ _ _) ?_
  rintro distance ⟨rfl, -⟩
  refine Meets.bind (meets_checkedSum _ _ _) ?_
  rintro start ⟨rfl, hstart⟩
  refine Meets.bind (meets_addUsize (hfit hstart)) ?_
  rintro stop rfl
  exact Meets.mono (meets_getRange elf _ _ _) fun header h => h.2

theorem safe_sectionPayload (elf header : List U8) (error : String) :
    Meets (sectionPayload elf header error) fun _ => True := by
  refine Meets.bind (meets_fieldLe 8 header _) fun offset _ => ?_
  refine Meets.bind (meets_fieldLe 8 header _) fun size _ => ?_
  refine Meets.bind (meets_checkedSum offset size _) fun stop _ => ?_
  exact Meets.mono (meets_getRange elf offset stop error) fun _ _ => trivial

theorem safe_sectionName (strings header : List U8) : Meets (sectionName strings header) fun _ => True := by
  refine Meets.bind (meets_fieldLe 4 header 0) fun nameOffset _ => ?_
  refine Meets.bind (meets_okOr _ _) fun tail _ => ?_
  exact Meets.mono (meets_okOr _ _) fun _ _ => trivial

theorem safe_findSection {elf strings : List U8} {table : SectionTable} (wanted : String) {indices : List ℕ}
    (hfit : ∀ i ∈ indices, table.shoff + i * table.shentsize + table.shentsize < 2 ^ 64) :
    Meets (findSection elf strings table wanted indices) fun _ => True := by
  induction indices with
  | nil => exact meets_fail _
  | cons i indices ih =>
    refine Meets.bind (meets_sectionHeader fun _ => hfit i List.mem_cons_self) fun header _ => ?_
    refine Meets.bind (safe_sectionName strings header) fun name _ => ?_
    by_cases hname : name = wanted
    · rw [if_pos hname]
      exact safe_sectionPayload elf header _
    · rw [if_neg hname]
      exact ih fun j hj => hfit j (List.mem_cons_of_mem i hj)

theorem fieldAt_lt (k : ℕ) (elf : List U8) (off : ℕ) : fieldAt k elf off < 256 ^ k := by
  refine lt_of_lt_of_le (ofLe_lt _) (Nat.pow_le_pow_right (by omega) ?_)
  rw [List.length_drop, List.length_take]
  omega

/-- **The version magic of a file is read without overflow iff the header of its section names ends within the range of
addresses or does not start there.** -/
theorem safe_vermagicFromElf_iff {elf : List U8} (hlen : elf.length < 2 ^ 63) :
    Safe (vermagicFromElf elf) ↔ NamesFit elf := by
  constructor
  · intro hsafe hheader hstart
    by_contra hover
    refine hsafe ?_
    have hproduct : fieldAt 2 elf 0x3e * fieldAt 2 elf 0x3a < 2 ^ 64 := by omega
    have hpanic : sectionHeader elf (tableAt elf) (tableAt elf).shstrndx = .error .panicked := by
      have hdistance : checkedProduct (tableAt elf).shstrndx (tableAt elf).shentsize "section offset overflow" =
          .ok (fieldAt 2 elf 0x3e * fieldAt 2 elf 0x3a) := okOr_ok.mpr (if_pos hproduct)
      have hsum : checkedSum (tableAt elf).shoff (fieldAt 2 elf 0x3e * fieldAt 2 elf 0x3a) "section offset overflow" =
          .ok (fieldAt 8 elf 0x28 + fieldAt 2 elf 0x3e * fieldAt 2 elf 0x3a) := okOr_ok.mpr (if_pos hstart)
      have hadd : (addUsize (fieldAt 8 elf 0x28 + fieldAt 2 elf 0x3e * fieldAt 2 elf 0x3a) (tableAt elf).shentsize :
          Checked String ℕ) = .error .panicked := if_neg hover
      rw [sectionHeader, hdistance]
      show (checkedSum _ _ _ >>= _) = _
      rw [hsum]
      show (addUsize _ _ >>= _) = _
      rw [hadd]
      rfl
    rw [vermagicFromElf, elf64Section, sectionTable_ok.mpr ⟨hheader, rfl⟩]
    show ((sectionHeader _ _ _ >>= _) >>= _) = _
    rw [hpanic]
    rfl
  · intro hfit
    refine (Meets.bind (P := fun _ => True) (Q := fun _ => True) ?_ fun modinfo _ => ?_).1
    · refine Meets.bind (meets_sectionTable elf) ?_
      rintro table ⟨hheader, rfl⟩
      have hnum := fieldAt_lt 2 elf 0x3c
      have hsize := fieldAt_lt 2 elf 0x3a
      refine Meets.bind (meets_sectionHeader (hfit hheader)) fun stringsHeader hstrings => ?_
      refine Meets.bind (safe_sectionPayload elf stringsHeader _) fun strings _ => ?_
      refine safe_findSection _ fun i hi => ?_
      -- the names end within the file, so that the table starts there
      have hi : i < fieldAt 2 elf 0x3c := List.mem_range.mp hi
      have hbound : i * fieldAt 2 elf 0x3a ≤ 65536 * 65536 := Nat.mul_le_mul (by omega) (by omega)
      have hoff : (tableAt elf).shoff ≤ elf.length := by omega
      show (tableAt elf).shoff + i * fieldAt 2 elf 0x3a + fieldAt 2 elf 0x3a < 2 ^ 64
      omega
    · exact Meets.mono (meets_okOr _ _) fun _ _ => trivial

/-! ### Copies -/

/-- The bytes of a range. -/
def rangeAt (off k : ℕ) (bytes : List U8) : List U8 := (bytes.take (off + k)).drop off

theorem rangeAt_rangeAt {off k start size : ℕ} (h : off + k ≤ size) (bytes : List U8) :
    rangeAt off k (rangeAt start size bytes) = rangeAt (start + off) k bytes := by
  rw [rangeAt, rangeAt, rangeAt, List.take_drop, List.take_take, List.drop_drop, Nat.min_eq_left (by omega),
    Nat.add_assoc]

section Copies

variable {off k n : ℕ} {data bytes : List U8}

theorem length_copyAt (h : off + data.length ≤ bytes.length) : (copyAt off data bytes).length = bytes.length := by
  rw [copyAt, List.length_append, List.length_append, List.length_take, List.length_drop]
  omega

theorem getElem?_rangeAt (off k : ℕ) (bytes : List U8) (i : ℕ) :
    (rangeAt off k bytes)[i]? = if i < k then bytes[off + i]? else none := by
  rw [rangeAt, List.getElem?_drop, List.getElem?_take]
  by_cases hi : i < k
  · rw [if_pos hi, if_pos (by omega)]
  · rw [if_neg hi, if_neg (by omega)]

theorem getElem?_copyAt (h : off + data.length ≤ bytes.length) (i : ℕ) :
    (copyAt off data bytes)[i]? = if off ≤ i ∧ i < off + data.length then data[i - off]? else bytes[i]? := by
  have htake : (bytes.take off).length = off := by
    rw [List.length_take]
    omega
  rw [copyAt, List.append_assoc]
  by_cases hlow : i < off
  · rw [if_neg (by omega), List.getElem?_append_left (by omega), List.getElem?_take, if_pos hlow]
  · rw [List.getElem?_append_right (by omega), htake]
    by_cases hhigh : i < off + data.length
    · rw [if_pos ⟨by omega, hhigh⟩, List.getElem?_append_left (by omega)]
    · rw [if_neg (by omega), List.getElem?_append_right (by omega), List.getElem?_drop]
      congr 1
      omega

/-- A copy is read where it was written. -/
theorem rangeAt_copyAt (h : off + data.length ≤ bytes.length) : rangeAt off data.length (copyAt off data bytes) = data := by
  refine List.ext_getElem? fun i => ?_
  rw [getElem?_rangeAt, getElem?_copyAt h]
  by_cases hi : i < data.length
  · rw [if_pos hi, if_pos ⟨by omega, by omega⟩, Nat.add_sub_cancel_left]
  · rw [if_neg hi, List.getElem?_eq_none (Nat.not_lt.mp hi)]

/-- Everything beside a copy is unchanged. -/
theorem rangeAt_copyAt_of_disjoint (h : off + data.length ≤ bytes.length) {a : ℕ}
    (hdisjoint : a + k ≤ off ∨ off + data.length ≤ a) : rangeAt a k (copyAt off data bytes) = rangeAt a k bytes := by
  refine List.ext_getElem? fun i => ?_
  rw [getElem?_rangeAt, getElem?_rangeAt, getElem?_copyAt h]
  by_cases hi : i < k
  · rw [if_pos hi, if_pos hi, if_neg (by omega)]
  · rw [if_neg hi, if_neg hi]

end Copies

/-- The copies fit a buffer of a length. -/
def CopiesFit (copies : List (ℕ × List U8)) (length : ℕ) : Prop := ∀ copy ∈ copies, copy.1 + copy.2.length ≤ length

section CopyAll

variable {copies : List (ℕ × List U8)} {bytes : List U8}

theorem length_copyAll (hfit : CopiesFit copies bytes.length) : (copyAll copies bytes).length = bytes.length := by
  induction copies generalizing bytes with
  | nil => rfl
  | cons copy copies ih =>
    have hcopy := hfit copy List.mem_cons_self
    have hlen := length_copyAt hcopy
    show (copyAll copies (copyAt copy.1 copy.2 bytes)).length = bytes.length
    rw [ih fun c hc => by rw [hlen]; exact hfit c (List.mem_cons_of_mem copy hc), hlen]

theorem rangeAt_copyAll_of_disjoint (hfit : CopiesFit copies bytes.length) {a k : ℕ}
    (hdisjoint : ∀ copy ∈ copies, a + k ≤ copy.1 ∨ copy.1 + copy.2.length ≤ a) :
    rangeAt a k (copyAll copies bytes) = rangeAt a k bytes := by
  induction copies generalizing bytes with
  | nil => rfl
  | cons copy copies ih =>
    have hcopy := hfit copy List.mem_cons_self
    have hlen := length_copyAt hcopy
    show rangeAt a k (copyAll copies (copyAt copy.1 copy.2 bytes)) = rangeAt a k bytes
    rw [ih (fun c hc => by rw [hlen]; exact hfit c (List.mem_cons_of_mem copy hc))
      fun c hc => hdisjoint c (List.mem_cons_of_mem copy hc)]
    exact rangeAt_copyAt_of_disjoint hcopy (hdisjoint copy List.mem_cons_self)

/-- **What a copy wrote is read back**, if no later copy touches it. -/
theorem rangeAt_copyAll (hfit : CopiesFit copies bytes.length) {i off k : ℕ} {data : List U8}
    (hcopy : copies[i]? = some (off, data)) (hk : data.length = k)
    (hafter : ∀ copy ∈ copies.drop (i + 1), off + k ≤ copy.1 ∨ copy.1 + copy.2.length ≤ off) :
    rangeAt off k (copyAll copies bytes) = data := by
  induction copies generalizing bytes i with
  | nil => cases hcopy
  | cons copy copies ih =>
    have hfirst := hfit copy List.mem_cons_self
    have hlen := length_copyAt hfirst
    have hrest : CopiesFit copies (copyAt copy.1 copy.2 bytes).length := fun c hc => by
      rw [hlen]
      exact hfit c (List.mem_cons_of_mem copy hc)
    show rangeAt off k (copyAll copies (copyAt copy.1 copy.2 bytes)) = data
    cases i with
    | zero =>
      obtain rfl : copy = (off, data) := Option.some.inj hcopy
      rw [rangeAt_copyAll_of_disjoint hrest hafter, ← hk]
      exact rangeAt_copyAt hfirst
    | succ i => exact ih hrest hcopy hafter

end CopyAll

/-! ### The written file -/

/-- Where the copies in front of the records stand. -/
def headerSpans : List (ℕ × ℕ) :=
  [(0, 4), (4, 1), (5, 1), (6, 1), (16, 2), (18, 2), (20, 4), (40, 8), (52, 2), (58, 2), (60, 2), (62, 2), (128, 4),
    (132, 4), (152, 8), (160, 8), (192, 4), (196, 4), (216, 8), (224, 8), (256, 20)]

theorem spans_headerCopies (n : ℕ) : (headerCopies n).map (fun copy => (copy.1, copy.2.length)) = headerSpans := by
  have hnames : shstrtab.length = 20 := by decide
  simp only [headerCopies, sectionHeaderCopies, List.map_append, List.map_cons, List.map_nil, length_leBytes, hnames]
  rfl

theorem modinfoOff_eq : modinfoOff = 276 := by decide

section Written

variable (modinfo : List U8)

theorem copiesFit_header (length : ℕ) (h : modinfoOff ≤ length) : CopiesFit (headerCopies modinfo.length) length := by
  intro copy hcopy
  have hspan : (copy.1, copy.2.length) ∈ headerSpans := by
    rw [← spans_headerCopies modinfo.length]
    exact List.mem_map_of_mem hcopy
  have hall : ∀ span ∈ headerSpans, span.1 + span.2 ≤ 276 := by decide
  have hend := hall _ hspan
  rw [modinfoOff_eq] at h
  exact le_trans hend h

/-- The front of the file before the records are copied. -/
def written : List U8 :=
  copyAll (headerCopies modinfo.length) (List.replicate (modinfoOff + modinfo.length) 0)

theorem length_written : (written modinfo).length = modinfoOff + modinfo.length := by
  rw [written, length_copyAll (copiesFit_header modinfo _ (by rw [List.length_replicate]; omega)),
    List.length_replicate]

theorem rangeAt_relocElf {a k : ℕ} (h : a + k ≤ 276) :
    rangeAt a k (relocElfWithModinfo modinfo) = rangeAt a k (written modinfo) := by
  refine rangeAt_copyAt_of_disjoint ?_ (Or.inl (modinfoOff_eq ▸ h))
  exact (length_written modinfo).ge

theorem length_relocElf : (relocElfWithModinfo modinfo).length = 276 + modinfo.length := by
  show (copyAt modinfoOff modinfo (written modinfo)).length = 276 + modinfo.length
  rw [length_copyAt (length_written modinfo).ge, length_written, modinfoOff_eq]

/-- A copy is found in the file. -/
theorem relocElf_copy {i off k : ℕ} {data : List U8} (hcopy : (headerCopies modinfo.length)[i]? = some (off, data))
    (hk : data.length = k) (hend : off + k ≤ 276)
    (hafter : ∀ span ∈ headerSpans.drop (i + 1), off + k ≤ span.1 ∨ span.1 + span.2 ≤ off) :
    rangeAt off k (relocElfWithModinfo modinfo) = data := by
  rw [rangeAt_relocElf modinfo hend]
  refine rangeAt_copyAll (copiesFit_header modinfo _ (by rw [List.length_replicate]; omega)) hcopy hk fun copy hmem => ?_
  refine hafter (copy.1, copy.2.length) ?_
  rw [← spans_headerCopies modinfo.length, ← List.map_drop]
  exact List.mem_map_of_mem hmem

/-- A range that no copy touches is zero. -/
theorem relocElf_zero {a k : ℕ} (hend : a + k ≤ 276)
    (hdisjoint : ∀ span ∈ headerSpans, a + k ≤ span.1 ∨ span.1 + span.2 ≤ a) :
    rangeAt a k (relocElfWithModinfo modinfo) = List.replicate k 0 := by
  rw [rangeAt_relocElf modinfo hend, written,
    rangeAt_copyAll_of_disjoint (copiesFit_header modinfo _ (by rw [List.length_replicate]; omega)) fun copy hmem => ?_]
  · have hlen := modinfoOff_eq
    rw [rangeAt, List.take_replicate, List.drop_replicate]
    congr 1
    omega
  · refine hdisjoint (copy.1, copy.2.length) ?_
    rw [← spans_headerCopies modinfo.length]
    exact List.mem_map_of_mem hmem

theorem rangeAt_records : rangeAt 276 modinfo.length (relocElfWithModinfo modinfo) = modinfo := by
  have hrange : rangeAt modinfoOff modinfo.length (relocElfWithModinfo modinfo) = modinfo :=
    rangeAt_copyAt (length_written modinfo).ge
  rwa [modinfoOff_eq] at hrange

end Written

/-! ### The written file is read -/

section Fields

variable {elf : List U8} {off k n start : ℕ}

theorem getElem?_of_rangeAt {byte : U8} (h : rangeAt off 1 elf = [byte]) : elf[off]? = some byte := by
  have hbyte := getElem?_rangeAt off 1 elf 0
  rw [h, if_pos Nat.one_pos, Nat.add_zero] at hbyte
  exact hbyte.symm

theorem fieldAt_of_rangeAt (h : rangeAt off k elf = leBytes k n) (hn : n < 256 ^ k) : fieldAt k elf off = n := by
  show ofLe (rangeAt off k elf) = n
  rw [h, ofLe_leBytes, Nat.mod_eq_of_lt hn]

theorem getRange_eq (h : off + k ≤ elf.length) (error : String) :
    getRange elf off (off + k) error = .ok (rangeAt off k elf) := getRange_ok.mpr ⟨⟨by omega, h⟩, rfl⟩

/-- A field of a header is one of the file. -/
theorem fieldLe_rangeAt {size : ℕ} (h : off + k ≤ size) (hsize : start + size ≤ elf.length)
    (hfield : rangeAt (start + off) k elf = leBytes k n) (hn : n < 256 ^ k) :
    fieldLe k (rangeAt start size elf) off = .ok n := by
  refine fieldLe_ok.mpr ⟨?_, ?_⟩
  · rw [rangeAt, List.length_drop, List.length_take]
    omega
  · show n = ofLe (rangeAt off k (rangeAt start size elf))
    rw [rangeAt_rangeAt h, hfield, ofLe_leBytes, Nat.mod_eq_of_lt hn]

theorem sectionPayload_rangeAt {payloadOff size : ℕ} (hstart : start + 64 ≤ elf.length)
    (hoff : rangeAt (start + 0x18) 8 elf = leBytes 8 payloadOff) (hsize : rangeAt (start + 0x20) 8 elf = leBytes 8 size)
    (hend : payloadOff + size ≤ elf.length) (hlen : elf.length < 2 ^ 63) (error : String) :
    sectionPayload elf (rangeAt start 64 elf) error = .ok (rangeAt payloadOff size elf) := by
  have hsum : checkedSum payloadOff size "overflow" = .ok (payloadOff + size) := okOr_ok.mpr (if_pos (by omega))
  unfold sectionPayload
  rw [fieldLe_rangeAt (by omega) hstart hoff (by omega), fieldLe_rangeAt (by omega) hstart hsize (by omega)]
  show (checkedSum payloadOff size "overflow" >>= _) = _
  rw [hsum]
  exact getRange_eq hend error

theorem sectionHeader_eq {table : SectionTable} {i : ℕ}
    (hend : table.shoff + i * table.shentsize + table.shentsize ≤ elf.length) (hlen : elf.length < 2 ^ 63) :
    sectionHeader elf table i = .ok (rangeAt (table.shoff + i * table.shentsize) table.shentsize elf) := by
  have hproduct : checkedProduct i table.shentsize "section offset overflow" = .ok (i * table.shentsize) :=
    okOr_ok.mpr (if_pos (by omega))
  have hsum : checkedSum table.shoff (i * table.shentsize) "section offset overflow" =
      .ok (table.shoff + i * table.shentsize) := okOr_ok.mpr (if_pos (by omega))
  rw [sectionHeader, hproduct]
  show (checkedSum _ _ _ >>= _) = _
  rw [hsum]
  show (addUsize _ _ >>= _) = _
  rw [addUsize_eq (by omega)]
  exact getRange_eq hend _

theorem sectionName_rangeAt {strings : List U8} {name : String} (hstart : start + 64 ≤ elf.length)
    (hfield : rangeAt start 4 elf = leBytes 4 n) (hn : n < 2 ^ 32) (hle : n ≤ strings.length)
    (hname : (strings.drop n).takeWhile (· ≠ 0) = utf8 name.toList) :
    sectionName strings (rangeAt start 64 elf) = .ok name := by
  have hvalue : fieldLe 4 (rangeAt start 64 elf) 0 = .ok n :=
    fieldLe_rangeAt (by omega) hstart (by rw [Nat.add_zero]; exact hfield) (by omega)
  have htail : (okOr (if n ≤ strings.length then some (strings.drop n) else none) "invalid section name" :
      Checked String (List U8)) = .ok (strings.drop n) := okOr_ok.mpr (if_pos hle)
  rw [sectionName, hvalue]
  show (okOr _ _ >>= _) = _
  rw [htail]
  show okOr (fromUtf8 ((strings.drop n).takeWhile (· ≠ 0))) _ = _
  rw [hname, fromUtf8_utf8, String.ofList_toList]
  rfl

theorem findSection_skip {strings header : List U8} {table : SectionTable} {name wanted : String} {i : ℕ} {rest : List ℕ}
    (hheader : sectionHeader elf table i = .ok header) (hname : sectionName strings header = .ok name)
    (hne : name ≠ wanted) : findSection elf strings table wanted (i :: rest) = findSection elf strings table wanted rest := by
  rw [findSection, hheader]
  show (sectionName strings header >>= _) = _
  rw [hname]
  exact if_neg hne

theorem findSection_found {strings header : List U8} {table : SectionTable} {wanted : String} {i : ℕ} {rest : List ℕ}
    (hheader : sectionHeader elf table i = .ok header) (hname : sectionName strings header = .ok wanted) :
    findSection elf strings table wanted (i :: rest) =
      sectionPayload elf header "section payload is out of bounds" := by
  rw [findSection, hheader]
  show (sectionName strings header >>= _) = _
  rw [hname]
  exact if_pos rfl

theorem elf64Section_eq {strings header : List U8} {table : SectionTable} (htable : sectionTable elf = .ok table)
    (hheader : sectionHeader elf table table.shstrndx = .ok header)
    (hstrings : sectionPayload elf header "section-name string table is out of bounds" = .ok strings) (wanted : String) :
    elf64Section elf wanted = findSection elf strings table wanted (List.range table.shnum) := by
  rw [elf64Section, htable]
  show (sectionHeader elf table table.shstrndx >>= _) = _
  rw [hheader]
  show (sectionPayload elf header _ >>= _) = _
  rw [hstrings]
  rfl

end Fields

section RoundTrip

variable {modinfo : List U8} (hlen : 276 + modinfo.length < 2 ^ 63)

/-- The fields of the file's header. -/
theorem fields_relocElf (modinfo : List U8) :
    fieldAt 8 (relocElfWithModinfo modinfo) 0x28 = 64 ∧ fieldAt 2 (relocElfWithModinfo modinfo) 0x3a = 64 ∧
      fieldAt 2 (relocElfWithModinfo modinfo) 0x3c = 3 ∧ fieldAt 2 (relocElfWithModinfo modinfo) 0x3e = 2 := by
  have hshoff : rangeAt 40 8 (relocElfWithModinfo modinfo) = leBytes 8 64 :=
    relocElf_copy modinfo (i := 7) rfl rfl (by decide) (by decide)
  have hshentsize : rangeAt 58 2 (relocElfWithModinfo modinfo) = leBytes 2 64 :=
    relocElf_copy modinfo (i := 9) rfl rfl (by decide) (by decide)
  have hshnum : rangeAt 60 2 (relocElfWithModinfo modinfo) = leBytes 2 3 :=
    relocElf_copy modinfo (i := 10) rfl rfl (by decide) (by decide)
  have hshstrndx : rangeAt 62 2 (relocElfWithModinfo modinfo) = leBytes 2 2 :=
    relocElf_copy modinfo (i := 11) rfl rfl (by decide) (by decide)
  exact ⟨fieldAt_of_rangeAt hshoff (by norm_num), fieldAt_of_rangeAt hshentsize (by norm_num),
    fieldAt_of_rangeAt hshnum (by norm_num), fieldAt_of_rangeAt hshstrndx (by norm_num)⟩

theorem headerOk_relocElf (modinfo : List U8) : HeaderOk (relocElfWithModinfo modinfo) where
  length := by
    rw [length_relocElf]
    omega
  magic := by
    have hmagic : rangeAt 0 4 (relocElfWithModinfo modinfo) = [0x7f, 0x45, 0x4c, 0x46] :=
      relocElf_copy modinfo (i := 0) rfl rfl (by decide) (by decide)
    rwa [rangeAt, List.drop_zero] at hmagic
  elfClass := by
    have hclass : rangeAt 4 1 (relocElfWithModinfo modinfo) = [2] :=
      relocElf_copy modinfo (i := 1) rfl rfl (by decide) (by decide)
    exact getElem?_of_rangeAt hclass
  data := by
    have hdata : rangeAt 5 1 (relocElfWithModinfo modinfo) = [1] :=
      relocElf_copy modinfo (i := 2) rfl rfl (by decide) (by decide)
    exact getElem?_of_rangeAt hdata
  shentsize := by
    rw [(fields_relocElf modinfo).2.1]
  shstrndx := by
    rw [(fields_relocElf modinfo).2.2.2, (fields_relocElf modinfo).2.2.1]
    decide

theorem tableAt_relocElf (modinfo : List U8) : tableAt (relocElfWithModinfo modinfo) = ⟨64, 64, 3, 2⟩ := by
  obtain ⟨hshoff, hshentsize, hshnum, hshstrndx⟩ := fields_relocElf modinfo
  rw [tableAt, hshoff, hshentsize, hshnum, hshstrndx]

include hlen

/-- **The records of the written file are found.** -/
theorem elf64Section_relocElf : elf64Section (relocElfWithModinfo modinfo) ".modinfo" = .ok modinfo := by
  have helf := length_relocElf modinfo
  have hbound : (relocElfWithModinfo modinfo).length < 2 ^ 63 := by rw [helf]; exact hlen
  have hheader : ∀ i < 3, sectionHeader (relocElfWithModinfo modinfo) ⟨64, 64, 3, 2⟩ i =
      .ok (rangeAt (64 + i * 64) 64 (relocElfWithModinfo modinfo)) := fun i hi =>
    sectionHeader_eq (by rw [helf]; show 64 + i * 64 + 64 ≤ _; omega) hbound
  have hnames : rangeAt 256 20 (relocElfWithModinfo modinfo) = shstrtab :=
    relocElf_copy modinfo (i := 20) rfl (by decide) (by decide) (by decide)
  have hnamesOff : rangeAt (192 + 0x18) 8 (relocElfWithModinfo modinfo) = leBytes 8 256 :=
    relocElf_copy modinfo (i := 18) rfl rfl (by decide) (by decide)
  have hnamesSize : rangeAt (192 + 0x20) 8 (relocElfWithModinfo modinfo) = leBytes 8 20 :=
    relocElf_copy modinfo (i := 19) rfl rfl (by decide) (by decide)
  have hrecordsOff : rangeAt (128 + 0x18) 8 (relocElfWithModinfo modinfo) = leBytes 8 276 :=
    relocElf_copy modinfo (i := 14) rfl rfl (by decide) (by decide)
  have hrecordsSize : rangeAt (128 + 0x20) 8 (relocElfWithModinfo modinfo) = leBytes 8 modinfo.length :=
    relocElf_copy modinfo (i := 15) rfl (length_leBytes 8 _) (by decide) (by decide)
  have hrecordsName : rangeAt 128 4 (relocElfWithModinfo modinfo) = leBytes 4 1 :=
    relocElf_copy modinfo (i := 12) rfl rfl (by decide) (by decide)
  have hfirstName : rangeAt 64 4 (relocElfWithModinfo modinfo) = leBytes 4 0 :=
    relocElf_zero modinfo (by decide) (by decide)
  have hstrings := sectionPayload_rangeAt (by omega) hnamesOff hnamesSize (by omega) hbound
    "section-name string table is out of bounds"
  have hrecords := sectionPayload_rangeAt (by omega) hrecordsOff hrecordsSize (by omega) hbound
    "section payload is out of bounds"
  have hfirst : sectionName shstrtab (rangeAt 64 64 (relocElfWithModinfo modinfo)) = .ok "" :=
    sectionName_rangeAt (by omega) hfirstName (by norm_num) (by decide) (by decide)
  have hsecond : sectionName shstrtab (rangeAt 128 64 (relocElfWithModinfo modinfo)) = .ok ".modinfo" :=
    sectionName_rangeAt (by omega) hrecordsName (by norm_num) (by decide) (by decide)
  rw [hnames] at hstrings
  rw [rangeAt_records] at hrecords
  have htable : sectionTable (relocElfWithModinfo modinfo) = .ok ⟨64, 64, 3, 2⟩ :=
    sectionTable_ok.mpr ⟨headerOk_relocElf modinfo, (tableAt_relocElf modinfo).symm⟩
  have hrange : List.range 3 = [0, 1, 2] := by decide
  -- the first header is empty and has no name, the second is the one
  rw [elf64Section_eq htable (hheader 2 (by decide)) hstrings]
  show findSection _ _ _ _ (List.range 3) = _
  rw [hrange, findSection_skip (hheader 0 (by decide)) hfirst (by decide),
    findSection_found (hheader 1 (by decide)) hsecond]
  exact hrecords

end RoundTrip

/-- **The file that packaging writes is always read back; and reading a version magic is total and finds the first
record that has one iff** the header of the section names does not run over the range of addresses and no record in
front of that one fails to be text. -/
theorem vermagic_reading_iff {elf modinfo : List U8} (helf : elf.length < 2 ^ 63)
    (hmodinfo : 276 + modinfo.length < 2 ^ 63) :
    (∀ value, vermagicFromElf (relocElfWithModinfo modinfo) = .ok value ↔ vermagicFromModinfo modinfo = some value) ∧
      (Safe (vermagicFromElf elf) ∧ vermagicFromModinfo modinfo = (modinfo.splitOn 0).findSome? vermagicOf ↔
        NamesFit elf ∧ TextFirst (modinfo.splitOn 0)) := by
  have hread : vermagicFromElf (relocElfWithModinfo modinfo) =
      okOr (vermagicFromModinfo modinfo) "ELF .modinfo has no vermagic=" := by
    rw [vermagicFromElf, elf64Section_relocElf hmodinfo]
    rfl
  refine ⟨fun value => ?_, ?_⟩
  · rw [hread, okOr_ok]
  · rw [safe_vermagicFromElf_iff helf, vermagicFromModinfo, vermagicRecords_eq_iff]

/-- A license, an empty version magic, the version magic, a name, and a record that is no text. -/
def gplModinfo : List U8 :=
  utf8 "license=GPL".toList ++ 0 :: utf8 "vermagic=".toList ++ 0 :: utf8 "vermagic=5.15.0 SMP".toList ++
    0 :: utf8 "name=fluxrs".toList ++ [0, 0xff, 0]

/-- The file that packaging writes for them, its section headers in 96 bytes each. -/
def gplElf : List U8 :=
  let slot (off : ℕ) := rangeAt off 64 (relocElfWithModinfo gplModinfo) ++ List.replicate 32 0
  copyAt 58 (leBytes 2 96) (copyAt 40 (leBytes 8 (276 + gplModinfo.length)) (relocElfWithModinfo gplModinfo)) ++
    slot 64 ++ slot 128 ++ slot 192

theorem vermagic_reading_iff_gpl :
    vermagicFromElf (relocElfWithModinfo gplModinfo) = .ok "5.15.0 SMP".toList ∧
      vermagicFromElf gplElf = .ok "5.15.0 SMP".toList ∧
      Safe (vermagicFromElf gplElf) ∧ vermagicFromModinfo gplModinfo = (gplModinfo.splitOn 0).findSome? vermagicOf := by
  have hvalue : vermagicFromModinfo gplModinfo = some "5.15.0 SMP".toList := by decide +kernel
  have hfit : NamesFit gplElf := by
    intro _ _
    decide +kernel
  have htext : TextFirst (gplModinfo.splitOn 0) := by
    refine (vermagicRecords_eq_iff _).mp ?_
    decide +kernel
  obtain ⟨hback, hiff⟩ := @vermagic_reading_iff gplElf gplModinfo (by decide +kernel) (by decide +kernel)
  exact ⟨(hback _).mpr hvalue, by decide +kernel, hiff.mpr ⟨hfit, htext⟩⟩

/-- A section table just below the end of the range of addresses, and a record that is no text in front of the one
with the version magic. -/
theorem vermagic_reading_fails :
    ¬ Safe (vermagicFromElf ([0x7f, 0x45, 0x4c, 0x46, 2, 1] ++ List.replicate 34 0 ++
      [0xc0, 0xff, 0xff, 0xff, 0xff, 0xff, 0xff, 0xff] ++ List.replicate 10 0 ++ [64, 0, 1, 0, 0, 0])) ∧
    ¬ (vermagicFromModinfo ([0xff, 0] ++ utf8 "vermagic=5.15".toList) =
      (([0xff, 0] ++ utf8 "vermagic=5.15".toList).splitOn 0).findSome? vermagicOf) := by
  refine ⟨?_, ?_⟩
  · intro hsafe
    exact hsafe (by decide +kernel)
  · decide +kernel

end FluxRs.Release
