import FluxRs.Bpf.Object

/-!
# FluxRs.Bpf.ObjectSafety — the ELF parser stays in the file

One lemma for each function of `object.rs`: it does not panic, and what it returns is in bounds.
-/

namespace FluxRs.Bpf.Elf

open FluxRs.Lib Checked

/-! ### Readers -/

theorem meets_checkedRange (offset size total : ℕ) (label : String) :
    Meets (checkedRange offset size total label) fun _ => offset + size ≤ total := by
  refine Meets.mono (meets_ensure _ _) ?_
  intro _ h
  omega

theorem meets_toUsize (value : ℕ) (label : String) : Meets (toUsize value label) fun n => n = value :=
  Meets.ensure fun _ => meets_ok rfl

section Readers

variable {bytes : List U8} (hb : bytes.length < 2 ^ 64)

include hb

theorem meets_sliceOf (offset size : ℕ) (label : String) :
    Meets (sliceOf bytes offset size label) fun r =>
      offset + size ≤ bytes.length ∧ r = (bytes.take (offset + size)).drop offset := by
  refine Meets.bind (meets_checkedRange offset size bytes.length label) fun _ hr => ?_
  refine Meets.bind (meets_addUsize (by omega)) fun stop hstop => ?_
  subst hstop
  exact Meets.mono (meets_slice (by omega) hr) fun r hr' => ⟨hr, hr'⟩

theorem meets_sliceOf_length (offset size : ℕ) (label : String) :
    Meets (sliceOf bytes offset size label) fun r => r.length = size ∧ r.length < 2 ^ 64 := by
  refine Meets.mono (meets_sliceOf hb offset size label) ?_
  rintro r ⟨hr, rfl⟩
  rw [List.length_drop, List.length_take]
  omega

theorem meets_readLe (k : ℕ) (label : String) (offset : ℕ) :
    Meets (readLe k label bytes offset) fun _ => offset + k ≤ bytes.length := by
  refine Meets.bind (meets_sliceOf hb offset k label) ?_
  rintro word ⟨hr, rfl⟩
  -- The length that the source expects is that of the slice.
  have hlen : ((bytes.take (offset + k)).drop offset).length = k := by
    rw [List.length_drop, List.length_take]
    omega
  rw [if_pos hlen]
  exact meets_ok hr

end Readers

theorem meets_elfString (bytes : List U8) (offset : ℕ) (label : String) :
    Meets (elfString bytes offset label) fun _ => True := by
  refine Meets.bind (meets_okOr _ _) fun tail _ => Meets.bind (meets_okOr _ _) fun stop hstop => ?_
  have hlt : stop < tail.length := (List.findIdx?_eq_some_iff_findIdx_eq.mp hstop).1
  refine Meets.bind (meets_slice (Nat.zero_le stop) hlt.le) fun text _ => ?_
  exact Meets.mono (meets_okOr _ _) fun _ _ => trivial

theorem meets_uniqueSection (sections : List Section) (name : String) :
    Meets (uniqueSection sections name) fun s => s ∈ sections := by
  unfold uniqueSection
  cases hf : sections.filter fun s => s.name == name with
  | nil => exact meets_fail _
  | cons s rest =>
    cases rest with
    | nil => exact meets_ok (List.mem_of_mem_filter (hf ▸ List.mem_singleton_self s))
    | cons s' rest => exact meets_fail _

/-! ### Parsing -/

theorem meets_parseHeader (bytes : List U8) :
    Meets (parseHeader bytes) fun _ => bytes.length ≤ maxObjectBytes := by
  refine Meets.ensure fun _ => Meets.ensure fun hmax => Meets.ensure fun hmin => ?_
  have hb : bytes.length < 2 ^ 64 := lt_of_le_of_lt hmax (by decide)
  have h64 : 64 ≤ bytes.length := hmin
  refine Meets.bind (meets_slice (by omega) (by omega)) fun magic _ => Meets.ensure fun _ => ?_
  refine Meets.bind (meets_index (by omega)) fun ident _ => Meets.ensure fun _ => ?_
  refine Meets.bind (meets_index (by omega)) fun ident _ => Meets.ensure fun _ => ?_
  refine Meets.bind (meets_index (by omega)) fun ident _ => Meets.ensure fun _ => ?_
  refine Meets.bind (meets_readLe hb 2 _ _) fun eType _ => Meets.ensure fun _ => ?_
  refine Meets.bind (meets_readLe hb 2 _ _) fun machine _ => Meets.ensure fun _ => ?_
  refine Meets.bind (meets_readLe hb 4 _ _) fun version _ => Meets.ensure fun _ => ?_
  refine Meets.bind (meets_readLe hb 2 _ _) fun ehsize _ => Meets.ensure fun _ => ?_
  refine Meets.bind (meets_readLe hb 8 _ _) fun word _ => Meets.bind (meets_toUsize word _) fun shoff _ => ?_
  refine Meets.bind (meets_readLe hb 2 _ _) fun shentsize _ => ?_
  refine Meets.bind (meets_readLe hb 2 _ _) fun shnum _ => ?_
  refine Meets.bind (meets_readLe hb 2 _ _) fun shstrndx _ => ?_
  refine Meets.ensure fun _ => Meets.ensure fun _ => Meets.bind (meets_okOr _ _) fun size _ => ?_
  exact Meets.bind (meets_checkedRange shoff size bytes.length _) fun _ _ => meets_ok hmax

/-- A section that has contents has them in the file. -/
def Section.Inside (s : Section) (total : ℕ) : Prop := s.sectionType ≠ shtNobits → s.offset + s.size ≤ total

section Parsing

variable {bytes : List U8} (hb : bytes.length < 2 ^ 64) (h : Header)

include hb

theorem meets_rawSection (i : ℕ) : Meets (rawSection bytes h i) fun r => r.length < 2 ^ 64 := by
  refine Meets.bind (meets_okOr _ _) fun distance _ => Meets.bind (meets_okOr _ _) fun start _ => ?_
  exact Meets.mono (meets_sliceOf_length hb start h.shentsize _) fun r hr => hr.2

theorem meets_sectionPayload {header : List U8} (hheader : header.length < 2 ^ 64) (label : String) :
    Meets (sectionPayload bytes header label) fun _ => True := by
  refine Meets.bind (meets_readLe hheader 8 _ _) fun word _ => Meets.bind (meets_toUsize word _) fun offset _ => ?_
  refine Meets.bind (meets_readLe hheader 8 _ _) fun word _ => Meets.bind (meets_toUsize word _) fun size _ => ?_
  exact Meets.mono (meets_sliceOf hb offset size label) fun _ _ => trivial

theorem meets_sectionNames : Meets (sectionNames bytes h) fun _ => True := by
  refine Meets.bind (meets_rawSection hb h h.shstrndx) fun namesHeader hnames => ?_
  refine Meets.bind (meets_readLe hnames 4 _ _) fun word _ => Meets.ensure fun _ => ?_
  exact meets_sectionPayload hb hnames _

theorem meets_parseSection (names : List U8) (i : ℕ) :
    Meets (parseSection bytes names h i) fun s => s.Inside bytes.length := by
  refine Meets.bind (meets_rawSection hb h i) fun raw hraw => ?_
  refine Meets.bind (meets_readLe hraw 4 _ _) fun word _ => Meets.bind (meets_elfString names word _) fun name _ => ?_
  refine Meets.bind (meets_readLe hraw 4 _ _) fun sectionType _ => ?_
  refine Meets.bind (meets_readLe hraw 8 _ _) fun word _ => Meets.bind (meets_toUsize word _) fun offset _ => ?_
  refine Meets.bind (meets_readLe hraw 8 _ _) fun word _ => Meets.bind (meets_toUsize word _) fun size _ => ?_
  -- The fields that follow are read in the same way, once the range is known or does not matter.
  have hrest : (sectionType ≠ shtNobits → offset + size ≤ bytes.length) →
      Meets (do
        let flags ← readU64 raw 8
        let link ← readU32 raw 40
        let info ← readU32 raw 44
        let entsize ← toUsize (← readU64 raw 56) "section entsize"
        return (⟨name, sectionType, flags, offset, size, link, info, entsize⟩ : Section))
        fun s => s.Inside bytes.length := by
    intro hin
    refine Meets.bind (meets_readLe hraw 8 _ _) fun flags _ => ?_
    refine Meets.bind (meets_readLe hraw 4 _ _) fun link _ => ?_
    refine Meets.bind (meets_readLe hraw 4 _ _) fun info _ => ?_
    refine Meets.bind (meets_readLe hraw 8 _ _) fun word _ => Meets.bind (meets_toUsize word _) fun entsize _ => ?_
    exact meets_ok hin
  by_cases hnobits : sectionType ≠ shtNobits
  · simp only [if_pos hnobits]
    refine Meets.bind (meets_checkedRange offset size bytes.length _) fun _ hr => ?_
    exact hrest fun _ => hr
  · simp only [if_neg hnobits]
    exact hrest fun hne => absurd hne hnobits

end Parsing

theorem meets_parseSymbol {strings symbolBytes : List U8} (hs : symbolBytes.length < 2 ^ 64) {i : ℕ}
    (hi : i < maxSymbols) : Meets (parseSymbol strings symbolBytes i) fun _ => True := by
  have hstart : i * symbolSize < 2 ^ 64 := by
    unfold maxSymbols at hi
    unfold symbolSize
    omega
  refine Meets.bind (meets_mulUsize hstart) fun start _ => ?_
  refine Meets.bind (meets_sliceOf_length hs start symbolSize _) ?_
  rintro raw ⟨hlen, hraw⟩
  refine Meets.bind (meets_readLe hraw 4 _ _) fun word _ => Meets.bind (meets_elfString strings word _) fun name _ => ?_
  refine Meets.bind (meets_index (by rw [hlen]; decide)) fun info _ => ?_
  refine Meets.bind (meets_readLe hraw 2 _ _) fun shndx _ => ?_
  refine Meets.bind (meets_readLe hraw 8 _ _) fun word _ => Meets.bind (meets_toUsize word _) fun value _ => ?_
  refine Meets.bind (meets_readLe hraw 8 _ _) fun word _ => Meets.bind (meets_toUsize word _) fun size _ => ?_
  exact meets_ok trivial

/-- Section `i` is the only symbol table, and its names are in a string table. -/
structure SymtabAt (sections : List Section) (i : ℕ) (symtab strings : Section) : Prop where
  here : sections[i]? = some symtab
  symtabType : symtab.sectionType = shtSymtab
  unique : ∀ j s, sections[j]? = some s → s.sectionType = shtSymtab → j = i
  linked : sections[symtab.link]? = some strings
  stringsType : strings.sectionType = shtStrtab

theorem meets_findSymtab (sections : List Section) :
    Meets (findSymtab sections) fun s => (sections.zipIdx.filter fun s => s.1.sectionType == shtSymtab) = [s] := by
  refine Meets.ensure fun hlen => ?_
  obtain ⟨s, hs⟩ := List.length_eq_one_iff.mp hlen
  refine Meets.mono (meets_index (by omega)) fun a ha => ?_
  rw [hs] at ha ⊢
  obtain rfl := Option.some.inj ha
  rfl

/-- The one section that `findSymtab` selects. -/
theorem symtab_selected {sections : List Section} {symtab : Section} {i : ℕ}
    (h : (sections.zipIdx.filter fun s => s.1.sectionType == shtSymtab) = [(symtab, i)]) :
    sections[i]? = some symtab ∧ symtab.sectionType = shtSymtab ∧
      ∀ j s, sections[j]? = some s → s.sectionType = shtSymtab → j = i := by
  have hmem (s : Section) (j : ℕ) :
      (s, j) = (symtab, i) ↔ sections[j]? = some s ∧ s.sectionType = shtSymtab := by
    rw [← List.mem_singleton, ← h, List.mem_filter, List.mem_zipIdx_iff_getElem?, beq_iff_eq]
  obtain ⟨hhere, htype⟩ := (hmem symtab i).mp rfl
  refine ⟨hhere, htype, ?_⟩
  intro j s hj hs
  exact congrArg Prod.snd ((hmem s j).mpr ⟨hj, hs⟩)

theorem meets_parseSymbols {bytes : List U8} (hb : bytes.length < 2 ^ 64) (sections : List Section)
    (symtab : Section) :
    Meets (parseSymbols bytes sections symtab) fun _ =>
      ∃ strings, sections[symtab.link]? = some strings ∧ strings.sectionType = shtStrtab := by
  refine Meets.ensure fun _ => Meets.ensure fun hshape => ?_
  obtain ⟨-, hcount, hlink⟩ := hshape
  refine Meets.bind (meets_index hlink) fun stringsSection hat => Meets.ensure fun htype => ?_
  refine Meets.bind (meets_sliceOf_length hb stringsSection.offset stringsSection.size _) fun strings _ => ?_
  refine Meets.bind (meets_sliceOf_length hb symtab.offset symtab.size _) fun symbolBytes hs => ?_
  have heach : ∀ i ∈ List.range (symtab.size / symbolSize), Meets (parseSymbol strings symbolBytes i) fun _ => True := by
    intro i hi
    have hlt := List.mem_range.mp hi
    exact meets_parseSymbol hs.2 (lt_of_lt_of_le hlt hcount)
  exact Meets.mono (Meets.mapM heach) fun _ _ => ⟨stringsSection, hat, htype⟩

theorem meets_parseAbi {bytes : List U8} (hb : bytes.length < 2 ^ 64) (sections : List Section) :
    Meets (parseAbi bytes sections) fun _ => True := by
  refine Meets.bind (meets_uniqueSection sections abiSection) fun abi _ => Meets.ensure fun _ => ?_
  refine Meets.bind (meets_sliceOf_length hb abi.offset abi.size _) fun word hword => ?_
  exact Meets.mono (meets_readLe hword.2 4 _ _) fun _ _ => trivial

namespace Object

/-- What a parsed object promises to those who follow its sections and symbols. -/
structure InBounds (o : Object) : Prop where
  small : o.bytes.length ≤ maxObjectBytes
  inside : ∀ s ∈ o.sections, s.Inside o.bytes.length
  symtab : ∃ symtab strings, SymtabAt o.sections o.symtabIndex symtab strings

theorem meets_parse (bytes : List U8) :
    Meets (parse bytes) fun o => o.bytes = bytes ∧ o.InBounds := by
  refine Meets.bind (meets_parseHeader bytes) fun h hmax => ?_
  have hb : bytes.length < 2 ^ 64 := lt_of_le_of_lt hmax (by decide)
  refine Meets.bind (meets_sectionNames hb h) fun names _ => ?_
  refine Meets.bind (Meets.mapM fun i _ => meets_parseSection hb h names i) fun sections hinside => ?_
  refine Meets.bind (meets_findSymtab sections) ?_
  rintro ⟨symtab, symtabIndex⟩ hsel
  obtain ⟨hhere, htype, hunique⟩ := symtab_selected hsel
  refine Meets.bind (meets_parseSymbols hb sections symtab) fun symbols hstrings => ?_
  obtain ⟨strings, hlinked, hstrtab⟩ := hstrings
  refine Meets.bind (meets_parseAbi hb sections) fun abiMagic _ => meets_ok ⟨rfl, ?_⟩
  exact ⟨hmax, hinside, symtab, strings, hhere, htype, hunique, hlinked, hstrtab⟩

/-! ### Programs -/

theorem meets_programSection (o : Object) (expectedName expectedSection : String) :
    Meets (o.programSection expectedName expectedSection) fun _ => True := by
  refine Meets.bind (meets_okOr _ _) ?_
  rintro ⟨sec, i⟩ _
  refine Meets.ensure fun _ => Meets.ensure fun _ => Meets.ensure fun hone => ?_
  refine Meets.bind (meets_index (by rw [hone]; decide)) fun function _ => Meets.ensure fun _ => ?_
  exact meets_ok trivial

theorem meets_programRelocations (o : Object) (expectedName : String) (i : ℕ) :
    Meets (o.programRelocations expectedName i) fun _ => True := by
  refine Meets.ensure fun hone => ?_
  refine Meets.bind (meets_index (by rw [hone]; decide)) fun relocations _ => Meets.ensure fun _ => ?_
  exact meets_ok trivial

/-- Every access of one relocation is behind the check it needs. -/
theorem meets_relocate (o : Object) (resolve : Resolver) (s : Patching) {relocation : List U8}
    (hr : relocation.length < 2 ^ 64) : Meets (o.relocate resolve s relocation) fun _ => True := by
  refine Meets.bind (meets_readLe hr 8 _ _) fun word _ => Meets.bind (meets_toUsize word _) fun offset _ => ?_
  refine Meets.bind (meets_readLe hr 8 _ _) fun info _ => ?_
  refine Meets.ensure fun _ => Meets.ensure fun hindex => ?_
  refine Meets.bind (meets_checkedRange offset _ _ _) fun _ hrange => ?_
  have hrange : offset + 16 ≤ s.instructions.length := hrange
  refine Meets.bind (meets_index hindex.1) fun symbol _ => Meets.ensure fun hsymbol => ?_
  refine Meets.bind (meets_index hsymbol.2.2) fun maps _ => Meets.ensure fun _ => ?_
  refine Meets.bind (meets_okOr _ _) fun fd _ => Meets.ensure fun _ => ?_
  refine Meets.bind (meets_index (by omega)) fun opcode _ => ?_
  refine Meets.bind (meets_slice (by unfold bpfInsnSize; omega) hrange) fun second _ => Meets.ensure fun _ => ?_
  have hwrites : relocate.ensureWrites s.instructions (offset + 16) = .ok () := if_pos hrange
  rw [hwrites]
  exact meets_ok trivial

theorem meets_relocateFrom (o : Object) (resolve : Resolver) {entries : List U8} (he : entries.length < 2 ^ 64)
    (is : List ℕ) (his : ∀ i ∈ is, i * relSize < 2 ^ 64) (s : Patching) :
    Meets (o.relocateFrom resolve entries is s) fun _ => True := by
  induction is generalizing s with
  | nil => exact meets_ok trivial
  | cons i is ih =>
    obtain ⟨hi, his⟩ := List.forall_mem_cons.mp his
    refine Meets.bind (meets_mulUsize hi) fun start _ => ?_
    refine Meets.bind (meets_sliceOf_length he start relSize _) fun relocation hr => ?_
    exact Meets.bind (meets_relocate o resolve s hr.2) fun s' _ => ih his s'

theorem meets_program (o : Object) (hb : o.bytes.length < 2 ^ 64) (expectedName expectedSection : String)
    (resolve : Resolver) : Meets (o.program expectedName expectedSection resolve) fun _ => True := by
  refine Meets.bind (meets_programSection o expectedName expectedSection) ?_
  rintro ⟨sec, i⟩ _
  refine Meets.bind (meets_sliceOf_length hb sec.offset sec.size _) fun instructions _ => ?_
  refine Meets.bind (meets_programRelocations o expectedName i) fun relocations _ => ?_
  refine Meets.bind (meets_sliceOf_length hb relocations.offset relocations.size _) ?_
  rintro entries ⟨-, he⟩
  have his : ∀ i ∈ List.range (entries.length / relSize), i * relSize < 2 ^ 64 := by
    intro i hi
    have hlt := (Nat.lt_div_iff_mul_lt (by decide)).mp (List.mem_range.mp hi)
    omega
  refine Meets.bind (meets_relocateFrom o resolve he _ his _) fun s _ => ?_
  exact Meets.ensure fun _ => meets_ok trivial

/-- **Parsing is total and in bounds**: for every byte string and every name, parsing and taking a program end
in a value or an error; a parsed object keeps every section that has contents inside the file, and its symbol
table is the only one and is linked to a string table. -/
theorem parse_in_bounds (bytes : List U8) :
    Safe (parse bytes) ∧
    ∀ o, parse bytes = .ok o →
      (∀ expectedName expectedSection resolve, Safe (o.program expectedName expectedSection resolve)) ∧
      o.bytes = bytes ∧
      (∀ s ∈ o.sections, s.sectionType ≠ shtNobits → s.offset + s.size ≤ bytes.length) ∧
      ∃ symtab strings, SymtabAt o.sections o.symtabIndex symtab strings := by
  obtain ⟨hsafe, hparse⟩ := meets_parse bytes
  refine ⟨hsafe, ?_⟩
  intro o ho
  obtain ⟨hbytes, hbounds⟩ := hparse o ho
  have hb : o.bytes.length < 2 ^ 64 := lt_of_le_of_lt hbounds.small (by decide)
  refine ⟨fun expectedName expectedSection resolve => ?_, hbytes, ?_, hbounds.symtab⟩
  · exact (meets_program o hb expectedName expectedSection resolve).1
  · rw [← hbytes]
    exact hbounds.inside

end Object

end FluxRs.Bpf.Elf
