import FluxRs.Lib.Checked
import FluxRs.Lib.Words

/-!
# FluxRs.Bpf.Object — the strict ELF64 parser of the embedded BPF object

`crates/fluxd/src/bpf/object.rs`.  Offsets, sizes, counts and links come from the file; a slice or an index out
of range, an overflow and a failed `expect` are panics of the model.
-/

namespace FluxRs.Bpf.Elf

open FluxRs.Lib Checked

def elfHeaderSize : ℕ := 64
def sectionHeaderSize : ℕ := 64
def symbolSize : ℕ := 24
def relSize : ℕ := 16
def bpfInsnSize : ℕ := 8
def maxObjectBytes : ℕ := 4 * 1024 * 1024
def maxSections : ℕ := 256
def maxSymbols : ℕ := 4096

def etRel : ℕ := 1
def emBpf : ℕ := 247
def shtProgbits : ℕ := 1
def shtSymtab : ℕ := 2
def shtStrtab : ℕ := 3
def shtNobits : ℕ := 8
def shtRel : ℕ := 9
def shfExecinstr : ℕ := 4
def stbGlobal : ℕ := 1
def sttObject : ℕ := 1
def sttFunc : ℕ := 2
def rBpf6464 : ℕ := 1
def bpfLdImm64 : U8 := 0x18
def bpfPseudoMapFd : U8 := 1
def abiSection : String := "flux_abi"

structure Section where
  name : String
  sectionType : ℕ
  flags : ℕ
  offset : ℕ
  size : ℕ
  link : ℕ
  info : ℕ
  entsize : ℕ
  deriving DecidableEq

structure Symbol where
  name : String
  info : U8
  shndx : ℕ
  value : ℕ
  size : ℕ
  deriving DecidableEq

def Symbol.binding (s : Symbol) : ℕ := (s.info >>> 4).toNat

def Symbol.symbolType (s : Symbol) : ℕ := (s.info &&& 0x0f).toNat

structure Object where
  bytes : List U8
  sections : List Section
  symbols : List Symbol
  symtabIndex : ℕ
  abiMagic : ℕ
  deriving DecidableEq

structure ProgramImage where
  instructions : List U8
  insnCount : ℕ
  deriving DecidableEq

/-! ### Readers -/

def checkedRange (offset size total : ℕ) (label : String) : Checked String Unit :=
  ensure (offset ≤ total ∧ size ≤ total - offset) s!"{label} is out of bounds"

/-- `slice` of the source: the range is checked before it is taken. -/
def sliceOf (bytes : List U8) (offset size : ℕ) (label : String) : Checked String (List U8) := do
  checkedRange offset size bytes.length label
  let stop ← addUsize offset size
  slice bytes offset stop

def toUsize (value : ℕ) (label : String) : Checked String ℕ := do
  ensure (value < 2 ^ 64) s!"{label} does not fit usize"
  return value

/-- `from_le_bytes` of a slice whose length is expected. -/
def readLe (k : ℕ) (label : String) (bytes : List U8) (offset : ℕ) : Checked String ℕ := do
  let word ← sliceOf bytes offset k label
  if word.length = k then return ofLe word else .error .panicked

def readU16 : List U8 → ℕ → Checked String ℕ := readLe 2 "u16"

def readU32 : List U8 → ℕ → Checked String ℕ := readLe 4 "u32"

def readU64 : List U8 → ℕ → Checked String ℕ := readLe 8 "u64"

def fromUtf8 (bytes : List U8) : Option String :=
  String.fromUTF8? ⟨(bytes.map UInt8.ofBitVec).toArray⟩

def elfString (bytes : List U8) (offset : ℕ) (label : String) : Checked String String := do
  let tail ← okOr (if offset ≤ bytes.length then some (bytes.drop offset) else none) s!"{label} offset is out of bounds"
  let stop ← okOr (tail.findIdx? (· == 0)) s!"{label} is not NUL terminated"
  let text ← slice tail 0 stop
  okOr (fromUtf8 text) s!"{label} is not UTF-8"

def uniqueSection (sections : List Section) (name : String) : Checked String Section :=
  match sections.filter fun s => s.name == name with
  | [s] => .ok s
  | found => fail s!"expected one `{name}` section, found {found.length}"

/-! ### Parsing -/

/-- What the ELF header says of the section table. -/
structure Header where
  shoff : ℕ
  shentsize : ℕ
  shnum : ℕ
  shstrndx : ℕ

/-- `Object::parse` up to the section table. -/
def parseHeader (bytes : List U8) : Checked String Header := do
  ensure (bytes ≠ []) "embedded BPF object is empty; rebuild with FLUX_BUILD_BPF=1"
  ensure (bytes.length ≤ maxObjectBytes) s!"embedded BPF object exceeds {maxObjectBytes} bytes"
  ensure (elfHeaderSize ≤ bytes.length) "bad ELF magic or truncated ELF header"
  let magic ← slice bytes 0 4
  ensure (magic = [0x7f, 0x45, 0x4c, 0x46]) "bad ELF magic or truncated ELF header"
  ensure ((← index bytes 4) = 2) "BPF object is not ELFCLASS64"
  ensure ((← index bytes 5) = 1) "BPF object is not ELFDATA2LSB"
  ensure ((← index bytes 6) = 1) "BPF object has an unsupported ELF version"
  ensure ((← readU16 bytes 0x10) = etRel) "BPF object is not ET_REL"
  ensure ((← readU16 bytes 0x12) = emBpf) "ELF e_machine is not EM_BPF"
  ensure ((← readU32 bytes 0x14) = 1) "BPF object has an unsupported ELF header version"
  ensure ((← readU16 bytes 0x34) = elfHeaderSize) "ELF header size is not 64"
  let shoff ← toUsize (← readU64 bytes 0x28) "section table offset"
  let shentsize ← readU16 bytes 0x3a
  let shnum ← readU16 bytes 0x3c
  let shstrndx ← readU16 bytes 0x3e
  ensure (shentsize = sectionHeaderSize ∧ shnum ≠ 0 ∧ shnum ≤ maxSections) "invalid ELF section table shape"
  ensure (shstrndx < shnum) "section-name table index is out of range"
  let size ← okOr (if shnum * shentsize < 2 ^ 64 then some (shnum * shentsize) else none) "section table size overflow"
  checkedRange shoff size bytes.length "section table"
  return ⟨shoff, shentsize, shnum, shstrndx⟩

/-- `raw_section`. -/
def rawSection (bytes : List U8) (h : Header) (i : ℕ) : Checked String (List U8) := do
  let distance ← okOr (if i * h.shentsize < 2 ^ 64 then some (i * h.shentsize) else none) "section offset overflow"
  let start ← okOr (if h.shoff + distance < 2 ^ 64 then some (h.shoff + distance) else none) "section offset overflow"
  sliceOf bytes start h.shentsize "section header"

def sectionPayload (bytes header : List U8) (label : String) : Checked String (List U8) := do
  let offset ← toUsize (← readU64 header 24) "section payload offset"
  let size ← toUsize (← readU64 header 32) "section payload size"
  sliceOf bytes offset size label

def sectionNames (bytes : List U8) (h : Header) : Checked String (List U8) := do
  let namesHeader ← rawSection bytes h h.shstrndx
  ensure ((← readU32 namesHeader 4) = shtStrtab) "section-name table is not SHT_STRTAB"
  sectionPayload bytes namesHeader "section-name table"

def parseSection (bytes names : List U8) (h : Header) (i : ℕ) : Checked String Section := do
  let raw ← rawSection bytes h i
  let name ← elfString names (← readU32 raw 0) "section name"
  let sectionType ← readU32 raw 4
  let offset ← toUsize (← readU64 raw 24) "section offset"
  let size ← toUsize (← readU64 raw 32) "section size"
  if sectionType ≠ shtNobits then checkedRange offset size bytes.length s!"section `{name}`"
  let flags ← readU64 raw 8
  let link ← readU32 raw 40
  let info ← readU32 raw 44
  let entsize ← toUsize (← readU64 raw 56) "section entsize"
  return ⟨name, sectionType, flags, offset, size, link, info, entsize⟩

/-- The one symbol table, with its index. -/
def findSymtab (sections : List Section) : Checked String (Section × ℕ) := do
  let symtabs := sections.zipIdx.filter fun s => s.1.sectionType == shtSymtab
  ensure (symtabs.length = 1) s!"expected one SHT_SYMTAB, found {symtabs.length}"
  index symtabs 0

def parseSymbol (strings symbolBytes : List U8) (i : ℕ) : Checked String Symbol := do
  let start ← mulUsize i symbolSize
  let raw ← sliceOf symbolBytes start symbolSize "symbol entry"
  let name ← elfString strings (← readU32 raw 0) "symbol name"
  let info ← index raw 4
  let shndx ← readU16 raw 6
  let value ← toUsize (← readU64 raw 8) "symbol value"
  let size ← toUsize (← readU64 raw 16) "symbol size"
  return ⟨name, info, shndx, value, size⟩

def parseSymbols (bytes : List U8) (sections : List Section) (symtab : Section) : Checked String (List Symbol) := do
  ensure (symtab.entsize = symbolSize ∧ symtab.size % symbolSize = 0) "symbol table has an invalid entry size"
  let symbolCount := symtab.size / symbolSize
  ensure (symbolCount ≠ 0 ∧ symbolCount ≤ maxSymbols ∧ symtab.link < sections.length)
    "symbol table shape or string-table link is invalid"
  let stringsSection ← index sections symtab.link
  ensure (stringsSection.sectionType = shtStrtab) "symbol names are not in SHT_STRTAB"
  let strings ← sliceOf bytes stringsSection.offset stringsSection.size "symbol strings"
  let symbolBytes ← sliceOf bytes symtab.offset symtab.size "symbol table"
  (List.range symbolCount).mapM (parseSymbol strings symbolBytes)

def parseAbi (bytes : List U8) (sections : List Section) : Checked String ℕ := do
  let abi ← uniqueSection sections abiSection
  ensure (abi.sectionType = shtProgbits ∧ abi.size = 4) "flux_abi section must contain exactly one u32"
  readU32 (← sliceOf bytes abi.offset abi.size abiSection) 0

namespace Object

def parse (bytes : List U8) : Checked String Object := do
  let h ← parseHeader bytes
  let names ← sectionNames bytes h
  let sections ← (List.range h.shnum).mapM (parseSection bytes names h)
  let (symtab, symtabIndex) ← findSymtab sections
  let symbols ← parseSymbols bytes sections symtab
  let abiMagic ← parseAbi bytes sections
  return ⟨bytes, sections, symbols, symtabIndex, abiMagic⟩

/-! ### Programs -/

/-- The section of a program with its index, and the function in it. -/
def programSection (o : Object) (expectedName expectedSection : String) : Checked String (Section × ℕ) := do
  let (sec, i) ← okOr (o.sections.zipIdx.find? fun s => s.1.name == expectedSection)
    s!"program section `{expectedSection}` is missing"
  ensure ((o.sections.filter fun s => s.name == expectedSection).length = 1)
    s!"program section `{expectedSection}` is duplicated"
  ensure (sec.sectionType = shtProgbits ∧ sec.flags &&& shfExecinstr ≠ 0 ∧ sec.size ≠ 0 ∧ sec.size % bpfInsnSize = 0)
    s!"program section `{expectedSection}` has invalid flags/size"
  let functions := o.symbols.filter fun s =>
    s.name == expectedName && s.shndx == i && s.binding == stbGlobal && s.symbolType == sttFunc
  ensure (functions.length = 1) s!"program `{expectedName}` is not the single whole-section function"
  let function ← index functions 0
  ensure (function.value = 0 ∧ function.size = sec.size)
    s!"program `{expectedName}` is not the single whole-section function"
  return (sec, i)

/-- The relocation section that applies to section `i`. -/
def programRelocations (o : Object) (expectedName : String) (i : ℕ) : Checked String Section := do
  let relocations := o.sections.filter fun s => s.sectionType == shtRel && s.info == i
  ensure (relocations.length = 1)
    s!"program `{expectedName}` needs exactly one SHT_REL section, found {relocations.length}"
  let relocations ← index relocations 0
  ensure (relocations.link = o.symtabIndex ∧ relocations.entsize = relSize ∧ relocations.size % relSize = 0)
    s!"relocations for `{expectedName}` have invalid metadata"
  return relocations

/-- What `resolve_map` answers, given the names it has been asked for before. -/
abbrev Resolver := List String → String → Option ℤ

/-- The program as patched so far, the offsets that are taken, and the names that have been resolved. -/
structure Patching where
  instructions : List U8
  patched : List ℕ
  asked : List String
  deriving DecidableEq

/-- `fd.to_le_bytes()`. -/
def fdBytes (fd : ℤ) : List U8 := leBytes 4 (BitVec.ofInt 32 fd).toNat

/-- The three writes of one relocation. -/
def patch (instructions : List U8) (offset : ℕ) (fd : ℤ) : List U8 :=
  let source := instructions.getD (offset + 1) 0 &&& 0x0f ||| bpfPseudoMapFd <<< 4
  let instructions := instructions.set (offset + 1) source
  let instructions := instructions.take (offset + 4) ++ fdBytes fd ++ instructions.drop (offset + 8)
  instructions.take (offset + 12) ++ List.replicate 4 0 ++ instructions.drop (offset + 16)

/-- One relocation entry. -/
def relocate (o : Object) (resolve : Resolver) (s : Patching) (relocation : List U8) : Checked String Patching := do
  let offset ← toUsize (← readU64 relocation 0) "relocation offset"
  let info ← readU64 relocation 8
  let symbolIndex := info / 2 ^ 32
  let relocationType := info % 2 ^ 32
  ensure (relocationType = rBpf6464) s!"unsupported BPF relocation type {relocationType}"
  ensure (symbolIndex < o.symbols.length ∧ offset % bpfInsnSize = 0 ∧ offset ∉ s.patched)
    "relocation symbol/offset is invalid or duplicated"
  checkedRange offset (2 * bpfInsnSize) s.instructions.length "LD_IMM64 relocation"
  let symbol ← index o.symbols symbolIndex
  ensure (symbol.binding = stbGlobal ∧ symbol.symbolType = sttObject ∧ symbol.shndx < o.sections.length)
    s!"relocation `{symbol.name}` is not a map symbol"
  let maps ← index o.sections symbol.shndx
  ensure (maps.name = ".maps") s!"relocation `{symbol.name}` is not a map symbol"
  let fd ← okOr (resolve s.asked symbol.name) s!"map relocation `{symbol.name}` has no FD binding"
  ensure (0 ≤ fd) s!"map relocation `{symbol.name}` has a negative FD"
  let opcode ← index s.instructions offset
  let second ← slice s.instructions (offset + bpfInsnSize) (offset + 2 * bpfInsnSize)
  ensure (opcode = bpfLdImm64 ∧ second = List.replicate 8 0) s!"relocation `{symbol.name}` does not target LD_IMM64"
  -- The writes are inside the range that has been checked.
  ensureWrites s.instructions (offset + 16)
  return ⟨patch s.instructions offset fd, offset :: s.patched, s.asked ++ [symbol.name]⟩
where
  ensureWrites (instructions : List U8) (stop : ℕ) : Checked String Unit :=
    if stop ≤ instructions.length then .ok () else .error .panicked

/-- The loop over the entries. -/
def relocateFrom (o : Object) (resolve : Resolver) (entries : List U8) :
    List ℕ → Patching → Checked String Patching
  | [], s => return s
  | i :: is, s => do
    let start ← mulUsize i relSize
    let relocation ← sliceOf entries start relSize "relocation"
    let s ← relocate o resolve s relocation
    relocateFrom o resolve entries is s

def program (o : Object) (expectedName expectedSection : String) (resolve : Resolver) : Checked String ProgramImage := do
  let (sec, i) ← o.programSection expectedName expectedSection
  let instructions ← sliceOf o.bytes sec.offset sec.size expectedSection
  let relocations ← o.programRelocations expectedName i
  let entries ← sliceOf o.bytes relocations.offset relocations.size "program relocations"
  let s ← relocateFrom o resolve entries (List.range (entries.length / relSize)) ⟨instructions, [], []⟩
  let insnCount := s.instructions.length / bpfInsnSize
  ensure (insnCount < 2 ^ 32) "program instruction count exceeds u32"
  return ⟨s.instructions, insnCount⟩

end Object

end FluxRs.Bpf.Elf
