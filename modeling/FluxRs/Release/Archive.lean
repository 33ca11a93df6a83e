import FluxRs.Lib.Crc
import FluxRs.Lib.Words
import FluxRs.Nodes.Sources
import FluxRs.Release.Dates

/-!
# FluxRs.Release.Archive — archives of stored entries, written twice and read back

The bug report's `ZipWriter` (`crates/fluxd/src/bugreport.rs`) and packaging's `zip::build` (`xtask/src/zip.rs`), a
reader that follows the end record to the directory and the directory to the entries, and the layout that both
writers produce.
-/

namespace FluxRs.Release

open FluxRs.Lib FluxRs.Lib.Crc
open FluxRs.Nodes (fromUtf8 fromUtf8_utf8)

/-! ### The headers that both writers lay out -/

def localFields (time date crc size nameLen : ℕ) : List (ℕ × ℕ) :=
  [(4, 0x04034b50), (2, 20), (2, 0), (2, 0), (2, time), (2, date), (4, crc), (4, size), (4, size), (2, nameLen), (2, 0)]

def centralFields (madeBy time date crc size nameLen external offset : ℕ) : List (ℕ × ℕ) :=
  [(4, 0x02014b50), (2, madeBy), (2, 20), (2, 0), (2, 0), (2, time), (2, date), (4, crc), (4, size), (4, size),
    (2, nameLen), (2, 0), (2, 0), (2, 0), (2, 0), (4, external), (4, offset)]

def endFields (count size offset commentLen : ℕ) : List (ℕ × ℕ) :=
  [(4, 0x06054b50), (2, 0), (2, 0), (2, count), (2, count), (4, size), (4, offset), (2, commentLen)]

/-- `as u32`. -/
def asU32 (n : ℕ) : ℕ := n % 2 ^ 32

/-- The polynomial of the checksum, lowest bit first. -/
def crcPolynomial : U32 := 0xEDB88320#32

/-- `as_bytes`. -/
def nameBytes (name : String) : List U8 := utf8 name.toList

namespace Daemon

def crc32 (data : List U8) : U32 :=
  ~~~data.foldl (fun crc byte => (maskStep crcPolynomial)^[8] (crc ^^^ byte.setWidth 32)) (~~~0#32)

/-- What the writer keeps of an entry. -/
structure ZipEntry where
  name : String
  crc : U32
  size : ℕ
  offset : ℕ

structure ZipWriter where
  data : List U8
  entries : List ZipEntry

namespace ZipWriter

def new : ZipWriter := ⟨[], []⟩

def add (zip : ZipWriter) (name : String) (content : List U8) : ZipWriter :=
  let offset := asU32 zip.data.length
  let crc := crc32 content
  let size := asU32 content.length
  let header := record (localFields 0 0 crc.toNat size (asU16 (nameBytes name).length))
  ⟨zip.data ++ (header ++ nameBytes name ++ content), zip.entries ++ [⟨name, crc, size, offset⟩]⟩

def centralRecord (dosTime dosDate : ℕ) (entry : ZipEntry) : List U8 :=
  record (centralFields 20 dosTime dosDate entry.crc.toNat entry.size (asU16 (nameBytes entry.name).length) 0o100600
    entry.offset) ++ nameBytes entry.name

def finish (zip : ZipWriter) (now : ℤ) (comment : List U8) : Option (List U8) := do
  let (dosTime, dosDate) ← dosDatetime now
  let cdirOffset := asU32 zip.data.length
  let out := zip.data ++ zip.entries.flatMap (centralRecord dosTime dosDate)
  let cdirSize ← subU64 (asU32 out.length) cdirOffset
  let count := asU16 zip.entries.length
  return out ++ record (endFields count cdirSize cdirOffset (asU16 comment.length)) ++ comment

/-- `add` for each entry, then `finish`. -/
def write (entries : List (String × List U8)) (now : ℤ) (comment : List U8) : Option (List U8) :=
  (entries.foldl (fun zip entry => zip.add entry.1 entry.2) new).finish now comment

end ZipWriter

end Daemon

namespace Packaging

def crcTable : List U32 := (List.range 256).map fun i => (step crcPolynomial)^[8] (BitVec.ofNat 32 i)

def crc32 (data : List U8) : U32 :=
  ~~~data.foldl (fun crc b => crcTable.getD ((crc ^^^ b.setWidth 32) &&& 0xFF#32).toNat 0#32 ^^^ (crc >>> 8))
    0xFFFFFFFF#32

structure Entry where
  name : String
  mode : ℕ
  data : List U8

/-- The kind of a regular file and its permission bits, in the upper half. -/
def externalAttrs (mode : ℕ) : ℕ := ((0o100000 ||| (mode &&& 0o7777)) <<< 16) % 2 ^ 32

/-- One round of the loop, on the bytes before the directory and on the directory. -/
def addEntry (dosDate dosTime : ℕ) (files : List U8 × List U8) (entry : Entry) : List U8 × List U8 :=
  let (out, central) := files
  let crc := crc32 entry.data
  let name := nameBytes entry.name
  let size := asU32 entry.data.length
  let offset := asU32 out.length
  let header := record (localFields dosTime dosDate crc.toNat size (asU16 name.length))
  let directory := record (centralFields (3 <<< 8 ||| 20) dosTime dosDate crc.toNat size (asU16 name.length)
    (externalAttrs entry.mode) offset)
  (out ++ (header ++ name ++ entry.data), central ++ (directory ++ name))

def build (entries : List Entry) (dosDate dosTime : ℕ) : List U8 :=
  let (out, central) := entries.foldl (addEntry dosDate dosTime) ([], [])
  let cdOffset := asU32 out.length
  let cdSize := asU32 central.length
  out ++ central ++ record (endFields (asU16 entries.length) cdSize cdOffset 0)

end Packaging

/-! ### A reader -/

/-- What both headers of an entry say. -/
structure Header where
  crc : ℕ
  compressed : ℕ
  size : ℕ
  name : String
deriving DecidableEq

/-- An entry as it is read: its two headers, the place of the second one, and its bytes. -/
structure Member where
  central : Header
  offset : ℕ
  localHeader : Header
  data : List U8

structure LocalFields where
  crc : ℕ
  compressed : ℕ
  size : ℕ
  nameLen : ℕ
  extraLen : ℕ

structure CentralFields extends LocalFields where
  commentLen : ℕ
  offset : ℕ

structure EndFields where
  count : ℕ
  size : ℕ
  offset : ℕ
  commentLen : ℕ

/-- A header of an entry that is stored. -/
def localOf : List ℕ → Option LocalFields
  | [signature, _, _, method, _, _, crc, compressed, size, nameLen, extraLen] =>
    if signature = 0x04034b50 ∧ method = 0 then some ⟨crc, compressed, size, nameLen, extraLen⟩ else none
  | _ => none

def centralOf : List ℕ → Option CentralFields
  | [signature, _, _, _, method, _, _, crc, compressed, size, nameLen, extraLen, commentLen, _, _, _, offset] =>
    if signature = 0x02014b50 ∧ method = 0 then
      some ⟨⟨crc, compressed, size, nameLen, extraLen⟩, commentLen, offset⟩
    else none
  | _ => none

def endOf : List ℕ → Option EndFields
  | [signature, disk, cdirDisk, here, count, size, offset, commentLen] =>
    if signature = 0x06054b50 ∧ disk = 0 ∧ cdirDisk = 0 ∧ here = count then some ⟨count, size, offset, commentLen⟩
    else none
  | _ => none

def takeBytes (n : ℕ) (bytes : List U8) : Option (List U8 × List U8) :=
  if n ≤ bytes.length then some (bytes.take n, bytes.drop n) else none

def readName (n : ℕ) (bytes : List U8) : Option (String × List U8) := do
  let (name, rest) ← takeBytes n bytes
  let name ← fromUtf8 name
  return (name, rest)

def readLocal (bytes : List U8) : Option (Header × List U8) := do
  let (fields, rest) ← parseRecord [4, 2, 2, 2, 2, 2, 4, 4, 4, 2, 2] bytes
  let header ← localOf fields
  let (name, rest) ← readName header.nameLen rest
  let (_, rest) ← takeBytes header.extraLen rest
  let (data, _) ← takeBytes header.compressed rest
  return (⟨header.crc, header.compressed, header.size, name⟩, data)

def readCentral (bytes : List U8) : Option (Header × ℕ × List U8) := do
  let (fields, rest) ← parseRecord [4, 2, 2, 2, 2, 2, 2, 4, 4, 4, 2, 2, 2, 2, 2, 4, 4] bytes
  let header ← centralOf fields
  let (name, rest) ← readName header.nameLen rest
  let (_, rest) ← takeBytes header.extraLen rest
  let (_, rest) ← takeBytes header.commentLen rest
  return (⟨header.crc, header.compressed, header.size, name⟩, header.offset, rest)

/-- From each record of the directory to the header at its offset. -/
def readMembers (bytes : List U8) : ℕ → List U8 → Option (List Member × List U8)
  | 0, directory => some ([], directory)
  | n + 1, directory => do
    let (central, offset, directory) ← readCentral directory
    let (localHeader, data) ← readLocal (bytes.drop offset)
    let (members, directory) ← readMembers bytes n directory
    return (⟨central, offset, localHeader, data⟩ :: members, directory)

/-- The end record stands before a comment of a given length; the directory it points to ends where it begins. -/
def readArchive (commentLen : ℕ) (bytes : List U8) : Option (List Member × List U8) := do
  let start ← subU64 bytes.length (22 + commentLen)
  let (fields, comment) ← parseRecord [4, 2, 2, 2, 2, 4, 4, 2] (bytes.drop start)
  let last ← endOf fields
  let (members, rest) ← readMembers bytes last.count (bytes.drop last.offset)
  if last.offset + last.size = start ∧ rest = bytes.drop start ∧ comment.length = last.commentLen then
    some (members, comment)
  else none

/-! ### The layout -/

/-- An entry of an archive and what a writer puts into its headers besides. -/
structure Item where
  name : String
  crc : U32
  data : List U8
  localTime : ℕ
  localDate : ℕ
  madeBy : ℕ
  time : ℕ
  date : ℕ
  external : ℕ

namespace Item

variable (item : Item)

def localRecord : List U8 :=
  record (localFields item.localTime item.localDate item.crc.toNat item.data.length (nameBytes item.name).length) ++
    nameBytes item.name ++ item.data

def centralRecord (offset : ℕ) : List U8 :=
  record (centralFields item.madeBy item.time item.date item.crc.toNat item.data.length (nameBytes item.name).length
    item.external offset) ++ nameBytes item.name

/-- What both headers of the entry are read as. -/
def header : Header := ⟨item.crc.toNat, item.data.length, item.data.length, item.name⟩

theorem length_localRecord : item.localRecord.length = 30 + (nameBytes item.name).length + item.data.length := by
  have hsum : ∀ time date crc size nameLen, ((localFields time date crc size nameLen).map Prod.fst).sum = 30 := by
    intro time date crc size nameLen
    simp only [localFields, List.map_cons, List.map_nil, List.sum_cons, List.sum_nil]
    omega
  unfold localRecord
  rw [List.length_append, List.length_append, length_record, hsum]

theorem length_centralRecord (offset : ℕ) :
    (item.centralRecord offset).length = 46 + (nameBytes item.name).length := by
  have hsum : ∀ madeBy time date crc size nameLen external offset,
      ((centralFields madeBy time date crc size nameLen external offset).map Prod.fst).sum = 46 := by
    intro madeBy time date crc size nameLen external offset
    simp only [centralFields, List.map_cons, List.map_nil, List.sum_cons, List.sum_nil]
    omega
  unfold centralRecord
  rw [List.length_append, length_record, hsum]

end Item

/-- The entries, one after the other. -/
def localArea (items : List Item) : List U8 := items.flatMap Item.localRecord

/-- The directory of entries that start at an offset. -/
def directory : ℕ → List Item → List U8
  | _, [] => []
  | offset, item :: items => item.centralRecord offset ++ directory (offset + item.localRecord.length) items

def layout (items : List Item) (comment : List U8) : List U8 :=
  localArea items ++ directory 0 items ++
    record (endFields items.length (directory 0 items).length (localArea items).length comment.length) ++ comment

/-- What an archive of the items is read as. -/
def membersFrom : ℕ → List Item → List Member
  | _, [] => []
  | offset, item :: items =>
    ⟨item.header, offset, item.header, item.data⟩ :: membersFrom (offset + item.localRecord.length) items

/-- An archive that the widths of its fields suffice for. -/
structure Fits (items : List Item) (comment : List U8) : Prop where
  count : items.length < 2 ^ 16
  name : ∀ item ∈ items, (nameBytes item.name).length < 2 ^ 16
  size : (localArea items).length + (directory 0 items).length < 2 ^ 32
  comment : comment.length < 2 ^ 16

@[simp] theorem localArea_cons (item : Item) (items : List Item) :
    localArea (item :: items) = item.localRecord ++ localArea items := List.flatMap_cons

/-! ### Reading what was laid out -/

theorem takeBytes_append (bytes more : List U8) : takeBytes bytes.length (bytes ++ more) = some (bytes, more) := by
  have hlen : bytes.length ≤ (bytes ++ more).length := by
    rw [List.length_append]
    omega
  rw [takeBytes, if_pos hlen, List.take_left, List.drop_left]

theorem takeBytes_zero (bytes : List U8) : takeBytes 0 bytes = some ([], bytes) := takeBytes_append [] bytes

theorem readName_append (name : String) (more : List U8) :
    readName (nameBytes name).length (nameBytes name ++ more) = some (name, more) := by
  have hname : fromUtf8 (nameBytes name) = some name := by
    rw [nameBytes, fromUtf8_utf8, String.ofList_toList]
  rw [readName, takeBytes_append]
  simp only [Option.bind_eq_bind, Option.bind_some, hname]
  rfl

/-- **A header in front of an entry is read back with its bytes.** -/
theorem readLocal_record (item : Item) (hname : (nameBytes item.name).length < 2 ^ 16)
    (hdata : item.data.length < 2 ^ 32) (more : List U8) :
    readLocal (item.localRecord ++ more) = some (item.header, item.data) := by
  have hparse := parseRecord_record (localFields item.localTime item.localDate item.crc.toNat item.data.length
    (nameBytes item.name).length) (nameBytes item.name ++ (item.data ++ more))
  have hcrc : item.crc.toNat % 256 ^ 4 = item.crc.toNat := Nat.mod_eq_of_lt item.crc.isLt
  have hlen : item.data.length % 256 ^ 4 = item.data.length := Nat.mod_eq_of_lt hdata
  have hnameLen : (nameBytes item.name).length % 256 ^ 2 = (nameBytes item.name).length := Nat.mod_eq_of_lt hname
  simp only [localFields, List.map_cons, List.map_nil, hcrc, hlen, hnameLen] at hparse
  have hheader : ∀ a b c d : ℕ, localOf [0x04034b50 % 256 ^ 4, a, b, 0 % 256 ^ 2, c, d, item.crc.toNat,
      item.data.length, item.data.length, (nameBytes item.name).length, 0 % 256 ^ 2] =
      some ⟨item.crc.toNat, item.data.length, item.data.length, (nameBytes item.name).length, 0⟩ := by
    intro a b c d
    rw [localOf, if_pos ⟨by decide, by decide⟩, Nat.zero_mod]
  rw [Item.localRecord, List.append_assoc, List.append_assoc, readLocal]
  simp only [localFields, hparse, Option.bind_eq_bind, Option.bind_some, hheader, readName_append, takeBytes_zero,
    takeBytes_append]
  rfl

/-- **A record of the directory is read back with its offset.** -/
theorem readCentral_record (item : Item) (hname : (nameBytes item.name).length < 2 ^ 16)
    (hdata : item.data.length < 2 ^ 32) {offset : ℕ} (hoffset : offset < 2 ^ 32) (more : List U8) :
    readCentral (item.centralRecord offset ++ more) = some (item.header, offset, more) := by
  have hparse := parseRecord_record (centralFields item.madeBy item.time item.date item.crc.toNat item.data.length
    (nameBytes item.name).length item.external offset) (nameBytes item.name ++ more)
  have hcrc : item.crc.toNat % 256 ^ 4 = item.crc.toNat := Nat.mod_eq_of_lt item.crc.isLt
  have hlen : item.data.length % 256 ^ 4 = item.data.length := Nat.mod_eq_of_lt hdata
  have hnameLen : (nameBytes item.name).length % 256 ^ 2 = (nameBytes item.name).length := Nat.mod_eq_of_lt hname
  have hplace : offset % 256 ^ 4 = offset := Nat.mod_eq_of_lt hoffset
  simp only [centralFields, List.map_cons, List.map_nil, hcrc, hlen, hnameLen, hplace] at hparse
  have hheader : ∀ a b c d e f g h : ℕ, centralOf [0x02014b50 % 256 ^ 4, a, b, c, 0 % 256 ^ 2, d, e, item.crc.toNat,
      item.data.length, item.data.length, (nameBytes item.name).length, 0 % 256 ^ 2, 0 % 256 ^ 2, f, g, h, offset] =
      some ⟨⟨item.crc.toNat, item.data.length, item.data.length, (nameBytes item.name).length, 0⟩, 0, offset⟩ := by
    intro a b c d e f g h
    rw [centralOf, if_pos ⟨by decide, by decide⟩, Nat.zero_mod]
  rw [Item.centralRecord, List.append_assoc, readCentral]
  simp only [centralFields, hparse, Option.bind_eq_bind, Option.bind_some, hheader, readName_append, takeBytes_zero]
  rfl

/-- The loop over the directory, from an entry that starts where the entries before it end. -/
theorem readMembers_directory {bytes : List U8} (items : List Item) :
    ∀ before after : List U8, bytes = before ++ (localArea items ++ after) →
      before.length + (localArea items).length < 2 ^ 32 →
      (∀ item ∈ items, (nameBytes item.name).length < 2 ^ 16) → ∀ more,
      readMembers bytes items.length (directory before.length items ++ more) =
        some (membersFrom before.length items, more) := by
  induction items with
  | nil =>
    intro before after hbytes hsize hname more
    rfl
  | cons item items ih =>
    intro before after hbytes hsize hname more
    rw [localArea_cons, List.length_append] at hsize
    have hlength := item.length_localRecord
    have hitem := hname item (List.mem_cons_self ..)
    have hdrop : bytes.drop before.length = item.localRecord ++ (localArea items ++ after) := by
      rw [hbytes, List.drop_left, localArea_cons, List.append_assoc]
    have hnext : bytes = (before ++ item.localRecord) ++ (localArea items ++ after) := by
      rw [hbytes, localArea_cons, List.append_assoc, List.append_assoc]
    have hrest := ih _ _ hnext (by rw [List.length_append]; omega) (fun other hmem => hname other (.tail _ hmem)) more
    rw [List.length_append] at hrest
    rw [List.length_cons, directory, List.append_assoc, readMembers,
      readCentral_record item hitem (by omega) (by omega)]
    simp only [Option.bind_eq_bind, Option.bind_some, hdrop, readLocal_record item hitem (by omega), hrest]
    rfl

/-- **Reading a layout gives its entries and its comment.** -/
theorem readArchive_layout {items : List Item} {comment : List U8} (h : Fits items comment) :
    readArchive comment.length (layout items comment) = some (membersFrom 0 items, comment) := by
  have hsize := h.size
  have hend : (record (endFields items.length (directory 0 items).length (localArea items).length
      comment.length)).length = 22 := by
    rw [length_record]
    rfl
  obtain ⟨body, hbody⟩ : ∃ body, body = localArea items ++ directory 0 items := ⟨_, rfl⟩
  obtain ⟨last, hlast⟩ : ∃ last, last = record (endFields items.length (directory 0 items).length
    (localArea items).length comment.length) := ⟨_, rfl⟩
  have hlayout : layout items comment = body ++ (last ++ comment) := by
    rw [layout, ← hbody, ← hlast, List.append_assoc]
  have hstart : subU64 (layout items comment).length (22 + comment.length) = some body.length := by
    rw [hlayout, List.length_append, List.length_append, hlast, hend, subU64_eq (by omega)]
    exact congrArg some (by omega)
  have hdrop : (layout items comment).drop body.length = last ++ comment := by
    rw [hlayout, List.drop_left]
  have hparse := parseRecord_record (endFields items.length (directory 0 items).length (localArea items).length
    comment.length) comment
  have hcount : items.length % 256 ^ 2 = items.length := Nat.mod_eq_of_lt h.count
  have hdirectory : (directory 0 items).length % 256 ^ 4 = (directory 0 items).length :=
    Nat.mod_eq_of_lt (by omega)
  have harea : (localArea items).length % 256 ^ 4 = (localArea items).length := Nat.mod_eq_of_lt (by omega)
  have hcomment : comment.length % 256 ^ 2 = comment.length := Nat.mod_eq_of_lt h.comment
  rw [← hlast] at hparse
  simp only [endFields, List.map_cons, List.map_nil, hcount, hdirectory, harea, hcomment] at hparse
  have hfields : endOf [0x06054b50 % 256 ^ 4, 0 % 256 ^ 2, 0 % 256 ^ 2, items.length, items.length,
      (directory 0 items).length, (localArea items).length, comment.length] =
      some ⟨items.length, (directory 0 items).length, (localArea items).length, comment.length⟩ := by
    rw [endOf, if_pos ⟨by decide, by decide, by decide, rfl⟩]
  have hplace : (layout items comment).drop (localArea items).length = directory 0 items ++ (last ++ comment) := by
    rw [hlayout, hbody, List.append_assoc, List.drop_left]
  have hbytes : layout items comment = [] ++ (localArea items ++ (directory 0 items ++ (last ++ comment))) := by
    rw [hlayout, hbody, List.append_assoc, List.nil_append]
  have hmembers := readMembers_directory items [] _ hbytes (by rw [List.length_nil]; omega) h.name (last ++ comment)
  rw [List.length_nil] at hmembers
  rw [readArchive, hstart]
  simp only [Option.bind_eq_bind, Option.bind_some, hdrop, hparse, hfields, hplace, hmembers]
  refine if_pos ⟨?_, trivial, trivial⟩
  rw [hbody, List.length_append]

/-! ### The checksums -/

/-- A slot of the table is eight steps of its index. -/
theorem crcTable_getD {i : ℕ} (h : i < 256) :
    Packaging.crcTable.getD i 0#32 = (step crcPolynomial)^[8] (BitVec.ofNat 32 i) := by
  rw [Packaging.crcTable, List.getD_eq_getElem?_getD, List.getElem?_map, List.getElem?_range h]
  rfl

/-- **Eight bit steps are one table step**, in every state. -/
theorem byteStep_eq (crc : U32) (b : U8) :
    (maskStep crcPolynomial)^[8] (crc ^^^ b.setWidth 32) =
      Packaging.crcTable.getD ((crc ^^^ b.setWidth 32) &&& 0xFF#32).toNat 0#32 ^^^ (crc >>> 8) := by
  have hmask : ((crc ^^^ b.setWidth 32) &&& 0xFF#32).toNat = (crc ^^^ b.setWidth 32).toNat % 2 ^ 8 := by
    rw [BitVec.toNat_and]
    exact Nat.and_two_pow_sub_one_eq_mod _ 8
  have hbyte : (b.setWidth 32) >>> 8 = 0#32 := by
    apply BitVec.eq_of_getLsbD_eq
    intro i _
    rw [BitVec.getLsbD_ushiftRight, BitVec.getLsbD_setWidth, BitVec.getLsbD_of_ge b (8 + i) (by omega), Bool.and_false,
      BitVec.getLsbD_zero]
  have hstep : maskStep crcPolynomial = step crcPolynomial := funext (maskStep_eq crcPolynomial)
  rw [hmask, crcTable_getD (by omega), hstep, iterate_step_split, BitVec.ushiftRight_xor_distrib, hbyte,
    BitVec.xor_zero]
  rfl

/-- **The two checksums agree.** -/
theorem crc32_eq (data : List U8) : Daemon.crc32 data = Packaging.crc32 data := by
  unfold Daemon.crc32 Packaging.crc32
  have hstart : ~~~0#32 = 0xFFFFFFFF#32 := by decide
  have hstep : (fun crc byte => (maskStep crcPolynomial)^[8] (crc ^^^ BitVec.setWidth 32 byte)) =
      fun (crc : U32) (b : U8) =>
        Packaging.crcTable.getD ((crc ^^^ b.setWidth 32) &&& 0xFF#32).toNat 0#32 ^^^ (crc >>> 8) :=
    funext fun crc => funext fun b => byteStep_eq crc b
  rw [hstart, hstep]

/-! ### Both writers lay out their entries -/

theorem asU32_eq {n : ℕ} (h : n < 2 ^ 32) : asU32 n = n := Nat.mod_eq_of_lt h

theorem asU16_length {α : Type} {l : List α} (h : l.length < 2 ^ 16) : asU16 l.length = l.length := asU16_eq h

/-- The bytes of entries and of the directory, without the end record. -/
def totalSize (entries : List (String × List U8)) : ℕ :=
  (entries.map fun entry => 76 + 2 * (nameBytes entry.1).length + entry.2.length).sum

def Item.entry (item : Item) : String × List U8 := (item.name, item.data)

theorem length_areas (items : List Item) (offset : ℕ) :
    (localArea items).length + (directory offset items).length = totalSize (items.map Item.entry) := by
  induction items generalizing offset with
  | nil => rfl
  | cons item items ih =>
    have hrest := ih (offset + item.localRecord.length)
    have hlocal := item.length_localRecord
    have hcentral := item.length_centralRecord offset
    have htotal : totalSize ((item :: items).map Item.entry) =
        76 + 2 * (nameBytes item.name).length + item.data.length + totalSize (items.map Item.entry) := by
      rw [totalSize, List.map_cons, List.map_cons, List.sum_cons]
      rfl
    rw [localArea_cons, directory, List.length_append, List.length_append, htotal]
    omega

/-- Entries that the widths of the fields suffice for. -/
structure Small (entries : List (String × List U8)) : Prop where
  count : entries.length < 65536
  name : ∀ entry ∈ entries, (nameBytes entry.1).length < 65536
  size : totalSize entries < 2 ^ 32

theorem Small.fits {items : List Item} {comment : List U8} (h : Small (items.map Item.entry))
    (hcomment : comment.length < 65536) : Fits items comment where
  count := by
    have hcount := h.count
    rwa [List.length_map] at hcount
  name := fun item hmem => h.name item.entry (List.mem_map_of_mem hmem)
  size := by
    rw [length_areas]
    exact h.size
  comment := hcomment

/-- An entry of the bug report. -/
def Daemon.item (dosTime dosDate : ℕ) (entry : String × List U8) : Item :=
  ⟨entry.1, Daemon.crc32 entry.2, entry.2, 0, 0, 20, dosTime, dosDate, 0o100600⟩

/-- An entry of the module package. -/
def Packaging.item (dosDate dosTime : ℕ) (entry : Packaging.Entry) : Item :=
  ⟨entry.name, Packaging.crc32 entry.data, entry.data, dosTime, dosDate, 3 <<< 8 ||| 20, dosTime, dosDate,
    Packaging.externalAttrs entry.mode⟩

/-- **`add` appends the entry, and records what its place in the directory says.** -/
theorem Daemon.foldl_add (dosTime dosDate : ℕ) (entries : List (String × List U8)) :
    ∀ zip : Daemon.ZipWriter,
      zip.data.length + (localArea (entries.map (Daemon.item dosTime dosDate))).length < 2 ^ 32 →
      (∀ entry ∈ entries, (nameBytes entry.1).length < 65536) →
      (entries.foldl (fun zip entry => zip.add entry.1 entry.2) zip).data =
          zip.data ++ localArea (entries.map (Daemon.item dosTime dosDate)) ∧
        (entries.foldl (fun zip entry => zip.add entry.1 entry.2) zip).entries.flatMap
            (Daemon.ZipWriter.centralRecord dosTime dosDate) =
          zip.entries.flatMap (Daemon.ZipWriter.centralRecord dosTime dosDate) ++
            directory zip.data.length (entries.map (Daemon.item dosTime dosDate)) ∧
        (entries.foldl (fun zip entry => zip.add entry.1 entry.2) zip).entries.length =
          zip.entries.length + entries.length := by
  induction entries with
  | nil =>
    intro zip hsize hname
    refine ⟨(List.append_nil _).symm, (List.append_nil _).symm, rfl⟩
  | cons entry entries ih =>
    intro zip hsize hname
    obtain ⟨item, hitem⟩ : ∃ item, item = Daemon.item dosTime dosDate entry := ⟨_, rfl⟩
    rw [List.map_cons, ← hitem, localArea_cons, List.length_append] at hsize
    have hlength := item.length_localRecord
    have hdata : item.data.length = entry.2.length := by rw [hitem, Daemon.item]
    have hentry := hname entry (List.mem_cons_self ..)
    have hadd : zip.add entry.1 entry.2 = ⟨zip.data ++ item.localRecord,
        zip.entries ++ [⟨entry.1, Daemon.crc32 entry.2, entry.2.length, zip.data.length⟩]⟩ := by
      rw [Daemon.ZipWriter.add, asU32_eq (by omega), asU32_eq (by omega), asU16_length hentry, hitem]
      rfl
    have hcentral : Daemon.ZipWriter.centralRecord dosTime dosDate
        ⟨entry.1, Daemon.crc32 entry.2, entry.2.length, zip.data.length⟩ = item.centralRecord zip.data.length := by
      rw [Daemon.ZipWriter.centralRecord, asU16_length hentry, hitem]
      rfl
    obtain ⟨hrestData, hrestCentral, hrestLength⟩ := ih (zip.add entry.1 entry.2)
      (by rw [hadd, List.length_append]; omega) (fun other hmem => hname other (.tail _ hmem))
    rw [List.foldl_cons, List.map_cons, ← hitem, localArea_cons, directory]
    refine ⟨?_, ?_, ?_⟩
    · rw [hrestData, hadd, List.append_assoc]
    · rw [hrestCentral, hadd, List.flatMap_append, List.flatMap_cons, List.flatMap_nil, List.append_nil, hcentral,
        List.append_assoc, List.length_append]
    · rw [hrestLength, hadd, List.length_append, List.length_cons, List.length_cons, List.length_nil]
      omega

/-- An instant has a date as long as its seconds are in range. -/
theorem Daemon.dosDatetime_some {t : ℤ} (h : t / 10 ^ 9 < 2 ^ 63) :
    ∃ time date, Daemon.dosDatetime t = some (time, date) := by
  obtain ⟨date, hdate, -⟩ := civilFromDays_date (z := (Daemon.asSecs t / 86400 : ℕ))
    ⟨by omega, by unfold Daemon.asSecs; omega⟩
  unfold Daemon.dosDatetime
  simp only [Option.bind_eq_bind, hdate, Option.map_some, Option.bind_some]
  exact ⟨_, _, rfl⟩

/-- **The bug report's writer produces the layout of its entries.** -/
theorem Daemon.write_eq {entries : List (String × List U8)} (h : Small entries) {now : ℤ} (hnow : now / 10 ^ 9 < 2 ^ 63)
    {comment : List U8} (hcomment : comment.length < 65536) :
    ∃ dosTime dosDate, Daemon.ZipWriter.write entries now comment =
      some (layout (entries.map (Daemon.item dosTime dosDate)) comment) := by
  obtain ⟨dosTime, dosDate, htime⟩ := Daemon.dosDatetime_some hnow
  obtain ⟨items, hitems⟩ : ∃ items, items = entries.map (Daemon.item dosTime dosDate) := ⟨_, rfl⟩
  have hentries : items.map Item.entry = entries := by
    rw [hitems, List.map_map]
    exact List.map_id _
  have hcount : items.length = entries.length := by rw [hitems, List.length_map]
  have hsize := length_areas items 0
  rw [hentries] at hsize
  have htotal := h.size
  obtain ⟨hdata, hcentral, hlength⟩ := Daemon.foldl_add dosTime dosDate entries Daemon.ZipWriter.new
    (by rw [← hitems, Daemon.ZipWriter.new, List.length_nil]; omega) h.name
  rw [← hitems] at hdata hcentral
  have hnewData : Daemon.ZipWriter.new.data = [] := rfl
  have hnewEntries : Daemon.ZipWriter.new.entries = [] := rfl
  rw [hnewData, List.nil_append] at hdata
  rw [hnewData, hnewEntries, List.flatMap_nil, List.nil_append, List.length_nil] at hcentral
  rw [hnewEntries, List.length_nil, Nat.zero_add] at hlength
  refine ⟨dosTime, dosDate, ?_⟩
  rw [← hitems, Daemon.ZipWriter.write, Daemon.ZipWriter.finish, htime]
  simp only [Option.bind_eq_bind, Option.bind_some, hdata, hcentral, hlength, List.length_append]
  rw [asU32_eq (by omega), asU32_eq (by omega), subU64_eq (by omega), Nat.add_sub_cancel_left,
    asU16_eq (by have := h.count; omega), asU16_length hcomment, ← hcount]
  rfl

/-- **One round of packaging's loop appends to both areas.** -/
theorem Packaging.foldl_addEntry (dosDate dosTime : ℕ) (entries : List Packaging.Entry) :
    ∀ out central : List U8,
      out.length + (localArea (entries.map (Packaging.item dosDate dosTime))).length < 2 ^ 32 →
      (∀ entry ∈ entries, (nameBytes entry.name).length < 65536) →
      entries.foldl (Packaging.addEntry dosDate dosTime) (out, central) =
        (out ++ localArea (entries.map (Packaging.item dosDate dosTime)),
          central ++ directory out.length (entries.map (Packaging.item dosDate dosTime))) := by
  induction entries with
  | nil =>
    intro out central hsize hname
    exact Prod.ext (List.append_nil _).symm (List.append_nil _).symm
  | cons entry entries ih =>
    intro out central hsize hname
    obtain ⟨item, hitem⟩ : ∃ item, item = Packaging.item dosDate dosTime entry := ⟨_, rfl⟩
    rw [List.map_cons, ← hitem, localArea_cons, List.length_append] at hsize
    have hlength := item.length_localRecord
    have hdata : item.data.length = entry.data.length := by rw [hitem, Packaging.item]
    have hentry := hname entry (List.mem_cons_self ..)
    have hadd : Packaging.addEntry dosDate dosTime (out, central) entry =
        (out ++ item.localRecord, central ++ item.centralRecord out.length) := by
      rw [Packaging.addEntry, asU32_eq (by omega), asU32_eq (by omega), asU16_length hentry, hitem]
      rfl
    rw [List.foldl_cons, hadd, ih _ _ (by rw [List.length_append]; omega) (fun other hmem => hname other (.tail _ hmem)),
      List.map_cons, ← hitem, localArea_cons, directory, List.append_assoc, List.append_assoc, List.length_append]

/-- **Packaging's writer produces the layout of its entries.** -/
theorem Packaging.build_eq {entries : List Packaging.Entry} (h : Small (entries.map fun entry => (entry.name, entry.data)))
    (dosDate dosTime : ℕ) :
    Packaging.build entries dosDate dosTime = layout (entries.map (Packaging.item dosDate dosTime)) [] := by
  obtain ⟨items, hitems⟩ : ∃ items, items = entries.map (Packaging.item dosDate dosTime) := ⟨_, rfl⟩
  have hentries : items.map Item.entry = entries.map fun entry => (entry.name, entry.data) := by
    rw [hitems, List.map_map]
    rfl
  have hcount : items.length = entries.length := by rw [hitems, List.length_map]
  have hsize := length_areas items 0
  rw [hentries] at hsize
  have htotal := h.size
  have hlength := h.count
  rw [List.length_map] at hlength
  have hfold := Packaging.foldl_addEntry dosDate dosTime entries [] []
    (by rw [← hitems, List.length_nil]; omega) (fun entry hmem => h.name _ (List.mem_map_of_mem hmem))
  rw [← hitems, List.nil_append, List.nil_append, List.length_nil] at hfold
  rw [← hitems, Packaging.build, hfold]
  simp only
  rw [asU32_eq (by omega), asU32_eq (by omega), asU16_length hlength, ← hcount, layout, List.append_nil]
  rfl

/-! ### The round trip -/

/-- Reading gives the entries in order and the comment.  Both headers of an entry say the same, the first of them is
found at the offset, and they say the sum and the size of the bytes. -/
def ReadsBack (out comment : List U8) (entries : List (String × List U8)) : Prop :=
  ∃ members, readArchive comment.length out = some (members, comment) ∧
    (members.map fun member => (member.localHeader.name, member.data)) = entries ∧
    ∀ member ∈ members, member.central = member.localHeader ∧
      readLocal (out.drop member.offset) = some (member.central, member.data) ∧
      member.central.crc = (Daemon.crc32 member.data).toNat ∧ member.central.compressed = member.data.length ∧
      member.central.size = member.data.length

theorem membersFrom_entries (items : List Item) (offset : ℕ) :
    ((membersFrom offset items).map fun member => (member.localHeader.name, member.data)) = items.map Item.entry := by
  induction items generalizing offset with
  | nil => rfl
  | cons item items ih =>
    rw [membersFrom, List.map_cons, List.map_cons, ih]
    rfl

theorem item_of_membersFrom {items : List Item} {offset : ℕ} {member : Member} (h : member ∈ membersFrom offset items) :
    ∃ item ∈ items, member.central = item.header ∧ member.localHeader = item.header ∧ member.data = item.data := by
  induction items generalizing offset with
  | nil => exact absurd h List.not_mem_nil
  | cons item items ih =>
    obtain rfl | h := List.mem_cons.mp h
    · exact ⟨item, List.mem_cons_self .., rfl, rfl, rfl⟩
    · obtain ⟨other, hmem, hother⟩ := ih h
      exact ⟨other, .tail _ hmem, hother⟩

/-- Each member that is read comes with the header at its offset. -/
theorem readLocal_of_readMembers {bytes : List U8} {n : ℕ} {dir rest : List U8} {members : List Member}
    (h : readMembers bytes n dir = some (members, rest)) {member : Member} (hmem : member ∈ members) :
    readLocal (bytes.drop member.offset) = some (member.localHeader, member.data) := by
  induction n generalizing dir rest members with
  | zero =>
    obtain ⟨rfl, -⟩ := Prod.mk.inj (Option.some.inj h)
    exact absurd hmem List.not_mem_nil
  | succ n ih =>
    rw [readMembers] at h
    obtain ⟨⟨central, offset, directory⟩, -, h⟩ := Option.bind_eq_some_iff.mp h
    obtain ⟨⟨localHeader, data⟩, hlocal, h⟩ := Option.bind_eq_some_iff.mp h
    obtain ⟨⟨others, directory⟩, hothers, h⟩ := Option.bind_eq_some_iff.mp h
    obtain ⟨rfl, -⟩ := Prod.mk.inj (Option.some.inj h)
    obtain rfl | hmem := List.mem_cons.mp hmem
    · exact hlocal
    · exact ih hothers hmem

theorem layout_readsBack {items : List Item} {comment : List U8} (h : Fits items comment)
    (hcrc : ∀ item ∈ items, item.crc = Daemon.crc32 item.data) :
    ReadsBack (layout items comment) comment (items.map Item.entry) := by
  have hread := readArchive_layout h
  refine ⟨membersFrom 0 items, hread, membersFrom_entries items 0, ?_⟩
  intro member hmem
  obtain ⟨item, hitem, hcentral, hlocal, hdata⟩ := item_of_membersFrom hmem
  have hfound : readLocal ((layout items comment).drop member.offset) = some (member.localHeader, member.data) := by
    rw [readArchive] at hread
    obtain ⟨start, -, hread⟩ := Option.bind_eq_some_iff.mp hread
    obtain ⟨⟨fields, tail⟩, -, hread⟩ := Option.bind_eq_some_iff.mp hread
    obtain ⟨last, -, hread⟩ := Option.bind_eq_some_iff.mp hread
    obtain ⟨⟨members, rest⟩, hmembers, hread⟩ := Option.bind_eq_some_iff.mp hread
    obtain ⟨-, hread⟩ := Option.ite_none_right_eq_some.mp hread
    obtain ⟨rfl, -⟩ := Prod.mk.inj (Option.some.inj hread)
    exact readLocal_of_readMembers hmembers hmem
  refine ⟨hcentral.trans hlocal.symm, ?_, ?_, ?_, ?_⟩
  · rw [hfound, hlocal, hcentral]
  · rw [hcentral, hdata, ← hcrc item hitem]
    rfl
  · rw [hcentral, hdata]
    rfl
  · rw [hcentral, hdata]
    rfl

/-- **What either writer wrote is read back, and the two checksums are one.** -/
theorem archive_round_trip :
    (∀ (entries : List (String × List U8)) (now : ℤ) (comment : List U8), Small entries → now / 10 ^ 9 < 2 ^ 63 →
      comment.length < 65536 →
      ∃ out, Daemon.ZipWriter.write entries now comment = some out ∧ ReadsBack out comment entries) ∧
    (∀ (entries : List Packaging.Entry) (dosDate dosTime : ℕ),
      Small (entries.map fun entry => (entry.name, entry.data)) →
      ReadsBack (Packaging.build entries dosDate dosTime) [] (entries.map fun entry => (entry.name, entry.data))) ∧
    ∀ data : List U8, Daemon.crc32 data = Packaging.crc32 data := by
  refine ⟨?_, ?_, crc32_eq⟩
  · intro entries now comment h hnow hcomment
    obtain ⟨dosTime, dosDate, hwrite⟩ := Daemon.write_eq h hnow hcomment
    have hentries : (entries.map (Daemon.item dosTime dosDate)).map Item.entry = entries := by
      rw [List.map_map]
      exact List.map_id _
    refine ⟨_, hwrite, ?_⟩
    have hfits : Fits (entries.map (Daemon.item dosTime dosDate)) comment :=
      Small.fits (by rw [hentries]; exact h) hcomment
    have hback := layout_readsBack hfits (by
      intro item hmem
      obtain ⟨entry, -, rfl⟩ := List.mem_map.mp hmem
      rfl)
    rwa [hentries] at hback
  · intro entries dosDate dosTime h
    have hentries : (entries.map (Packaging.item dosDate dosTime)).map Item.entry =
        entries.map fun entry => (entry.name, entry.data) := by
      rw [List.map_map]
      rfl
    have hfits : Fits (entries.map (Packaging.item dosDate dosTime)) [] :=
      Small.fits (by rw [hentries]; exact h) (by decide)
    have hback := layout_readsBack hfits (by
      intro item hmem
      obtain ⟨entry, -, rfl⟩ := List.mem_map.mp hmem
      exact (crc32_eq _).symm)
    rw [Packaging.build_eq h]
    rwa [hentries] at hback

/-- A report with an empty file and a directory in a name. -/
def threeEntries : List (String × List U8) :=
  [("log", [0x61#8, 0x0a#8]), ("empty", []), ("state/été", [0xc3#8, 0xa9#8, 0x00#8, 0xff#8])]

def packagedEntries : List Packaging.Entry := threeEntries.map fun entry => ⟨entry.1, 0o755, entry.2⟩

theorem archive_round_trip_three :
    (∃ out, Daemon.ZipWriter.write threeEntries (1709210097 * 10 ^ 9) [0x31#8] = some out ∧
      ReadsBack out [0x31#8] threeEntries) ∧
    ReadsBack (Packaging.build packagedEntries 22621 25756) [] threeEntries := by
  have hsmall : Small threeEntries := ⟨by decide, by decide, by decide⟩
  have hpackaged : packagedEntries.map (fun entry => (entry.name, entry.data)) = threeEntries := rfl
  have hback := archive_round_trip.2.1 packagedEntries 22621 25756 (hpackaged ▸ hsmall)
  rw [hpackaged] at hback
  exact ⟨archive_round_trip.1 threeEntries _ [0x31#8] hsmall (by decide) (by decide), hback⟩

end FluxRs.Release
