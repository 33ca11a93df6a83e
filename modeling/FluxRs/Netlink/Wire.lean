import FluxRs.Lib.Checked
import FluxRs.Lib.Words

/-!
# FluxRs.Netlink.Wire — messages, attributes and datagrams

`crates/fluxd/src/netlink/wire.rs`: the builder of requests, which patches lengths back into what it has
written, and the two readers.  A reader panics where it would leave its input.
-/

namespace FluxRs.Netlink

open FluxRs.Lib Checked

/-- `io::ErrorKind`, as far as this code makes errors of its own. -/
inductive ErrorKind where
  | invalidData
  | interrupted
  | unexpectedEof
  | timedOut
  | other
  deriving DecidableEq, Repr

inductive IoError where
  | custom (kind : ErrorKind) (text : String)
  | os (code : ℤ)
  deriving DecidableEq, Repr

namespace IoError

def rawOsError : IoError → Option ℤ
  | custom _ _ => none
  | os code => some code

def invalidData (text : String) : IoError := custom .invalidData text

end IoError

structure RawMessage where
  kind : U16
  flags : U16
  seq : U32
  pid : U32
  payload : List U8
  deriving DecidableEq

/-- `(len + 3) & !3`. -/
def align4 (len : ℕ) : ℕ := (len + 3) / 4 * 4

def nlaFNested : U16 := 0x8000

def nlaTypeMask : U16 := 0x3fff

/-- The bytes of `NlMsgHdr`. -/
def headerLen : ℕ := 16

/-! ### Requests -/

/-- The nested attributes that are open, with their starts. -/
structure MessageBuilder where
  bytes : List U8
  nested : List ℕ

namespace MessageBuilder

variable (e : Endian)

def new (kind flags : U16) (seq : U32) (payload : List U8) : MessageBuilder where
  bytes := e.bytes 4 0 ++ e.ofWord kind ++ e.ofWord flags ++ e.ofWord seq ++ e.bytes 4 0 ++ payload
  nested := []

/-- `bytes.resize(align4(bytes.len()), 0)`. -/
def pad (bytes : List U8) : List U8 := bytes ++ List.replicate (align4 bytes.length - bytes.length) 0

def attr (b : MessageBuilder) (kind : U16) (payload : List U8) : MessageBuilder :=
  { b with bytes := pad (b.bytes ++ e.bytes 2 (4 + payload.length) ++ e.ofWord kind ++ payload) }

def beginNested (b : MessageBuilder) (kind : U16) : MessageBuilder where
  bytes := b.bytes ++ e.bytes 2 0 ++ e.ofWord (kind ||| nlaFNested)
  nested := b.bytes.length :: b.nested

/-- Nothing, where no attribute is open. -/
def endNested (b : MessageBuilder) : Option MessageBuilder :=
  match b.nested with
  | [] => none
  | start :: rest => some {
      bytes := pad (b.bytes.take start ++ e.bytes 2 (b.bytes.length - start) ++ b.bytes.drop (start + 2))
      nested := rest }

/-- The bytes of a message whose attributes are all closed. -/
def finish (b : MessageBuilder) : Option (List U8) :=
  if b.nested = [] then some (e.bytes 4 b.bytes.length ++ b.bytes.drop 4) else none

end MessageBuilder

/-! ### Attributes -/

structure Attr where
  kind : U16
  nested : Bool
  payload : List U8
  deriving DecidableEq

section Readers

variable (e : Endian)

/-- One attribute of `len` bytes. -/
def readAttr (bytes : List U8) (len : ℕ) : Checked IoError Attr := do
  let rawKind ← slice bytes 2 4
  let payload ← slice bytes 4 len
  return ⟨e.word 16 rawKind &&& nlaTypeMask, e.word 16 rawKind &&& nlaFNested != 0, payload⟩

/-- `len` as the first two bytes say. -/
def attrLen (bytes : List U8) : ℕ := e.nat (bytes.take 2)

def attrs (bytes : List U8) : Checked IoError (List Attr) :=
  if bytes = [] then .ok []
  else if bytes.length < 4 then fail (.invalidData "truncated netlink attribute header")
  else if attrLen e bytes < 4 ∨ bytes.length < attrLen e bytes then
    fail (.invalidData "invalid netlink attribute length")
  else if bytes.length < align4 (attrLen e bytes) then
    if attrLen e bytes = bytes.length then (readAttr e bytes (attrLen e bytes)).map fun attr => [attr]
    else fail (.invalidData "truncated netlink attribute padding")
  else do
    let attr ← readAttr e bytes (attrLen e bytes)
    let rest ← attrs (bytes.drop (align4 (attrLen e bytes)))
    return attr :: rest
termination_by bytes.length
decreasing_by
  rw [List.length_drop]
  unfold align4
  omega

/-! ### Datagrams -/

/-- `read_struct::<NlMsgHdr>` and the payload of a message of `len` bytes at `offset`. -/
def readMessage (bytes : List U8) (offset len : ℕ) : Checked IoError RawMessage := do
  let header ← slice bytes offset (offset + headerLen)
  let payload ← slice bytes (offset + headerLen) (offset + len)
  return ⟨e.word 16 ((header.drop 4).take 2), e.word 16 ((header.drop 6).take 2),
    e.word 32 ((header.drop 8).take 4), e.word 32 ((header.drop 12).take 4), payload⟩

/-- `header.len` of the message at `offset`. -/
def messageLen (bytes : List U8) (offset : ℕ) : ℕ := e.nat ((bytes.drop offset).take 4)

/-- The loop of `parse_datagram` from `offset` on; a sum that leaves `usize` panics. -/
def parseFrom (bytes : List U8) (offset : ℕ) : Checked IoError (List RawMessage) :=
  if bytes.length ≤ offset then .ok []
  else if bytes.length - offset < headerLen then
    fail (.invalidData "truncated netlink message header")
  else if messageLen e bytes offset < headerLen then fail (.invalidData "invalid netlink message length")
  else if 2 ^ 64 ≤ offset + messageLen e bytes offset then .error .panicked
  else if bytes.length < offset + messageLen e bytes offset then
    fail (.invalidData "invalid netlink message length")
  else if 2 ^ 64 ≤ offset + align4 (messageLen e bytes offset) then .error .panicked
  else if bytes.length < offset + align4 (messageLen e bytes offset) then
    if offset + messageLen e bytes offset = bytes.length then
      (readMessage e bytes offset (messageLen e bytes offset)).map fun message => [message]
    else fail (.invalidData "truncated netlink message padding")
  else do
    let message ← readMessage e bytes offset (messageLen e bytes offset)
    let rest ← parseFrom bytes (offset + align4 (messageLen e bytes offset))
    return message :: rest
termination_by bytes.length - offset
decreasing_by
  unfold align4 headerLen at *
  omega

def parseDatagram (bytes : List U8) : Checked IoError (List RawMessage) := parseFrom e bytes 0

end Readers

end FluxRs.Netlink
