import FluxRs.Lib.Checked
import FluxRs.Lib.Circular
import FluxRs.Lib.Run
import FluxRs.Lib.Words

/-!
# FluxRs.Bpf.Ringbuf — the fault ring: its producer and `drain_faults`

`crates/fluxd/src/bpf/ringbuf.rs`.  A drain is cut where another party can step in: the positions are loaded,
a header is loaded, a record is taken, the consumer position is published.  The producer is the kernel's side
of the ring; its positions are `u64` and wrap.
-/

namespace FluxRs.Bpf.Ringbuf

open FluxRs.Lib Checked Circular

def headerBytes : ℕ := 8
def busyBit : U32 := 1 <<< 31
def discardBit : U32 := 1 <<< 30
def lengthMask : U32 := ~~~(busyBit ||| discardBit)

structure FaultEvent where
  generation : ℕ
  family : U8
  protocol : U8
  reason : ℕ
  pad0 : ℕ
  seq : ℕ
  pad1 : ℕ
  deriving DecidableEq

/-- `size_of::<FaultEvent>()`. -/
def faultEventBytes : ℕ := 32

/-- `read_unaligned` of the `repr(C)` record. -/
def FaultEvent.read (payload : List U8) : FaultEvent where
  generation := ofLe (payload.take 8)
  family := payload.getD 8 0
  protocol := payload.getD 9 0
  reason := ofLe ((payload.drop 10).take 2)
  pad0 := ofLe ((payload.drop 12).take 4)
  seq := ofLe ((payload.drop 16).take 8)
  pad1 := ofLe ((payload.drop 24).take 8)

/-! ### The consumer -/

def align8 (value : ℕ) : Checked String ℕ := do
  let value ← okOr (if value + 7 < 2 ^ 64 then some (value + 7) else none) "aligned record length overflow"
  return value / 8 * 8

/-- `data` of the source: the ring is mapped twice, so virtual offsets reach twice the capacity. -/
def virtual (capacity : ℕ) (memory : ℕ → U8) (offset n : ℕ) : List U8 := load capacity memory offset n

def rawLenAt (capacity : ℕ) (memory : ℕ → U8) (consumer : ℕ) : U32 :=
  BitVec.ofNat 32 (ofLe (virtual capacity memory (consumer &&& (capacity - 1)) 4))

/-- The loop body after the busy test: the event, if any, and the next position. -/
def takeRecord (capacity : ℕ) (memory : ℕ → U8) (consumer producer : ℕ) (rawLen : U32) :
    Checked String (Option FaultEvent × ℕ) := do
  let offset := consumer &&& (capacity - 1)
  let payloadLen := (rawLen &&& lengthMask).toNat
  let sum ← okOr (if headerBytes + payloadLen < 2 ^ 64 then some (headerBytes + payloadLen) else none)
    "record length overflow"
  let recordLen ← align8 sum
  ensure (recordLen ≤ capacity) "record exceeds published ring range"
  let stop ← addUsize consumer recordLen
  ensure (stop ≤ producer) "record exceeds published ring range"
  let event ← if rawLen &&& discardBit = 0 then do
      ensure (payloadLen = faultEventBytes) "fault event has unexpected size"
      pure (some (FaultEvent.read (virtual capacity memory (offset + headerBytes) faultEventBytes)))
    else pure none
  let next ← okOr (if consumer + recordLen < 2 ^ 64 then some (consumer + recordLen) else none)
    "consumer position overflow"
  return (event, next)

/-- Where a drain is. -/
inductive Drain where
  | idle
  | check (consumer producer : ℕ) (events : List FaultEvent)
  | take (consumer producer : ℕ) (rawLen : U32) (events : List FaultEvent)
  | publish (consumer producer : ℕ) (events : List FaultEvent)

/-! ### The ring -/

inductive Status where
  | busy
  | committed
  | discarded
  deriving DecidableEq

/-- A record of the producer's ledger. -/
structure Record where
  payload : List U8
  status : Status

/-- The record is no longer busy. -/
def Record.done (r : Record) : Bool := r.status != .busy

def Record.event (r : Record) : Option FaultEvent :=
  match r.status with
  | .committed => some (FaultEvent.read r.payload)
  | _ => none

/-- The committed records of a list, in order. -/
def eventsOf (records : List Record) : List FaultEvent := records.filterMap Record.event

structure Ring where
  memory : ℕ → U8
  producer : ℕ
  consumer : ℕ
  records : List Record
  drain : Drain
  returned : List (List FaultEvent)
  failures : List (Fault String)

def start (memory : ℕ → U8) : Ring := ⟨memory, 0, 0, [], .idle, [], []⟩

/-- One step of `drain_faults`. -/
def drainStep (capacity : ℕ) (s : Ring) : Ring :=
  match s.drain with
  | .idle => { s with drain := .check s.consumer s.producer [] }
  | .check consumer producer events =>
    if consumer < producer then
      let rawLen := rawLenAt capacity s.memory consumer
      if rawLen &&& busyBit ≠ 0 then { s with drain := .publish consumer producer events }
      else { s with drain := .take consumer producer rawLen events }
    else { s with drain := .publish consumer producer events }
  | .take consumer producer rawLen events =>
    match takeRecord capacity s.memory consumer producer rawLen with
    | .ok (event, next) => { s with drain := .check next producer (events ++ event.toList) }
    | .error fault => { s with drain := .idle, failures := s.failures ++ [fault] }
  | .publish consumer _ events =>
    { s with consumer := consumer, drain := .idle, returned := s.returned ++ [events] }

/-! ### The producer -/

/-- Bytes of a record with its header. -/
def recordBytes : ℕ := headerBytes + faultEventBytes

/-- The first word of a header. -/
def Status.header : Status → ℕ
  | .busy => faultEventBytes + 2 ^ 31
  | .committed => faultEventBytes
  | .discarded => faultEventBytes + 2 ^ 30

inductive Produce where
  | reserve (pgOff : ℕ)
  | fill (i : ℕ) (payload : List U8)
  | commit (i : ℕ)
  | discard (i : ℕ)

/-- The busy record `i`. -/
def busyAt (s : Ring) (i : ℕ) : Option Record := (s.records[i]?).filter fun r => r.status = .busy

/-- A record is given up in one write of its header. -/
def release (capacity : ℕ) (s : Ring) (i : ℕ) (status : Status) : Option Ring :=
  (busyAt s i).map fun r =>
    { s with
      memory := store capacity s.memory (recordBytes * i) (leBytes 4 status.header)
      records := s.records.set i { r with status := status } }

/-- A correct producer: it reserves what fits in the space that the consumer has published, and writes to a record
only while it is busy. -/
def produce (capacity : ℕ) (s : Ring) : Produce → Option Ring
  | .reserve pgOff =>
    if (s.producer + recordBytes + (2 ^ 64 - s.consumer)) % 2 ^ 64 ≤ capacity then
      some { s with
        memory := store capacity s.memory s.producer (leBytes 4 Status.busy.header ++ leBytes 4 pgOff)
        producer := (s.producer + recordBytes) % 2 ^ 64
        records := s.records ++ [⟨load capacity s.memory (s.producer + headerBytes) faultEventBytes, .busy⟩] }
    else none
  | .fill i payload =>
    if payload.length = faultEventBytes then
      (busyAt s i).map fun r =>
        { s with
          memory := store capacity s.memory (recordBytes * i + headerBytes) payload
          records := s.records.set i { r with payload := payload } }
    else none
  | .commit i => release capacity s i .committed
  | .discard i => release capacity s i .discarded

inductive Action where
  | drain
  | produce (p : Produce)

def step (capacity : ℕ) (s : Ring) : Action → Option Ring
  | .drain => some (drainStep capacity s)
  | .produce p => produce capacity s p

end FluxRs.Bpf.Ringbuf
