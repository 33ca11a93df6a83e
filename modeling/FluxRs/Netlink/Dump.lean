import FluxRs.Netlink.Wire

/-!
# FluxRs.Netlink.Dump — incremental assembly of a kernel dump

`parse_ack` to `finish_dump` of `crates/fluxd/src/netlink/wire.rs`, and `TrustedSnapshot` of
`crates/flux-core/src/snapshot.rs`.  A dump is complete only at its `NLMSG_DONE`, however its messages are
spread over datagrams.
-/

namespace FluxRs.Netlink

open FluxRs.Lib Checked

def nlmsgNoop : U16 := 1

def nlmsgError : U16 := 2

def nlmsgDone : U16 := 3

def nlmsgOverrun : U16 := 4

def nlmFDumpIntr : U16 := 0x0010

/-! ### Completeness evidence -/

/-- Why a dump cannot be used. -/
structure IncompleteDump where
  interrupted : Bool
  truncated : Bool
  overrun : Bool
  doneStatus : ℤ
  deriving DecidableEq

def IncompleteDump.text (d : IncompleteDump) : String :=
  s!"incomplete kernel dump (interrupted={d.interrupted}, truncated={d.truncated}, " ++
    s!"overrun={d.overrun}, done_status={d.doneStatus})"

structure TrustedSnapshot (α : Type) where
  inner : α

def TrustedSnapshot.tryFromParts {α : Type} (value : α) (interrupted truncated overrun : Bool) (doneStatus : ℤ) :
    Except IncompleteDump (TrustedSnapshot α) :=
  if interrupted ∨ truncated ∨ overrun ∨ doneStatus ≠ 0 then .error ⟨interrupted, truncated, overrun, doneStatus⟩
  else .ok ⟨value⟩

/-! ### Messages -/

/-- `i32::saturating_neg`. -/
def saturatingNeg (n : ℤ) : ℤ := if n = -2 ^ 31 then 2 ^ 31 - 1 else -n

def overrun : IoError := .custom .other "netlink dump overrun; a full resynchronization is required"

def dumpInterrupted : IoError := .custom .interrupted "netlink dump interrupted (NLM_F_DUMP_INTR)"

def dumpTruncated : IoError := .custom .unexpectedEof "netlink datagram truncated (MSG_TRUNC)"

inductive DumpFeed where
  | needMore (items : List RawMessage)
  | complete (items : List RawMessage)
  deriving DecidableEq

section Feed

variable (e : Endian)

/-- `i32::from_ne_bytes` of the first four bytes. -/
def readI32 (payload : List U8) : ℤ := (e.word 32 (payload.take 4)).toInt

def parseAck (payload : List U8) : Checked IoError Unit :=
  if payload.length < 4 then fail (.invalidData "short NLMSG_ERROR payload")
  else if readI32 e payload = 0 then .ok ()
  else fail (.os (saturatingNeg (readI32 e payload)))

def parseDoneStatus (payload : List U8) : ℤ := if payload.length < 4 then 0 else readI32 e payload

def RawMessage.interrupted (m : RawMessage) : Bool := m.flags &&& nlmFDumpIntr != 0

def finishDump (items : List RawMessage) (done : RawMessage) (truncated : Bool) : Checked IoError (List RawMessage) :=
  match TrustedSnapshot.tryFromParts items (done.interrupted || items.any RawMessage.interrupted) truncated false
      (parseDoneStatus e done.payload) with
  | .ok snapshot => .ok snapshot.inner
  | .error d => fail (.invalidData d.text)

/-- The loop of `feed_dump`. -/
def feedMessages : List RawMessage → List RawMessage → Checked IoError DumpFeed
  | items, [] => .ok (.needMore items)
  | items, m :: ms =>
    if m.kind = nlmsgDone then (finishDump e items m false).map .complete
    else if m.kind = nlmsgError then do
      parseAck e m.payload
      feedMessages items ms
    else if m.kind = nlmsgOverrun then fail overrun
    else if m.kind = nlmsgNoop then feedMessages items ms
    else if m.interrupted then fail dumpInterrupted
    else feedMessages (items ++ [m]) ms

def feedDump (items messages : List RawMessage) (truncated : Bool) : Checked IoError DumpFeed :=
  if truncated then fail dumpTruncated else feedMessages e items messages

/-- `feed_dump` over datagrams, the items carried along, until it completes or fails. -/
def feedDatagrams : List RawMessage → List (List RawMessage) → Checked IoError DumpFeed
  | items, [] => .ok (.needMore items)
  | items, d :: ds => do
    match ← feedDump e items d false with
    | .needMore next => feedDatagrams next ds
    | .complete done => return .complete done

/-! ### Independence of datagram boundaries -/

/-- What is fed after the end of a dump is not looked at. -/
theorem feedMessages_append (items ms ns : List RawMessage) :
    feedMessages e items (ms ++ ns) = do
      match ← feedMessages e items ms with
      | .needMore next => feedMessages e next ns
      | .complete done => return .complete done := by
  fun_induction feedMessages e items ms with
  | case1 items => rfl
  | case2 items m ms hdone =>
    rw [List.cons_append, feedMessages, if_pos hdone]
    cases finishDump e items m false <;> rfl
  | case3 items m ms hdone herror ih =>
    rw [List.cons_append, feedMessages, if_neg hdone, if_pos herror]
    cases hack : parseAck e m.payload with
    | error fault => rfl
    | ok u => exact ih
  | case4 items m ms hdone herror hoverrun =>
    rw [List.cons_append, feedMessages, if_neg hdone, if_neg herror, if_pos hoverrun]
    rfl
  | case5 items m ms hdone herror hoverrun hnoop ih =>
    rw [List.cons_append, feedMessages, if_neg hdone, if_neg herror, if_neg hoverrun, if_pos hnoop, ih]
  | case6 items m ms hdone herror hoverrun hnoop hintr =>
    rw [List.cons_append, feedMessages, if_neg hdone, if_neg herror, if_neg hoverrun, if_neg hnoop, if_pos hintr]
    rfl
  | case7 items m ms hdone herror hoverrun hnoop hintr ih =>
    rw [List.cons_append, feedMessages, if_neg hdone, if_neg herror, if_neg hoverrun, if_neg hnoop,
      if_neg hintr, ih]

theorem feedDatagrams_flatten (items : List RawMessage) (datagrams : List (List RawMessage)) :
    feedDatagrams e items datagrams = feedDump e items datagrams.flatten false := by
  induction datagrams generalizing items with
  | nil => rfl
  | cons d ds ih =>
    have happend := feedMessages_append e items d ds.flatten
    rw [List.flatten_cons]
    show _ = feedMessages e items (d ++ ds.flatten)
    rw [happend, feedDatagrams]
    show (feedMessages e items d >>= _) = _
    cases feedMessages e items d with
    | error fault => rfl
    | ok feed =>
      cases feed with
      | complete done => rfl
      | needMore next => exact ih next

/-! ### When a dump completes, and with what -/

/-- Neither a message of control nor the end. -/
def RawMessage.isData (m : RawMessage) : Bool :=
  m.kind != nlmsgDone && m.kind != nlmsgError && m.kind != nlmsgOverrun && m.kind != nlmsgNoop

/-- The message neither ends the dump nor makes it fail. -/
structure RawMessage.Passes (m : RawMessage) : Prop where
  notDone : m.kind ≠ nlmsgDone
  notOverrun : m.kind ≠ nlmsgOverrun
  acknowledged : m.kind = nlmsgError → 4 ≤ m.payload.length ∧ readI32 e m.payload = 0
  consistent : m.isData → m.interrupted = false

/-- The message ends the dump cleanly. -/
structure RawMessage.Finishes (m : RawMessage) : Prop where
  done : m.kind = nlmsgDone
  consistent : m.interrupted = false
  status : parseDoneStatus e m.payload = 0

variable {e} {m : RawMessage} {items : List RawMessage}

theorem isData_iff : m.isData = true ↔
    m.kind ≠ nlmsgDone ∧ m.kind ≠ nlmsgError ∧ m.kind ≠ nlmsgOverrun ∧ m.kind ≠ nlmsgNoop := by
  simp only [RawMessage.isData, Bool.and_eq_true, bne_iff_ne, ne_eq, and_assoc]

theorem parseAck_ok {payload : List U8} :
    parseAck e payload = .ok () ↔ 4 ≤ payload.length ∧ readI32 e payload = 0 := by
  unfold parseAck
  by_cases hshort : payload.length < 4
  · rw [if_pos hshort]
    constructor
    · intro h
      cases h
    · intro h
      omega
  · rw [if_neg hshort]
    by_cases hzero : readI32 e payload = 0
    · rw [if_pos hzero]
      exact ⟨fun _ => ⟨by omega, hzero⟩, fun _ => rfl⟩
    · rw [if_neg hzero]
      constructor
      · intro h
        cases h
      · intro h
        exact absurd h.2 hzero

theorem finishDump_ok {done : RawMessage} {out : List RawMessage} : finishDump e items done false = .ok out ↔
    done.interrupted = false ∧ (∀ m ∈ items, m.interrupted = false) ∧ parseDoneStatus e done.payload = 0 ∧
      out = items := by
  unfold finishDump TrustedSnapshot.tryFromParts
  by_cases hbad : done.interrupted || items.any RawMessage.interrupted
  · rw [if_pos (.inl hbad)]
    constructor
    · intro h
      cases h
    · rintro ⟨hdone, hitems, -⟩
      rw [hdone, Bool.false_or, List.any_eq_true] at hbad
      obtain ⟨m, hm, hintr⟩ := hbad
      rw [hitems m hm] at hintr
      cases hintr
  · by_cases hstatus : parseDoneStatus e done.payload = 0
    · rw [if_neg (by simp only [hbad, hstatus]; decide)]
      rw [Bool.or_eq_true, not_or, Bool.not_eq_true, List.any_eq_true] at hbad
      constructor
      · intro h
        refine ⟨hbad.1, fun m hm => ?_, hstatus, (Except.ok.inj h).symm⟩
        by_contra hintr
        exact hbad.2 ⟨m, hm, by rwa [Bool.not_eq_false] at hintr⟩
      · rintro ⟨-, -, -, rfl⟩
        rfl
    · rw [if_pos (.inr (.inr (.inr hstatus)))]
      constructor
      · intro h
        cases h
      · rintro ⟨-, -, h, -⟩
        exact absurd h hstatus

/-- One message that passes: data is kept, anything else leaves no trace. -/
theorem feed_passes (h : m.Passes e) (ms : List RawMessage) :
    feedMessages e items (m :: ms) = feedMessages e (items ++ [m].filter RawMessage.isData) ms := by
  rw [feedMessages, if_neg h.notDone]
  by_cases herror : m.kind = nlmsgError
  · have hdata : ¬ m.isData = true := fun hd => (isData_iff.mp hd).2.1 herror
    rw [if_pos herror, parseAck_ok.mpr (h.acknowledged herror), List.filter_cons_of_neg hdata, List.filter_nil,
        List.append_nil]
    rfl
  · rw [if_neg herror, if_neg h.notOverrun]
    by_cases hnoop : m.kind = nlmsgNoop
    · have hdata : ¬ m.isData = true := fun hd => (isData_iff.mp hd).2.2.2 hnoop
      rw [if_pos hnoop, List.filter_cons_of_neg hdata, List.filter_nil,
        List.append_nil]
    · have hdata : m.isData = true := isData_iff.mpr ⟨h.notDone, herror, h.notOverrun, hnoop⟩
      have hintr : ¬ m.interrupted = true := by
        rw [h.consistent hdata]
        decide
      rw [if_neg hnoop, if_neg hintr, List.filter_cons_of_pos hdata, List.filter_nil]

/-- One message that does not pass and is not the end. -/
theorem feed_fails (hpass : ¬ m.Passes e) (hdone : m.kind ≠ nlmsgDone) (ms : List RawMessage) (feed : DumpFeed) :
    feedMessages e items (m :: ms) ≠ .ok feed := by
  intro h
  rw [feedMessages, if_neg hdone] at h
  by_cases herror : m.kind = nlmsgError
  · rw [if_pos herror] at h
    obtain ⟨_, hack, -⟩ := bind_ok.mp h
    refine hpass ⟨hdone, fun hover => ?_, fun _ => parseAck_ok.mp hack, fun hd => ?_⟩
    · rw [hover] at herror
      exact absurd herror (by decide)
    · exact absurd herror (isData_iff.mp hd).2.1
  · rw [if_neg herror] at h
    by_cases hover : m.kind = nlmsgOverrun
    · rw [if_pos hover] at h
      cases h
    · rw [if_neg hover] at h
      by_cases hnoop : m.kind = nlmsgNoop
      · exact hpass ⟨hdone, hover, fun he => absurd he herror, fun hd => absurd hnoop (isData_iff.mp hd).2.2.2⟩
      · rw [if_neg hnoop] at h
        by_cases hintr : m.interrupted
        · rw [if_pos hintr] at h
          cases h
        · exact hpass ⟨hdone, hover, fun he => absurd he herror, fun _ => by rwa [Bool.not_eq_true] at hintr⟩

theorem feed_done (h : m.kind = nlmsgDone) (ms : List RawMessage) (feed : DumpFeed) :
    feedMessages e items (m :: ms) = .ok feed ↔
      m.Finishes e ∧ (∀ m ∈ items, m.interrupted = false) ∧ feed = .complete items := by
  rw [feedMessages, if_pos h, map_ok]
  constructor
  · rintro ⟨out, hout, rfl⟩
    obtain ⟨hintr, hitems, hstatus, rfl⟩ := finishDump_ok.mp hout
    exact ⟨⟨h, hintr, hstatus⟩, hitems, rfl⟩
  · rintro ⟨hfinish, hitems, rfl⟩
    exact ⟨items, finishDump_ok.mpr ⟨hfinish.consistent, hitems, hfinish.status, rfl⟩, rfl⟩

/-- The items stay free of interruptions. -/
theorem passes_consistent (h : m.Passes e) (hitems : ∀ i ∈ items, i.interrupted = false) :
    ∀ i ∈ items ++ [m].filter RawMessage.isData, i.interrupted = false := by
  intro i hi
  rcases List.mem_append.mp hi with hi | hi
  · exact hitems i hi
  · obtain ⟨hmem, hdata⟩ := List.mem_filter.mp hi
    obtain rfl := List.mem_singleton.mp hmem
    exact h.consistent hdata

/-- A dump completes exactly at a clean `NLMSG_DONE` with nothing that fails before it. -/
theorem feed_complete_iff (hitems : ∀ i ∈ items, i.interrupted = false) (ms out : List RawMessage) :
    feedMessages e items ms = .ok (.complete out) ↔ ∃ before done rest, ms = before ++ done :: rest ∧
      (∀ m ∈ before, m.Passes e) ∧ done.Finishes e ∧ out = items ++ before.filter RawMessage.isData := by
  induction ms generalizing items with
  | nil =>
    constructor
    · intro h
      cases h
    · rintro ⟨before, done, rest, h, -⟩
      cases before <;> cases h
  | cons m ms ih =>
    by_cases hdone : m.kind = nlmsgDone
    · rw [feed_done hdone]
      constructor
      · rintro ⟨hfinish, -, hout⟩
        refine ⟨[], m, ms, rfl, List.forall_mem_nil _, hfinish, ?_⟩
        rw [List.filter_nil, List.append_nil]
        exact DumpFeed.complete.inj hout
      · rintro ⟨before, done, rest, hms, hpass, hfinish, rfl⟩
        cases before with
        | nil =>
          obtain ⟨rfl, rfl⟩ := List.cons.inj hms
          refine ⟨hfinish, hitems, ?_⟩
          rw [List.filter_nil, List.append_nil]
        | cons m' before =>
          obtain ⟨rfl, -⟩ := List.cons.inj hms
          exact absurd hdone (hpass _ List.mem_cons_self).notDone
    · by_cases hpass : m.Passes e
      · rw [feed_passes hpass, ih (passes_consistent hpass hitems)]
        constructor
        · rintro ⟨before, done, rest, rfl, hbefore, hfinish, rfl⟩
          refine ⟨m :: before, done, rest, rfl, List.forall_mem_cons.mpr ⟨hpass, hbefore⟩, hfinish, ?_⟩
          rw [List.append_assoc, ← List.filter_append]
          rfl
        · rintro ⟨before, done, rest, hms, hbefore, hfinish, rfl⟩
          cases before with
          | nil =>
            obtain ⟨rfl, -⟩ := List.cons.inj hms
            exact absurd hfinish.done hdone
          | cons m' before =>
            obtain ⟨rfl, rfl⟩ := List.cons.inj hms
            refine ⟨before, done, rest, rfl, (List.forall_mem_cons.mp hbefore).2, hfinish, ?_⟩
            rw [List.append_assoc, ← List.filter_append]
            rfl
      · constructor
        · intro h
          exact absurd h (feed_fails hpass hdone ms _)
        · rintro ⟨before, done, rest, hms, hbefore, hfinish, -⟩
          cases before with
          | nil =>
            obtain ⟨rfl, -⟩ := List.cons.inj hms
            exact absurd hfinish.done hdone
          | cons m' before =>
            obtain ⟨rfl, -⟩ := List.cons.inj hms
            exact absurd (hbefore _ List.mem_cons_self) hpass

/-- Without an `NLMSG_DONE` nothing is complete, whatever has been collected. -/
theorem feed_incomplete {ms out : List RawMessage} (h : ∀ m ∈ ms, m.kind ≠ nlmsgDone) :
    feedMessages e items ms ≠ .ok (.complete out) := by
  induction ms generalizing items with
  | nil =>
    intro hcomplete
    cases hcomplete
  | cons m ms ih =>
    obtain ⟨hm, hms⟩ := List.forall_mem_cons.mp h
    by_cases hpass : m.Passes e
    · rw [feed_passes hpass]
      exact ih hms
    · exact feed_fails hpass hm ms _

end Feed

end FluxRs.Netlink
