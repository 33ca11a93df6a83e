import FluxRs.Netlink.Probe

/-!
# FluxRs.Netlink.Destroy — resetting the live TCP of unselected applications

`destroy_tcp_for_uids` of `crates/fluxd/src/netlink/sock_diag.rs`: two dumps, the targets in them, and one
`SOCK_DESTROY` after the other up to a cap.  The requests that are sent are a log.
-/

namespace FluxRs.Netlink

open FluxRs.Lib Checked

def sockDestroy : U16 := 21

def sockDestroyMax : ℕ := 4096

def overflowUid : U32 := 65534

def findInodeDatagrams : ℕ := 64

def enoent : IoError := .os 2

def incompleteDiag : IoError := .invalidData "incomplete sock_diag dump (no NLMSG_DONE)"

/-! ### Targets -/

structure DiagTcp where
  family : U8
  state : U8
  sockid : List U8
  uid : U32
  deriving DecidableEq

/-- The states of a live client: neither listening nor waiting nor closed. -/
def tcpIsLiveClient (state : U8) : Bool := [1, 2, 3, 4, 5, 8, 9, 11].contains state

def wanted (uids : List U32) : List U32 := uids.filter fun uid => uid != 0 && uid != overflowUid

section Kernel

variable (e : Endian)

def parseDiagTcp (payload : List U8) : Option DiagTcp :=
  if payload.length < inetDiagMsgMinLen then none
  else some ⟨payload.getD 0 0, payload.getD 1 0, (payload.take 52).drop 4, e.word 32 ((payload.take 68).drop 64)⟩

def targets (uids : List U32) (items : List RawMessage) : List DiagTcp :=
  (items.filterMap fun m => parseDiagTcp e m.payload).filter fun diag =>
    (wanted uids).contains diag.uid && tcpIsLiveClient diag.state

def dumpTcpRequest (family : U8) (seq : U32) : Option (List U8) :=
  (MessageBuilder.new e sockDiagByFamily (nlmFRequest ||| nlmFDump) seq
    ([family, ipprotoTcp, 0, 0] ++ List.replicate 4 0xff ++ List.replicate 48 0)).finish e

def destroyRequest (diag : DiagTcp) (seq : U32) : Option (List U8) :=
  (MessageBuilder.new e sockDestroy (nlmFRequest ||| nlmFAck) seq
    ([diag.family, ipprotoTcp, 0, 0, 0, 0, 0, 0] ++ diag.sockid)).finish e

/-! ### One dump -/

/-- How a wait for the socket ends. -/
inductive Poll where
  | expired
  | failed (error : IoError)
  | readable

/-- A socket that is opened for one dump, and what the kernel does with it. -/
structure DumpSession where
  opened : Checked IoError U32
  send : Option (List U8) → Checked IoError Unit
  polls : List Poll
  input : List Receive

/-- The loop of `dump_tcp_family` with `n` datagrams left; past the last wait the time is up. -/
def dumpLoop (seq : U32) : ℕ → RequestSocket → List RawMessage → List Poll → List Receive →
    Checked IoError (List RawMessage)
  | 0, _, _, _, _ => fail incompleteDiag
  | _ + 1, _, _, [], _ => fail incompleteDiag
  | _ + 1, _, _, .expired :: _, _ => fail incompleteDiag
  | _ + 1, _, _, .failed error :: _, _ => fail error
  | n + 1, s, collected, .readable :: polls, input =>
    match s.tryRecv e seq input with
    | .error fault =>
      if fault = .error eagain then dumpLoop seq n (s.takePending seq).2 collected polls input.tail
      else .error fault
    | .ok (messages, s, input) => do
      match ← feedDump e collected messages false with
      | .needMore items => dumpLoop seq n s items polls input
      | .complete items => return items

def dumpTcpFamily (session : DumpSession) (family : U8) : Checked IoError (List RawMessage) := do
  let portId ← session.opened
  let s := RequestSocket.opened portId
  session.send (dumpTcpRequest e family s.nextSeq)
  dumpLoop e s.nextSeq findInodeDatagrams { s with seq := s.nextSeq } [] session.polls session.input

/-! ### Requests with an acknowledgement -/

inductive Waited where
  | failed (error : IoError)
  | readable (r : Receive)

def timedOut : IoError := .custom .timedOut "netlink response timed out"

/-- The first message that settles a request. -/
def ackMessages : List RawMessage → Option (Checked IoError Unit)
  | [] => none
  | m :: ms =>
    if m.kind = nlmsgError then some (parseAck e m.payload)
    else if m.kind = nlmsgOverrun then some (fail overrun)
    else ackMessages ms

/-- The loop of `ack`; what is pending is not looked at. -/
def ackLoop (seq : U32) : RequestSocket → List Waited → Checked IoError Unit × RequestSocket × List Waited
  | s, [] => (fail timedOut, s, [])
  | s, .failed error :: waits => (fail error, s, waits)
  | s, .readable r :: waits =>
    match s.recvMatching e seq [r] with
    | .error fault => (.error fault, s, waits)
    | .ok (messages, s, _) =>
      match ackMessages e messages with
      | some result => (result, s, waits)
      | none => ackLoop seq s waits

/-- The socket that the requests go through. -/
structure DestroySession where
  opened : Checked IoError U32
  send : Option (List U8) → Checked IoError Unit
  waits : List Waited

def ack (send : Option (List U8) → Checked IoError Unit) (s : RequestSocket) (request : Option (List U8))
    (seq : U32) (waits : List Waited) : Checked IoError Unit × RequestSocket × List Waited :=
  match send request with
  | .error fault => (.error fault, s, waits)
  | .ok () => ackLoop e seq s waits

structure DestroyReport where
  destroyed : ℕ
  alreadyGone : ℕ
  deriving DecidableEq

/-- `ESRCH`, `ENOENT` and `ENODEV`: the target has vanished. -/
def vanished (error : IoError) : Bool := error.rawOsError ∈ ([some 3, some 2, some 19] : List (Option ℤ))

def destroyLoop (send : Option (List U8) → Checked IoError Unit) : List DiagTcp → RequestSocket → List Waited →
    DestroyReport → Checked IoError DestroyReport × List (Option (List U8))
  | [], _, _, report => (.ok report, [])
  | diag :: rest, s, waits, report =>
    let seq := s.nextSeq
    let request := destroyRequest e diag seq
    match ack e send { s with seq := seq } request seq waits with
    | (.ok (), s, waits) =>
      let (out, log) := destroyLoop send rest s waits { report with destroyed := report.destroyed + 1 }
      (out, request :: log)
    | (.error (.error error), s, waits) =>
      if vanished error then
        let (out, log) := destroyLoop send rest s waits { report with alreadyGone := report.alreadyGone + 1 }
        (out, request :: log)
      else (fail error, [request])
    | (.error .panicked, _, _) => (.error .panicked, [request])

/-- A family without a handler has no sockets. -/
def orNone (dump : Checked IoError (List RawMessage)) : Checked IoError (List RawMessage) :=
  if dump = fail enoent then .ok [] else dump

/-- `destroy_tcp_for_uids` and the requests to destroy that it has sent. -/
def destroyTcpForUids (uids : List U32) (v4 v6 : DumpSession) (d : DestroySession) :
    Checked IoError DestroyReport × List (Option (List U8)) :=
  if wanted uids = [] then (.ok ⟨0, 0⟩, [])
  else
    let gathered : Checked IoError (List DiagTcp × U32) := do
      let items4 ← orNone (dumpTcpFamily e v4 afInet)
      let items6 ← orNone (dumpTcpFamily e v6 afInet6)
      let portId ← d.opened
      return (targets e uids items4 ++ targets e uids items6, portId)
    match gathered with
    | .error fault => (.error fault, [])
    | .ok (targets, portId) =>
      destroyLoop e d.send (targets.take sockDestroyMax) (.opened portId) d.waits ⟨0, 0⟩

/-! ### What a dump that is returned has seen -/

/-- The dump has settled: it is complete, or the kernel has no such family. -/
def Settled (dump : Checked IoError (List RawMessage)) (items : List RawMessage) : Prop :=
  dump = .ok items ∨ dump = fail enoent ∧ items = []

theorem orNone_ok {dump : Checked IoError (List RawMessage)} {items : List RawMessage} :
    orNone dump = .ok items ↔ Settled dump items := by
  unfold orNone Settled
  by_cases hnone : dump = fail enoent
  · rw [if_pos hnone, hnone]
    constructor
    · exact fun h => .inr ⟨rfl, (Except.ok.inj h).symm⟩
    · rintro (h | ⟨-, rfl⟩)
      · cases h
      · rfl
  · rw [if_neg hnone]
    constructor
    · exact .inl
    · rintro (h | ⟨h, -⟩)
      · exact h
      · exact absurd h hnone

theorem orNone_error {dump : Checked IoError (List RawMessage)} {fault : Fault IoError}
    (h : dump = .error fault) (hne : fault ≠ .error enoent) : orNone dump = .error fault := by
  rw [orNone, if_neg, h]
  rw [h]
  intro heq
  exact hne (Except.error.inj heq)

variable {e}

/-- The loop returns only what the messages that have arrived assemble to. -/
theorem dumpLoop_ok {seq : U32} {n : ℕ} {s : RequestSocket} {collected items seen used : List RawMessage}
    {polls : List Poll} {input : List Receive} (hused : ofSeq seq seen = used ++ ofSeq seq s.pending)
    (hfed : feedMessages e [] used = .ok (.needMore collected))
    (h : dumpLoop e seq n s collected polls input = .ok items) :
    ∃ consumed rest, input = consumed ++ rest ∧
      feedDump e [] (ofSeq seq (seen ++ received e consumed)) false = .ok (.complete items) := by
  induction n generalizing s collected seen used polls input with
  | zero => cases h
  | succ n ih =>
    cases polls with
    | nil => cases h
    | cons poll polls =>
      cases poll with
      | expired => cases h
      | failed error => cases h
      | readable =>
        rw [dumpLoop] at h
        cases hrecv : s.tryRecv e seq input with
        | error fault =>
          rw [hrecv] at h
          by_cases hfault : fault = .error eagain
          · rw [hfault] at hrecv h
            obtain ⟨consumed, hinput, hleft⟩ := tryRecv_wait e hrecv
            obtain ⟨more, rest, htail, hcomplete⟩ := ih (hleft.current hused) (by rwa [List.append_nil]) h
            refine ⟨consumed ++ more, rest, ?_, ?_⟩
            · rw [List.append_assoc, ← htail]
              exact hinput
            · rwa [received_append, ← List.append_assoc]
          · dsimp only at h
            rw [if_neg hfault] at h
            cases h
        | ok out =>
          obtain ⟨messages, t, left⟩ := out
          rw [hrecv] at h
          obtain ⟨consumed, rfl, hleft⟩ := tryRecv_ok e hrecv
          obtain ⟨feed, hfeed, h⟩ := bind_ok.mp h
          have hnow := hleft.current hused
          cases feed with
          | needMore next =>
            have hnext : feedMessages e [] (used ++ messages) = .ok (.needMore next) := by
              rw [feedMessages_append, hfed]
              exact hfeed
            obtain ⟨more, rest, rfl, hcomplete⟩ := ih hnow hnext h
            refine ⟨consumed ++ more, rest, (List.append_assoc _ _ _).symm, ?_⟩
            rwa [received_append, ← List.append_assoc]
          | complete done =>
            obtain rfl := Except.ok.inj h
            refine ⟨consumed, left, rfl, ?_⟩
            show feedMessages e [] _ = _
            rw [hnow, feedMessages_append, feedMessages_append, hfed]
            show (feedMessages e collected messages >>= _) = _
            have hfeed' : feedMessages e collected messages = .ok (.complete done) := hfeed
            rw [hfeed']
            rfl

theorem dumpTcpFamily_ok {session : DumpSession} {family : U8} {items : List RawMessage}
    (h : dumpTcpFamily e session family = .ok items) :
    ∃ consumed rest, session.input = consumed ++ rest ∧ Dumped e (received e consumed) 0 items := by
  obtain ⟨portId, -, h⟩ := bind_ok.mp h
  obtain ⟨-, -, h⟩ := bind_ok.mp h
  -- Nothing has been seen and nothing has been used yet.
  have hnone : ofSeq 1 ([] : List RawMessage) = [] ++ ofSeq 1 [] := rfl
  obtain ⟨consumed, rest, hinput, hcomplete⟩ := dumpLoop_ok hnone rfl h
  exact ⟨consumed, rest, hinput, hcomplete⟩

/-! ### One request for each target -/

/-- The requests for the targets, numbered on from `seq`. -/
def requests (e : Endian) : U32 → List DiagTcp → List (Option (List U8))
  | _, [] => []
  | seq, diag :: rest => destroyRequest e diag (seqAfter seq) :: requests e (seqAfter seq) rest

theorem length_requests (seq : U32) (targets : List DiagTcp) : (requests e seq targets).length = targets.length := by
  induction targets generalizing seq with
  | nil => rfl
  | cons diag rest ih => rw [requests, List.length_cons, ih, List.length_cons]

theorem recvMatching_seq {s t : RequestSocket} {seq : U32} {input rest : List Receive} {ms : List RawMessage}
    (h : s.recvMatching e seq input = .ok (ms, t, rest)) : t.seq = s.seq := by
  unfold RequestSocket.recvMatching at h
  split at h
  · cases h
  · cases h
  · rename_i bytes truncated input
    by_cases htrunc : truncated = true
    · rw [if_pos htrunc] at h
      cases h
    · rw [if_neg htrunc] at h
      obtain ⟨messages, -, h⟩ := bind_ok.mp h
      obtain ⟨⟨matching, t'⟩, hmatch, hout⟩ := bind_ok.mp h
      obtain ⟨-, htr⟩ := Prod.mk.inj (Except.ok.inj hout)
      obtain ⟨rfl, -⟩ := Prod.mk.inj htr
      rw [(matchMessages_ok hmatch).2]

theorem ackLoop_seq (seq : U32) (s : RequestSocket) (waits : List Waited) :
    (ackLoop e seq s waits).2.1.seq = s.seq := by
  induction waits generalizing s with
  | nil => rfl
  | cons wait waits ih =>
    cases wait with
    | failed error => rfl
    | readable r =>
      unfold ackLoop
      split
      · rfl
      · rename_i messages t rest hrecv
        split
        · exact recvMatching_seq hrecv
        · exact (ih t).trans (recvMatching_seq hrecv)

theorem ack_seq (send : Option (List U8) → Checked IoError Unit) (s : RequestSocket) (request : Option (List U8))
    (seq : U32) (waits : List Waited) : (ack e send s request seq waits).2.1.seq = s.seq := by
  unfold ack
  split
  · rfl
  · exact ackLoop_seq seq s waits

/-- A loop that comes to its end has sent one request for each target, in order. -/
theorem destroyLoop_ok {send : Option (List U8) → Checked IoError Unit} {targets : List DiagTcp} {s : RequestSocket}
    {waits : List Waited} {report out : DestroyReport} {log : List (Option (List U8))}
    (h : destroyLoop e send targets s waits report = (.ok out, log)) : log = requests e s.seq targets := by
  induction targets generalizing s waits report log with
  | nil => exact (Prod.mk.inj h).2.symm
  | cons diag rest ih =>
    have hseq := ack_seq (e := e) send { s with seq := s.nextSeq } (destroyRequest e diag s.nextSeq) s.nextSeq waits
    unfold destroyLoop at h
    dsimp only at h
    -- The number goes on whether the target was there or not.
    split at h
    · rename_i t left hack
      rw [hack] at hseq
      obtain ⟨hout, rfl⟩ := Prod.mk.inj h
      have hrest := (ih (Prod.ext hout rfl)).trans (congrArg (requests e · rest) hseq)
      exact congrArg (destroyRequest e diag s.nextSeq :: ·) hrest
    · rename_i error t left hack
      rw [hack] at hseq
      by_cases hgone : vanished error
      · rw [if_pos hgone] at h
        obtain ⟨hout, rfl⟩ := Prod.mk.inj h
        have hrest := (ih (Prod.ext hout rfl)).trans (congrArg (requests e · rest) hseq)
        exact congrArg (destroyRequest e diag s.nextSeq :: ·) hrest
      · rw [if_neg hgone] at h
        cases h
    · cases h

/-! ### The whole function -/

theorem targets_nil (uids : List U32) (h : wanted uids = []) (items : List RawMessage) :
    targets e uids items = [] := by
  rw [targets, h]
  exact List.filter_eq_nil_iff.mpr fun diag _ => by
    rw [List.contains_nil, Bool.false_and]
    decide

end Kernel

/-- **Unselected applications lose their live TCP, up to the cap**: a call that succeeds has sent one request for
each of the first 4096 targets in the order of the dumps, and no other; with a UID to look for, a dump that is
neither complete nor refused with `ENOENT` is an error before any request; and what counts as a complete dump is
what the kernel has sent up to a clean `NLMSG_DONE`. -/
theorem destroy_selected (e : Endian) (uids : List U32) (v4 v6 : DumpSession) (d : DestroySession) :
    (∀ items4 items6 report log, Settled (dumpTcpFamily e v4 afInet) items4 →
      Settled (dumpTcpFamily e v6 afInet6) items6 →
      destroyTcpForUids e uids v4 v6 d = (.ok report, log) →
      log = requests e 0 ((targets e uids items4 ++ targets e uids items6).take sockDestroyMax)) ∧
    (wanted uids ≠ [] → ∀ fault, fault ≠ .error enoent →
      dumpTcpFamily e v4 afInet = .error fault ∨
        (∃ items4, Settled (dumpTcpFamily e v4 afInet) items4) ∧ dumpTcpFamily e v6 afInet6 = .error fault →
      destroyTcpForUids e uids v4 v6 d = (.error fault, [])) ∧
    ∀ session family items, dumpTcpFamily e session family = .ok items →
      ∃ consumed rest, session.input = consumed ++ rest ∧ Dumped e (received e consumed) 0 items := by
  refine ⟨?_, ?_, fun session family items => dumpTcpFamily_ok⟩
  · intro items4 items6 report log h4 h6 h
    unfold destroyTcpForUids at h
    by_cases hnone : wanted uids = []
    · rw [if_pos hnone] at h
      rw [targets_nil uids hnone, targets_nil uids hnone]
      exact (Prod.mk.inj h).2.symm
    · rw [if_neg hnone, orNone_ok.mpr h4, orNone_ok.mpr h6] at h
      cases hopened : d.opened with
      | error fault =>
        rw [hopened] at h
        cases h
      | ok portId =>
        rw [hopened] at h
        exact destroyLoop_ok h
  · intro hwanted fault hfault hdump
    unfold destroyTcpForUids
    rw [if_neg hwanted]
    rcases hdump with h4 | ⟨⟨items4, h4⟩, h6⟩
    · rw [orNone_error h4 hfault]
      rfl
    · rw [orNone_ok.mpr h4, orNone_error h6 hfault]
      rfl

/-! ### A kernel with many sockets of one application -/

/-- An established IPv4 socket of UID 10000. -/
def socketPayload : List U8 :=
  [2, 1, 0, 0] ++ List.replicate 60 0 ++ [0x10, 0x27, 0, 0] ++ List.replicate 4 0

def socketRequest : Request := ⟨sockDiagByFamily, 2, 1, socketPayload, []⟩

def socketMessage : RawMessage := ⟨sockDiagByFamily, 2, 1, 0, socketPayload⟩

def socketBytes : List U8 := Endian.little.bytes 4 88 ++ (socketRequest.header .little ++ socketPayload)

def socketDiag : DiagTcp := ⟨2, 1, List.replicate 48 0, 10000⟩

/-- `n` sockets and the end of the dump, in one datagram. -/
def socketsBytes (n : ℕ) : List U8 := (List.replicate n socketBytes ++ [statusBytes nlmsgDone 1]).flatten

def socketsSession (n : ℕ) : DumpSession :=
  ⟨.ok 7, fun _ => .ok (), [.readable], [.datagram (socketsBytes n) false]⟩

theorem socketRequest_finished : socketRequest.Aligned ∧ socketRequest.finished .little = some socketBytes ∧
    socketBytes.length = 88 := by
  have haligned : socketRequest.Aligned := by
    show 72 % 4 = 0
    rfl
  exact ⟨haligned, Request.finished_eq haligned, rfl⟩

theorem parse_socketsBytes {n : ℕ} (hn : n < 2 ^ 50) : parseDatagram .little (socketsBytes n) =
    .ok (List.replicate n socketMessage ++ [statusMessage nlmsgDone 1]) := by
  obtain ⟨haligned, hfinished, hlen⟩ := socketRequest_finished
  obtain ⟨haligned', hfinished', hlen'⟩ := statusRequest_finished nlmsgDone 1
  have hparts : List.Forall₂ (fun (r : Request) part => r.Aligned ∧ r.finished .little = some part ∧
      part.length < 2 ^ 32) (List.replicate n socketRequest ++ [statusRequest nlmsgDone 1])
      (List.replicate n socketBytes ++ [statusBytes nlmsgDone 1]) := by
    clear hn
    induction n with
    | zero => exact .cons ⟨haligned', hfinished', by omega⟩ .nil
    | succ n ih => exact .cons ⟨haligned, hfinished, by omega⟩ ih
  have htotal : (socketsBytes n).length = 88 * n + 20 := by
    clear hn hparts
    unfold socketsBytes
    induction n with
    | zero => exact hlen'
    | succ n ih =>
      rw [List.replicate_succ, List.cons_append, List.flatten_cons, List.length_append, ih, hlen]
      omega
  have hzip : List.zipWith Request.message (List.replicate n socketRequest ++ [statusRequest nlmsgDone 1])
      (List.replicate n socketBytes ++ [statusBytes nlmsgDone 1]) =
      List.replicate n socketMessage ++ [statusMessage nlmsgDone 1] := by
    clear hn hparts htotal
    induction n with
    | zero => rfl
    | succ n ih =>
      rw [List.replicate_succ, List.replicate_succ, List.replicate_succ, List.cons_append, List.cons_append,
        List.zipWith_cons_cons, ih]
      rfl
  have hparse := Request.parseFrom_all hparts [] (by rw [List.nil_append]; show (socketsBytes n).length < _; omega)
  rw [hzip] at hparse
  exact hparse

theorem dump_sockets {n : ℕ} (hn : n < 2 ^ 50) (family : U8) :
    dumpTcpFamily .little (socketsSession n) family = .ok (List.replicate n socketMessage) := by
  have hown : ∀ m ∈ List.replicate n socketMessage ++ [statusMessage nlmsgDone 1], m.seq = 1 ∧ m.pid = 0 := by
    intro m hm
    rcases List.mem_append.mp hm with hm | hm
    · obtain rfl := List.eq_of_mem_replicate hm
      exact ⟨rfl, rfl⟩
    · obtain rfl := List.mem_singleton.mp hm
      exact ⟨rfl, rfl⟩
  have hpass : socketMessage.Passes .little := by
    refine ⟨by decide, by decide, fun h => absurd h (by decide), fun _ => by decide⟩
  have hdata : (List.replicate n socketMessage).filter RawMessage.isData = List.replicate n socketMessage := by
    rw [List.filter_eq_self]
    intro m hm
    rw [List.eq_of_mem_replicate hm]
    decide
  have hfeed : feedDump .little [] (List.replicate n socketMessage ++ [statusMessage nlmsgDone 1]) false =
      .ok (.complete (List.replicate n socketMessage)) := by
    refine (feed_complete_iff (List.forall_mem_nil _) _ _).mpr
      ⟨List.replicate n socketMessage, statusMessage nlmsgDone 1, [], rfl, fun m hm => ?_,
        statusMessage_finishes 1, hdata.symm⟩
    rwa [List.eq_of_mem_replicate hm]
  have hrecv := recvMatching_own (parse_socketsBytes hn) hown ⟨7, 1, []⟩ []
  show dumpLoop .little 1 64 ⟨7, 1, []⟩ [] [.readable] [.datagram (socketsBytes n) false] = _
  rw [dumpLoop]
  have htry : RequestSocket.tryRecv .little ⟨7, 1, []⟩ 1 [.datagram (socketsBytes n) false] = _ := hrecv
  rw [htry]
  dsimp only
  rw [hfeed]
  rfl

theorem targets_sockets (n : ℕ) :
    targets .little [10000] (List.replicate n socketMessage) = List.replicate n socketDiag := by
  have hparse : parseDiagTcp .little socketMessage.payload = some socketDiag := by decide
  induction n with
  | zero => rfl
  | succ n ih =>
    unfold targets at ih ⊢
    rw [List.replicate_succ, List.filterMap_cons, hparse, List.filter_cons_of_pos (by decide), ih,
      List.replicate_succ]

/-- The acknowledgements of the next `n` requests. -/
def acks : U32 → ℕ → List Waited
  | _, 0 => []
  | seq, n + 1 => .readable (.datagram (statusBytes nlmsgError (seqAfter seq)) false) :: acks (seqAfter seq) n

theorem destroyLoop_acks (targets : List DiagTcp) (seq : U32) (report : DestroyReport) :
    destroyLoop .little (fun _ => .ok ()) targets ⟨7, seq, []⟩ (acks seq targets.length) report =
      (.ok { report with destroyed := report.destroyed + targets.length }, requests .little seq targets) := by
  induction targets generalizing seq report with
  | nil => rfl
  | cons diag rest ih =>
    have hrecv : RequestSocket.recvMatching .little ⟨7, seqAfter seq, []⟩ (seqAfter seq)
        [.datagram (statusBytes nlmsgError (seqAfter seq)) false] =
        .ok ([statusMessage nlmsgError (seqAfter seq)], ⟨7, seqAfter seq, []⟩, []) := by
      refine recvMatching_own (parse_statusBytes _ _) (fun m hm => ?_) _ _
      obtain rfl := List.mem_singleton.mp hm
      exact ⟨rfl, rfl⟩
    have hstatus : ackMessages .little [statusMessage nlmsgError (seqAfter seq)] = some (.ok ()) := by
      have hkind : (statusMessage nlmsgError (seqAfter seq)).kind = nlmsgError := rfl
      rw [ackMessages, if_pos hkind]
      exact congrArg some (parseAck_ok.mpr ⟨by show 4 ≤ 4; omega, by show readI32 .little [0, 0, 0, 0] = 0; decide⟩)
    have hack : ack .little (fun _ => .ok ()) ⟨7, seqAfter seq, []⟩ (destroyRequest .little diag (seqAfter seq))
        (seqAfter seq) (acks seq (rest.length + 1)) =
        (.ok (), ⟨7, seqAfter seq, []⟩, acks (seqAfter seq) rest.length) := by
      rw [ack, acks, ackLoop, hrecv]
      dsimp only
      rw [hstatus]
    have hrest := ih (seqAfter seq) { report with destroyed := report.destroyed + 1 }
    rw [destroyLoop]
    show (match ack .little (fun _ => .ok ()) ⟨7, seqAfter seq, []⟩ (destroyRequest .little diag (seqAfter seq))
      (seqAfter seq) (acks seq (rest.length + 1)) with
      | (.ok (), s, waits) => _
      | (.error (.error error), s, waits) => _
      | (.error .panicked, _, _) => _) = _
    rw [hack]
    dsimp only
    rw [hrest, List.length_cons, Nat.add_assoc, Nat.add_comm 1]
    rfl

/-- With `n` sockets at most 4096 are reset, and the call succeeds. -/
theorem destroy_sockets {n : ℕ} (hn : n < 2 ^ 50) :
    destroyTcpForUids .little [10000] (socketsSession n) (socketsSession 0)
      ⟨.ok 7, fun _ => .ok (), acks 0 (min sockDestroyMax n)⟩ =
    (.ok ⟨min sockDestroyMax n, 0⟩, requests .little 0 (List.replicate (min sockDestroyMax n) socketDiag)) := by
  have hloop := destroyLoop_acks (List.replicate (min sockDestroyMax n) socketDiag) 0 ⟨0, 0⟩
  rw [List.length_replicate, Nat.zero_add] at hloop
  have h4 := orNone_ok.mpr (.inl (dump_sockets hn afInet))
  have h6 := orNone_ok.mpr (.inl (dump_sockets (n := 0) (by omega) afInet6))
  have hwanted : wanted [10000] ≠ [] := by decide
  rw [destroyTcpForUids, if_neg hwanted, h4, h6]
  show destroyLoop _ _ ((targets .little [10000] (List.replicate n socketMessage) ++ []).take sockDestroyMax) _ _ _ = _
  rw [List.append_nil, targets_sockets, List.take_replicate]
  exact hloop

theorem destroy_selected_two :
    requests .little 0 (List.replicate 2 socketDiag) =
      requests .little 0 ((targets .little [10000] (List.replicate 2 socketMessage) ++
        targets .little [10000] (List.replicate 0 socketMessage)).take sockDestroyMax) ∧
    destroyTcpForUids .little [10000] { socketsSession 2 with polls := [] } (socketsSession 0)
      ⟨.ok 7, fun _ => .ok (), []⟩ = (fail incompleteDiag, []) := by
  constructor
  · exact (destroy_selected .little [10000] (socketsSession 2) (socketsSession 0)
      ⟨.ok 7, fun _ => .ok (), acks 0 2⟩).1 _ _ _ _ (.inl (dump_sockets (by omega) afInet))
      (.inl (dump_sockets (by omega) afInet6)) (destroy_sockets (n := 2) (by omega))
  · exact (destroy_selected .little [10000] { socketsSession 2 with polls := [] } (socketsSession 0)
      ⟨.ok 7, fun _ => .ok (), []⟩).2.1 (by decide) _ (by decide) (.inl rfl)

/-- With 4097 sockets the call succeeds and has reset 4096. -/
theorem destroy_capped : ¬ ∀ uids v4 v6 d items4 items6 report log,
    dumpTcpFamily .little v4 afInet = .ok items4 → dumpTcpFamily .little v6 afInet6 = .ok items6 →
    destroyTcpForUids .little uids v4 v6 d = (.ok report, log) →
    log = requests .little 0 (targets .little uids items4 ++ targets .little uids items6) := by
  intro h
  have hlog := h [10000] (socketsSession 4097) (socketsSession 0) _ _ _ _ _ (dump_sockets (by omega) afInet)
    (dump_sockets (by omega) afInet6) (destroy_sockets (n := 4097) (by omega))
  have hlen := congrArg List.length hlog
  rw [length_requests, length_requests, List.length_append, targets_sockets, targets_sockets,
    List.length_replicate, List.length_replicate, List.length_replicate] at hlen
  exact absurd hlen (by decide)

end FluxRs.Netlink
