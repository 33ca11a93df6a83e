import FluxRs.Net.Cidr
import FluxRs.Netlink.Dump
import FluxRs.Netlink.RoundTrip

/-!
# FluxRs.Netlink.Probe — the readiness round over four listener dumps

`RequestSocket` of `crates/fluxd/src/netlink/wire.rs` and `ProbeReady` of `sock_diag.rs`.  The kernel is a
list of what the next receives return, and a function that says how a send ends.
-/

namespace FluxRs.Netlink

open FluxRs.Lib FluxRs.Net Checked

/-! ### The socket -/

/-- What one `recvmsg` returns; `EAGAIN` is an error like any other. -/
inductive Receive where
  | failed (error : IoError)
  | datagram (bytes : List U8) (truncated : Bool)

def eagain : IoError := .os 11

/-- A nonblocking request socket. -/
structure RequestSocket where
  portId : U32
  seq : U32
  pending : List RawMessage

/-- `seq.wrapping_add(1).max(1)`. -/
def seqAfter (seq : U32) : U32 := if seq + 1 = 0 then 1 else seq + 1

namespace RequestSocket

def opened (portId : U32) : RequestSocket := ⟨portId, 0, []⟩

def nextSeq (s : RequestSocket) : U32 := seqAfter s.seq

/-- The messages that wait for `seq`, and the socket without them. -/
def takePending (s : RequestSocket) (seq : U32) : List RawMessage × RequestSocket :=
  (s.pending.filter (·.seq == seq), { s with pending := s.pending.filter (·.seq != seq) })

/-- The loop of `recv_matching` over the messages of one datagram. -/
def matchMessages (s : RequestSocket) (seq : U32) :
    List RawMessage → Checked IoError (List RawMessage × RequestSocket)
  | [] => .ok ([], s)
  | m :: ms =>
    if m.seq ≠ seq then matchMessages { s with pending := s.pending ++ [m] } seq ms
    else if m.pid ≠ 0 ∧ m.pid ≠ s.portId then
      fail (.invalidData "netlink response came from an unexpected port")
    else do
      let (matching, s) ← matchMessages s seq ms
      return (m :: matching, s)

variable (e : Endian)

/-- One datagram, the first of those that are to come; without one the socket would block. -/
def recvMatching (s : RequestSocket) (seq : U32) (input : List Receive) :
    Checked IoError (List RawMessage × RequestSocket × List Receive) :=
  match input with
  | [] => fail eagain
  | .failed error :: _ => fail error
  | .datagram bytes truncated :: input =>
    if truncated then fail dumpTruncated
    else do
      let messages ← parseDatagram e bytes
      let (matching, s) ← s.matchMessages seq messages
      return (matching, s, input)

def tryRecv (s : RequestSocket) (seq : U32) (input : List Receive) :
    Checked IoError (List RawMessage × RequestSocket × List Receive) :=
  if (s.takePending seq).1 ≠ [] then .ok ((s.takePending seq).1, (s.takePending seq).2, input)
  else (s.takePending seq).2.recvMatching e seq input

end RequestSocket

/-! ### Listeners -/

inductive IpAddr where
  | v4 (addr : Ipv4Addr)
  | v6 (addr : Ipv6Addr)
  deriving DecidableEq

def afInet : U8 := 2

def afInet6 : U8 := 10

def ipprotoTcp : U8 := 6

def tcpListen : U8 := 10

def sockDiagByFamily : U16 := 20

def nlmFRequest : U16 := 0x0001

def nlmFAck : U16 := 0x0004

def nlmFDump : U16 := 0x0300

def inetDiagMsgMinLen : ℕ := 72

/-- One exact socket the engine must hold. -/
structure SocketExpectation where
  protocol : U8
  addr : IpAddr
  port : U16
  deriving DecidableEq

def SocketExpectation.family (exp : SocketExpectation) : U8 :=
  match exp.addr with
  | .v4 _ => afInet
  | .v6 _ => afInet6

/-- `src[0..4]` or `src[0..16]` is the address. -/
def SocketExpectation.bound (exp : SocketExpectation) (src : List U8) : Bool :=
  match exp.addr with
  | .v4 addr => src.take 4 == octets addr
  | .v6 addr => src.take 16 == octets addr

section Round

variable (e : Endian)

/-- The inode of the socket in one `inet_diag_msg`, where it is the expected one. -/
def matchDiagMsg (payload : List U8) (exp : SocketExpectation) : Option U32 :=
  if payload.length < inetDiagMsgMinLen then none
  else if payload.getD 0 0 ≠ exp.family ∨ Endian.big.word 16 ((payload.drop 4).take 2) ≠ exp.port then none
  else if exp.protocol = ipprotoTcp ∧ payload.getD 1 0 ≠ tcpListen then none
  else if exp.bound ((payload.drop 8).take 16) then some (e.word 32 ((payload.drop 68).take 4))
  else none

/-- The request for `family × protocol` in all states; `None` cannot happen, as nothing is nested. -/
def dumpRequest (exp : SocketExpectation) (seq : U32) : Option (List U8) :=
  (MessageBuilder.new e sockDiagByFamily (nlmFRequest ||| nlmFDump) seq
    ([exp.family, exp.protocol, 0, 0] ++ List.replicate 4 0xff ++ List.replicate 48 0)).finish e

/-- One nonblocking readiness dump of the four engine listeners. -/
structure ProbeReady where
  socket : RequestSocket
  expectations : Fin 4 → SocketExpectation
  index : ℕ
  seq : U32
  collected : List RawMessage
  inodes : Fin 4 → Option U32

inductive ProbeStep where
  | wait
  | pending (verified : ℕ) (inodes : Fin 4 → Option U32)
  | ready (inodes : Fin 4 → U32)

/-- `finish_round`. -/
def finishRound (inodes : Fin 4 → Option U32) : ProbeStep :=
  match inodes 0, inodes 1, inodes 2, inodes 3 with
  | some a, some b, some c, some d => .ready ![a, b, c, d]
  | _, _, _, _ => .pending ((List.finRange 4).countP fun i => (inodes i).isSome) inodes

-- How the send of a request ends.
variable (send : Option (List U8) → Checked IoError Unit)

namespace ProbeReady

/-- `expectations[index]` panics behind the fourth. -/
def sendCurrent (p : ProbeReady) : Checked IoError ProbeReady :=
  if h : p.index < 4 then do
    send (dumpRequest e (p.expectations ⟨p.index, h⟩) p.socket.nextSeq)
    return { p with
      seq := p.socket.nextSeq, collected := [], socket := { p.socket with seq := p.socket.nextSeq } }
  else .error .panicked

def start (portId : U32) (expectations : Fin 4 → SocketExpectation) : Checked IoError ProbeReady :=
  sendCurrent e send ⟨.opened portId, expectations, 0, 0, [], fun _ => none⟩

/-- A dump is complete: its listener is looked up, and the next dump begins. -/
def finishOne (p : ProbeReady) (items : List RawMessage) : Checked IoError (ProbeStep × ProbeReady) :=
  if h : p.index < 4 then
    let inode := items.findSome? fun m => matchDiagMsg e m.payload (p.expectations ⟨p.index, h⟩)
    let inodes := Function.update p.inodes ⟨p.index, h⟩ inode
    if p.index + 1 < 4 then do
      let p ← sendCurrent e send { p with inodes := inodes, index := p.index + 1 }
      return (.wait, p)
    else .ok (finishRound inodes, { p with inodes := inodes, index := p.index + 1 })
  else .error .panicked

/-- One datagram at most; a receive that would block is a wait. -/
def onReadable (p : ProbeReady) (input : List Receive) :
    Checked IoError (ProbeStep × ProbeReady × List Receive) :=
  match p.socket.tryRecv e p.seq input with
  | .error fault =>
    if fault = .error eagain then .ok (.wait, { p with socket := (p.socket.takePending p.seq).2 }, input.tail)
    else .error fault
  | .ok (messages, socket, input) => do
    match ← feedDump e p.collected messages false with
    | .needMore items => return (.wait, { p with socket := socket, collected := items }, input)
    | .complete items =>
      let (step, p) ← finishOne e send { p with socket := socket, collected := [] } items
      return (step, p, input)

/-- At most `n` readable events, up to a report. -/
def round : ℕ → ProbeReady → List Receive → Checked IoError (ProbeStep × List Receive)
  | 0, _, input => .ok (.wait, input)
  | n + 1, p, input => do
    match ← onReadable e send p input with
    | (.wait, p, input) => round n p input
    | (step, _, input) => return (step, input)

end ProbeReady

end Round

/-! ### What a receive leaves where -/

section Received

variable (e : Endian)

/-- The messages of a datagram that is whole and well formed. -/
def arrivals (r : Receive) : List RawMessage :=
  match r with
  | .failed _ => []
  | .datagram bytes truncated =>
    if truncated then []
    else match parseDatagram e bytes with
      | .ok messages => messages
      | .error _ => []

/-- All messages, in order of arrival. -/
def received (input : List Receive) : List RawMessage := input.flatMap (arrivals e)

def ofSeq (seq : U32) (ms : List RawMessage) : List RawMessage := ms.filter (·.seq == seq)

def notOfSeq (seq : U32) (ms : List RawMessage) : List RawMessage := ms.filter (·.seq != seq)

variable {s t : RequestSocket} {seq : U32} {input rest : List Receive} {ms messages : List RawMessage}

theorem received_append (input rest : List Receive) :
    received e (input ++ rest) = received e input ++ received e rest := List.flatMap_append

theorem ofSeq_append (seq : U32) (ms ns : List RawMessage) :
    ofSeq seq (ms ++ ns) = ofSeq seq ms ++ ofSeq seq ns := List.filter_append ms ns

theorem ofSeq_others {q : U32} (h : q ≠ seq) (ms : List RawMessage) :
    ofSeq q (notOfSeq seq ms) = ofSeq q ms := by
  rw [notOfSeq, ofSeq, ofSeq, List.filter_filter]
  refine List.filter_congr fun m _ => ?_
  by_cases hm : m.seq = q
  · rw [hm, bne_iff_ne.mpr h, Bool.and_true]
  · rw [beq_eq_false_iff_ne.mpr hm, Bool.false_and]

theorem ofSeq_taken (ms : List RawMessage) : ofSeq seq (notOfSeq seq ms) = [] := by
  rw [notOfSeq, ofSeq, List.filter_filter, List.filter_eq_nil_iff]
  intro m _
  by_cases hm : m.seq = seq
  · rw [hm, bne_self_eq_false, Bool.and_false]
    decide
  · rw [beq_eq_false_iff_ne.mpr hm, Bool.false_and]
    decide

theorem ofSeq_cons_of_eq {m : RawMessage} (h : m.seq = seq) (ms : List RawMessage) :
    ofSeq seq (m :: ms) = m :: ofSeq seq ms := List.filter_cons_of_pos (beq_iff_eq.mpr h)

theorem ofSeq_cons_of_ne {m : RawMessage} (h : m.seq ≠ seq) (ms : List RawMessage) :
    ofSeq seq (m :: ms) = ofSeq seq ms := List.filter_cons_of_neg fun hm => h (beq_iff_eq.mp hm)

theorem notOfSeq_cons_of_eq {m : RawMessage} (h : m.seq = seq) (ms : List RawMessage) :
    notOfSeq seq (m :: ms) = notOfSeq seq ms := List.filter_cons_of_neg fun hm => bne_iff_ne.mp hm h

theorem notOfSeq_cons_of_ne {m : RawMessage} (h : m.seq ≠ seq) (ms : List RawMessage) :
    notOfSeq seq (m :: ms) = m :: notOfSeq seq ms := List.filter_cons_of_pos (bne_iff_ne.mpr h)

theorem matchMessages_ok (h : s.matchMessages seq messages = .ok (ms, t)) :
    ms = ofSeq seq messages ∧ t = { s with pending := s.pending ++ notOfSeq seq messages } := by
  induction messages generalizing s ms with
  | nil =>
    obtain ⟨rfl, rfl⟩ := Prod.mk.inj (Except.ok.inj h)
    refine ⟨rfl, ?_⟩
    rw [notOfSeq, List.filter_nil, List.append_nil]
  | cons m messages ih =>
    rw [RequestSocket.matchMessages] at h
    by_cases hseq : m.seq = seq
    · rw [if_neg (by simp only [hseq, ne_eq, not_true_eq_false, not_false_eq_true])] at h
      by_cases hpid : m.pid ≠ 0 ∧ m.pid ≠ s.portId
      · rw [if_pos hpid] at h
        cases h
      · rw [if_neg hpid] at h
        obtain ⟨⟨matching, t'⟩, hrest, hout⟩ := bind_ok.mp h
        obtain ⟨rfl, rfl⟩ := Prod.mk.inj (Except.ok.inj hout)
        obtain ⟨rfl, rfl⟩ := ih hrest
        rw [ofSeq_cons_of_eq hseq, notOfSeq_cons_of_eq hseq]
        exact ⟨rfl, rfl⟩
    · rw [if_pos hseq] at h
      obtain ⟨rfl, rfl⟩ := ih h
      rw [ofSeq_cons_of_ne hseq, notOfSeq_cons_of_ne hseq, List.append_assoc]
      exact ⟨rfl, rfl⟩

theorem matchMessages_error (s : RequestSocket) (seq : U32) (messages : List RawMessage) :
    s.matchMessages seq messages ≠ .error (.error eagain) := by
  induction messages generalizing s with
  | nil =>
    intro h
    cases h
  | cons m messages ih =>
    intro h
    rw [RequestSocket.matchMessages] at h
    split_ifs at h with hseq hpid
    · exact ih _ h
    · cases h
    · cases hrest : s.matchMessages seq messages with
      | error fault =>
        rw [hrest] at h
        exact ih s (hrest.trans (congrArg Except.error (Except.error.inj h)))
      | ok out =>
        rw [hrest] at h
        cases h

/-- A receive hands out what has waited for its number, or what has arrived for it; the rest waits. -/
structure Received (s t : RequestSocket) (seq : U32) (ms arrived : List RawMessage) : Prop where
  seq_eq : t.seq = s.seq
  taken : ms ++ ofSeq seq t.pending = ofSeq seq s.pending ++ ofSeq seq arrived
  others : ∀ q, q ≠ seq → ofSeq q t.pending = ofSeq q s.pending ++ ofSeq q arrived

theorem tryRecv_ok (h : s.tryRecv e seq input = .ok (ms, t, rest)) :
    ∃ consumed, input = consumed ++ rest ∧ Received s t seq ms (received e consumed) := by
  unfold RequestSocket.tryRecv at h
  by_cases hpending : (s.takePending seq).1 ≠ []
  · rw [if_pos hpending] at h
    obtain ⟨rfl, htr⟩ := Prod.mk.inj (Except.ok.inj h)
    obtain ⟨rfl, rfl⟩ := Prod.mk.inj htr
    refine ⟨[], rfl, rfl, ?_, fun q hq => ?_⟩
    · show ofSeq seq s.pending ++ ofSeq seq (notOfSeq seq s.pending) = ofSeq seq s.pending ++ []
      rw [ofSeq_taken]
    · show ofSeq q (notOfSeq seq s.pending) = ofSeq q s.pending ++ []
      rw [ofSeq_others hq, List.append_nil]
  · rw [if_neg hpending] at h
    have hnone : ofSeq seq s.pending = [] := not_not.mp hpending
    unfold RequestSocket.recvMatching at h
    split at h
    · cases h
    · cases h
    · rename_i bytes truncated input
      have htrunc : ¬ truncated = true := by
        intro htrunc
        rw [if_pos htrunc] at h
        cases h
      rw [if_neg htrunc] at h
      obtain ⟨messages, hparse, h⟩ := bind_ok.mp h
      obtain ⟨⟨matching, t'⟩, hmatch, hout⟩ := bind_ok.mp h
      obtain ⟨rfl, htr⟩ := Prod.mk.inj (Except.ok.inj hout)
      obtain ⟨rfl, rfl⟩ := Prod.mk.inj htr
      obtain ⟨rfl, rfl⟩ := matchMessages_ok hmatch
      have harrived : received e [.datagram bytes truncated] = messages := by
        rw [received, List.flatMap_singleton, arrivals, if_neg htrunc, hparse]
      refine ⟨[.datagram bytes truncated], rfl, rfl, ?_, fun q hq => ?_⟩
      · show ofSeq seq messages ++ ofSeq seq (notOfSeq seq s.pending ++ notOfSeq seq messages) = _
        rw [harrived, ofSeq_append, ofSeq_taken, ofSeq_taken, hnone, List.append_nil, List.append_nil,
          List.nil_append]
      · show ofSeq q (notOfSeq seq s.pending ++ notOfSeq seq messages) = _
        rw [harrived, ofSeq_append, ofSeq_others hq, ofSeq_others hq]

/-- A receive that would block takes nothing from the kernel that carries a message. -/
theorem tryRecv_wait (h : s.tryRecv e seq input = .error (.error eagain)) :
    ∃ consumed, input = consumed ++ input.tail ∧ Received s (s.takePending seq).2 seq [] (received e consumed) := by
  unfold RequestSocket.tryRecv at h
  by_cases hpending : (s.takePending seq).1 ≠ []
  · rw [if_pos hpending] at h
    cases h
  · rw [if_neg hpending] at h
    have hnone : ofSeq seq s.pending = [] := not_not.mp hpending
    have hquiet : ∀ consumed, received e consumed = [] →
        Received s (s.takePending seq).2 seq [] (received e consumed) := by
      intro consumed hconsumed
      rw [hconsumed]
      refine ⟨rfl, ?_, fun q hq => ?_⟩
      · show ofSeq seq (notOfSeq seq s.pending) = ofSeq seq s.pending ++ []
        rw [ofSeq_taken, hnone, List.append_nil]
      · show ofSeq q (notOfSeq seq s.pending) = ofSeq q s.pending ++ []
        rw [ofSeq_others hq, List.append_nil]
    unfold RequestSocket.recvMatching at h
    split at h
    · exact ⟨[], rfl, hquiet [] rfl⟩
    · rename_i error input
      exact ⟨[.failed error], rfl, hquiet _ rfl⟩
    · rename_i bytes truncated input
      refine ⟨[.datagram bytes truncated], rfl, hquiet _ ?_⟩
      rw [received, List.flatMap_singleton, arrivals]
      by_cases htrunc : truncated = true
      · rw [if_pos htrunc]
      · rw [if_neg htrunc] at h ⊢
        cases hparse : parseDatagram e bytes with
        | error fault => rfl
        | ok messages =>
          have h' : ((s.takePending seq).2.matchMessages seq messages >>= fun out =>
              (.ok (out.1, out.2, input) : Checked IoError _)) = .error (.error eagain) := by
            rw [hparse] at h
            exact h
          have hmatch := matchMessages_error (s.takePending seq).2 seq messages
          cases hout : (s.takePending seq).2.matchMessages seq messages with
          | error fault =>
            rw [hout] at h' hmatch
            exact absurd (congrArg Except.error (Except.error.inj h')) hmatch
          | ok out =>
            rw [hout] at h'
            cases h'

end Received

/-! ### The round -/

section Rounds

variable (e : Endian) (exps : Fin 4 → SocketExpectation)

/-- The sequence number of dump `j`. -/
def dumpSeq (j : ℕ) : U32 := BitVec.ofNat 32 (j + 1)

theorem dumpSeq_ne {j k : ℕ} (hj : j < 4) (hk : k < 4) (h : j ≠ k) : dumpSeq j ≠ dumpSeq k := by
  intro heq
  have hnat := congrArg BitVec.toNat heq
  rw [dumpSeq, dumpSeq, BitVec.toNat_ofNat, BitVec.toNat_ofNat] at hnat
  omega

theorem nextSeq_dumpSeq {s : RequestSocket} {k : ℕ} (h : s.seq = BitVec.ofNat 32 k) (hk : k < 4) :
    s.nextSeq = dumpSeq k := by
  have hnext : s.seq + 1 = dumpSeq k := by
    rw [h, dumpSeq]
    exact (BitVec.ofNat_add k 1).symm
  have hne : dumpSeq k ≠ 0 := by
    intro hzero
    have hnat := congrArg BitVec.toNat hzero
    have hzero' : (0 : U32).toNat = 0 := rfl
    rw [dumpSeq, BitVec.toNat_ofNat, hzero'] at hnat
    omega
  rw [RequestSocket.nextSeq, seqAfter, hnext, if_neg hne]

/-- The dump with this number is complete in what has arrived, with these items. -/
def Dumped (seen : List RawMessage) (j : ℕ) (items : List RawMessage) : Prop :=
  feedDump e [] (ofSeq (dumpSeq j) seen) false = .ok (.complete items)

/-- The listener of dump `j`, as its items say. -/
def listener (j : Fin 4) (items : List RawMessage) : Option U32 :=
  items.findSome? fun m => matchDiagMsg e m.payload (exps j)

theorem Dumped.append {seen : List RawMessage} {j : ℕ} {items : List RawMessage} (h : Dumped e seen j items)
    (arrived : List RawMessage) : Dumped e (seen ++ arrived) j items := by
  unfold Dumped feedDump at *
  rw [if_neg (by decide)] at h ⊢
  rw [ofSeq_append, feedMessages_append, h]
  rfl

/-- Where a round stands: the dumps before `index` are complete, what has been fed of the current one is
`collected`, and everything else that has arrived is waiting. -/
structure RoundInv (p : ProbeReady) (seen : List RawMessage) : Prop where
  expectations : p.expectations = exps
  lt : p.index < 4
  seq : p.seq = dumpSeq p.index
  socketSeq : p.socket.seq = dumpSeq p.index
  past : ∀ j : Fin 4, j.val < p.index → ∃ items, Dumped e seen j items ∧ p.inodes j = listener e exps j items
  current : ∃ used, ofSeq p.seq seen = used ++ ofSeq p.seq p.socket.pending ∧
    feedMessages e [] used = .ok (.needMore p.collected)
  future : ∀ j, p.index < j → j < 4 → ofSeq (dumpSeq j) seen = ofSeq (dumpSeq j) p.socket.pending

/-- The report of a round. -/
def Reported (seen : List RawMessage) (step : ProbeStep) : Prop :=
  ∃ d : Fin 4 → List RawMessage, (∀ j : Fin 4, Dumped e seen j (d j)) ∧
    step = finishRound fun j => listener e exps j (d j)

variable {e} {exps} {send : Option (List U8) → Checked IoError Unit} {p q : ProbeReady}
  {seen : List RawMessage}

/-- A request opens the next dump; nothing has been fed of it. -/
theorem sendCurrent_inv (h : p.sendCurrent e send = .ok q) (hexps : p.expectations = exps)
    (hseq : p.socket.seq = BitVec.ofNat 32 p.index)
    (hpast : ∀ j : Fin 4, j.val < p.index → ∃ items, Dumped e seen j items ∧ p.inodes j = listener e exps j items)
    (hfuture : ∀ j, p.index ≤ j → j < 4 → ofSeq (dumpSeq j) seen = ofSeq (dumpSeq j) p.socket.pending) :
    RoundInv e exps q seen := by
  unfold ProbeReady.sendCurrent at h
  by_cases hlt : p.index < 4
  · rw [dif_pos hlt] at h
    obtain ⟨-, -, h⟩ := bind_ok.mp h
    obtain rfl := Except.ok.inj h
    have hnext := nextSeq_dumpSeq hseq hlt
    refine ⟨hexps, hlt, hnext, hnext, hpast, ⟨[], ?_, rfl⟩,
      fun j hj => hfuture j (Nat.le_of_lt hj)⟩
    show ofSeq p.socket.nextSeq seen = ofSeq p.socket.nextSeq p.socket.pending
    rw [hnext]
    exact hfuture p.index (le_refl _) hlt
  · rw [dif_neg hlt] at h
    cases h

theorem start_inv {portId : U32} (h : ProbeReady.start e send portId exps = .ok p) : RoundInv e exps p [] := by
  refine sendCurrent_inv h rfl rfl (fun j hj => ?_) fun j _ _ => rfl
  exact absurd hj (Nat.not_lt_zero _)

/-- What a receive leaves, in terms of all that has arrived. -/
theorem Received.current {s t : RequestSocket} {seq : U32} {ms used arrived : List RawMessage}
    (h : Received s t seq ms arrived) (hseen : ofSeq seq seen = used ++ ofSeq seq s.pending) :
    ofSeq seq (seen ++ arrived) = (used ++ ms) ++ ofSeq seq t.pending := by
  rw [ofSeq_append, hseen, List.append_assoc, List.append_assoc, h.taken]

theorem Received.future {s t : RequestSocket} {seq q : U32} {ms arrived : List RawMessage}
    (h : Received s t seq ms arrived) (hq : q ≠ seq) (hseen : ofSeq q seen = ofSeq q s.pending) :
    ofSeq q (seen ++ arrived) = ofSeq q t.pending := by
  rw [ofSeq_append, hseen, h.others q hq]

theorem RoundInv.needMore {socket : RequestSocket} {ms arrived items : List RawMessage}
    (hinv : RoundInv e exps p seen) (hrecv : Received p.socket socket p.seq ms arrived)
    (hfeed : feedMessages e p.collected ms = .ok (.needMore items)) :
    RoundInv e exps { p with socket := socket, collected := items } (seen ++ arrived) := by
  obtain ⟨used, hused, hfed⟩ := hinv.current
  refine ⟨hinv.expectations, hinv.lt, hinv.seq, hrecv.seq_eq.trans hinv.socketSeq, fun j hj => ?_,
    ⟨used ++ ms, hrecv.current hused, ?_⟩, fun j hj hj4 => ?_⟩
  · obtain ⟨items, hdumped, hinode⟩ := hinv.past j hj
    exact ⟨items, hdumped.append e arrived, hinode⟩
  · rw [feedMessages_append, hfed]
    exact hfeed
  · refine hrecv.future ?_ (hinv.future j hj hj4)
    rw [hinv.seq]
    exact dumpSeq_ne hj4 hinv.lt (Nat.ne_of_gt hj)

/-- The current dump is complete: the inodes up to its own are settled. -/
theorem RoundInv.complete {socket : RequestSocket} {ms arrived items : List RawMessage}
    (hinv : RoundInv e exps p seen) (hrecv : Received p.socket socket p.seq ms arrived)
    (hfeed : feedMessages e p.collected ms = .ok (.complete items)) :
    ∀ j : Fin 4, j.val < p.index + 1 → ∃ found, Dumped e (seen ++ arrived) j found ∧
      Function.update p.inodes ⟨p.index, hinv.lt⟩ (listener e exps ⟨p.index, hinv.lt⟩ items) j =
        listener e exps j found := by
  intro j hj
  by_cases hcur : j = ⟨p.index, hinv.lt⟩
  · obtain rfl := hcur
    obtain ⟨used, hused, hfed⟩ := hinv.current
    refine ⟨items, ?_, Function.update_self _ _ _⟩
    unfold Dumped feedDump
    rw [if_neg (by decide), ← hinv.seq, hrecv.current hused, feedMessages_append, feedMessages_append, hfed]
    show (feedMessages e p.collected ms >>= _) = _
    rw [hfeed]
    rfl
  · have hne : j.val ≠ p.index := fun h => hcur (Fin.ext h)
    obtain ⟨found, hdumped, hinode⟩ := hinv.past j (by omega)
    refine ⟨found, hdumped.append e arrived, ?_⟩
    rw [Function.update_of_ne hcur, hinode]

theorem finishOne_inv {socket : RequestSocket} {ms arrived items : List RawMessage} {step : ProbeStep}
    (hinv : RoundInv e exps p seen) (hrecv : Received p.socket socket p.seq ms arrived)
    (hfeed : feedMessages e p.collected ms = .ok (.complete items))
    (h : ProbeReady.finishOne e send { p with socket := socket, collected := [] } items = .ok (step, q)) :
    (step = .wait ∧ RoundInv e exps q (seen ++ arrived)) ∨ Reported e exps (seen ++ arrived) step := by
  have hsettled := hinv.complete hrecv hfeed
  have hexps := hinv.expectations
  unfold ProbeReady.finishOne at h
  rw [dif_pos hinv.lt] at h
  dsimp only at h
  rw [hexps] at h
  by_cases hmore : p.index + 1 < 4
  · left
    rw [if_pos hmore] at h
    obtain ⟨q', hsend, h⟩ := bind_ok.mp h
    obtain ⟨rfl, rfl⟩ := Prod.mk.inj (Except.ok.inj h)
    refine ⟨rfl, sendCurrent_inv hsend rfl ?_ hsettled fun j hj hj4 => ?_⟩
    · exact hrecv.seq_eq.trans hinv.socketSeq
    · have hnext : p.index < j := hj
      refine hrecv.future ?_ (hinv.future j hnext hj4)
      rw [hinv.seq]
      exact dumpSeq_ne hj4 hinv.lt (Nat.ne_of_gt hnext)
  · right
    rw [if_neg hmore] at h
    obtain ⟨rfl, -⟩ := Prod.mk.inj (Except.ok.inj h)
    have hall : ∀ j : Fin 4, j.val < p.index + 1 := by
      intro j
      omega
    choose d hdumped hinode using fun j => hsettled j (hall j)
    refine ⟨d, hdumped, congrArg finishRound ?_⟩
    ext j : 1
    exact hinode j

/-- **One readable event**: the round still stands, or it reports what the four complete dumps say. -/
theorem onReadable_inv {input rest : List Receive} {step : ProbeStep} (hinv : RoundInv e exps p seen)
    (h : p.onReadable e send input = .ok (step, q, rest)) :
    ∃ consumed, input = consumed ++ rest ∧
      ((step = .wait ∧ RoundInv e exps q (seen ++ received e consumed)) ∨
        Reported e exps (seen ++ received e consumed) step) := by
  unfold ProbeReady.onReadable at h
  split at h
  · rename_i fault hrecv
    by_cases hfault : fault = .error eagain
    · rw [if_pos hfault] at h
      rw [hfault] at hrecv
      obtain ⟨consumed, hinput, hleft⟩ := tryRecv_wait e hrecv
      obtain ⟨rfl, htr⟩ := Prod.mk.inj (Except.ok.inj h)
      obtain ⟨rfl, rfl⟩ := Prod.mk.inj htr
      exact ⟨consumed, hinput, .inl ⟨rfl, hinv.needMore hleft rfl⟩⟩
    · rw [if_neg hfault] at h
      cases h
  · rename_i messages socket left hrecv
    obtain ⟨consumed, hinput, hleft⟩ := tryRecv_ok e hrecv
    obtain ⟨feed, hfeed, h⟩ := bind_ok.mp h
    cases feed with
    | needMore items =>
      obtain ⟨rfl, htr⟩ := Prod.mk.inj (Except.ok.inj h)
      obtain ⟨rfl, rfl⟩ := Prod.mk.inj htr
      exact ⟨consumed, hinput, .inl ⟨rfl, hinv.needMore hleft hfeed⟩⟩
    | complete items =>
      obtain ⟨⟨step', q'⟩, hone, h⟩ := bind_ok.mp h
      obtain ⟨rfl, htr⟩ := Prod.mk.inj (Except.ok.inj h)
      obtain ⟨rfl, rfl⟩ := Prod.mk.inj htr
      exact ⟨consumed, hinput, finishOne_inv hinv hleft hfeed hone⟩

theorem round_inv {n : ℕ} {input rest : List Receive} {step : ProbeStep} (hinv : RoundInv e exps p seen)
    (h : ProbeReady.round e send n p input = .ok (step, rest)) (hstep : step ≠ .wait) :
    ∃ consumed, input = consumed ++ rest ∧ Reported e exps (seen ++ received e consumed) step := by
  induction n generalizing p seen input with
  | zero =>
    obtain ⟨rfl, -⟩ := Prod.mk.inj (Except.ok.inj h)
    exact absurd rfl hstep
  | succ n ih =>
    rw [ProbeReady.round] at h
    obtain ⟨⟨step', q, left⟩, hone, h⟩ := bind_ok.mp h
    obtain ⟨consumed, rfl, hcase⟩ := onReadable_inv hinv hone
    rcases hcase with ⟨rfl, hnext⟩ | hreport
    · obtain ⟨more, rfl, hreport⟩ := ih hnext h
      refine ⟨consumed ++ more, (List.append_assoc _ _ _).symm, ?_⟩
      rwa [received_append, ← List.append_assoc]
    · cases step' with
      | wait =>
        obtain ⟨d, hd, hwait⟩ := hreport
        unfold finishRound at hwait
        split at hwait <;> cases hwait
      | pending verified inodes =>
        obtain ⟨rfl, rfl⟩ := Prod.mk.inj (Except.ok.inj h)
        exact ⟨consumed, rfl, hreport⟩
      | ready inodes =>
        obtain ⟨rfl, rfl⟩ := Prod.mk.inj (Except.ok.inj h)
        exact ⟨consumed, rfl, hreport⟩

end Rounds

/-! ### Assembly as a whole -/

/-- **Dump assembly does not depend on datagram boundaries**: any split gives what the messages in one datagram
give; that is complete exactly at a clean `NLMSG_DONE` with no overrun, no error (a short one included) and no
interrupted item before it, and never before one; and a round reports what four complete dumps say. -/
theorem dump_assembly (e : Endian) :
    (∀ items datagrams, feedDatagrams e items datagrams = feedDump e items datagrams.flatten false) ∧
    (∀ datagrams out, feedDatagrams e [] datagrams = .ok (.complete out) ↔
      ∃ before done rest, datagrams.flatten = before ++ done :: rest ∧ (∀ m ∈ before, m.Passes e) ∧
        done.Finishes e ∧ out = before.filter RawMessage.isData) ∧
    (∀ items datagrams out, (∀ m ∈ datagrams.flatten, m.kind ≠ nlmsgDone) →
      feedDatagrams e items datagrams ≠ .ok (.complete out)) ∧
    ∀ send portId exps p n input step rest, ProbeReady.start e send portId exps = .ok p →
      ProbeReady.round e send n p input = .ok (step, rest) → step ≠ .wait →
      ∃ consumed, input = consumed ++ rest ∧ Reported e exps (received e consumed) step := by
  refine ⟨feedDatagrams_flatten e, fun datagrams out => ?_, fun items datagrams out hnever h => ?_, ?_⟩
  · rw [feedDatagrams_flatten]
    exact feed_complete_iff (List.forall_mem_nil _) datagrams.flatten out
  · rw [feedDatagrams_flatten] at h
    exact feed_incomplete hnever h
  · intro send portId exps p n input step rest hstart hround hstep
    exact round_inv (start_inv hstart) hround hstep

/-- A message of four zero bytes, as the kernel ends a dump and acknowledges a request. -/
def statusRequest (kind : U16) (seq : U32) : Request := ⟨kind, 0, seq, [0, 0, 0, 0], []⟩

def statusMessage (kind : U16) (seq : U32) : RawMessage := ⟨kind, 0, seq, 0, [0, 0, 0, 0]⟩

def statusBytes (kind : U16) (seq : U32) : List U8 :=
  Endian.little.bytes 4 20 ++ ((statusRequest kind seq).header .little ++ [0, 0, 0, 0])

theorem statusRequest_finished (kind : U16) (seq : U32) :
    (statusRequest kind seq).Aligned ∧ (statusRequest kind seq).finished .little = some (statusBytes kind seq) ∧
      (statusBytes kind seq).length = 20 := by
  have haligned : (statusRequest kind seq).Aligned := by
    show 4 % 4 = 0
    rfl
  exact ⟨haligned, Request.finished_eq haligned, rfl⟩

theorem parse_statusBytes (kind : U16) (seq : U32) :
    parseDatagram .little (statusBytes kind seq) = .ok [statusMessage kind seq] := by
  obtain ⟨haligned, hfinished, hlen⟩ := statusRequest_finished kind seq
  have hparse := Request.parseFrom_all (.cons ⟨haligned, hfinished, by omega⟩ .nil) []
    (by rw [List.nil_append, List.flatten_singleton, hlen]; omega)
  rw [List.nil_append, List.flatten_singleton] at hparse
  exact hparse

theorem statusMessage_finishes (seq : U32) : (statusMessage nlmsgDone seq).Finishes .little := by
  refine ⟨rfl, ?_, ?_⟩
  · show ((0 : U16) &&& nlmFDumpIntr != 0) = false
    decide
  · show parseDoneStatus .little [0, 0, 0, 0] = 0
    decide

/-- A datagram of messages that the kernel sends for `seq`. -/
theorem recvMatching_own {e : Endian} {bytes : List U8} {messages : List RawMessage} {seq : U32}
    (hparse : parseDatagram e bytes = .ok messages) (hown : ∀ m ∈ messages, m.seq = seq ∧ m.pid = 0)
    (s : RequestSocket) (rest : List Receive) :
    s.recvMatching e seq (.datagram bytes false :: rest) = .ok (messages, s, rest) := by
  have hmatch : s.matchMessages seq messages = .ok (messages, s) := by
    clear hparse
    induction messages with
    | nil => rfl
    | cons m messages ih =>
      obtain ⟨⟨hseq, hpid⟩, hrest⟩ := List.forall_mem_cons.mp hown
      rw [RequestSocket.matchMessages, if_neg (not_not.mpr hseq), if_neg fun h => h.1 hpid, ih hrest]
      rfl
  rw [RequestSocket.recvMatching, if_neg (by decide), hparse]
  show (s.matchMessages seq messages >>= _) = _
  rw [hmatch]
  rfl

/-- A message without attributes, as it comes from the kernel. -/
def messageBytes (kind : U16) (seq : U32) (payload : List U8) : List U8 :=
  Endian.little.bytes 4 (headerLen + payload.length) ++ Endian.little.bytes 2 kind.toNat ++ [0, 0] ++
    Endian.little.bytes 4 seq.toNat ++ [0, 0, 0, 0] ++ payload

/-- The `inet_diag_msg` of a listening socket on port 1536. -/
def diagPayload (family : U8) (src : List U8) (inode : ℕ) : List U8 :=
  [family, tcpListen, 0, 0, 6, 0, 0, 0] ++ src ++ List.replicate 44 0 ++ Endian.little.bytes 4 inode

def loopback4 : List U8 := [127, 0, 0, 1] ++ List.replicate 12 0

def loopback6 : List U8 := List.replicate 15 0 ++ [1]

def engineListeners : Fin 4 → SocketExpectation :=
  ![⟨6, .v4 0x7f000001, 1536⟩, ⟨17, .v4 0x7f000001, 1536⟩, ⟨6, .v6 1, 1536⟩, ⟨17, .v6 1, 1536⟩]

/-- The first dump takes three datagrams and meets a socket on another address and a message of another dump; the
second and the fourth are empty. -/
def listenerDatagrams : List Receive :=
  [.datagram (messageBytes sockDiagByFamily 1 (diagPayload afInet (List.replicate 16 0) 500) ++
      messageBytes sockDiagByFamily 9 (diagPayload afInet loopback4 499)) false,
    .datagram (messageBytes sockDiagByFamily 1 (diagPayload afInet loopback4 501)) false,
    .datagram (messageBytes nlmsgDone 1 [0, 0, 0, 0]) false,
    .datagram (messageBytes nlmsgDone 2 [0, 0, 0, 0]) false,
    .datagram (messageBytes sockDiagByFamily 3 (diagPayload afInet6 loopback6 502) ++
      messageBytes nlmsgDone 3 [0, 0, 0, 0]) false,
    .datagram (messageBytes nlmsgDone 4 [0, 0, 0, 0]) false]

def ProbeStep.found : ProbeStep → List (Option U32)
  | .wait => []
  | .pending _ inodes => List.ofFn inodes
  | .ready inodes => List.ofFn fun i => some (inodes i)

/-- The round over these datagrams. -/
def listenerRound : Checked IoError (ProbeStep × List Receive) := do
  let p ← ProbeReady.start .little (fun _ => .ok ()) 7 engineListeners
  ProbeReady.round .little (fun _ => .ok ()) 6 p listenerDatagrams

theorem listenerRound_finds :
    listenerRound.map (fun out => out.1.found) = .ok [some 501, none, some 502, none] := by decide +kernel

/-- The TCP listeners are found, each with its inode, and a dump that is spread over datagrams is complete. -/
theorem dump_assembly_listeners : (∃ step rest consumed,
      step.found = [some 501, none, some 502, none] ∧ listenerDatagrams = consumed ++ rest ∧
        Reported .little engineListeners (received .little consumed) step) ∧
    feedDatagrams .little []
        [[⟨sockDiagByFamily, 0, 1, 0, [2]⟩], [⟨sockDiagByFamily, 0, 1, 0, [10]⟩], [statusMessage nlmsgDone 1]] =
      .ok (.complete [⟨sockDiagByFamily, 0, 1, 0, [2]⟩, ⟨sockDiagByFamily, 0, 1, 0, [10]⟩]) := by
  obtain ⟨-, hcomplete, -, hreported⟩ := dump_assembly .little
  constructor
  · obtain ⟨⟨step, rest⟩, hlistener, hfound⟩ := map_ok.mp listenerRound_finds
    obtain ⟨p, hstart, hround⟩ := bind_ok.mp hlistener
    have hstep : step ≠ .wait := by
      rintro rfl
      cases hfound
    obtain ⟨consumed, heq, hreport⟩ := hreported _ 7 _ p 6 _ step rest hstart hround hstep
    exact ⟨step, rest, consumed, hfound, heq, hreport⟩
  · have hkind : sockDiagByFamily ≠ nlmsgDone ∧ sockDiagByFamily ≠ nlmsgOverrun ∧ sockDiagByFamily ≠ nlmsgError := by
      decide
    have hflags : ((0 : U16) &&& nlmFDumpIntr != 0) = false := by decide
    have hpasses : ∀ payload, (⟨sockDiagByFamily, 0, 1, 0, payload⟩ : RawMessage).Passes .little := fun payload =>
      ⟨hkind.1, hkind.2.1, fun h => absurd h hkind.2.2, fun _ => hflags⟩
    exact (hcomplete _ _).mpr ⟨[⟨sockDiagByFamily, 0, 1, 0, [2]⟩, ⟨sockDiagByFamily, 0, 1, 0, [10]⟩], _, [], rfl,
      List.forall_mem_cons.mpr ⟨hpasses _, List.forall_mem_singleton.mpr (hpasses _)⟩, statusMessage_finishes 1, by decide⟩

/-- An `NLMSG_ERROR` without a code is no error that is not zero, and ends the dump all the same. -/
theorem short_error_fails :
    ¬ ∀ datagrams out, feedDatagrams .little [] datagrams = .ok (.complete out) ↔
      ∃ before done rest, datagrams.flatten = before ++ done :: rest ∧
        (∀ m ∈ before, m.kind ≠ nlmsgDone ∧ m.kind ≠ nlmsgOverrun ∧
          ¬ (m.kind = nlmsgError ∧ 4 ≤ m.payload.length ∧ readI32 .little m.payload ≠ 0) ∧
          ¬ (m.isData ∧ m.interrupted)) ∧
        done.Finishes .little ∧ out = before.filter RawMessage.isData := by
  intro h
  have hcomplete := (h [[⟨nlmsgError, 0, 1, 0, []⟩, ⟨nlmsgDone, 0, 1, 0, [0, 0, 0, 0]⟩]] []).mpr
    ⟨[⟨nlmsgError, 0, 1, 0, []⟩], ⟨nlmsgDone, 0, 1, 0, [0, 0, 0, 0]⟩, [], rfl, by
      intro m hm
      obtain rfl := List.mem_singleton.mp hm
      decide, ⟨rfl, rfl, rfl⟩, rfl⟩
  cases hcomplete

end FluxRs.Netlink
