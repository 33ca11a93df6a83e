import FluxRs.Daemon.Supervisor
import FluxRs.Lib.Words
import Mathlib.Data.List.Sort
import Mathlib.Logic.Function.Basic

/-!
# FluxRs.Daemon.Sessions — the control socket: one request, one answer

The control connections of `crates/fluxd/src/reactor.rs` with `crates/fluxd/src/control.rs`.  Between two system calls
of one connection anything may happen to the others; what the reactor does to the connections that wait is an event
of its own.  The content of a response and the JSON of a request are parameters.
-/

namespace FluxRs.Control

open FluxRs.Lib Supervisor

/-- The largest request that is read. -/
def MAX_REQUEST_BYTES : ℕ := 64 * 1024

def TOK_CONTROL_CONN_BASE : ℕ := 1024

/-- For a request to arrive, and for an answer to leave. -/
def CONTROL_TIMEOUT : ℕ := 2 * SECOND

/-- For an answer that waits for a convergence. -/
def CONTROL_CONVERGE_TIMEOUT : ℕ := 20 * SECOND

/-- For an answer that waits for a fetch. -/
def CONTROL_SUBSCRIBE_TIMEOUT : ℕ := 120 * SECOND

def MAX_CONTROL_CONNECTIONS : ℕ := 32

/-- What a client asks for. -/
inductive Request where
  | status
  | check
  | enable
  | disable
  | reload
  | subscribe
  | stop
  deriving DecidableEq

/-- A request that may be answered when the work it has started is over. -/
def Request.waits : Request → Bool
  | .enable | .disable | .reload | .subscribe => true
  | .status | .check | .stop => false

/-- An accepted connection: its number among all, and the time it was accepted at. -/
structure Conn where
  id : ℕ
  since : ℕ
  deriving DecidableEq

section Server

variable {ρ : Type}

/-- Where a connection stands. -/
inductive PendingControl (ρ : Type) where
  | reading (conn : Conn) (deadline : ℕ)
  | writing (conn : Conn) (response : ρ) (deadline : ℕ) (stopAfter : Bool)
  | converging (conn : Conn) (deadline : ℕ)
  | subscribing (conn : Conn) (deadline : ℕ)
  deriving DecidableEq

/-- The connection, wherever it stands. -/
def PendingControl.conn : PendingControl ρ → Conn
  | .reading conn _ | .writing conn _ _ _ | .converging conn _ | .subscribing conn _ => conn

/-- Until when the connection may stay where it stands. -/
def PendingControl.deadline : PendingControl ρ → ℕ
  | .reading _ deadline | .writing _ _ deadline _ | .converging _ deadline | .subscribing _ deadline => deadline

/-- What happens on one connection. -/
inductive Effect (ρ : Type) where
  | accepted
  /-- A request is taken off the connection and executed. -/
  | request (request : Request)
  /-- The response for the connection is fixed. -/
  | answer (response : ρ)
  /-- The frame has gone out. -/
  | reply (response : ρ)
  deriving DecidableEq

/-- The control connections of the reactor.  `accepted` and `told` only grow, and no function reads what is told. -/
structure Server (ρ : Type) where
  conns : List (ℕ × PendingControl ρ)
  nextToken : ℕ
  /-- When the control timer fires. -/
  timer : Option ℕ
  accepted : ℕ
  told : ℕ → List (Effect ρ)

/-- No connection has been accepted. -/
def Server.new : Server ρ := ⟨[], TOK_CONTROL_CONN_BASE, none, 0, fun _ => []⟩

/-! ### What the kernel answers -/

/-- What one read of the socket brings. -/
inductive Recv where
  | frame (bytes : List U8)
  | wouldBlock
  | failed
  deriving DecidableEq

/-- What one write to the socket comes to. -/
inductive Sent where
  | ok
  | wouldBlock
  | failed
  deriving DecidableEq

/-- A response that is made for a connection, and how its first send ends. -/
structure Outgoing (ρ : Type) where
  response : ρ
  send : Sent
  /-- `epoll_mod_events` for a send that would block. -/
  watch : Bool
  /-- The clock, where a new deadline is taken. -/
  clock : ℕ

/-- One call of `complete_waiting_controls`. -/
structure Completion (ρ : Type) where
  subscription : Bool
  out : ℕ → Outgoing ρ

/-- What one connection meets when it is advanced. -/
structure Answers (ρ : Type) where
  recv : Recv
  /-- The completions of other connections while the request is executed. -/
  inside : List (Completion ρ)
  /-- The work that the request asks for is not over. -/
  busy : Bool
  out : Outgoing ρ

/-- One connection of the backlog, and what is met with it. -/
structure Peer (ρ : Type) where
  allowed : Bool
  watched : Bool
  clock : ℕ
  answers : Answers ρ

/-! ### The table -/

/-- `BTreeMap::insert`. -/
def Server.insert (token : ℕ) (pending : PendingControl ρ) (s : Server ρ) : Server ρ :=
  { s with conns :=
      (s.conns.filter fun c => c.1 ≠ token).orderedInsert (fun c d => c.1 ≤ d.1) (token, pending) }

/-- The connection is taken out of the table. -/
def Server.remove (token : ℕ) (s : Server ρ) : Server ρ := { s with conns := s.conns.filter fun c => c.1 ≠ token }

/-- The connection under a token. -/
def Server.find (token : ℕ) (s : Server ρ) : Option (PendingControl ρ) :=
  (s.conns.find? fun c => c.1 = token).map Prod.snd

/-- An effect is added to the log of its connection. -/
def Server.note (conn : Conn) (effect : Effect ρ) (s : Server ρ) : Server ρ :=
  { s with told := Function.update s.told conn.id (s.told conn.id ++ [effect]) }

/-- `rearm_control_timer`. -/
def rearmControlTimer (s : Server ρ) : Server ρ := { s with timer := (s.conns.map fun c => c.2.deadline).min? }

/-- `checked_add`, and back to the base. -/
def tokenAfter (token : ℕ) : ℕ :=
  if token < 18446744073709551615 then
    if TOK_CONTROL_CONN_BASE ≤ token + 1 then token + 1 else TOK_CONTROL_CONN_BASE
  else TOK_CONTROL_CONN_BASE

/-! ### Sending -/

/-- `send_response`: whether the connection is done with, for a response that keeps its deadline if it has to wait. -/
def deliver (send : Sent) (watch : Bool) (token : ℕ) (conn : Conn) (response : ρ) (deadline : ℕ) (stopAfter : Bool)
    (s : Server ρ) : Bool × Server ρ :=
  match send with
  | .ok => (true, s.note conn (.reply response))
  | .wouldBlock =>
    if watch then (false, s.insert token (.writing conn response deadline stopAfter)) else (true, s)
  | .failed => (true, s)

/-- The response of a connection that is in no table is fixed and sent. -/
def respond (out : Outgoing ρ) (token : ℕ) (conn : Conn) (deadline : ℕ) (stopAfter : Bool) (s : Server ρ) :
    Bool × Server ρ :=
  deliver out.send out.watch token conn out.response deadline stopAfter (s.note conn (.answer out.response))

/-! ### Completions -/

/-- The connection waits for this kind of work. -/
def PendingControl.waitsFor (subscription : Bool) : PendingControl ρ → Bool
  | .subscribing _ _ => subscription
  | .converging _ _ => !subscription
  | _ => false

/-- One turn of the loop over the tokens that were found. -/
def completeOne (c : Completion ρ) (s : Server ρ) (token : ℕ) : Server ρ :=
  match s.find token with
  | some (.converging conn deadline) | some (.subscribing conn deadline) =>
    (respond (c.out token) token conn deadline false (s.remove token)).2
  | some _ => s.remove token
  | none => s

/-- All connections that wait for this kind of work are answered. -/
def completeWaitingControls (c : Completion ρ) (s : Server ρ) : Server ρ :=
  ((s.conns.filter fun d => d.2.waitsFor c.subscription).map Prod.fst).foldl (completeOne c) s

/-- `complete_convergence_controls`; `idle` says that no fetch and no convergence is under way. -/
def completeConvergenceControls (converged subscribed : ℕ → Outgoing ρ) (idle : Bool) (s : Server ρ) : Server ρ :=
  let s := completeWaitingControls ⟨false, converged⟩ s
  rearmControlTimer (if idle then completeWaitingControls ⟨true, subscribed⟩ s else s)

/-! ### Connections -/

variable (decode : List U8 → Option Request)

/-- `recv_request` into a buffer that is one byte longer than a request may be. -/
def recvRequest (recv : Recv) : Recv ⊕ Request :=
  match recv with
  | .frame bytes =>
    let read := bytes.take (MAX_REQUEST_BYTES + 1)
    if MAX_REQUEST_BYTES < read.length then .inl .failed
    else
      match decode read with
      | some request => .inr request
      | none => .inl .failed
  | recv => .inl recv

/-- `dispatch_request`: the response, unless the request waits. -/
def dispatchRequest (a : Answers ρ) (request : Request) (s : Server ρ) : Option (Outgoing ρ) × Server ρ :=
  (if request.waits && a.busy then none else some a.out, a.inside.foldl (fun s c => completeWaitingControls c s) s)

/-- A request that is executed on a connection taken out of the table. -/
def execute (a : Answers ρ) (token : ℕ) (conn : Conn) (deadline : ℕ) (request : Request) (s : Server ρ) :
    Bool × Server ρ :=
  let (response, s) := dispatchRequest a request (s.note conn (.request request))
  match response with
  | none =>
    let pending :=
      if request = .subscribe then PendingControl.subscribing conn (a.out.clock + CONTROL_SUBSCRIBE_TIMEOUT)
      else .converging conn (a.out.clock + CONTROL_CONVERGE_TIMEOUT)
    (false, s.insert token pending)
  | some out =>
    let (gone, s) := respond out token conn deadline (request = .stop) s
    (gone && decide (request = .stop), s)

/-- `handle_control_connection`: whether a stop request is answered, or given up. -/
def handleControlConnection (a : Answers ρ) (token : ℕ) (s : Server ρ) : Bool × Server ρ :=
  match s.find token with
  | none => (false, s)
  | some pending =>
    let taken := s.remove token
    let (stop, s) :=
      match pending with
      | .reading conn deadline =>
        match recvRequest decode a.recv with
        | .inr request => execute a token conn deadline request taken
        | .inl .wouldBlock => (false, taken.insert token (.reading conn deadline))
        | .inl _ => (false, taken)
      | .writing conn response deadline stopAfter =>
        let (gone, s) := deliver a.out.send true token conn response deadline stopAfter taken
        (gone && stopAfter, s)
      | .converging conn deadline => (false, taken.insert token (.converging conn deadline))
      | .subscribing conn deadline => (false, taken.insert token (.subscribing conn deadline))
    (stop, rearmControlTimer s)

/-- A connection that the loop takes. -/
def acceptConn (clock : ℕ) (s : Server ρ) : ℕ × Server ρ :=
  let conn : Conn := ⟨s.accepted, clock⟩
  let opened := { s with nextToken := tokenAfter s.nextToken, accepted := s.accepted + 1 }
  (s.nextToken, rearmControlTimer
    ((opened.note conn .accepted).insert s.nextToken (.reading conn (clock + CONTROL_TIMEOUT))))

/-- `handle_control`. -/
def handleControl : List (Peer ρ) → Server ρ → Bool × Server ρ
  | [], s => (false, s)
  | peer :: peers, s =>
    if !peer.allowed then handleControl peers s
    else if MAX_CONTROL_CONNECTIONS ≤ s.conns.length then handleControl peers s
    else if !peer.watched then handleControl peers { s with nextToken := tokenAfter s.nextToken }
    else
      let (token, s) := acceptConn peer.clock s
      match handleControlConnection decode peer.answers token s with
      | (true, s) => (true, s)
      | (false, s) => handleControl peers s

/-! ### Deadlines -/

/-- A deadline has passed: who waits for work is answered, and who is slow is dropped. -/
def expireOne (out : ℕ → Outgoing ρ) (s : Server ρ) (token : ℕ) : Server ρ :=
  match s.find token with
  | some (.converging conn _) | some (.subscribing conn _) =>
    (respond (out token) token conn ((out token).clock + CONTROL_TIMEOUT) false (s.remove token)).2
  | some _ => s.remove token
  | none => s

/-- The timer has fired. -/
def expireControlConnections (now : ℕ) (out : ℕ → Outgoing ρ) (s : Server ρ) : Server ρ :=
  rearmControlTimer (((s.conns.filter fun c => c.2.deadline ≤ now).map Prod.fst).foldl (expireOne out) s)

/-! ### Runs -/

/-- What the loop handles for the control socket. -/
inductive Event (ρ : Type) where
  | accept (peers : List (Peer ρ))
  | ready (token : ℕ) (answers : Answers ρ)
  | timeout (clock : ℕ) (out : ℕ → Outgoing ρ)
  | complete (c : Completion ρ)
  | converged (converged subscribed : ℕ → Outgoing ρ) (idle : Bool)

/-- One event, and whether the loop is told to stop. -/
def handle (ev : Event ρ) (s : Server ρ) : Bool × Server ρ :=
  match ev with
  | .accept peers => handleControl decode peers s
  | .ready token answers => handleControlConnection decode answers token s
  | .timeout clock out => (false, expireControlConnections clock out s)
  | .complete c => (false, completeWaitingControls c s)
  | .converged converged subscribed idle => (false, completeConvergenceControls converged subscribed idle s)

/-- An event with the time at which it is taken. -/
def step (s : Server ρ) (ev : ℕ × Event ρ) : Server ρ := (handle decode ev.2 s).2

end Server

end FluxRs.Control
