import SocksProxy.Copy
import SocksProxy.Hello
import SocksProxy.Lib.Run
import SocksProxy.Request

/-!
# Sessions in the process (`stm_initialize.c`, `socks5.c`)

The table of the session machine, the life of a session from `accept` to
`close_session`, and `step`: one event on one of its descriptors, or one
action of the rest of the process between two such events.
-/

namespace SocksProxy

/-! ## The state machine of a session -/

/-- A callback that cannot fault. -/
def returning (f : Key → Conn → Conn × SessionState) : Key → Conn → Except Fault (Conn × Nat) :=
  fun k c => .ok ((f k c).1, (f k c).2.toNat)

def mayFault (f : Key → Conn → Except Fault (Conn × SessionState)) : Key → Conn → Except Fault (Conn × Nat) :=
  fun k c => (f k c).map fun r => (r.1, r.2.toNat)

def helloStateDef : StateDefinition Conn Key where
  state := SessionState.helloRead.toNat
  onArrival := some helloArrival
  onReadReady := some (returning helloRead)

def helloWriteStateDef : StateDefinition Conn Key where
  state := SessionState.helloWrite.toNat
  onWriteReady := some (returning helloWrite)

def requestReadStateDef : StateDefinition Conn Key where
  state := SessionState.requestRead.toNat
  onArrival := some requestArrival
  onReadReady := some (returning requestRead)

def requestConnectingStateDef : StateDefinition Conn Key where
  state := SessionState.requestConnecting.toNat
  onArrival := some requestConnectingArrival
  onWriteReady := some (returning requestConnecting)

def requestWriteStateDef : StateDefinition Conn Key where
  state := SessionState.requestWrite.toNat
  onWriteReady := some (returning requestWrite)

def copyStateDef : StateDefinition Conn Key where
  state := SessionState.copy.toNat
  onArrival := some copyArrival
  onReadReady := some (mayFault copyRead)
  onWriteReady := some (mayFault copyWrite)

def errorStateDef : StateDefinition Conn Key where
  state := SessionState.error.toNat

def doneStateDef : StateDefinition Conn Key where
  state := SessionState.done.toNat

/-- `session_state_def` as `stm_map` fills it. -/
def sessionStateDef : List (StateDefinition Conn Key) :=
  [helloStateDef, helloWriteStateDef, requestReadStateDef, requestConnectingStateDef, requestWriteStateDef,
    copyStateDef, errorStateDef, doneStateDef]

def stmCreate : StateMachine where
  initial := SessionState.helloRead.toNat
  maxState := SessionState.done.toNat
  current := none

theorem stmInit_session :
    stmInit sessionStateDef SessionState.helloRead.toNat SessionState.done.toNat = some stmCreate := by
  decide

/-! ## New connections -/

def inputBufferSize : Nat := 100
def outputBufferSize : Nat := 100

/-- What `malloc` gives: the address of the session and its two blocks, with
whatever they hold. -/
structure Allocation where
  session : Nat
  input : List UInt8
  output : List UInt8
  length_input : input.length = inputBufferSize
  length_output : output.length = outputBufferSize

/-- All other bytes of the session are 05; a `request_st` is written on
arrival in REQUEST_READ before it is read. -/
def initializeSession (a : Allocation) : Session where
  sMachine := stmCreate
  input := bufferInit a.input
  output := bufferInit a.output
  clientFd := 0x05050505
  server := ⟨0x05050505, 0x05050505, ⟨0x0505, [5, 5], List.replicate 4 5⟩, 0x05050505⟩
  sniff := Pop3Sniff.fill
  hello := ⟨helloParserInit, 5⟩
  request := ⟨⟨Request.zero, .version, 5, 5⟩, .generalSocksServerFailure, 0x05050505⟩
  clientCopy := opReadWrite
  serverCopy := opReadWrite

/-- `new_connection_ipv4` and `new_connection_ipv6`, once there is memory for
the session. The status of the registration is not looked at. -/
def newConnection (p : Process) (a : Allocation) (fd : Int) : Conn :=
  let s : Session := { initializeSession a with clientFd := fd, server.fd := -1 }
  let openFds := if fd = -1 then p.openFds else fd :: p.openFds
  let c : Conn :=
    { toSession := s, self := a.session, freed := false, log := [.accept fd], sel := p.sel, stats := p.stats,
      openFds := openFds }
  let (c, _) := c.register fd .client opRead
  { c with stats := stadisticsIncreaseConcurrent c.stats }

/-! ## Events -/

def clientClose (c : Conn) : Conn := { (c.close c.clientFd).1 with freed := true }

/-- `client_close` is the `handle_close` of the entry. `client.fd` is read
again after the session has been freed. -/
def closeSession (c : Conn) : Conn :=
  let (sel, _, item) := selectorUnregisterFd c.sel c.clientFd
  let c : Conn := if (item.bind (·.data)) = some (.session c.self) then clientClose c else c
  let c : Conn := { c with sel := sel }
  let c : Conn :=
    if 0 < getConcurrentConnections c.stats then { c with stats := stadisticsDecreaseConcurrent c.stats } else c
  (c.close c.clientFd).1

/-- `client_read` and `client_write`, after the handler of the machine. -/
def afterHandler : Except Fault (StateMachine × Conn × Nat) → Except Fault Conn
  | .error f => .error f
  | .ok (m, c, st) =>
    let c : Conn := { c with sMachine := m }
    .ok (if st = SessionState.error.toNat ∨ st = SessionState.done.toNat then closeSession c else c)

def clientRead (k : Key) (c : Conn) : Except Fault Conn :=
  afterHandler (stmHandlerRead sessionStateDef c.sMachine k c)

def clientWrite (k : Key) (c : Conn) : Except Fault Conn :=
  afterHandler (stmHandlerWrite sessionStateDef c.sMachine k c)

/-- Whether the selector calls the session for the event. -/
def Selects (c : Conn) (e : Event) : Prop :=
  let item := c.sel.fds e.fd
  item.used = true ∧ item.data = some (.session c.self) ∧ item.handler = some .client ∧
    item.interest.has e.ready = true

instance (c : Conn) (e : Event) : Decidable (Selects c e) := by unfold Selects; infer_instance

def Event.key (e : Event) : Key := ⟨e.fd, e.sys⟩

def dispatch (c : Conn) (e : Event) : Except Fault Conn :=
  if Selects c e then
    if c.freed then .error .useAfterFree
    else
      match e.ready with
      | .read => clientRead e.key c
      | .write => clientWrite e.key c
  else .ok c

/-! ## The rest of the process -/

/-- What other connections do with a descriptor, or with the counters. -/
inductive Action where
  | opened
  | closed
  | register (h : Handler) (i : FdInterest) (data : Ptr)
  | setInterest (i : FdInterest)
  | unregister
  | count (s : Stadistics)

def Action.data : Action → Option Ptr
  | .register _ _ d => some d
  | _ => none

def Process.act (p : Process) (fd : Int) : Action → Process
  | .opened => if fd ∈ p.openFds then p else { p with openFds := fd :: p.openFds }
  | .closed => { p with openFds := p.openFds.erase fd }
  | .register h i d => { p with sel := (selectorRegister p.sel fd (some h) i (some d) true).1 }
  | .setInterest i => { p with sel := (selectorSetInterest p.sel fd i).1 }
  | .unregister => { p with sel := (selectorUnregisterFd p.sel fd).1 }
  | .count s => { p with stats := s }

/-- The descriptors only the session acts on. The origin's stays open after
the session has been freed. -/
def Record.Owns (c : Record) (fd : Int) : Prop := (c.freed = false ∧ fd = c.clientFd) ∨ fd = c.server.fd

instance (c : Record) (fd : Int) : Decidable (c.Owns fd) := by unfold Record.Owns; infer_instance

inductive Step where
  | event (e : Event)
  | other (fd : Int) (a : Action)

def step (c : Conn) : Step → Except Fault Conn
  | .event e => dispatch c e
  | .other fd a =>
    .ok (if c.Owns fd ∨ a.data = some (.session c.self) then c else { c with toProcess := c.toProcess.act fd a })

/-- A connection just accepted: the system's descriptor is a new one, and the
selector has room for it and knows nothing of the session. `unknown` is more
than `malloc` promises: `close_session` frees a session whose origin stays
registered, and an address that such a registration still carries is left
out, for the events of the old origin would come to the new session. -/
structure Accepted where
  process : Process
  memory : Allocation
  fd : Nat
  fd_lt : fd < fdSetsize
  fd_new : (fd : Int) ∉ process.openFds
  fdSize_lt : fdSetsize < process.sel.fdSize
  unused : (process.sel.fds fd).used = false
  unknown : ∀ n, (process.sel.fds n).used = true → (process.sel.fds n).data ≠ some (.session memory.session)

def Accepted.conn (a : Accepted) : Conn := newConnection a.process a.memory a.fd

/-- The first connection of a proxy that has only just started. -/
def firstAccepted : Accepted where
  process :=
    { sel := ⟨fun _ => .blank, fdSetsize + 1, 0, fun _ => false, fun _ => false, fun _ => false, fun _ => false⟩
      stats := stadisticsInit
      openFds := [0, 1, 2, 3, 4] }
  memory := ⟨0, List.replicate 100 0, List.replicate 100 0, List.length_replicate, List.length_replicate⟩
  fd := 5
  fd_lt := by decide
  fd_new := by decide
  fdSize_lt := by decide
  unused := rfl
  unknown := fun _ h => absurd h Bool.false_ne_true

/-- A read event on which `recv` gives `l`, and on which the other calls answer `sys`. -/
def reads (fd : Nat) (l : List UInt8) (sys : Answers) : Step := .event ⟨fd, .read, { sys with recv := .data l }⟩

/-- A write event on which `send` takes up to `n` bytes. -/
def writes (fd n : Nat) (sys : Answers) : Step := .event ⟨fd, .write, { sys with send := .accepted n }⟩

/-- The answers to a connection attempt that ends with `SO_ERROR` set to `error`. -/
def connectAnswers (error : Nat) : Answers :=
  { Answers.failed with socket := some 8, fcntl := true, connect := some EINPROGRESS, getsockopt := some error }

end SocksProxy
