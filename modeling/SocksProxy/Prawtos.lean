import SocksProxy.Parser.AuthParser
import SocksProxy.Parser.PrawtosParser
import SocksProxy.Socks5
import SocksProxy.UserUtils

/-!
# The management service (`auth_prawtos.c`, `cmd_prawtos.c`, `prawtos.c`)

A connection of the management protocol with what its callbacks reach of the
process, the list of users included. `calls` keeps the entries of the two
tables of handlers that have been called for it.
-/

namespace SocksProxy

/-! ## The connection -/

inductive PrawtosState where
  | authRead
  | authWrite
  | cmdRead
  | cmdWrite
  | done
  | error
  deriving DecidableEq, Repr

def PrawtosState.toNat : PrawtosState → Nat
  | .authRead => 0
  | .authWrite => 1
  | .cmdRead => 2
  | .cmdWrite => 3
  | .done => 4
  | .error => 5

structure AuthSt where
  parser : AuthParser
  status : UInt8
  deriving DecidableEq, Repr

structure CmdPrawtosSt where
  parser : PrawtosParser
  status : PrawtosResponseStatus
  args : List UInt8
  nargs : UInt8
  deriving DecidableEq, Repr

/-- The members of the union are kept apart: what a command reads of `cmd` has
been written since its arrival. -/
structure Prawtos where
  stm : StateMachine
  clientFd : Int
  auth : AuthSt
  cmd : CmdPrawtosSt
  readBuffer : Buffer
  writeBuffer : Buffer

/-- An entry of `get_handlers` or of `user_handlers`. -/
inductive HandlerEntry where
  | get (i : Nat)
  | user (i : Nat)
  deriving DecidableEq, Repr

structure PrawtosRecord extends Prawtos where
  self : Nat
  freed : Bool
  log : List Syscall
  calls : List HandlerEntry

structure PrawtosConn extends PrawtosRecord, Process where
  users : List User

/-- What the system answers to the calls of one callback, and the heap then. -/
structure PrawtosAnswers where
  recv : RecvAnswer
  send : SendAnswer
  heap : Heap

structure PrawtosKey where
  fd : Int
  sys : PrawtosAnswers

structure PrawtosEvent where
  fd : Nat
  ready : Readiness
  sys : PrawtosAnswers

namespace PrawtosConn

variable (c : PrawtosConn)

def note (s : Syscall) : PrawtosConn := { c with log := c.log ++ [s] }

def setInterest (fd : Int) (i : FdInterest) : PrawtosConn × SelectorStatus :=
  let r := selectorSetInterest c.sel fd i
  ({ c with sel := r.1 }, r.2)

def close (fd : Int) : PrawtosConn := { c.note (.close fd) with openFds := c.openFds.erase fd }

end PrawtosConn

/-! ## Authentication -/

def authPrawtosInit (_ : PrawtosKey) (c : PrawtosConn) : PrawtosConn := { c with auth.parser := authParserInit }

def checkCredentials (h : Heap) (c : PrawtosConn) : UInt8 :=
  let a := c.auth.parser.credentials
  if userCheckCredentials h c.users a.unamePtr a.passwdPtr = 0 then authSuccess else authBadCredentials

def authPrawtosProcess (h : Heap) (c : PrawtosConn) : PrawtosConn × PrawtosState :=
  let status := checkCredentials h c
  let r := authMarshal c.writeBuffer status
  ({ c with writeBuffer := r.1, auth.status := status }, if r.2 = -1 then .error else .authWrite)

/-- The rest of `auth_prawtos_read`, once the bytes received have been consumed. -/
def authPrawtosConsumed (k : PrawtosKey) (c : PrawtosConn) : PrawtosConn × PrawtosState :=
  let r : PrawtosConn × PrawtosState :=
    if (authIsDone c.auth.parser.state).1 then
      match c.setInterest k.fd opWrite with
      | (c, .success) => authPrawtosProcess k.sys.heap c
      | (c, _) => (c, .error)
    else (c, .authRead)
  (r.1, if (authIsDone c.auth.parser.state).2 then .error else r.2)

def authPrawtosRead (k : PrawtosKey) (c : PrawtosConn) : PrawtosConn × PrawtosState :=
  match recvInto c.readBuffer k.sys.recv with
  | none => (c.note (.recv k.fd none), .error)
  | some (l, b) =>
    let c := c.note (.recv k.fd (some l))
    if l = [] then (c, .error)
    else
      let r := authConsume b c.auth.parser
      authPrawtosConsumed k { c with readBuffer := r.1, auth.parser := r.2 }

def authPrawtosWrite (k : PrawtosKey) (c : PrawtosConn) : PrawtosConn × PrawtosState :=
  match sendFrom c.writeBuffer k.sys.send with
  | none => (c.note (.send k.fd none), if c.auth.status ≠ authSuccess then .error else .authWrite)
  | some (l, b) =>
    let c := c.note (.send k.fd (some l))
    if c.auth.status ≠ authSuccess then (c, .error)
    else if l = [] then (c, .authWrite)
    else
      let c : PrawtosConn := { c with writeBuffer := b }
      if bufferCanRead c.writeBuffer then (c, .authWrite)
      else
        match c.setInterest k.fd opRead with
        | (c, .success) => (c, .cmdRead)
        | (c, _) => (c, .error)

/-! ## The handlers of commands -/

abbrev CmdOptions := Heap → PrawtosConn → Except Fault (PrawtosConn × Nat)

/-- What the handlers of GET end with: the arguments go to a new block. -/
def getAnswer (nargs : UInt8) (args : List UInt8) : CmdOptions := fun h c =>
  if h.allocates then .ok ({ c with cmd.args := args, cmd.nargs := nargs, cmd.status := .success }, args.length)
  else .error .wildPointer

def bytesSent : CmdOptions := fun h c =>
  let bytes := (getBytesSent c.stats).toNat
  getAnswer 0x01
    [0x04, UInt8.ofNat (bytes >>> 24), UInt8.ofNat (bytes >>> 16), UInt8.ofNat (bytes >>> 8), UInt8.ofNat bytes] h c

def totalConnections : CmdOptions := fun h c =>
  let connections := (getTotalConnections c.stats).toNat
  getAnswer 0x01 [0x02, UInt8.ofNat (connections >>> 8), UInt8.ofNat connections] h c

def concurrentConnections : CmdOptions := fun h c =>
  let connections := (getConcurrentConnections c.stats).toNat
  getAnswer 0x01 [0x02, UInt8.ofNat (connections >>> 8), UInt8.ofNat connections] h c

def getUsersFunc : CmdOptions := fun h c =>
  getAnswer (UInt8.ofNat (getNusers c.users)) (getAllUsers h c.users) h c

def getHandlers : List CmdOptions := [bytesSent, totalConnections, concurrentConnections, getUsersFunc]

/-- What the handlers of USERS end with. -/
def userAnswer (c : PrawtosConn) (r : List User × Bool) : Except Fault (PrawtosConn × Nat) :=
  .ok ({ c with users := r.1, cmd.status := if r.2 then .success else .userCredentia }, 1)

def createUser : CmdOptions := fun h c =>
  let a := c.cmd.parser.credentials
  let r := addUser h c.users a.unamePtr a.ulen a.passwdPtr a.plen (decide (c.cmd.parser.user.admin ≠ 0))
  if r.2 = true ∧ h.allocates = false then .error .wildPointer else userAnswer c r

def delUser : CmdOptions := fun h c => userAnswer c (deleteUser h c.users c.cmd.parser.credentials.unamePtr)

/-- A block of no octets is freed by `realloc`. -/
def modifyUser : CmdOptions := fun h c =>
  let a := c.cmd.parser.credentials
  let r := editUser h c.users a.unamePtr a.passwdPtr a.plen
  if r.2 = true ∧ (h.allocates = false ∨ a.plen = 0) then .error .wildPointer else userAnswer c r

def userHandlers : List CmdOptions := [createUser, delUser, modifyUser]

/-! ## Commands -/

/-- `parser.type`, `n` and `i` keep what they were. -/
def cmdInit (_ : PrawtosKey) (c : PrawtosConn) : PrawtosConn :=
  { c with cmd.parser := prawtosParserInit c.cmd.parser }

/-- A call through an entry of a table. -/
def invoke (table : List CmdOptions) (entry : Nat → HandlerEntry) (i : UInt8) : CmdOptions := fun h c =>
  match table[i.toNat]? with
  | none => .error .tableOverrun
  | some handler => handler h { c with calls := c.calls ++ [entry i.toNat] }

/-- Only the first argument is checked against the room left. Without
arguments it is whatever the new block holds. -/
def getMarshal (h : Heap) (b : Buffer) (status : PrawtosResponseStatus) (cmd nargs : UInt8) (args : List UInt8) :
    Except Fault (Buffer × Int) :=
  if bufferWritePtr b < (args.headD (h.fresh 0)).toNat + 1 then .ok (b, -1)
  else
    let r := bufferMarshal b (getFrame status cmd nargs args)
    if r.2 = -1 then .error .bufferOverflow else .ok r

def cmdProcess (h : Heap) (c : PrawtosConn) : Except Fault (PrawtosConn × PrawtosState) :=
  if c.cmd.parser.type = 0x00 then
    match invoke getHandlers .get c.cmd.parser.get h c with
    | .error f => .error f
    | .ok (c, _) =>
      match getMarshal h c.writeBuffer c.cmd.status c.cmd.parser.get c.cmd.nargs c.cmd.args with
      | .error f => .error f
      | .ok r => .ok ({ c with writeBuffer := r.1 }, if r.2 = -1 then .error else .cmdWrite)
  else if c.cmd.parser.type = 0x01 then
    match invoke userHandlers .user c.cmd.parser.user.cmd h c with
    | .error f => .error f
    | .ok (c, _) =>
      let r := userMarshal c.writeBuffer c.cmd.status
      .ok ({ c with writeBuffer := r.1 }, if r.2 = -1 then .error else .cmdWrite)
  else if c.cmd.parser.type = 0x03 then
    let c : PrawtosConn := { c with cmd.status := .success }
    let r := quitMarshal c.writeBuffer c.cmd.status
    .ok ({ c with writeBuffer := r.1 }, if r.2 = -1 then .error else .cmdWrite)
  else .ok (c, .error)

/-- The rest of `cmd_read`, once the bytes received have been consumed. -/
def cmdConsumed (k : PrawtosKey) (c : PrawtosConn) : Except Fault (PrawtosConn × PrawtosState) :=
  let error := (prawtosIsDone c.cmd.parser.state).2
  if (prawtosIsDone c.cmd.parser.state).1 then
    match c.setInterest k.fd opWrite with
    | (c, .success) =>
      match cmdProcess k.sys.heap c with
      | .error f => .error f
      | .ok (c, ret) => .ok (c, if error then .error else ret)
    | (c, _) => .ok (c, .error)
  else .ok (c, .cmdRead)

def cmdRead (k : PrawtosKey) (c : PrawtosConn) : Except Fault (PrawtosConn × PrawtosState) :=
  match recvInto c.readBuffer k.sys.recv with
  | none => .ok (c.note (.recv k.fd none), .error)
  | some (l, b) =>
    let c := c.note (.recv k.fd (some l))
    if l = [] then .ok (c, .error)
    else
      let r := prawtosConsume b c.cmd.parser
      cmdConsumed k { c with readBuffer := r.1, cmd.parser := r.2 }

def cmdWrite (k : PrawtosKey) (c : PrawtosConn) : PrawtosConn × PrawtosState :=
  match sendFrom c.writeBuffer k.sys.send with
  | none => (c.note (.send k.fd none), if c.cmd.status = .cmdNotSupported then .error else .cmdWrite)
  | some (l, b) =>
    let c := c.note (.send k.fd (some l))
    if c.cmd.status = .cmdNotSupported then (c, .error)
    else if l = [] then (c, .cmdWrite)
    else if c.cmd.parser.type = 0x03 then (c, .done)
    else
      let c : PrawtosConn := { c with writeBuffer := b }
      if bufferCanRead c.writeBuffer then (c, .cmdWrite)
      else
        match c.setInterest k.fd opRead with
        | (c, .success) => (c, .cmdRead)
        | (c, _) => (c, .error)

/-! ## The state machine -/

def prawtosReturning (f : PrawtosKey → PrawtosConn → PrawtosConn × PrawtosState) :
    PrawtosKey → PrawtosConn → Except Fault (PrawtosConn × Nat) :=
  fun k c => .ok ((f k c).1, (f k c).2.toNat)

def prawtosMayFault (f : PrawtosKey → PrawtosConn → Except Fault (PrawtosConn × PrawtosState)) :
    PrawtosKey → PrawtosConn → Except Fault (PrawtosConn × Nat) :=
  fun k c => (f k c).map fun r => (r.1, r.2.toNat)

def prawtosInitStates : List (StateDefinition PrawtosConn PrawtosKey) :=
  [{ state := PrawtosState.authRead.toNat
     onArrival := some authPrawtosInit
     onReadReady := some (prawtosReturning authPrawtosRead) },
    { state := PrawtosState.authWrite.toNat, onWriteReady := some (prawtosReturning authPrawtosWrite) },
    { state := PrawtosState.cmdRead.toNat
      onArrival := some cmdInit
      onReadReady := some (prawtosMayFault cmdRead) },
    { state := PrawtosState.cmdWrite.toNat, onWriteReady := some (prawtosReturning cmdWrite) },
    { state := PrawtosState.done.toNat },
    { state := PrawtosState.error.toNat }]

def prawtosStm : StateMachine where
  initial := PrawtosState.authRead.toNat
  maxState := PrawtosState.error.toNat
  current := none

theorem stmInit_prawtos :
    stmInit prawtosInitStates PrawtosState.authRead.toNat PrawtosState.error.toNat = some prawtosStm := by
  decide

/-! ## The life of a connection -/

def prawtosBufferSize : Nat := 4096

/-- The structure is zeroed memory. -/
def prawtosArrival (self : Nat) (clientFd : Int) : PrawtosRecord where
  stm := prawtosStm
  clientFd := clientFd
  auth := ⟨⟨⟨.zero, 0, 0⟩, .version⟩, 0⟩
  cmd := ⟨⟨⟨.zero, 0, 0⟩, 0, ⟨0, 0⟩, 0, .type⟩, .success, [], 0⟩
  readBuffer := bufferInit (List.replicate prawtosBufferSize 0)
  writeBuffer := bufferInit (List.replicate prawtosBufferSize 0)
  self := self
  freed := false
  log := [.accept clientFd]
  calls := []

def prawtosDecrease (s : Stadistics) : Stadistics :=
  if 0 < getConcurrentConnections s then stadisticsDecreaseConcurrent s else s

/-- `prawtos_close` is the `handle_close` of the entry. -/
def prawtosClose (data : Option Ptr) (c : PrawtosConn) : PrawtosConn :=
  { c with freed := c.freed || decide (data = some (.prawtos c.self)), stats := prawtosDecrease c.stats }

def prawtosDone (c : PrawtosConn) : Except Fault PrawtosConn :=
  let fd := c.clientFd
  if fd ≠ -1 then
    match selectorUnregisterFd c.sel fd with
    | (sel, .success, item) => .ok ((prawtosClose (item.bind (·.data)) { c with sel := sel }).close fd)
    | _ => .error .unregisterRefused
  else .ok c

/-- `prawtos_read` and `prawtos_write`, after the handler of the machine. -/
def afterPrawtosHandler : Except Fault (StateMachine × PrawtosConn × Nat) → Except Fault PrawtosConn
  | .error f => .error f
  | .ok (m, c, st) =>
    let c : PrawtosConn := { c with stm := m }
    if st = PrawtosState.error.toNat ∨ st = PrawtosState.done.toNat then prawtosDone c else .ok c

def prawtosRead (k : PrawtosKey) (c : PrawtosConn) : Except Fault PrawtosConn :=
  afterPrawtosHandler (stmHandlerRead prawtosInitStates c.stm k c)

def prawtosWrite (k : PrawtosKey) (c : PrawtosConn) : Except Fault PrawtosConn :=
  afterPrawtosHandler (stmHandlerWrite prawtosInitStates c.stm k c)

/-- `prawtos_passive_accept`: `nio` is whether the descriptor becomes
non-blocking, `memory` the address `malloc` gives. The connection, or what is
left of the process without it. -/
def prawtosPassiveAccept (p : Process) (users : List User) (fd : Option Nat) (nio : Bool) (memory : Option Nat) :
    Process ⊕ PrawtosConn :=
  let refused : Process := { p with stats := prawtosDecrease p.stats }
  match fd, nio, memory with
  | some fd, true, some self =>
    let r := selectorRegister p.sel fd (some Handler.prawtos) opRead (some (.prawtos self)) true
    if r.2 = .success then
      .inr
        { toPrawtosRecord := prawtosArrival self fd, sel := r.1, stats := stadisticsIncreaseConcurrent p.stats,
          openFds := (fd : Int) :: p.openFds, users := users }
    else .inl { refused with sel := r.1 }
  | _, _, _ => .inl refused

/-! ## Events -/

def PrawtosSelects (c : PrawtosConn) (e : PrawtosEvent) : Prop :=
  let item := c.sel.fds e.fd
  item.used = true ∧ item.data = some (.prawtos c.self) ∧ item.handler = some .prawtos ∧
    item.interest.has e.ready = true

instance (c : PrawtosConn) (e : PrawtosEvent) : Decidable (PrawtosSelects c e) := by
  unfold PrawtosSelects; infer_instance

def PrawtosEvent.key (e : PrawtosEvent) : PrawtosKey := ⟨e.fd, e.sys⟩

def prawtosDispatch (c : PrawtosConn) (e : PrawtosEvent) : Except Fault PrawtosConn :=
  if PrawtosSelects c e then
    if c.freed then .error .useAfterFree
    else
      match e.ready with
      | .read => prawtosRead e.key c
      | .write => prawtosWrite e.key c
  else .ok c

/-- An event of the connection, or between two of them an action of the rest
of the process; other connections can change the list of users. -/
inductive PrawtosStep where
  | event (e : PrawtosEvent)
  | other (fd : Int) (a : Action)
  | users (l : List User)

def prawtosStep (c : PrawtosConn) : PrawtosStep → Except Fault PrawtosConn
  | .event e => prawtosDispatch c e
  | .other fd a =>
    .ok (if (c.freed = false ∧ fd = c.clientFd) ∨ a.data = some (.prawtos c.self) then c
      else { c with toProcess := c.toProcess.act fd a })
  | .users l => .ok { c with users := l }

/-- A connection just accepted, as `Accepted` is one of a client. -/
structure PrawtosAccepted where
  process : Process
  users : List User
  self : Nat
  fd : Nat
  fd_lt : fd < fdSetsize
  fd_new : (fd : Int) ∉ process.openFds
  fdSize_lt : fdSetsize < process.sel.fdSize
  unused : (process.sel.fds fd).used = false
  unknown : ∀ n, (process.sel.fds n).used = true → (process.sel.fds n).data ≠ some (.prawtos self)

def PrawtosAccepted.conn (a : PrawtosAccepted) : PrawtosConn where
  toPrawtosRecord := prawtosArrival a.self a.fd
  sel := (selectorRegister a.process.sel a.fd (some Handler.prawtos) opRead (some (.prawtos a.self)) true).1
  stats := stadisticsIncreaseConcurrent a.process.stats
  openFds := (a.fd : Int) :: a.process.openFds
  users := a.users

/-- The first connection of a proxy that has only just started. -/
def firstPrawtosAccepted : PrawtosAccepted where
  process := firstAccepted.process
  users := initUserList zeroHeap
  self := 0
  fd := 5
  fd_lt := firstAccepted.fd_lt
  fd_new := firstAccepted.fd_new
  fdSize_lt := firstAccepted.fdSize_lt
  unused := rfl
  unknown := fun _ h => absurd h Bool.false_ne_true

/-- A read event on which `recv` gives `l`, and a write event on which `send`
takes up to `n` bytes. -/
def prawtosReads (fd : Nat) (l : List UInt8) : PrawtosEvent := ⟨fd, .read, ⟨.data l, .error, zeroHeap⟩⟩
def prawtosWrites (fd n : Nat) : PrawtosEvent := ⟨fd, .write, ⟨.error, .accepted n, zeroHeap⟩⟩

/-- The first user that `init_user_list` adds. -/
def admin2 : Name := ⟨admin2Literal.take 6, by decide⟩
def alggo2 : Name := ⟨alggo2Literal.take 6, by decide⟩

/-- The authentication of that user. -/
def adminEvents : List PrawtosStep :=
  [.event (prawtosReads 5 (authMessage admin2 alggo2)), .event (prawtosWrites 5 2)]

end SocksProxy
