import SocksProxy.Parser.HelloParser
import SocksProxy.Parser.RequestParser
import SocksProxy.Pop3sniff
import SocksProxy.Selector
import SocksProxy.Stadistics

/-!
# Sessions and system calls (`socks5utils.h`)

`Conn` is a session together with what its callbacks reach of the process: the
selector, the counters and the open descriptors. The answers of the system
calls come with each event; the calls are logged, and what has been sent and
received on a descriptor is read off the log.
-/

namespace SocksProxy

/-! ## System calls -/

inductive RecvAnswer where
  | error
  | data (l : List UInt8)
  deriving DecidableEq, Repr

inductive SendAnswer where
  | error
  | accepted (n : Nat)
  deriving DecidableEq, Repr

/-- What the system answers to the calls of one callback: `socket` a
descriptor, `connect` no error or an `errno`, `getsockopt` the value of
`SO_ERROR` unless the call itself fails. -/
structure Answers where
  recv : RecvAnswer
  send : SendAnswer
  socket : Option Nat
  fcntl : Bool
  connect : Option Nat
  getsockopt : Option Nat
  deriving DecidableEq, Repr

/-- Every call fails. -/
def Answers.failed : Answers := ⟨.error, .error, none, false, none, none⟩

inductive Shutdown where
  | rd
  | wr
  deriving DecidableEq, Repr

inductive Syscall where
  | accept (fd : Int)
  | recv (fd : Int) (bytes : Option (List UInt8))
  | send (fd : Int) (bytes : Option (List UInt8))
  | socket (domain : Nat) (fd : Int)
  | connect (fd : Int) (address : SockAddr) (addressLen : Nat) (errno : Option Nat)
  | getsockopt (fd : Int) (error : Option Nat)
  | shutdown (fd : Int) (how : Shutdown)
  | close (fd : Int)
  deriving DecidableEq, Repr

/-- The descriptor of a call. -/
def Syscall.on : Syscall → Int
  | .accept fd | .recv fd _ | .send fd _ | .socket _ fd | .connect fd _ _ _ | .getsockopt fd _ | .shutdown fd _
  | .close fd => fd

def Syscall.receivedOn (fd : Int) : Syscall → List UInt8
  | .recv fd' (some l) => if fd' = fd then l else []
  | _ => []

def Syscall.sentOn (fd : Int) : Syscall → List UInt8
  | .send fd' (some l) => if fd' = fd then l else []
  | _ => []

def receivedOn (fd : Int) (log : List Syscall) : List UInt8 := log.flatMap (Syscall.receivedOn fd)

def sentOn (fd : Int) (log : List Syscall) : List UInt8 := log.flatMap (Syscall.sentOn fd)

@[simp] theorem receivedOn_append (fd : Int) (l l' : List Syscall) :
    receivedOn fd (l ++ l') = receivedOn fd l ++ receivedOn fd l' := List.flatMap_append

@[simp] theorem sentOn_append (fd : Int) (l l' : List Syscall) :
    sentOn fd (l ++ l') = sentOn fd l ++ sentOn fd l' := List.flatMap_append

@[simp] theorem receivedOn_singleton (fd : Int) (s : Syscall) : receivedOn fd [s] = s.receivedOn fd := by
  simp [receivedOn]

@[simp] theorem sentOn_singleton (fd : Int) (s : Syscall) : sentOn fd [s] = s.sentOn fd := by
  simp [sentOn]

/-- `recv` into the write pointer of a buffer, followed by `buffer_write_adv`:
the bytes received and the buffer after; no bytes are an end of stream. -/
def recvInto (b : Buffer) : RecvAnswer → Option (List UInt8 × Buffer)
  | .error => none
  | .data l =>
    let chunk : Chunk (bufferWritePtr b) := ⟨l.take (bufferWritePtr b), List.length_take_le _ _⟩
    some (chunk.1, bufferFill b chunk)

/-- `send` from the read pointer of a buffer, followed by `buffer_read_adv`:
the bytes sent and the buffer after. -/
def sendFrom (b : Buffer) : SendAnswer → Option (List UInt8 × Buffer)
  | .error => none
  | .accepted n =>
    let m := min n (bufferReadPtr b).length
    some ((bufferReadPtr b).take m, bufferReadAdv b m (Nat.min_le_right _ _))

theorem recvInto_some {b b' : Buffer} {a : RecvAnswer} {l : List UInt8} (h : recvInto b a = some (l, b')) :
    b'.unread = b.unread ++ l ∧ b'.limit = b.limit ∧ l.length ≤ bufferWritePtr b := by
  cases a with
  | error => simp [recvInto] at h
  | data d =>
    simp only [recvInto, Option.some.injEq, Prod.mk.injEq] at h
    obtain ⟨rfl, rfl⟩ := h
    exact ⟨unread_fill b _, limit_fill b _, List.length_take_le _ _⟩

/-- What arrives is received whole if there is room for it. -/
theorem recvInto_fits {b : Buffer} {l : List UInt8} (h : l.length ≤ bufferWritePtr b) :
    recvInto b (.data l) = some (l, bufferFill b ⟨l, h⟩) := by
  simp only [recvInto, List.take_of_length_le h]

theorem sendFrom_some {b b' : Buffer} {a : SendAnswer} {l : List UInt8} (h : sendFrom b a = some (l, b')) :
    b.unread = l ++ b'.unread ∧ b'.limit = b.limit := by
  cases a with
  | error => simp [sendFrom] at h
  | accepted n =>
    simp only [sendFrom, Option.some.injEq, Prod.mk.injEq] at h
    obtain ⟨rfl, rfl⟩ := h
    exact ⟨by rw [unread_readAdv]; exact (List.take_append_drop _ _).symm, limit_readAdv b _ _⟩

theorem sendFrom_drained {b b' : Buffer} {a : SendAnswer} {l : List UInt8} (h : sendFrom b a = some (l, b'))
    (hb : b.unread ≠ []) (hb' : b'.unread = []) : bufferWritePtr b' = b.limit := by
  cases a with
  | error => simp [sendFrom] at h
  | accepted n =>
    simp only [sendFrom, Option.some.injEq, Prod.mk.injEq] at h
    obtain ⟨rfl, rfl⟩ := h
    rw [unread_readAdv] at hb'
    exact writePtr_readAdv_all b _ _ hb' hb

/-! ## The session record -/

inductive SessionState where
  | helloRead
  | helloWrite
  | requestRead
  | requestConnecting
  | requestWrite
  | copy
  | error
  | done
  | authRead
  | authWrite
  deriving DecidableEq, Repr

def SessionState.toNat : SessionState → Nat
  | .helloRead => 0
  | .helloWrite => 1
  | .requestRead => 2
  | .requestConnecting => 3
  | .requestWrite => 4
  | .copy => 5
  | .error => 6
  | .done => 7
  | .authRead => 8
  | .authWrite => 9

structure HelloSt where
  parser : HelloParser
  method : UInt8
  deriving DecidableEq, Repr

/-- `serverFd` is the descriptor in the copy of the origin's connection. -/
structure RequestSt where
  parser : RequestParser
  status : SocksResponseStatus
  serverFd : Int
  deriving DecidableEq, Repr

structure Connection where
  fd : Int
  domain : Nat
  address : SockAddr
  addressLen : Nat
  deriving DecidableEq, Repr

/-- The members of the unions of headers are kept apart: a callback reads only
what its own state has written. The two `copy_st` are their `duplex`; their
buffers are `input` and `output`, crossed. -/
structure Session where
  sMachine : StateMachine
  input : Buffer
  output : Buffer
  clientFd : Int
  server : Connection
  sniff : Pop3Sniff
  hello : HelloSt
  request : RequestSt
  clientCopy : FdInterest
  serverCopy : FdInterest

/-- The tables of callbacks registered in the selector. -/
inductive Handler where
  | newConnectionIpv4
  | newConnectionIpv6
  | prawtosPassiveAccept
  | client
  | prawtos
  deriving DecidableEq, Repr

/-- What the data of a registration points to. -/
inductive Ptr where
  | session (address : Nat)
  | prawtos (address : Nat)
  deriving DecidableEq, Repr

/-- What the connections of the process share. -/
structure Process where
  sel : Selector Handler Ptr
  stats : Stadistics
  openFds : List Int

/-- A session at its address, whether it has been freed, and the system calls
made for it. -/
structure Record extends Session where
  self : Nat
  freed : Bool
  log : List Syscall

structure Conn extends Record, Process

structure Key where
  fd : Int
  sys : Answers

structure Event where
  fd : Nat
  ready : Readiness
  sys : Answers
  deriving DecidableEq, Repr

namespace Conn

variable (c : Conn)

def note (s : Syscall) : Conn := { c with log := c.log ++ [s] }

def setInterest (fd : Int) (i : FdInterest) : Conn × SelectorStatus :=
  let r := selectorSetInterest c.sel fd i
  ({ c with sel := r.1 }, r.2)

def register (fd : Int) (h : Handler) (i : FdInterest) : Conn × SelectorStatus :=
  let r := selectorRegister c.sel fd (some h) i (some (.session c.self)) true
  ({ c with sel := r.1 }, r.2)

/-- A descriptor the system gives is none of those open. -/
def newFd (answer : Option Nat) : Option Nat := answer.filter fun n => decide ((n : Int) ∉ c.openFds)

def socket (domain : Nat) (answer : Option Nat) : Conn × Int :=
  match c.newFd answer with
  | some n => ({ c.note (.socket domain n) with openFds := (n : Int) :: c.openFds }, n)
  | none => (c.note (.socket domain (-1)), -1)

/-- The second component is whether the descriptor was open. -/
def close (fd : Int) : Conn × Bool :=
  ({ c.note (.close fd) with openFds := c.openFds.erase fd }, decide (fd ∈ c.openFds))

end Conn

end SocksProxy
