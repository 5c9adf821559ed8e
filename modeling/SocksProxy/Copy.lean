import SocksProxy.Session

/-!
# The relay (`copy.c`)

The two `copy_st` are the two sides of a connection. Each reads from its
descriptor into its `read_buff` and writes to it from its `write_buff`, and
the buffers of one side are those of the other, crossed.
-/

namespace SocksProxy

inductive Side where
  | client
  | server
  deriving DecidableEq, Repr

def Side.other : Side → Side
  | .client => .server
  | .server => .client

namespace Conn

variable (c : Conn)

def copyFd : Side → Int
  | .client => c.clientFd
  | .server => c.server.fd

def duplex : Side → FdInterest
  | .client => c.clientCopy
  | .server => c.serverCopy

def readBuff : Side → Buffer
  | .client => c.input
  | .server => c.output

def writeBuff (s : Side) : Buffer := c.readBuff s.other

def setDuplex : Side → FdInterest → Conn
  | .client, i => { c with clientCopy := i }
  | .server, i => { c with serverCopy := i }

def setReadBuff : Side → Buffer → Conn
  | .client, b => { c with input := b }
  | .server, b => { c with output := b }

def setWriteBuff (s : Side) (b : Buffer) : Conn := c.setReadBuff s.other b

end Conn

/-- The interest `check_interest` computes. -/
def copyInterest (c : Conn) (s : Side) : FdInterest where
  read := (c.duplex s).read && bufferCanWrite (c.readBuff s)
  write := (c.duplex s).write && bufferCanRead (c.writeBuff s)

def checkInterest (c : Conn) (s : Side) : Except Fault Conn :=
  if c.copyFd s ≠ -1 then
    match c.setInterest (c.copyFd s) (copyInterest c s) with
    | (c, .success) => .ok c
    | _ => .error .interestRefused
  else .ok c

def copyArrival (_ : Key) (c : Conn) : Conn := { c with clientCopy := opReadWrite, serverCopy := opReadWrite }

def copyPtr (k : Key) (c : Conn) : Side := if c.clientFd = k.fd then .client else .server

def originFd (k : Key) (c : Conn) : Bool := decide (k.fd = c.server.fd)

/-- `pop3sniff` on the bytes of an event on the origin's descriptor. -/
def sniffOrigin (k : Key) (c : Conn) (bytes : List UInt8) : Except Fault Conn :=
  if originFd k c then
    match pop3sniff c.sniff bytes with
    | .ok s => .ok { c with sniff := s }
    | .error f => .error f
  else .ok c

/-- The end of the direction into side `s`: no more is read from it, nor
written to the other side. -/
def shutdownRead (c : Conn) (s : Side) : Conn :=
  let c := (c.note (.shutdown (c.copyFd s) .rd)).setDuplex s { c.duplex s with read := false }
  if c.copyFd s.other ≠ -1 then
    (c.note (.shutdown (c.copyFd s.other) .wr)).setDuplex s.other { c.duplex s.other with write := false }
  else c

def shutdownWrite (c : Conn) (s : Side) : Conn :=
  let c := (c.note (.shutdown (c.copyFd s) .wr)).setDuplex s { c.duplex s with write := false }
  if c.copyFd s.other ≠ -1 then
    (c.note (.shutdown (c.copyFd s.other) .rd)).setDuplex s.other { c.duplex s.other with read := false }
  else c

/-- What both callbacks end with. -/
def copyFinish (c : Conn) (s : Side) : Except Fault (Conn × SessionState) :=
  match checkInterest c s with
  | .error f => .error f
  | .ok c =>
    match checkInterest c s.other with
    | .error f => .error f
    | .ok c => .ok (c, if c.duplex s = opNoop then .done else .copy)

def copyRead (k : Key) (c : Conn) : Except Fault (Conn × SessionState) :=
  let s := copyPtr k c
  if c.copyFd s ≠ k.fd then .error .assertion
  else
    match recvInto (c.readBuff s) k.sys.recv with
    | none => copyFinish (shutdownRead (c.note (.recv k.fd none)) s) s
    | some (l, b) =>
      let c := c.note (.recv k.fd (some l))
      if l = [] then copyFinish (shutdownRead c s) s
      else
        match sniffOrigin k c l with
        | .error f => .error f
        | .ok c => copyFinish (c.setReadBuff s b) s

def copyWrite (k : Key) (c : Conn) : Except Fault (Conn × SessionState) :=
  let s := copyPtr k c
  if c.copyFd s ≠ k.fd then .error .assertion
  else
    match sendFrom (c.writeBuff s) k.sys.send with
    | none => copyFinish (shutdownWrite (c.note (.send k.fd none)) s) s
    | some (l, b) =>
      let c := c.note (.send k.fd (some l))
      let c : Conn := { c with stats := stadisticsIncreaseBytesSent c.stats (UInt64.ofNat l.length) }
      match sniffOrigin k c l with
      | .error f => .error f
      | .ok c => copyFinish (c.setWriteBuff s b) s

end SocksProxy
