import SocksProxy.Prawtos
import SocksProxy.Proxy

/-!
# The server (`server.c`)

The sessions of the proxy and the connections of the management service, over
one selector, one record of counters and one list of users. A step is what one
handler does: an `accept`, or an event on a connection.
-/

namespace SocksProxy

/-- `prawtosClosed` keeps what became of the connections that have been freed. -/
structure Server extends Proxy where
  prawtos : List PrawtosRecord
  prawtosClosed : List PrawtosRecord
  users : List User

namespace Server

variable (w : Server)

def prawtosConn (r : PrawtosRecord) : PrawtosConn :=
  { toPrawtosRecord := r, toProcess := w.process, users := w.users }

/-- The management connection at an address. -/
def prawtosFind (a : Nat) : Option PrawtosRecord := w.prawtos.find? fun r => decide (r.self = a)

def prawtosPut (c : PrawtosConn) : Server :=
  let rest := w.prawtos.filter fun r => decide (r.self ≠ c.self)
  let w : Server := { w with process := c.toProcess, users := c.users }
  if c.freed then { w with prawtos := rest, prawtosClosed := c.toPrawtosRecord :: w.prawtosClosed }
  else { w with prawtos := c.toPrawtosRecord :: rest }

/-- The management connection that the selector calls for the event. -/
def prawtosCalled (e : PrawtosEvent) : Option Nat :=
  let item := w.process.sel.fds e.fd
  if item.used = true ∧ item.handler = some .prawtos ∧ item.interest.has e.ready = true then
    match item.data with
    | some (.prawtos a) => some a
    | _ => none
  else none

/-- `accept` gives a descriptor that is not open, `calloc` an address that is
not in use. -/
def prawtosAccept (fd : Option Nat) (nio : Bool) (memory : Option Nat) : Server :=
  match prawtosPassiveAccept w.process w.users (fd.filter fun n => decide ((n : Int) ∉ w.process.openFds)) nio
      (memory.filter fun a => (w.prawtosFind a).isNone) with
  | .inl p => { w with process := p }
  | .inr c => w.prawtosPut c

end Server

inductive ServerStep where
  | accept (fd : Option Nat) (memory : Option Allocation)
  | event (e : Event)
  | prawtosAccept (fd : Option Nat) (nio : Bool) (memory : Option Nat)
  | prawtosEvent (e : PrawtosEvent)

def serverStep (w : Server) : ServerStep → Except Fault Server
  | .accept fd memory => (proxyStep w.toProxy (.accept fd memory)).map fun p => { w with toProxy := p }
  | .event e => (proxyStep w.toProxy (.event e)).map fun p => { w with toProxy := p }
  | .prawtosAccept fd nio memory => .ok (w.prawtosAccept fd nio memory)
  | .prawtosEvent e =>
    match w.prawtosCalled e with
    | none => .ok w
    | some a =>
      match w.prawtosFind a with
      | none => .error .useAfterFree
      | some r => (prawtosDispatch (w.prawtosConn r) e).map w.prawtosPut

/-- What `main` has set up before it enters its loop; `users` are those of
`initialize_users`. -/
structure Booted extends Started where
  users : List User
  stats_init : process.stats = stadisticsInit

def Booted.server (b : Booted) : Server := ⟨b.toStarted.proxy, [], [], b.users⟩

def firstBooted : Booted where
  toStarted := firstStarted
  users := initUserList zeroHeap
  stats_init := rfl

/-! ## The bytes of the relay -/

def Syscall.bytesSent : Syscall → Nat
  | .send _ (some l) => l.length
  | _ => 0

def bytesIn (log : List Syscall) : Nat := (log.map Syscall.bytesSent).sum

/-- `copy_write` is the callback of the event. -/
def CopyWrites (c : Conn) (e : Event) : Prop :=
  Selects c e ∧ stmState c.sMachine = SessionState.copy.toNat ∧ e.ready = .write

instance (c : Conn) (e : Event) : Decidable (CopyWrites c e) := by unfold CopyWrites; infer_instance

/-- What `copy_write` sends on the event. -/
def Conn.copied (c : Conn) (e : Event) : Nat :=
  if CopyWrites c e then
    match dispatch c e with
    | .ok d => bytesIn (d.log.drop c.log.length)
    | .error _ => 0
  else 0

def Server.copied (w : Server) : ServerStep → Nat
  | .event e =>
    match (w.called e).bind w.find with
    | some r => (w.conn r).copied e
    | none => 0
  | _ => 0

end SocksProxy
