import SocksProxy.Socks5

/-!
# The proxy and its sessions (`socks5.c`)

All the sessions of the proxy over one selector. `closed` keeps what became of
the sessions that have been freed; an event whose data is the address of one
of them is a use after free.
-/

namespace SocksProxy

structure Proxy where
  sessions : List Record
  closed : List Record
  process : Process

namespace Proxy

variable (w : Proxy)

def conn (r : Record) : Conn := { toRecord := r, toProcess := w.process }

/-- The session at an address. -/
def find (a : Nat) : Option Record := w.sessions.find? fun r => decide (r.self = a)

/-- A session after a call, and what the call has made of the process. -/
def put (c : Conn) : Proxy :=
  let rest := w.sessions.filter fun r => decide (r.self ≠ c.self)
  if c.freed then ⟨rest, c.toRecord :: w.closed, c.toProcess⟩ else ⟨c.toRecord :: rest, w.closed, c.toProcess⟩

/-- The session that the selector calls for the event. -/
def called (e : Event) : Option Nat :=
  let item := w.process.sel.fds e.fd
  if item.used = true ∧ item.handler = some .client ∧ item.interest.has e.ready = true then
    match item.data with
    | some (.session a) => some a
    | _ => none
  else none

/-- What only the proxy's own sessions act on. -/
def Owns (fd : Int) : Prop :=
  (∃ r ∈ w.sessions ++ w.closed, r.Owns fd) ∨
    ((w.process.sel.fds fd.toNat).used = true ∧ (w.process.sel.fds fd.toNat).handler = some .client)

instance (fd : Int) : Decidable (w.Owns fd) := by unfold Owns; infer_instance

end Proxy

inductive ProxyStep where
  | accept (fd : Option Nat) (memory : Option Allocation)
  | event (e : Event)
  | other (fd : Int) (a : Action)

/-- `malloc` gives no address that is in use. Without memory the descriptor is
closed at once. -/
def Proxy.accept (w : Proxy) (fd : Option Nat) (memory : Option Allocation) : Proxy :=
  match memory with
  | none => w
  | some a =>
    if (w.find a.session).isSome then w
    else
      match fd.filter fun n => decide ((n : Int) ∉ w.process.openFds) with
      | some n => w.put (newConnection w.process a n)
      | none => w.put (newConnection w.process a (-1))

def Action.ofSession : Action → Bool
  | .register _ _ (.session _) => true
  | _ => false

def proxyStep (w : Proxy) : ProxyStep → Except Fault Proxy
  | .accept fd memory => .ok (w.accept fd memory)
  | .event e =>
    match w.called e with
    | none => .ok w
    | some a =>
      match w.find a with
      | none => .error .useAfterFree
      | some r => (dispatch (w.conn r) e).map w.put
  | .other fd a =>
    .ok (if w.Owns fd ∨ a.ofSession = true then w else { w with process := w.process.act fd a })

/-- The process as `main` hands it to the selector: no session is known yet. -/
structure Started where
  process : Process
  fdSize_lt : fdSetsize < process.sel.fdSize
  unknown : ∀ n a, (process.sel.fds n).used = true → (process.sel.fds n).data ≠ some (.session a)

def Started.proxy (p : Started) : Proxy := ⟨[], [], p.process⟩

def firstStarted : Started where
  process := firstAccepted.process
  fdSize_lt := firstAccepted.fdSize_lt
  unknown := fun _ _ h => absurd h Bool.false_ne_true

end SocksProxy
