import SocksProxy.Iteration
import SocksProxy.Lib.Logged
import SocksProxy.Server

/-!
# The loop of `main` (`server.c`, `selector_select`)

`handle_iteration` again, over the callbacks that the server registers: what one
of them does depends on what the ones before it have done. A callback is given
the key that was filled when its entry was reached; the interest and the handler
are read again before each of the two calls. The loop notes what it calls.
-/

namespace SocksProxy

open Lib

/-- `selector_key`, without the selector. -/
structure SelectorKey where
  fd : Int
  data : Option Ptr

/-- What the system has for the callback of an event. -/
structure Replies where
  accept : Option Nat
  nio : Bool
  memory : Option Allocation
  address : Option Nat
  sys : Answers
  prawtosSys : PrawtosAnswers

def Handler.isPassive : Handler → Bool
  | .newConnectionIpv4 | .newConnectionIpv6 | .prawtosPassiveAccept => true
  | .client | .prawtos => false

/-- What is called, as a step of the server. -/
def Handler.call (h : Handler) (i : Nat) (kind : Readiness) (r : Replies) : ServerStep :=
  match h with
  | .newConnectionIpv4 | .newConnectionIpv6 => .accept r.accept r.memory
  | .prawtosPassiveAccept => .prawtosAccept r.accept r.nio r.address
  | .client => .event ⟨i, kind, r.sys⟩
  | .prawtos => .prawtosEvent ⟨i, kind, r.prawtosSys⟩

namespace Server

variable (w : Server) (key : SelectorKey) (r : Replies)

/-- `client_read` and `client_write` take the data of the key for a session. -/
def clientHandler (f : Key → Conn → Except Fault Conn) : Except Fault Server :=
  match key.data with
  | some (.session a) =>
    match w.find a with
    | none => .error .useAfterFree
    | some s => (f ⟨key.fd, r.sys⟩ (w.conn s)).map fun c => { w with toProxy := w.put c }
  | _ => .error .wildPointer

def prawtosHandler (f : PrawtosKey → PrawtosConn → Except Fault PrawtosConn) : Except Fault Server :=
  match key.data with
  | some (.prawtos a) =>
    match w.prawtosFind a with
    | none => .error .useAfterFree
    | some s => (f ⟨key.fd, r.prawtosSys⟩ (w.prawtosConn s)).map w.prawtosPut
  | _ => .error .wildPointer

def handleRead : Handler → Except Fault Server
  | .newConnectionIpv4 | .newConnectionIpv6 => .ok { w with toProxy := w.accept r.accept r.memory }
  | .prawtosPassiveAccept => .ok (w.prawtosAccept r.accept r.nio r.address)
  | .client => w.clientHandler key r clientRead
  | .prawtos => w.prawtosHandler key r prawtosRead

def handleWrite : Handler → Except Fault Server
  -- the listening sockets have no such callback, and the `assert` fails
  | .newConnectionIpv4 | .newConnectionIpv6 | .prawtosPassiveAccept => .error .assertion
  | .client => w.clientHandler key r clientWrite
  | .prawtos => w.prawtosHandler key r prawtosWrite

def callback (h : Handler) : Readiness → Except Fault Server
  | .read => w.handleRead key r h
  | .write => w.handleWrite key r h

/-- One of the two tests of `handle_iteration` for entry `i`; `isset` is whether
the set that `select` left has the descriptor. -/
def handleEvent (i : Nat) (kind : Readiness) (isset : Bool) : Logged ServerStep Fault Server :=
  let item := w.process.sel.fds i
  if isset = true ∧ item.interest.has kind = true then
    match item.handler with
    | none => ([], .error .wildPointer)
    | some h => ([h.call i kind r], w.callback key r h kind)
  else .done w

/-- The sets as `pselect` leaves them when the descriptors of `ready` are ready. -/
def reported (ready : Nat → Readiness → Bool) (n : Nat) : Readiness → Bool
  | .read => w.process.sel.masterR n && ready n .read
  | .write => w.process.sel.masterW n && ready n .write

/-- The body of the loop of `handle_iteration`. -/
def handleItem (isset : Nat → Readiness → Bool) (replies : Nat → Readiness → Replies) (i : Nat) :
    Logged ServerStep Fault Server :=
  let item := w.process.sel.fds i
  if item.used then
    let key : SelectorKey := ⟨item.fd, item.data⟩
    (w.handleEvent key (replies i .read) i .read (isset item.fd.toNat .read)).bind fun w =>
      w.handleEvent key (replies i .write) i .write (isset i .write)
  else .done w

def handleIteration (isset : Nat → Readiness → Bool) (replies : Nat → Readiness → Replies) :
    Logged ServerStep Fault Server :=
  Logged.fold (fun w i => w.handleItem isset replies i) w (List.range (w.process.sel.maxFd + 1))

/-- `selector_select`: what `pselect` returns, and what the system has for the
event that the callback of an entry is called for. -/
def selectorSelect (turn : SelectResult × (Nat → Readiness → Replies)) : Logged ServerStep Fault Server :=
  match turn.1 with
  | none => .done w
  | some ready => w.handleIteration (w.reported ready) turn.2

/-- The loop of `main`, for as many turns as there are. -/
def mainLoop (turns : List (SelectResult × (Nat → Readiness → Replies))) : Logged ServerStep Fault Server :=
  Logged.fold selectorSelect w turns

end Server

end SocksProxy
