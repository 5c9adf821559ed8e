import SocksProxy.Inet
import SocksProxy.MainLoop

/-!
# Starting the server (`server.c`)

`main` up to its loop, and with it. A socket that cannot be bound, listened on
or made non-blocking is left open, and only the management socket has to be
there for the loop to start.
-/

namespace SocksProxy

open Lib

/-- What a socket is bound to, as the program builds it: `INADDR_ANY` is kept
apart from the address of the management service, whatever that is. -/
inductive SocketAddress where
  | ipv4Any (port : UInt16)
  | ipv6Any (port : UInt16)
  | ipv4 (address : InAddr) (port : UInt16)
  deriving DecidableEq, Repr

/-- A socket on which `listen` has succeeded. -/
structure Listener where
  fd : Nat
  address : SocketAddress
  nonBlocking : Bool
  deriving DecidableEq, Repr

structure SocketAnswers where
  socket : Option Nat
  nio : Bool
  bind : Bool
  listen : Bool
  memory : Bool

/-- What the system answers `main`; `sinAddr` is what its `prawtos_addr` holds
before anything is stored there. -/
structure MainAnswers where
  sigprocmask : Bool
  sigaction : Bool
  malloc : Bool
  calloc : Bool
  ipv4 : SocketAnswers
  ipv6 : SocketAnswers
  management : SocketAnswers
  sinAddr : InAddr
  heap : Heap

/-- The process before it enters its loop. -/
structure Boot extends Process where
  listeners : List Listener
  users : List User

namespace Boot

def server (b : Boot) : Server := ⟨⟨[], [], b.toProcess⟩, [], [], b.users⟩

def register (b : Boot) (fd : Nat) (h : Handler) (sys : SocketAnswers) : Boot × SelectorStatus :=
  let r := selectorRegister b.sel fd (some h) opRead none sys.memory
  ({ b with sel := r.1 }, r.2)

end Boot

/-- The address that `main` binds the management socket to: it does not look at
what `inet_pton` returns, and for a text that is no address binds what is there. -/
def managementAddress (args : Socks5Args) (sys : MainAnswers) : SocketAddress :=
  .ipv4 ((inetPton args.mngAddr).getD sys.sinAddr) args.mngPort

end SocksProxy
