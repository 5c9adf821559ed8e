import SocksProxy.Boot
import SocksProxy.MainLoopSound

/-!
# What the loop of `main` serves

The loop is entered with the management socket listening. What it serves, for
ever, is every socket that listens, does not block and has a descriptor below
`FD_SETSIZE`, each with the handler of its address: an interface whose socket
failed is not served, and nothing else ever accepts.
-/

namespace SocksProxy

open Lib

/-- The address whose connections the handler accepts. -/
def Handler.address (args : Socks5Args) (sys : MainAnswers) : Handler → Option SocketAddress
  | .newConnectionIpv4 => some (.ipv4Any args.socksPort)
  | .newConnectionIpv6 => some (.ipv6Any args.socksPort)
  | .prawtosPassiveAccept => some (managementAddress args sys)
  | .client | .prawtos => none

/-- A socket that `select` can watch and at which `accept` does not block. -/
def AcceptsAt (args : Socks5Args) (main : MainAnswers) (ls : List Listener) (n : Nat) (h : Handler) : Prop :=
  n < fdSetsize ∧ ∃ address, h.address args main = some address ∧ ⟨n, address, true⟩ ∈ ls

/-- The entry of a listening socket. -/
def listeningItem (n : Nat) (h : Handler) : Item Handler Ptr := ⟨n, opRead, some h, none⟩

section
variable {args : Socks5Args} {main : MainAnswers} {ls : List Listener} {n fd : Nat} {g h : Handler}
  {address : SocketAddress}

end

/-! ## Setting up -/

section
variable {args : Socks5Args} {main : MainAnswers} {b b' : Boot} {fd : Nat} {h : Handler} {address : SocketAddress}
  {sys : SocketAnswers}

/-- The selector has an entry for each socket that is served, and no other. -/
structure Boot.Ready (b : Boot) (args : Socks5Args) (main : MainAnswers) : Prop where
  mirrors : ∃ m, Mirrors m b.sel
  entries : ∀ n, b.sel.fds n = .blank ∨ ∃ h, AcceptsAt args main b.listeners n h ∧ b.sel.fds n = listeningItem n h
  accepts : ∀ n h, AcceptsAt args main b.listeners n h → b.sel.fds n = listeningItem n h
  isOpen : ∀ l ∈ b.listeners, (l.fd : Int) ∈ b.openFds

end

section
variable {w w' : Server} {n : Nat} {h : Handler}

end

end SocksProxy
