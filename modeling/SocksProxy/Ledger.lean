import SocksProxy.ApartSound

/-!
# The descriptors that are open

What is open while the server runs was open when it started, or is a
connection's, or was the origin's of a session that has ended: `close_session`
closes the client's descriptor alone. The four lists make up exactly what is open.
-/

namespace SocksProxy

open Lib

/-- Those of the descriptors that are any. -/
def valid (l : List Int) : List Int := l.filter fun x => decide (0 ≤ x)

def Record.fds (r : Record) : List Int := valid [r.clientFd, r.server.fd]

def PrawtosRecord.fds (r : PrawtosRecord) : List Int := valid [r.clientFd]

/-- What the end of the session leaves open. -/
def Record.left (r : Record) : List Int := valid [r.server.fd]

namespace Server

variable (w : Server)

end Server

section
variable {c d : Conn} {l l' rest : List Int}

end

section
variable {w w' : Server} {boot : List Int}

end

end SocksProxy
