import SocksProxy.Session

/-!
# The request states (`request.c`)

The inner `switch` of `request_process` has one brace too many, left over from
code that was commented out; it is read without it.
-/

namespace SocksProxy

def sizeofSockaddrIn : Nat := 16
def sizeofSockaddrIn6 : Nat := 28

def requestArrival (_ : Key) (c : Conn) : Conn :=
  { c with
    request.parser := requestParserInit c.request.parser
    request.status := .generalSocksServerFailure
    request.serverFd := c.server.fd }

/-- The pointers it sets are to fields of the session itself. -/
def requestConnectingArrival (_ : Key) (c : Conn) : Conn := c

/-- The reply to the request, marshalled to the output buffer. -/
def queueReply (c : Conn) : Conn × Int :=
  let r := c.request.parser.request
  let (b, n) := requestMarshal c.output c.request.status r.destAddrType r.destAddr r.destPort
  ({ c with output := b }, n)

/-- The rest of `request_connect`, once there is a socket. -/
def connectOrigin (k : Key) (fdRegistered : Bool) (c : Conn) : Conn × SessionState :=
  let fd := c.server.fd
  let c := c.note (.connect fd c.server.address c.server.addressLen k.sys.connect)
  match k.sys.connect with
  | none => (c, .requestConnecting)
  | some errno =>
    if errno = EINPROGRESS then
      match c.setInterest k.fd opNoop with
      | (c, .success) =>
        let r := if fdRegistered then c.setInterest fd opWrite else c.register fd .client opWrite
        (r.1, if r.2 = .success then .requestConnecting else .error)
      | (c, _) => (c, .error)
    else
      let r := queueReply { c with request.status := errnoToSocks errno }
      if r.2 = -1 then (r.1, .error)
      else
        let c := (r.1.setInterest c.clientFd opWrite).1
        let r := c.register fd .client opNoop
        (r.1, if r.2 = .success then .requestWrite else .error)

def requestConnect (k : Key) (c : Conn) : Conn × SessionState :=
  let fdRegistered := decide (c.request.serverFd ≠ -1)
  let r := if fdRegistered then c.close c.request.serverFd else (c, true)
  if !r.2 then (r.1, .error)
  else
    let r := r.1.socket c.server.domain k.sys.socket
    let c : Conn := { r.1 with request.serverFd := r.2, server.fd := r.2 }
    if r.2 = -1 then (c, .error)
    else if !k.sys.fcntl then (c, .requestConnecting)
    else connectOrigin k fdRegistered c

def requestProcess (k : Key) (c : Conn) : Conn × SessionState :=
  let r := c.request.parser.request
  if r.cmd = socksReqCmdConnect then
    if r.destAddrType = socksAddrTypeIpv4 then
      let address : SockAddr := { r.destAddr.ipv4 with port := r.destPort }
      requestConnect k
        { c with
          server.domain := afInet
          server.address := address
          server.addressLen := sizeofSockaddrIn
          request.parser.request.destAddr.ipv4 := address }
    else if r.destAddrType = socksAddrTypeIpv6 then
      let address : SockAddr := { r.destAddr.ipv6 with port := r.destPort }
      requestConnect k
        { c with
          server.domain := afInet6
          server.address := address
          server.addressLen := sizeofSockaddrIn6
          request.parser.request.destAddr.ipv6 := address }
    else if r.destAddrType = socksAddrTypeDomain then (c, .requestConnecting)
    else
      let (c, _) := ({ c with request.status := .addressTypeNotSupported } : Conn).setInterest k.fd opWrite
      (c, .requestWrite)
  else ({ c with request.status := .commandNotSupported }, .requestWrite)

/-- The rest of `request_read`, once the bytes received have been consumed. -/
def requestConsumed (k : Key) (c : Conn) : Conn × SessionState :=
  let r : Conn × SessionState :=
    if (requestIsDone c.request.parser.state).1 then requestProcess k c else (c, .requestRead)
  (r.1, if (requestIsDone c.request.parser.state).2 then .error else r.2)

def requestRead (k : Key) (c : Conn) : Conn × SessionState :=
  match recvInto c.input k.sys.recv with
  | none => (c.note (.recv k.fd none), .error)
  | some (l, b) =>
    let c := c.note (.recv k.fd (some l))
    if l = [] then (c, .error)
    else
      let r := requestConsume b c.request.parser
      requestConsumed k { c with input := r.1, request.parser := r.2 }

def requestWrite (k : Key) (c : Conn) : Conn × SessionState :=
  match sendFrom c.output k.sys.send with
  | none => (c.note (.send k.fd none), .error)
  | some (l, b) =>
    let c : Conn := { c.note (.send k.fd (some l)) with output := b }
    if bufferCanRead c.output then (c, .requestWrite)
    else
      match c.setInterest k.fd opRead with
      | (c, .success) => (c, .copy)
      | (c, _) => (c, .error)

def requestConnecting (k : Key) (c : Conn) : Conn × SessionState :=
  let c := c.note (.getsockopt c.server.fd k.sys.getsockopt)
  match k.sys.getsockopt with
  | none => (c, .requestConnecting)
  | some error =>
    let c := (c.setInterest c.clientFd opWrite).1
    let r := queueReply (if error = 0 then { c with request.status := .succeeded } else c)
    if r.2 = -1 then (r.1, .error) else ((r.1.setInterest c.server.fd opRead).1, .requestWrite)

end SocksProxy
