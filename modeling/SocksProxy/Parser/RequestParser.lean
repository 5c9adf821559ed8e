import SocksProxy.Parser.Consume

/-!
# The SOCKS request parser (`request_parser.c`)

`RequestRead` ties the bytes fed so far to the state of the parser;
`requestFeed_done` reads it at the end: a request for an IPv4 or IPv6 address
is accepted exactly as it was sent.
-/

namespace SocksProxy

open Lib

def socksReqCmdConnect : UInt8 := 0x01
def socksReqCmdBind : UInt8 := 0x02
def socksReqCmdAssociate : UInt8 := 0x03

def socksAddrTypeIpv4 : UInt8 := 0x01
def socksAddrTypeDomain : UInt8 := 0x03
def socksAddrTypeIpv6 : UInt8 := 0x04

def afInet : Nat := 2
def afInet6 : Nat := 10

/-- `struct sockaddr_in` and `struct sockaddr_in6`; port and address as they
lie in memory, in network order. -/
structure SockAddr where
  family : Nat
  port : List UInt8
  addr : List UInt8
  deriving DecidableEq, Repr

/-- The members of the union are kept apart: a request writes and reads only
the one its address type names. -/
structure SocksAddr where
  fdqn : List UInt8
  ipv4 : SockAddr
  ipv6 : SockAddr
  deriving DecidableEq, Repr

structure Request where
  cmd : UInt8
  destAddrType : UInt8
  destAddr : SocksAddr
  destPort : List UInt8
  deriving DecidableEq, Repr

def Request.zero : Request where
  cmd := 0
  destAddrType := 0
  destAddr := ⟨List.replicate 255 0, ⟨0, [0, 0], List.replicate 4 0⟩, ⟨0, [0, 0], List.replicate 16 0⟩⟩
  destPort := [0, 0]

inductive RequestState where
  | version
  | cmd
  | rvs
  | atype
  | dstaddrFqdn
  | dstaddr
  | dstport
  | done
  | error
  | errorUnsupportedVersion
  | errorUnsupportedAtype
  deriving DecidableEq, Repr

structure RequestParser where
  request : Request
  state : RequestState
  n : UInt8
  i : UInt8
  deriving DecidableEq, Repr

namespace RequestParser

def remainingSet (p : RequestParser) (n : UInt8) : RequestParser := { p with i := 0, n := n }

def remainingIsDone (p : RequestParser) : Bool := decide (p.n ≤ p.i)

def version (c : UInt8) : RequestState := if c = 0x05 then .cmd else .errorUnsupportedVersion

def cmd (c : UInt8) (p : RequestParser) : RequestParser :=
  { p with request := { p.request with cmd := c }, state := .rvs }

def rsv (p : RequestParser) : RequestParser := { p with state := .atype }

def atype (c : UInt8) (p : RequestParser) : RequestParser :=
  let p := { p with request := { p.request with destAddrType := c } }
  if c = socksAddrTypeIpv4 then
    { p.remainingSet 4 with
      request.destAddr.ipv4 := ⟨afInet, [0, 0], List.replicate 4 0⟩
      state := .dstaddr }
  else if c = socksAddrTypeIpv6 then
    { p.remainingSet 16 with
      request.destAddr.ipv6 := ⟨afInet6, [0, 0], List.replicate 16 0⟩
      state := .dstaddr }
  else if c = socksAddrTypeDomain then { p with state := .dstaddrFqdn }
  else { p with state := .errorUnsupportedAtype }

/-- For a length of 0 the store goes to the byte before the name, the high
octet of `dest_addr_type`, which is 0 already. -/
def dstaddrFqdn (c : UInt8) (p : RequestParser) : RequestParser :=
  let fdqn := p.request.destAddr.fdqn
  { p.remainingSet c with
    request.destAddr.fdqn := if c = 0 then fdqn else fdqn.set (c.toNat - 1) 0
    state := .dstaddr }

def storeAddr (c : UInt8) (p : RequestParser) : RequestParser :=
  let k := p.i.toNat
  let a := p.request.destAddr
  if p.request.destAddrType = socksAddrTypeIpv4 then
    { p with request.destAddr.ipv4.addr := a.ipv4.addr.set k c, i := p.i + 1 }
  else if p.request.destAddrType = socksAddrTypeIpv6 then
    { p with request.destAddr.ipv6.addr := a.ipv6.addr.set k c, i := p.i + 1 }
  else if p.request.destAddrType = socksAddrTypeDomain then
    { p with request.destAddr.fdqn := a.fdqn.set k c, i := p.i + 1 }
  else p

def dstaddr (c : UInt8) (p : RequestParser) : RequestParser :=
  let p := p.storeAddr c
  if p.remainingIsDone then { p.remainingSet 2 with request.destPort := [0, 0], state := .dstport }
  else { p with state := .dstaddr }

def dstport (c : UInt8) (p : RequestParser) : RequestParser :=
  let p := { p with request.destPort := p.request.destPort.set p.i.toNat c, i := p.i + 1 }
  if p.remainingIsDone then { p with state := .done } else { p with state := .dstport }

end RequestParser

def requestParserFeed (p : RequestParser) (c : UInt8) : RequestParser :=
  match p.state with
  | .version => { p with state := RequestParser.version c }
  | .cmd => p.cmd c
  | .rvs => p.rsv
  | .atype => p.atype c
  | .dstaddrFqdn => p.dstaddrFqdn c
  | .dstaddr => p.dstaddr c
  | .dstport => p.dstport c
  | .done => p
  | .error => p
  | .errorUnsupportedVersion => p
  | .errorUnsupportedAtype => p

def requestParserInit (p : RequestParser) : RequestParser :=
  { p with state := .version, request := Request.zero }

/-- The returned pair is `request_is_done` and the error flag it raises. -/
def requestIsDone : RequestState → Bool × Bool
  | .error => (true, true)
  | .errorUnsupportedVersion => (true, true)
  | .errorUnsupportedAtype => (true, true)
  | .done => (true, false)
  | _ => (false, false)

def requestStops (p : RequestParser) : Bool := (requestIsDone p.state).1

def requestConsume (b : Buffer) (p : RequestParser) : Buffer × RequestParser :=
  consume requestParserFeed requestStops b p

/-! ## Replies -/

inductive SocksResponseStatus where
  | succeeded
  | generalSocksServerFailure
  | connectionNotAllowedByRuleset
  | networkUnreachable
  | hostUnreachable
  | connectionRefused
  | ttlExpired
  | commandNotSupported
  | addressTypeNotSupported
  deriving DecidableEq, Repr

def SocksResponseStatus.toByte : SocksResponseStatus → UInt8
  | .succeeded => 0x00
  | .generalSocksServerFailure => 0x01
  | .connectionNotAllowedByRuleset => 0x02
  | .networkUnreachable => 0x03
  | .hostUnreachable => 0x04
  | .connectionRefused => 0x05
  | .ttlExpired => 0x06
  | .commandNotSupported => 0x07
  | .addressTypeNotSupported => 0x08

/-- The address field of a reply: a name goes out with its length first. -/
def replyAddr (atyp : UInt8) (addr : SocksAddr) : List UInt8 :=
  if atyp = socksAddrTypeIpv4 then addr.ipv4.addr
  else if atyp = socksAddrTypeIpv6 then addr.ipv6.addr
  else if atyp = socksAddrTypeDomain then
    let name := addr.fdqn.takeWhile (· != 0)
    UInt8.ofNat name.length :: name
  else []

def replyFrame (status : SocksResponseStatus) (atyp : UInt8) (addr : SocksAddr) (destPort : List UInt8) :
    List UInt8 :=
  [0x05, status.toByte, 0x00, atyp] ++ replyAddr atyp addr ++ destPort

def requestMarshal (b : Buffer) (status : SocksResponseStatus) (atyp : UInt8) (addr : SocksAddr)
    (destPort : List UInt8) : Buffer × Int :=
  bufferMarshal b (replyFrame status atyp addr destPort)

def ECONNREFUSED : Nat := 111
def EHOSTUNREACH : Nat := 113
def ENETUNREACH : Nat := 101
def ETIMEDOUT : Nat := 110
def EINPROGRESS : Nat := 115

def errnoToSocks (e : Nat) : SocksResponseStatus :=
  if e = 0 then .succeeded
  else if e = ECONNREFUSED then .connectionRefused
  else if e = EHOSTUNREACH then .hostUnreachable
  else if e = ENETUNREACH then .networkUnreachable
  else if e = ETIMEDOUT then .ttlExpired
  else .generalSocksServerFailure

/-! ## Requests for an address -/

/-- `05 cmd rsv atyp addr port` for an IPv4 or an IPv6 address. -/
def IsRequest (cmd atyp : UInt8) (addr port l : List UInt8) : Prop :=
  (∃ rsv, l = 0x05 :: cmd :: rsv :: atyp :: (addr ++ port)) ∧ port.length = 2 ∧
    (atyp = socksAddrTypeIpv4 ∧ addr.length = 4 ∨ atyp = socksAddrTypeIpv6 ∧ addr.length = 16)

section
variable (r : Request)

/-- The first octets of the address have been read: `k` of them are due. -/
def AddrRead (a : List UInt8) (k : Nat) : Prop :=
  (r.destAddrType = socksAddrTypeIpv4 ∧ k = 4 ∧ FilledTo 4 a r.destAddr.ipv4.addr) ∨
    (r.destAddrType = socksAddrTypeIpv6 ∧ k = 16 ∧ FilledTo 16 a r.destAddr.ipv6.addr)

/-- The first four octets are those of a request for a domain. -/
def DomainRead (l : List UInt8) : Prop :=
  r.destAddrType = socksAddrTypeDomain ∧ ∃ rsv t, l = 0x05 :: r.cmd :: rsv :: socksAddrTypeDomain :: t

theorem domainRead_snoc {l : List UInt8} (h : DomainRead r l) (c : UInt8) : DomainRead r (l ++ [c]) := by
  obtain ⟨ht, rsv, t, rfl⟩ := h
  exact ⟨ht, rsv, t ++ [c], by simp⟩

end

/-- What the parser knows after the bytes `l`; the name in a request for a
domain is not kept track of. -/
def RequestRead (l : List UInt8) (p : RequestParser) : Prop :=
  match p.state with
  | .version => l = [] ∧ p.request.cmd = 0
  | .cmd => l = [0x05]
  | .rvs => l = [0x05, p.request.cmd]
  | .atype => ∃ rsv, l = [0x05, p.request.cmd, rsv]
  | .dstaddrFqdn => DomainRead p.request l
  | .dstaddr =>
    DomainRead p.request l ∨
      ∃ rsv a, l = 0x05 :: p.request.cmd :: rsv :: p.request.destAddrType :: a ∧ p.i.toNat = a.length ∧
        a.length < p.n.toNat ∧ AddrRead p.request a p.n.toNat
  | .dstport =>
    DomainRead p.request l ∨
      ∃ rsv a b, l = 0x05 :: p.request.cmd :: rsv :: p.request.destAddrType :: (a ++ b) ∧ p.i.toNat = b.length ∧
        b.length < 2 ∧ p.n = 2 ∧ AddrRead p.request a a.length ∧ FilledTo 2 b p.request.destPort
  | .done =>
    DomainRead p.request l ∨
      ∃ addr, IsRequest p.request.cmd p.request.destAddrType addr p.request.destPort l ∧
        AddrRead p.request addr addr.length
  | .error => False
  | .errorUnsupportedVersion => p.request.cmd = 0
  | .errorUnsupportedAtype =>
    p.request.destAddrType ≠ socksAddrTypeIpv4 ∧ p.request.destAddrType ≠ socksAddrTypeIpv6 ∧
      p.request.destAddrType ≠ socksAddrTypeDomain

theorem requestRead_init (p : RequestParser) : RequestRead [] (requestParserInit p) := ⟨rfl, rfl⟩

theorem requestRead_addr {l : List UInt8} {p : RequestParser} (h : RequestRead l p) (hs : p.state = .dstaddr)
    (c : UInt8) : RequestRead (l ++ [c]) (p.dstaddr c) := by
  simp only [RequestRead, hs] at h
  rcases h with h | ⟨rsv, a, rfl, hi, ha, hr⟩
  · -- a domain name: the octets of the name are not followed
    have hd : DomainRead (p.storeAddr c).request (l ++ [c]) := by
      have h1 := h.1
      have := domainRead_snoc _ h c
      simpa [RequestParser.storeAddr, h1, socksAddrTypeDomain, socksAddrTypeIpv4,
        socksAddrTypeIpv6, DomainRead] using this
    unfold RequestParser.dstaddr
    simp only
    split
    · exact Or.inl hd
    · exact Or.inl hd
  · have hi1 := toNat_succ hi ha
    have hst : (p.storeAddr c).n = p.n ∧ (p.storeAddr c).i = p.i + 1 ∧
        (p.storeAddr c).request.cmd = p.request.cmd ∧
        (p.storeAddr c).request.destAddrType = p.request.destAddrType ∧
        AddrRead (p.storeAddr c).request (a ++ [c]) p.n.toNat := by
      rcases hr with ⟨ht, hn, hf⟩ | ⟨ht, hn, hf⟩
      · rw [hn] at ha
        have := filledTo_set hf ha c
        simp [RequestParser.storeAddr, ht, AddrRead, hi, hn, this]
      · rw [hn] at ha
        have := filledTo_set hf ha c
        simp [RequestParser.storeAddr, ht, AddrRead, hi, hn, this, socksAddrTypeIpv6, socksAddrTypeIpv4]
    obtain ⟨hsn, hsi, hsc, hst, hsr⟩ := hst
    unfold RequestParser.dstaddr RequestParser.remainingIsDone
    simp only [hsn, hsi, decide_eq_true_eq, UInt8.le_iff_toNat_le, hi1]
    by_cases hd : p.n.toNat ≤ a.length + 1
    · have hlen : (a ++ [c]).length = p.n.toNat := by simp; omega
      rw [if_pos hd]
      refine Or.inr ⟨rsv, a ++ [c], [], ?_, rfl, Nat.succ_pos _, rfl, ?_, filledTo_nil 2⟩
      · simp [RequestParser.remainingSet, hsc, hst]
      · rw [hlen]; exact hsr
    · rw [if_neg hd]
      refine Or.inr ⟨rsv, a ++ [c], ?_, ?_, ?_, ?_⟩
      · simp [hsc, hst]
      · simp [hi1]
      · simp only [List.length_append, List.length_singleton]; omega
      · exact hsr

theorem requestRead_port {l : List UInt8} {p : RequestParser} (h : RequestRead l p) (hs : p.state = .dstport)
    (c : UInt8) : RequestRead (l ++ [c]) (p.dstport c) := by
  simp only [RequestRead, hs] at h
  unfold RequestParser.dstport RequestParser.remainingIsDone
  rcases h with h | ⟨rsv, a, b, rfl, hi, hb, hn, hr, hf⟩
  · simp only
    split
    · exact Or.inl (domainRead_snoc _ h c)
    · exact Or.inl (domainRead_snoc _ h c)
  · have hi1 : (p.i + 1).toNat = b.length + 1 := toNat_succ (n := 2) hi hb
    have hf1 := filledTo_set hf hb c
    simp only [hn, decide_eq_true_eq, UInt8.le_iff_toNat_le, hi1, hi]
    by_cases hd : (2 : UInt8).toNat ≤ b.length + 1
    · have hlen : (b ++ [c]).length = 2 := by simp at hd ⊢; omega
      have hp : p.request.destPort.set b.length c = b ++ [c] := filledTo_full hf1 hlen
      rw [if_pos hd]
      refine Or.inr ⟨a, ⟨⟨rsv, ?_⟩, ?_, ?_⟩, hr⟩
      · simp [hp]
      · simp only [hp]; exact hlen
      · rcases hr with ⟨ht, hk, -⟩ | ⟨ht, hk, -⟩
        · exact Or.inl ⟨ht, hk⟩
        · exact Or.inr ⟨ht, hk⟩
    · rw [if_neg hd]
      refine Or.inr ⟨rsv, a, b ++ [c], by simp, by simp [hi1], ?_, rfl, hr, hf1⟩
      simp only [UInt8.reduceToNat, List.length_append, List.length_singleton] at hd ⊢; omega

theorem requestRead_step {l : List UInt8} {p : RequestParser} (h : RequestRead l p) (hs : requestStops p = false)
    (c : UInt8) : RequestRead (l ++ [c]) (requestParserFeed p c) := by
  unfold requestParserFeed
  cases hst : p.state with
  | version =>
    simp only [RequestRead, hst] at h
    obtain ⟨rfl, hz⟩ := h
    by_cases hc : c = 0x05
    · subst hc; rfl
    · simp [RequestRead, RequestParser.version, hc, hz]
  | cmd =>
    simp only [RequestRead, hst] at h
    subst h; rfl
  | rvs =>
    simp only [RequestRead, hst] at h
    subst h
    exact ⟨c, rfl⟩
  | atype =>
    simp only [RequestRead, hst] at h
    obtain ⟨rsv, rfl⟩ := h
    simp only [RequestParser.atype]
    split
    · exact Or.inr ⟨rsv, [], by simp [RequestParser.remainingSet], rfl, Nat.succ_pos _,
        Or.inl ⟨by assumption, rfl, filledTo_nil 4⟩⟩
    · split
      · exact Or.inr ⟨rsv, [], by simp [RequestParser.remainingSet], rfl, Nat.succ_pos _,
          Or.inr ⟨by assumption, rfl, filledTo_nil 16⟩⟩
      · split
        · rename_i hd
          exact ⟨hd, rsv, [], by simp [hd]⟩
        · exact ⟨by assumption, by assumption, by assumption⟩
  | dstaddrFqdn =>
    simp only [RequestRead, hst] at h
    exact Or.inl (domainRead_snoc _ h c)
  | dstaddr => exact requestRead_addr h hst c
  | dstport => exact requestRead_port h hst c
  | _ => simp [requestStops, hst, requestIsDone] at hs

theorem requestFeed_done (p : RequestParser) {u : List UInt8} {c : UInt8}
    (hu : Undone requestParserFeed requestStops (requestParserInit p) u) :
    RequestRead (u ++ [c]) (feedAll requestParserFeed (requestParserInit p) (u ++ [c])) := by
  refine (undone_tracked ?_ (requestRead_init p) ?_ hu c).2
  · exact fun _ _ c h hs => requestRead_step h hs c
  · rfl

end SocksProxy
