import SocksProxy.SessionStep

/-!
# The phases of a session

`Phase` lists what can hold of a session between two events: what its entries
in the selector are, what its parsers have read, and how the bytes received,
the bytes sent and the two buffers add up. `step_phase` is that a step leads
from a phase to a phase.
-/

namespace SocksProxy

open Lib

/-! ## The four streams -/

section
variable (c : Conn)

def Conn.fromClient : List UInt8 := receivedOn c.clientFd c.log

/-- What has been sent to the client and what waits to be. -/
def Conn.toClient : List UInt8 := sentOn c.clientFd c.log ++ c.output.unread

def Conn.fromServer : List UInt8 := receivedOn c.server.fd c.log

def Conn.toServer : List UInt8 := sentOn c.server.fd c.log ++ c.input.unread

end

/-- Nothing has been received or sent but on `fd`. -/
def Quiet (fd : Int) (log : List Syscall) : Prop := ∀ x, x ≠ fd → receivedOn x log = [] ∧ sentOn x log = []

section
variable {fd : Int} {log : List Syscall}

theorem quiet_append {log' : List Syscall} (h : Quiet fd log) (h' : Quiet fd log') : Quiet fd (log ++ log') := by
  intro x hx
  rw [receivedOn_append, sentOn_append, (h x hx).1, (h x hx).2, (h' x hx).1, (h' x hx).2]
  exact ⟨rfl, rfl⟩

theorem quiet_recv (h : Quiet fd log) (l : Option (List UInt8)) : Quiet fd (log ++ [.recv fd l]) := by
  refine quiet_append h fun x hx => ?_
  cases l <;> simp [Syscall.receivedOn, Syscall.sentOn, Ne.symm hx]

theorem quiet_send (h : Quiet fd log) (l : Option (List UInt8)) : Quiet fd (log ++ [.send fd l]) := by
  refine quiet_append h fun x hx => ?_
  cases l <;> simp [Syscall.receivedOn, Syscall.sentOn, Ne.symm hx]

end

/-! ## The phases -/

/-- The method the callback has kept at the end of the list. -/
def selectedMethod (ms : List UInt8) : UInt8 := ms.foldl onHelloMethod 5

structure HelloReading (c : Conn) : Prop where
  parser : feedAll (helloParserFeed (some onHelloMethod)) (helloParserInit, 5) c.fromClient =
    (c.hello.parser, c.hello.method)
  undone : Undone (helloParserFeed (some onHelloMethod)) helloStops (helloParserInit, 5) c.fromClient
  drained : c.input.unread = []
  sent : c.toClient = []
  room : bufferWritePtr c.output = outputBufferSize
  quiet : Quiet c.clientFd c.log
  serverFd : c.server.fd = -1

structure HelloWriting (c : Conn) (ms h : List UInt8) : Prop where
  hello : IsHello ms h
  received : c.fromClient = h ++ c.input.unread
  method : c.hello.method = selectedMethod ms
  sending : c.toClient = [0x05, selectedMethod ms]
  pending : c.output.unread ≠ []
  quiet : Quiet c.clientFd c.log
  serverFd : c.server.fd = -1

/-- The hello `h` has been answered and the bytes `u` after it have been read. -/
structure Greeted (c : Conn) (ms h u : List UInt8) : Prop where
  hello : IsHello ms h
  noAuth : methodUsernamePassword ∉ ms
  received : c.fromClient = h ++ u ++ c.input.unread
  sent : c.toClient = [0x05, selectedMethod ms]
  drained : c.output.unread = []
  room : bufferWritePtr c.output = outputBufferSize
  quiet : Quiet c.clientFd c.log

structure RequestReading (c : Conn) (u : List UInt8) : Prop where
  parser : ∃ p, feedAll requestParserFeed (requestParserInit p) u = c.request.parser ∧
    Undone requestParserFeed requestStops (requestParserInit p) u
  status : c.request.status = .generalSocksServerFailure
  requestFd : c.request.serverFd = -1
  serverFd : c.server.fd = -1

/-- `q` is a request to connect to an IPv4 or IPv6 address. -/
def IsConnect (q : List UInt8) : Prop := ∃ atyp addr port, IsRequest socksReqCmdConnect atyp addr port q

/-- The message `q` has been read as the request `r`, with the address in it. -/
def Carries (r : Request) (q : List UInt8) : Prop :=
  IsRequest r.cmd r.destAddrType (replyAddr r.destAddrType r.destAddr) r.destPort q

/-- The reply to the request `q`, which repeats its address. -/
def replyTo (status : SocksResponseStatus) (q : List UInt8) : List UInt8 := [0x05, status.toByte, 0x00] ++ q.drop 3

structure Replying (c : Conn) (ms h q : List UInt8) : Prop where
  hello : IsHello ms h
  connect : IsConnect q
  received : c.fromClient = h ++ q ++ c.input.unread
  sending : c.toClient = [0x05, selectedMethod ms] ++ replyTo c.request.status q
  pending : c.output.unread ≠ []
  quiet : Quiet c.clientFd c.log

structure Copying (c : Conn) (ms h q : List UInt8) : Prop where
  hello : IsHello ms h
  connect : IsConnect q
  received : c.fromClient = h ++ q ++ c.toServer
  sending : ∃ status, c.toClient = [0x05, selectedMethod ms] ++ replyTo status q ++ c.fromServer

/-- What holds of a session in a state that is not a final one. -/
inductive Phase (c : Conn) (fd : Nat) : SessionState → Prop
  | helloRead (live : Live c fd opRead none) (r : HelloReading c) : Phase c fd .helloRead
  | helloWrite (ms h : List UInt8) (live : Live c fd opWrite none) (w : HelloWriting c ms h) :
      Phase c fd .helloWrite
  | requestRead (ms h u : List UInt8) (live : Live c fd opRead none) (g : Greeted c ms h u)
      (r : RequestReading c u) :
      Phase c fd .requestRead
  | connecting (ms h q : List UInt8) (m : Nat) (live : Live c fd opNoop (some (m, opWrite))) (g : Greeted c ms h q)
      (connect : IsConnect q) (carries : Carries c.request.parser.request q)
      (status : c.request.status = .generalSocksServerFailure) : Phase c fd .requestConnecting
  | stuck (ms h q : List UInt8) (live : Live c fd opRead none) (g : Greeted c ms h q)
      (request : IsConnect q ∨ DomainRead c.request.parser.request q) (server : c.server.fd ≠ c.clientFd) :
      Phase c fd .requestConnecting
  | unsupported (ms h q : List UInt8) (live : Live c fd opRead none) (g : Greeted c ms h q)
      (request : ∃ cmd t, q = 0x05 :: cmd :: t ∧ cmd ≠ socksReqCmdConnect) : Phase c fd .requestWrite
  | replying (ms h q : List UInt8) (m : Nat) (j : FdInterest) (hj : j = opNoop ∨ j = opRead)
      (live : Live c fd opWrite (some (m, j))) (r : Replying c ms h q) : Phase c fd .requestWrite
  | copying (ms h q : List UInt8) (i : FdInterest) (m : Nat) (j : FdInterest) (live : Live c fd i (some (m, j)))
      (r : Copying c ms h q) : Phase c fd .copy

/-- The invariant of a session: it has been closed, or it is in one of the phases. -/
def Inv (c : Conn) : Prop := c.freed = true ∨ ∃ fd st, InState c st ∧ Phase c fd st

/-! ## After a callback -/

section
variable {c : Conn} {fd : Nat} {i : FdInterest} {o : Option (Nat × FdInterest)} {st : SessionState}

theorem live_machine (h : Live c fd i o) (m : StateMachine) : Live { c with sMachine := m } fd i o :=
  ⟨h.alive, h.clientFd, h.isOpen, h.entries, h.serverFd, h.sniff, h.limitInput, h.limitOutput⟩

theorem phase_congr (h : Phase c fd st) (m : StateMachine) (p : Process)
    (hl : ∀ i o, Live c fd i o → Live { c with sMachine := m, toProcess := p } fd i o) :
    Phase { c with sMachine := m, toProcess := p } fd st := by
  cases h with
  | helloRead live r =>
    exact .helloRead (hl _ _ live) ⟨r.parser, r.undone, r.drained, r.sent, r.room, r.quiet, r.serverFd⟩
  | helloWrite ms h live w =>
    exact .helloWrite ms h (hl _ _ live) ⟨w.hello, w.received, w.method, w.sending, w.pending, w.quiet, w.serverFd⟩
  | requestRead ms h u live g r =>
    exact .requestRead ms h u (hl _ _ live) ⟨g.hello, g.noAuth, g.received, g.sent, g.drained, g.room, g.quiet⟩
      ⟨r.parser, r.status, r.requestFd, r.serverFd⟩
  | connecting ms h q n live g connect carries status =>
    exact .connecting ms h q n (hl _ _ live) ⟨g.hello, g.noAuth, g.received, g.sent, g.drained, g.room, g.quiet⟩
      connect carries status
  | stuck ms h q live g request server =>
    exact .stuck ms h q (hl _ _ live) ⟨g.hello, g.noAuth, g.received, g.sent, g.drained, g.room, g.quiet⟩ request
      server
  | unsupported ms h q live g request =>
    exact .unsupported ms h q (hl _ _ live) ⟨g.hello, g.noAuth, g.received, g.sent, g.drained, g.room, g.quiet⟩
      request
  | replying ms h q n j hj live r =>
    exact .replying ms h q n j hj (hl _ _ live) ⟨r.hello, r.connect, r.received, r.sending, r.pending, r.quiet⟩
  | copying ms h q i n j live r =>
    exact .copying ms h q i n j (hl _ _ live) ⟨r.hello, r.connect, r.received, r.sending⟩

theorem phase_other (h : Phase c fd st) {x : Int} {a : Action} (ho : ¬ c.Owns x)
    (hd : a.data ≠ some (.session c.self)) : Phase { c with toProcess := c.toProcess.act x a } fd st :=
  phase_congr h c.sMachine _ fun _ _ hl => live_other hl ho hd

/-- A callback of state `st` that returns a final state leaves a session that
can be closed; one that returns another state leaves it, after the arrival,
in a phase of that state. -/
def Goes (k : Key) (fd : Nat) (st : SessionState) (r : Conn × SessionState) : Prop :=
  ((r.2 = .error ∨ r.2 = .done) ∧ ∃ i o, Live r.1 fd i o) ∨
    Phase (if r.2.toNat = st.toNat then r.1 else arrive sessionStateDef r.2.toNat k r.1) fd r.2

theorem goes_error {k : Key} (h : Live c fd i o) : Goes k fd st (c, .error) := Or.inl ⟨Or.inl rfl, i, o, h⟩

theorem goes_stay {k : Key} (h : Phase c fd st) : Goes k fd st (c, st) := Or.inr (by rw [if_pos rfl]; exact h)

theorem goes_to {k : Key} {st' : SessionState} (hne : st'.toNat ≠ st.toNat)
    (h : Phase (arrive sessionStateDef st'.toNat k c) fd st') : Goes k fd st (c, st') :=
  Or.inr (by rw [if_neg hne]; exact h)

theorem toNat_inj {s t : SessionState} (h : s.toNat = t.toNat) : s = t := by
  cases s <;> cases t <;> first | rfl | exact absurd h (by decide)

theorem settle_goes {k : Key} {r : Conn × SessionState} (hst : st ≠ .error ∧ st ≠ .done) (h : Goes k fd st r) :
    (settle k st r.1 r.2.toNat).freed = true ∨
      (InState (settle k st r.1 r.2.toNat) r.2 ∧ Phase (settle k st r.1 r.2.toNat) fd r.2) := by
  rcases h with ⟨hr, i, o, hl⟩ | hp
  · left
    have hne : r.2.toNat ≠ st.toNat := by
      intro he
      rcases hr with hr | hr
      · exact hst.1 ((toNat_inj he).symm.trans hr)
      · exact hst.2 ((toNat_inj he).symm.trans hr)
    have harr : arrive sessionStateDef r.2.toNat k r.1 = r.1 := by
      rcases hr with hr | hr
      · rw [hr]; rfl
      · rw [hr]; rfl
    have hfin : r.2.toNat = SessionState.error.toNat ∨ r.2.toNat = SessionState.done.toNat := by
      rcases hr with hr | hr
      · exact Or.inl (by rw [hr])
      · exact Or.inr (by rw [hr])
    simp only [settle, hne, ite_false, harr, hfin, ite_true]
    exact (closeSession_live (live_machine hl _)).1
  · right
    have hfin : ¬ (r.2.toNat = SessionState.error.toNat ∨ r.2.toNat = SessionState.done.toNat) := by
      generalize r.2 = s at hp
      cases hp <;> decide
    simp only [settle, hfin, ite_false]
    exact ⟨Or.inl rfl, phase_congr hp _ _ fun _ _ hl => live_machine hl _⟩

end

end SocksProxy
