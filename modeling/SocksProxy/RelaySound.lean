import SocksProxy.SessionSound

/-!
# What a session relays

Once the request has been read, each direction relays a prefix of its source
stream (`relay_exact`). An end of stream is passed on at once, so the tail of a
transfer gets through exactly when the buffer is empty by then
(`eof_delivered_iff`).
-/

namespace SocksProxy

open Lib

/-! ## Messages in a stream -/

theorem isRequest_unique {cmd cmd' atyp atyp' : UInt8} {addr addr' port port' q q' r r' : List UInt8}
    (h : IsRequest cmd atyp addr port q) (h' : IsRequest cmd' atyp' addr' port' q') (he : q ++ r = q' ++ r') :
    q = q' ∧ r = r' := by
  obtain ⟨rsv, hq⟩ := h.1
  obtain ⟨rsv', hq'⟩ := h'.1
  rw [hq, hq'] at he ⊢
  simp only [List.cons_append, List.cons.injEq, true_and] at he
  obtain ⟨rfl, rfl, rfl, he⟩ := he
  obtain ⟨h1, rfl⟩ := List.append_inj he (isRequest_addr_length h h')
  rw [h1]
  exact ⟨rfl, rfl⟩

/-- A stream has at most one hello and one request at its head. -/
theorem handshake_unique {ms ms' h h' q q' r r' : List UInt8} (hh : IsHello ms h) (hh' : IsHello ms' h')
    (hq : IsConnect q) (hq' : IsConnect q') (he : h ++ q ++ r = h' ++ q' ++ r') :
    ms = ms' ∧ h = h' ∧ q = q' ∧ r = r' := by
  rw [List.append_assoc, List.append_assoc] at he
  obtain ⟨rfl, rfl, ht⟩ := isHello_unique hh hh' he
  obtain ⟨_, _, _, hq⟩ := hq
  obtain ⟨_, _, _, hq'⟩ := hq'
  obtain ⟨rfl, rfl⟩ := isRequest_unique hq hq' ht
  exact ⟨rfl, rfl, rfl, rfl⟩

theorem isConnect_head {q : List UInt8} (h : IsConnect q) :
    ∃ rsv atyp t, q = 0x05 :: socksReqCmdConnect :: rsv :: atyp :: t ∧ atyp ≠ socksAddrTypeDomain := by
  obtain ⟨atyp, addr, port, ⟨rsv, rfl⟩, -, ha⟩ := h
  refine ⟨rsv, atyp, addr ++ port, rfl, ?_⟩
  rcases ha with ⟨rfl, -⟩ | ⟨rfl, -⟩ <;> decide

/-! ## Both directions -/

section
variable {c : Conn} {fd : Nat} {st : SessionState}

theorem quiet_server (hq : Quiet c.clientFd c.log) (hne : c.server.fd ≠ c.clientFd) :
    c.toServer = c.input.unread ∧ c.fromServer = [] := by
  obtain ⟨h1, h2⟩ := hq c.server.fd hne
  exact ⟨by rw [Conn.toServer, h2, List.nil_append], h1⟩

theorem live_server_ne {i j : FdInterest} {m : Nat} (live : Live c fd i (some (m, j))) :
    c.server.fd ≠ c.clientFd := by
  rw [live.serverFd m j rfl, live.clientFd]
  exact fun h => (live.entries.origin m j rfl).1 (Int.natCast_inj.mp h)

/-- The session is past its request. -/
def PastRequest (st : SessionState) : Prop := st = .requestConnecting ∨ st = .requestWrite ∨ st = .copy

/-- What each phase past the request says of the two directions. -/
theorem phase_relay (hp : Phase c fd st) (hst : PastRequest st) {ms h q rest : List UInt8} (hello : IsHello ms h)
    (connect : IsConnect q) (received : c.fromClient = h ++ q ++ rest) :
    c.toServer = rest ∧
      ∃ reply, c.toClient = [0x05, selectedMethod ms] ++ reply ++ c.fromServer ∧
        (st = .requestConnecting ∧ reply = [] ∨ st ≠ .requestConnecting ∧ ∃ status, reply = replyTo status q) := by
  cases hp with
  | helloRead => rcases hst with h | h | h <;> cases h
  | helloWrite => rcases hst with h | h | h <;> cases h
  | requestRead => rcases hst with h | h | h <;> cases h
  | connecting ms' h' q' m live g connect' =>
    obtain ⟨rfl, rfl, rfl, rfl⟩ := handshake_unique hello g.hello connect connect' (received.symm.trans g.received)
    obtain ⟨h1, h2⟩ := quiet_server g.quiet (live_server_ne live)
    exact ⟨h1, [], by rw [g.sent, h2]; simp, Or.inl ⟨rfl, rfl⟩⟩
  | stuck ms' h' q' live g request server =>
    rcases request with connect' | ⟨-, rsv', t', hd⟩
    · obtain ⟨rfl, rfl, rfl, rfl⟩ :=
        handshake_unique hello g.hello connect connect' (received.symm.trans g.received)
      obtain ⟨h1, h2⟩ := quiet_server g.quiet server
      exact ⟨h1, [], by rw [g.sent, h2]; simp, Or.inl ⟨rfl, rfl⟩⟩
    · -- a request for a domain is none of those
      have he := received.symm.trans g.received
      rw [List.append_assoc, List.append_assoc] at he
      obtain ⟨rfl, rfl, ht⟩ := isHello_unique hello g.hello he
      obtain ⟨rsv, atyp, t, rfl, hat⟩ := isConnect_head connect
      rw [hd] at ht
      simp only [List.cons_append, List.cons.injEq] at ht
      exact absurd ht.2.2.2.1 hat
  | unsupported ms' h' q' live g request =>
    obtain ⟨cmd, t', hd, hcmd⟩ := request
    have he := received.symm.trans g.received
    rw [List.append_assoc, List.append_assoc] at he
    obtain ⟨rfl, rfl, ht⟩ := isHello_unique hello g.hello he
    obtain ⟨rsv, atyp, t, rfl, -⟩ := isConnect_head connect
    rw [hd] at ht
    simp only [List.cons_append, List.cons.injEq] at ht
    exact absurd ht.2.1.symm hcmd
  | replying ms' h' q' m j hj live r =>
    obtain ⟨rfl, rfl, rfl, rfl⟩ := handshake_unique hello r.hello connect r.connect (received.symm.trans r.received)
    obtain ⟨h1, h2⟩ := quiet_server r.quiet (live_server_ne live)
    exact ⟨h1, _, by rw [r.sending, h2, List.append_nil], Or.inr ⟨by decide, _, rfl⟩⟩
  | copying ms' h' q' i m j live r =>
    obtain ⟨rfl, rfl, rfl, rfl⟩ := handshake_unique hello r.hello connect r.connect (received.symm.trans r.received)
    obtain ⟨status, hs⟩ := r.sending
    exact ⟨rfl, _, hs, Or.inr ⟨by decide, status, rfl⟩⟩

end

/-- While a session whose request is to connect to an IPv4 or IPv6 address is
open, what is sent to the origin and what waits to be is what the client sent
after its request, and what is sent to the client and what waits to be is the
hello reply, the request reply once there is one, and what the origin sent. -/
theorem relay_exact (a : Accepted) {es : List Step} {c : Conn} (hr : run step a.conn es = .ok c)
    (hf : c.freed = false) {st : SessionState} (hc : c.sMachine.current = some st.toNat) (hst : PastRequest st)
    {ms h q rest : List UInt8} (hello : IsHello ms h) (connect : IsConnect q)
    (received : receivedOn c.clientFd c.log = h ++ q ++ rest) :
    sentOn c.server.fd c.log ++ c.input.unread = rest ∧
      ∃ reply, sentOn c.clientFd c.log ++ c.output.unread =
          [0x05, selectedMethod ms] ++ reply ++ receivedOn c.server.fd c.log ∧
        (st = .requestConnecting ∧ reply = [] ∨ st ≠ .requestConnecting ∧ ∃ status, reply = replyTo status q) := by
  obtain ⟨fd, -, hp⟩ := inv_phase (run_inv a hr) hf hc
  exact phase_relay hp hst hello connect received

/-- A client that sends a byte with its request, and an origin that sends two. -/
def relayEvents : List Step :=
  [reads 5 [0x05, 1, 0x00] .failed, writes 5 2 .failed,
    reads 5 [0x05, 0x01, 0x00, 0x01, 127, 0, 0, 1, 0, 80, 65] (connectAnswers 0),
    .event ⟨8, .write, connectAnswers 0⟩, writes 5 10 .failed, reads 8 [66, 67] .failed]

def relayEnd : Conn := final step firstAccepted.conn relayEvents

theorem relay_exact_copy :
    sentOn relayEnd.server.fd relayEnd.log ++ relayEnd.input.unread = [65] ∧
      ∃ reply, sentOn relayEnd.clientFd relayEnd.log ++ relayEnd.output.unread =
          [0x05, selectedMethod [0x00]] ++ reply ++ receivedOn relayEnd.server.fd relayEnd.log ∧
        (SessionState.copy = .requestConnecting ∧ reply = [] ∨ SessionState.copy ≠ .requestConnecting ∧
          ∃ status, reply = replyTo status [0x05, 0x01, 0x00, 0x01, 127, 0, 0, 1, 0, 80]) := by
  have hr : run step firstAccepted.conn relayEvents = .ok relayEnd := run_final (by decide +kernel)
  have hello : IsHello [0x00] [0x05, 1, 0x00] := ⟨1, rfl, rfl⟩
  have connect : IsConnect [0x05, 0x01, 0x00, 0x01, 127, 0, 0, 1, 0, 80] :=
    ⟨0x01, [127, 0, 0, 1], [0, 80], ⟨0x00, rfl⟩, rfl, Or.inl ⟨rfl, rfl⟩⟩
  exact relay_exact firstAccepted hr (by decide +kernel) (by decide +kernel) (Or.inr (Or.inr rfl)) hello connect
    (by decide +kernel)

/-! ## The end of a stream -/

section
variable {c : Conn} {fd : Nat}

/-- `copy_read` runs for side `s` and `recv` gives no bytes. -/
def ReadsEof (c : Conn) (e : Event) (s : Side) : Prop :=
  c.freed = false ∧ c.sMachine.current = some SessionState.copy.toNat ∧ Selects c e ∧ e.ready = .read ∧
    (e.fd : Int) = c.copyFd s ∧ ∃ b, recvInto (c.readBuff s) e.sys.recv = some ([], b)

/-- Every byte of the transfer from side `s` has been sent to the other side. -/
def Delivered (c : Conn) (s : Side) : Prop :=
  ∀ ms h q rest, IsHello ms h → IsConnect q → receivedOn c.clientFd c.log = h ++ q ++ rest →
    match s with
    | .client => sentOn c.server.fd c.log = rest
    | .server =>
      ∃ status, sentOn c.clientFd c.log =
        [0x05, selectedMethod ms] ++ replyTo status q ++ receivedOn c.server.fd c.log

/-- The end of a stream is passed on only when all of it has been delivered. -/
def EofDelivered (c : Conn) : Step → Prop
  | .event e => ∀ s, ReadsEof c e s → ∀ c', step c (.event e) = .ok c' → Delivered c' s
  | .other _ _ => True

/-- Nothing waits in the buffer a stream is read into when it ends. -/
def EofDrained (c : Conn) : Step → Prop
  | .event e => ∀ s, ReadsEof c e s → bufferCanRead (c.readBuff s) = false
  | .other _ _ => True

theorem settle_streams {k : Key} {r : Conn × SessionState} {i : FdInterest} {o : Option (Nat × FdInterest)}
    (live : Live r.1 fd i o) (hr : r.2 = .copy ∨ r.2 = .done) :
    (settle k .copy r.1 r.2.toNat).clientFd = r.1.clientFd ∧ (settle k .copy r.1 r.2.toNat).server = r.1.server ∧
      (∀ x, receivedOn x (settle k .copy r.1 r.2.toNat).log = receivedOn x r.1.log) ∧
      ∀ x, sentOn x (settle k .copy r.1 r.2.toNat).log = sentOn x r.1.log := by
  rcases hr with hr | hr
  · rw [hr]; exact ⟨rfl, rfl, fun _ => rfl, fun _ => rfl⟩
  · rw [hr]
    obtain ⟨-, h1, h2, h3⟩ := closeSession_live
      (live_machine live { stmCreate with current := some SessionState.done.toNat })
    have hs : settle k .copy r.1 SessionState.done.toNat =
        closeSession { r.1 with sMachine := { stmCreate with current := some SessionState.done.toNat } } := rfl
    rw [hs]
    refine ⟨h1, h2, fun x => ?_, fun x => ?_⟩
    · rw [h3]; simp [receivedOn, Syscall.receivedOn]
    · rw [h3]; simp [sentOn, Syscall.sentOn]

theorem readsEof_step {e : Event} {s : Side} (h : Inv c) (hr : ReadsEof c e s) :
    ∃ c' ms h q, step c (.event e) = .ok c' ∧ Copying c ms h q ∧ c'.clientFd = c.clientFd ∧ c'.server = c.server ∧
      (∀ x, receivedOn x c'.log = receivedOn x c.log) ∧ ∀ x, sentOn x c'.log = sentOn x c.log := by
  obtain ⟨hf, hc, hs, hread, hfd, b, hrecv⟩ := hr
  obtain ⟨fd, hst, hp⟩ : ∃ fd, InState c .copy ∧ Phase c fd .copy := inv_phase h hf hc
  cases hp with
  | copying ms h q i m j live r =>
    obtain ⟨r', hok, hgo, hend, ⟨i', j', hl⟩, same, hserver⟩ :=
      copyRead_ends (k := e.key) live r hfd (Or.inr ⟨b, hrecv⟩)
    have hh : handlerOf .copy e.ready = some (mayFault copyRead) := by rw [hread]; rfl
    have hstep : step c (.event e) = .ok (settle e.key .copy r'.1 r'.2.toNat) := by
      rw [step, dispatch_inState hst hf, if_pos hs]
      exact callbackStep_ok hh (by rw [mayFault, hok]; rfl) hgo
    obtain ⟨h1, h2, h3, h4⟩ := settle_streams (k := e.key) hl hend
    exact ⟨_, ms, h, q, hstep, r, h1.trans same.clientFd, h2.trans hserver,
      fun x => (h3 x).trans (same.received x), fun x => (h4 x).trans (same.sent x)⟩

theorem replyTo_length_eq (s s' : SocksResponseStatus) (q : List UInt8) :
    (replyTo s q).length = (replyTo s' q).length := by
  simp [replyTo]

theorem eofDelivered_iff {s : Step} (h : Inv c) : EofDelivered c s ↔ EofDrained c s := by
  cases s with
  | other x a => exact Iff.rfl
  | event e =>
    refine forall_congr' fun s => forall_congr' fun hr => ?_
    obtain ⟨c', ms, h, q, hstep, r, hfd, hserver, hrecv, hsent⟩ := readsEof_step h hr
    rw [canRead_eq_false]
    have hreceived := r.received
    rw [Conn.toServer, Conn.fromClient] at hreceived
    constructor
    · intro hd
      have hd' := hd c' hstep ms h q (sentOn c.server.fd c.log ++ c.input.unread) r.hello r.connect
        (by rw [hfd, hrecv]; exact hreceived)
      cases s with
      | client =>
        simp only [hserver, hsent] at hd'
        exact List.self_eq_append_right.mp hd'
      | server =>
        simp only [hfd, hserver, hsent, hrecv] at hd'
        obtain ⟨status, hs⟩ := r.sending
        obtain ⟨status', hd'⟩ := hd'
        have hl := congrArg List.length hs
        rw [Conn.toClient, hd'] at hl
        have := replyTo_length_eq status status' q
        simp only [List.length_append, Conn.fromServer] at hl
        have hout : c.output.unread.length = 0 := by omega
        exact List.eq_nil_of_length_eq_zero hout
    · intro hd c'' hstep' ms' h' q' rest hello connect hrest
      rw [hstep, Except.ok.injEq] at hstep'
      subst hstep'
      rw [hfd, hrecv, hreceived] at hrest
      obtain ⟨rfl, rfl, rfl, rfl⟩ := handshake_unique r.hello hello r.connect connect hrest
      cases s with
      | client =>
        simp only [Conn.readBuff] at hd
        simp only [hserver, hsent, hd, List.append_nil]
      | server =>
        simp only [Conn.readBuff] at hd
        obtain ⟨status, hs⟩ := r.sending
        rw [Conn.toClient, hd, List.append_nil] at hs
        simp only [hfd, hserver, hsent, hrecv]
        exact ⟨status, hs⟩

/-- Along a run, the end of each stream reaches the other side after all of
the stream exactly when nothing waits for that side each time it is read. -/
theorem eof_delivered_iff (a : Accepted) (es : List Step) :
    Along step EofDelivered a.conn es ↔ Along step EofDrained a.conn es :=
  along_iff (J := Inv) (fun _ _ h => eofDelivered_iff h) (fun c s c' h _ hs => step_inv c s c' h hs) es
    (accepted_inv a)

/-- The origin closes while its last two bytes wait for the client. -/
theorem eof_not_delivered : ¬ Along step EofDelivered firstAccepted.conn (relayEvents ++ [reads 8 [] .failed]) := by
  intro h
  have hr : run step firstAccepted.conn relayEvents = .ok relayEnd := run_final (by decide +kernel)
  have hstep : run step relayEnd [reads 8 [] .failed] = .ok (final step relayEnd [reads 8 [] .failed]) :=
    run_final (by decide +kernel)
  obtain ⟨u, hu, hr'⟩ := run_cons_ok.mp hstep
  rw [run_nil, Except.ok.injEq] at hr'
  rw [hr'] at hu
  have hello : IsHello [0x00] [0x05, 1, 0x00] := ⟨1, rfl, rfl⟩
  have connect : IsConnect [0x05, 0x01, 0x00, 0x01, 127, 0, 0, 1, 0, 80] :=
    ⟨0x01, [127, 0, 0, 1], [0, 80], ⟨0x00, rfl⟩, rfl, Or.inl ⟨rfl, rfl⟩⟩
  have heof : ReadsEof relayEnd ⟨8, .read, { Answers.failed with recv := .data [] }⟩ .server :=
    ⟨by decide +kernel, by decide +kernel, by decide +kernel, rfl, by decide +kernel, _, rfl⟩
  obtain ⟨status, hs⟩ := along_last h hr .server heof _ hu _ _ _ [65] hello connect (by decide +kernel)
  have hlen := congrArg List.length hs
  have h12 : (sentOn (final step relayEnd [reads 8 [] .failed]).clientFd
      (final step relayEnd [reads 8 [] .failed]).log).length = 12 := by decide +kernel
  have h2 : (receivedOn (final step relayEnd [reads 8 [] .failed]).server.fd
      (final step relayEnd [reads 8 [] .failed]).log).length = 2 := by decide +kernel
  simp [h12, h2, replyTo] at hlen

end

end SocksProxy
