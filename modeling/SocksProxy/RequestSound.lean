import SocksProxy.HelloSound

/-!
# The request states keep the phases

`ConnectOutcome` lists what an attempt to connect leads to, with the answers of the
system that lead there; `requestRead_outcome` does the same for the whole
callback.
-/

namespace SocksProxy

open Lib

section
variable {c : Conn} {fd : Nat} {i : FdInterest} {o : Option (Nat × FdInterest)} {k : Key} {ms h q : List UInt8}

/-! ## What leaves the streams alone -/

/-- System calls that neither receive nor send. -/
def Silent (s : Syscall) : Prop := ∀ x, s.receivedOn x = [] ∧ s.sentOn x = []

structure SameStreams (c c' : Conn) : Prop where
  clientFd : c'.clientFd = c.clientFd
  input : c'.input = c.input
  output : c'.output = c.output
  received : ∀ x, receivedOn x c'.log = receivedOn x c.log
  sent : ∀ x, sentOn x c'.log = sentOn x c.log

theorem receivedOn_silent {s : Syscall} (hs : Silent s) (x : Int) (log : List Syscall) :
    receivedOn x (log ++ [s]) = receivedOn x log := by
  rw [receivedOn_append, receivedOn_singleton, (hs x).1, List.append_nil]

theorem sentOn_silent {s : Syscall} (hs : Silent s) (x : Int) (log : List Syscall) :
    sentOn x (log ++ [s]) = sentOn x log := by
  rw [sentOn_append, sentOn_singleton, (hs x).2, List.append_nil]

theorem sameStreams_refl (c : Conn) : SameStreams c c := ⟨rfl, rfl, rfl, fun _ => rfl, fun _ => rfl⟩

theorem sameStreams_note {c' : Conn} (h : SameStreams c c') {s : Syscall} (hs : Silent s) :
    SameStreams c (c'.note s) :=
  ⟨h.clientFd, h.input, h.output, fun x => (receivedOn_silent hs x _).trans (h.received x),
    fun x => (sentOn_silent hs x _).trans (h.sent x)⟩

theorem greeted_same {c' : Conn} (g : Greeted c ms h q) (s : SameStreams c c') : Greeted c' ms h q where
  hello := g.hello
  noAuth := g.noAuth
  received := by rw [Conn.fromClient, s.clientFd, s.received, s.input]; exact g.received
  sent := by rw [Conn.toClient, s.clientFd, s.sent, s.output]; exact g.sent
  drained := by rw [s.output]; exact g.drained
  room := by rw [s.output]; exact g.room
  quiet := by
    intro x hx
    rw [s.clientFd] at hx
    rw [s.received, s.sent]; exact g.quiet x hx

/-! ## The reply -/

theorem carries_reply (status : SocksResponseStatus) {r : Request} (hc : Carries r q) :
    replyFrame status r.destAddrType r.destAddr r.destPort = replyTo status q := by
  obtain ⟨⟨rsv, rfl⟩, -, -⟩ := hc
  simp [replyFrame, replyTo]

theorem isRequest_length {cmd atyp : UInt8} {addr port : List UInt8} (hq : IsRequest cmd atyp addr port q) :
    10 ≤ q.length ∧ q.length ≤ 22 := by
  obtain ⟨⟨rsv, rfl⟩, hp, ⟨-, ha⟩ | ⟨-, ha⟩⟩ := hq
  · simp [ha, hp]
  · simp [ha, hp]

/-- The type of the address says how long a request is. -/
theorem isRequest_addr_length {cmd cmd' atyp : UInt8} {addr addr' port port' q q' : List UInt8}
    (h : IsRequest cmd atyp addr port q) (h' : IsRequest cmd' atyp addr' port' q') :
    (addr ++ port).length = (addr' ++ port').length := by
  obtain ⟨-, hp, ha⟩ := h
  obtain ⟨-, hp', ha'⟩ := h'
  rw [List.length_append, List.length_append, hp, hp']
  rcases ha with ⟨h4, hl⟩ | ⟨h6, hl⟩
  · rcases ha' with ⟨-, hl'⟩ | ⟨h6', -⟩
    · rw [hl, hl']
    · exact absurd (h4.symm.trans h6') (by decide)
  · rcases ha' with ⟨h4', -⟩ | ⟨-, hl'⟩
    · exact absurd (h6.symm.trans h4') (by decide)
    · rw [hl, hl']

theorem length_replyTo (status : SocksResponseStatus) {cmd atyp : UInt8} {addr port : List UInt8}
    (hq : IsRequest cmd atyp addr port q) : (replyTo status q).length = q.length := by
  have := isRequest_length hq
  simp only [replyTo, List.length_append, List.length_drop, List.length_cons, List.length_nil]; omega

theorem queueReply_fits (hroom : bufferWritePtr c.output = outputBufferSize)
    (hc : Carries c.request.parser.request q) :
    ∃ b n, queueReply c = ({ c with output := b }, n) ∧ n ≠ -1 ∧
      b.unread = c.output.unread ++ replyTo c.request.status q ∧ b.limit = c.output.limit := by
  have hl : (replyTo c.request.status q).length ≤ bufferWritePtr c.output := by
    rw [hroom, length_replyTo _ hc]
    exact (isRequest_length hc).2.trans (Nat.le_of_ble_eq_true rfl)
  refine ⟨_, ((replyTo c.request.status q).length : Int), ?_, ?_, unread_fill c.output ⟨_, hl⟩, limit_fill _ _⟩
  · unfold queueReply requestMarshal
    simp only [carries_reply c.request.status hc, bufferMarshal_fits hl]
  · omega

theorem live_status (live : Live c fd i o) (s : SocksResponseStatus) :
    Live { c with request.status := s } fd i o :=
  ⟨live.alive, live.clientFd, live.isOpen, live.entries, live.serverFd, live.sniff, live.limitInput,
    live.limitOutput⟩

theorem greeted_status (g : Greeted c ms h q) (s : SocksResponseStatus) :
    Greeted { c with request.status := s } ms h q :=
  greeted_same g ⟨rfl, rfl, rfl, fun _ => rfl, fun _ => rfl⟩

/-- The output is drained, so the reply is all that it holds. -/
theorem queueReply_replies (live : Live c fd i o) (g : Greeted c ms h q) (connect : IsConnect q)
    (carries : Carries c.request.parser.request q) :
    ∃ b n, queueReply c = ({ c with output := b }, n) ∧ n ≠ -1 ∧ b.unread = replyTo c.request.status q ∧
      Live { c with output := b } fd i o ∧ Replying { c with output := b } ms h q := by
  obtain ⟨b, n, hqueue, hneg, hb, hlimit⟩ := queueReply_fits g.room carries
  rw [g.drained, List.nil_append] at hb
  have hlive : Live { c with output := b } fd i o :=
    ⟨live.alive, live.clientFd, live.isOpen, live.entries, live.serverFd, live.sniff, live.limitInput,
      hlimit.trans live.limitOutput⟩
  have hsent := g.sent
  rw [Conn.toClient, g.drained, List.append_nil] at hsent
  have hto : sentOn c.clientFd c.log ++ b.unread = [0x05, selectedMethod ms] ++ replyTo c.request.status q := by
    rw [hsent, hb]
  have hpending : b.unread ≠ [] := by
    rw [hb]
    exact List.cons_ne_nil _ _
  exact ⟨b, n, hqueue, hneg, hb, hlive, g.hello, connect, g.received, hto, hpending, g.quiet⟩

/-! ## Connecting to the origin -/

theorem live_register (hl : Live c fd i none) {m : Nat} (hm : c.server.fd = m) (j : FdInterest) :
    (∃ sel, c.register m .client j = ({ c with sel := sel }, .success) ∧
        Live { c with sel := sel } fd i (some (m, j))) ∨
      ∃ st, c.register m .client j = (c, st) ∧ st ≠ .success := by
  rcases entries_register hl.entries m j with ⟨h1, h2⟩ | ⟨h1, h2⟩
  · refine Or.inl ⟨_, Prod.ext rfl h1, ?_⟩
    refine ⟨hl.alive, hl.clientFd, hl.isOpen, h2, ?_, hl.sniff, hl.limitInput, hl.limitOutput⟩
    intro m' j' hm'
    obtain ⟨rfl, rfl⟩ := Prod.mk.inj (Option.some.inj hm')
    exact hm
  · refine Or.inr ⟨_, ?_, h1⟩
    unfold Conn.register
    simp only [h2]

/-- Where an attempt to connect for the request `q` leads. -/
inductive ConnectOutcome (k : Key) (c : Conn) (fd : Nat) (ms h q : List UInt8) : Conn × SessionState → Prop
  | failed (c' : Conn) (live : ∃ i o, Live c' fd i o)
      (why : c.newFd k.sys.socket = none ∨ (k.sys.fcntl = true ∧ k.sys.connect ≠ none)) :
      ConnectOutcome k c fd ms h q (c', .error)
  | stuck (c' : Conn) (live : Live c' fd opRead none) (g : Greeted c' ms h q) (server : c'.server.fd ≠ c'.clientFd)
      (why : c.newFd k.sys.socket ≠ none ∧ (k.sys.fcntl = false ∨ k.sys.connect = none)) :
      ConnectOutcome k c fd ms h q (c', .requestConnecting)
  | waiting (c' : Conn) (m : Nat) (live : Live c' fd opNoop (some (m, opWrite))) (g : Greeted c' ms h q)
      (parser : c'.request.parser = c.request.parser) (status : c'.request.status = c.request.status)
      (why : k.sys.fcntl = true ∧ k.sys.connect = some EINPROGRESS) :
      ConnectOutcome k c fd ms h q (c', .requestConnecting)
  | refused (c' : Conn) (m errno : Nat) (live : Live c' fd opWrite (some (m, opNoop))) (r : Replying c' ms h q)
      (output : c'.output.unread = replyTo (errnoToSocks errno) q) (parser : c'.request.parser = c.request.parser)
      (why : k.sys.fcntl = true ∧ k.sys.connect = some errno ∧ errno ≠ EINPROGRESS) :
      ConnectOutcome k c fd ms h q (c', .requestWrite)

/-- An attempt with an answer, or without a socket, does not leave the session
where no event comes for it. -/
theorem not_stranded {new : Option Nat} {sys : Answers}
    (why : new = none ∨ (sys.fcntl = true ∧ sys.connect ≠ none)) :
    ¬ (new ≠ none ∧ (sys.fcntl = false ∨ sys.connect = none)) := by
  rintro ⟨hnew, hcalls⟩
  rcases why with hno | ⟨hfcntl, hconnect⟩
  · exact hnew hno
  · rcases hcalls with h' | h'
    · exact Bool.false_ne_true (h'.symm.trans hfcntl)
    · exact hconnect h'

theorem not_stranded_answered {new : Option Nat} {sys : Answers} {errno : Nat} (hfcntl : sys.fcntl = true)
    (hconnect : sys.connect = some errno) : ¬ (new ≠ none ∧ (sys.fcntl = false ∨ sys.connect = none)) :=
  not_stranded (Or.inr ⟨hfcntl, by rw [hconnect]; exact Option.some_ne_none _⟩)

theorem connectOrigin_outcome {c₀ : Conn} {m : Nat} (live : Live c fd opRead none) (hm : c.server.fd = m)
    (hne : c.server.fd ≠ c.clientFd) (g : Greeted c ms h q) (connect : IsConnect q)
    (carries : Carries c.request.parser.request q) (parser : c.request.parser = c₀.request.parser)
    (status : c.request.status = c₀.request.status) (hk : k.fd = fd) (hf : k.sys.fcntl = true)
    (hnew : c₀.newFd k.sys.socket ≠ none) :
    ConnectOutcome k c₀ fd ms h q (connectOrigin k false c) := by
  have hsilent : Silent (.connect c.server.fd c.server.address c.server.addressLen k.sys.connect) :=
    fun _ => ⟨rfl, rfl⟩
  have same := sameStreams_note (sameStreams_refl c) hsilent
  have hlive := live_note live (.connect c.server.fd c.server.address c.server.addressLen k.sys.connect)
  generalize hn : c.note (.connect c.server.fd c.server.address c.server.addressLen k.sys.connect) =
      c₁ at same hlive
  have hm₁ : c₁.server.fd = m := by rw [← hn]; exact hm
  have hr₁ : c₁.request = c.request := by rw [← hn]; rfl
  have g₁ := greeted_same g same
  unfold connectOrigin
  simp only [hn]
  rw [hm]
  cases hc : k.sys.connect with
  | none => exact .stuck c₁ hlive g₁ (by subst hn; exact hne) ⟨hnew, Or.inr hc⟩
  | some errno =>
    simp only
    -- EINPROGRESS is waited for; any other error is answered at once
    by_cases he : errno = EINPROGRESS
    · obtain ⟨sel, hset, hlive'⟩ := live_setClient hlive hk opNoop
      simp only [he, ite_true, hset, Bool.false_eq_true, ite_false]
      -- the origin's descriptor may be past what select watches
      rcases live_register hlive' hm₁ opWrite with ⟨sel', hreg, hlive''⟩ | ⟨st, hreg, hst⟩
      · simp only [hreg, ite_true]
        refine .waiting _ m hlive'' ?_ ?_ ?_ ⟨hf, by rw [hc, he]⟩
        · exact greeted_same g₁ ⟨rfl, rfl, rfl, fun _ => rfl, fun _ => rfl⟩
        · exact (congrArg RequestSt.parser hr₁).trans parser
        · exact (congrArg RequestSt.status hr₁).trans status
      · simp only [hreg, hst, ite_false]
        exact .failed _ ⟨_, _, hlive'⟩ (Or.inr ⟨hf, by rw [hc]; exact Option.some_ne_none _⟩)
    · obtain ⟨b, n, hq, hneg, hout, hlive₂, hreply⟩ := queueReply_replies (live_status hlive (errnoToSocks errno))
        (greeted_status g₁ _) connect (by rw [hr₁]; exact carries)
      obtain ⟨sel, hset, hlive'⟩ := live_setClient hlive₂ hlive₂.clientFd opWrite
      simp only [he, ite_false, hq, hneg, hset]
      rcases live_register hlive' hm₁ opNoop with ⟨sel', hreg, hlive''⟩ | ⟨st, hreg, hst⟩
      · simp only [hreg, ite_true]
        refine .refused _ m errno hlive'' ?_ hout ((congrArg RequestSt.parser hr₁).trans parser) ⟨hf, hc, he⟩
        exact ⟨hreply.hello, connect, hreply.received, hreply.sending, hreply.pending, hreply.quiet⟩
      · simp only [hreg, hst, ite_false]
        exact .failed _ ⟨_, _, hlive'⟩ (Or.inr ⟨hf, by rw [hc]; exact Option.some_ne_none _⟩)

theorem requestConnect_outcome (live : Live c fd opRead none) (g : Greeted c ms h q) (connect : IsConnect q)
    (carries : Carries c.request.parser.request q) (hs : c.request.serverFd = -1) (hk : k.fd = fd) :
    ConnectOutcome k c fd ms h q (requestConnect k c) := by
  unfold requestConnect
  simp only [hs, ne_eq, not_true_eq_false, decide_false, Bool.false_eq_true, ite_false, Bool.not_true]
  cases hnew : c.newFd k.sys.socket with
  | none =>
    simp only [Conn.socket, hnew, ite_true]
    have hlive := live_note live (.socket c.server.domain (-1))
    refine .failed _ ⟨opRead, none, ?_⟩ (Or.inl hnew)
    exact ⟨hlive.alive, hlive.clientFd, hlive.isOpen, hlive.entries, by simp, hlive.sniff, hlive.limitInput,
      hlive.limitOutput⟩
  | some n =>
    have hne : ¬ (n : Int) = -1 := by omega
    have hsome : c.newFd k.sys.socket ≠ none := by rw [hnew]; exact Option.some_ne_none _
    have same := sameStreams_note (sameStreams_refl c) (s := .socket c.server.domain n) fun _ => ⟨rfl, rfl⟩
    have hlive := live_note live (.socket c.server.domain n)
    have g' := greeted_same g same
    simp only [Conn.socket, hnew, hne, ite_false]
    generalize hc' : ({ { c.note (.socket c.server.domain n) with openFds := (n : Int) :: c.openFds } with
      request.serverFd := n, server.fd := n } : Conn) = c'
    have hlive' : Live c' fd opRead none := by
      subst hc'
      exact ⟨hlive.alive, hlive.clientFd, List.mem_cons_of_mem _ hlive.isOpen, hlive.entries, by simp, hlive.sniff,
        hlive.limitInput, hlive.limitOutput⟩
    have g'' : Greeted c' ms h q := by
      subst hc'
      exact greeted_same g' ⟨rfl, rfl, rfl, fun _ => rfl, fun _ => rfl⟩
    have hm : c'.server.fd = n := by subst hc'; rfl
    have hp : c'.request.parser = c.request.parser := by subst hc'; rfl
    have hst : c'.request.status = c.request.status := by subst hc'; rfl
    have hserver : c'.server.fd ≠ c'.clientFd := by
      rw [hm, hlive'.clientFd]
      intro he
      have hfilter := (Option.filter_eq_some_iff.mp hnew).2
      rw [decide_eq_true_eq, he] at hfilter
      exact hfilter live.isOpen
    cases hf : k.sys.fcntl with
    | false =>
      simp only [Bool.not_false, ite_true]
      exact .stuck c' hlive' g'' hserver ⟨hsome, Or.inl hf⟩
    | true =>
      simp only [Bool.not_true, Bool.false_eq_true, ite_false]
      exact connectOrigin_outcome hlive' hm hserver g'' connect (hp ▸ carries) hp hst hk hf hsome

/-! ## Requests -/

/-- A request that has been read is one for a domain, or it is held as it was sent. -/
theorem requestRead_done {p : RequestParser} (h : RequestRead q p) (hs : p.state = .done) :
    DomainRead p.request q ∨ Carries p.request q := by
  simp only [RequestRead, hs] at h
  rcases h with h | ⟨addr, hq, ha⟩
  · exact Or.inl h
  · have haddr : replyAddr p.request.destAddrType p.request.destAddr = addr := by
      rcases ha with ⟨ht, hl, hf⟩ | ⟨ht, hl, hf⟩
      · simp only [replyAddr, ht, ite_true]
        exact filledTo_full hf hl
      · have hne : socksAddrTypeIpv6 ≠ socksAddrTypeIpv4 := by decide
        simp only [replyAddr, ht, hne, ite_true, ite_false]
        exact filledTo_full hf hl
    exact Or.inr (by unfold Carries; rw [haddr]; exact hq)

theorem isConnect_of_carries {r : Request} (h : Carries r q) (hc : r.cmd = socksReqCmdConnect) : IsConnect q :=
  ⟨r.destAddrType, replyAddr r.destAddrType r.destAddr, r.destPort, hc ▸ h⟩

/-- The port stored with the address is not part of what a reply repeats. -/
theorem carries_setPort {r : Request} (h : Carries r q) (a4 a6 : SockAddr) (h4 : a4.addr = r.destAddr.ipv4.addr)
    (h6 : a6.addr = r.destAddr.ipv6.addr) : Carries { r with destAddr.ipv4 := a4, destAddr.ipv6 := a6 } q := by
  have haddr : replyAddr r.destAddrType { r.destAddr with ipv4 := a4, ipv6 := a6 } =
      replyAddr r.destAddrType r.destAddr := by
    simp only [replyAddr, h4, h6]
  unfold Carries
  simp only [haddr]
  exact h

theorem head_of_read {r : Request} (h : DomainRead r q ∨ Carries r q) : ∃ t, q = 0x05 :: r.cmd :: t := by
  rcases h with ⟨-, rsv, t, rfl⟩ | ⟨⟨rsv, rfl⟩, -, -⟩
  · exact ⟨_, rfl⟩
  · exact ⟨_, rfl⟩

/-- Where a request that has been read leads. -/
inductive ProcessOutcome (k : Key) (c : Conn) (fd : Nat) (ms h q : List UInt8) : Conn × SessionState → Prop
  | unsupported (c' : Conn) (cmd : c.request.parser.request.cmd ≠ socksReqCmdConnect)
      (live : Live c' fd opRead none) (g : Greeted c' ms h q) :
      ProcessOutcome k c fd ms h q (c', .requestWrite)
  | domain (c' : Conn) (cmd : c.request.parser.request.cmd = socksReqCmdConnect)
      (atyp : c.request.parser.request.destAddrType = socksAddrTypeDomain) (live : Live c' fd opRead none)
      (g : Greeted c' ms h q) (read : DomainRead c'.request.parser.request q)
      (server : c'.server.fd = c.server.fd) :
      ProcessOutcome k c fd ms h q (c', .requestConnecting)
  | connect (r : Conn × SessionState) (cmd : c.request.parser.request.cmd = socksReqCmdConnect)
      (atyp : c.request.parser.request.destAddrType ≠ socksAddrTypeDomain) (c₁ : Conn)
      (outcome : ConnectOutcome k c₁ fd ms h q r) (newFd : c₁.newFd k.sys.socket = c.newFd k.sys.socket)
      (status : c₁.request.status = c.request.status) (carries : Carries c₁.request.parser.request q) :
      ProcessOutcome k c fd ms h q r

theorem requestProcess_outcome (live : Live c fd opRead none) (g : Greeted c ms h q) (hs : c.request.serverFd = -1)
    (hk : k.fd = fd) (read : DomainRead c.request.parser.request q ∨ Carries c.request.parser.request q) :
    ProcessOutcome k c fd ms h q (requestProcess k c) := by
  have hlive : ∀ c' : Conn, c'.toProcess = c.toProcess → c'.self = c.self → c'.freed = c.freed →
      c'.clientFd = c.clientFd → c'.input = c.input → c'.output = c.output → c'.sniff = c.sniff →
      Live c' fd opRead none := by
    intro c' h1 h2 h3 h4 h5 h6 h7
    refine ⟨h3 ▸ live.alive, h4 ▸ live.clientFd, ?_, ?_, by simp, h7 ▸ live.sniff, h5 ▸ live.limitInput,
      h6 ▸ live.limitOutput⟩
    · rw [h1]; exact live.isOpen
    · rw [h1, h2]; exact live.entries
  unfold requestProcess
  simp only
  by_cases hcmd : c.request.parser.request.cmd = socksReqCmdConnect
  · rw [if_pos hcmd]
    rcases read with hdom | hcar
    · have h4 : c.request.parser.request.destAddrType ≠ socksAddrTypeIpv4 := by rw [hdom.1]; decide
      have h6 : c.request.parser.request.destAddrType ≠ socksAddrTypeIpv6 := by rw [hdom.1]; decide
      rw [if_neg h4, if_neg h6, if_pos hdom.1]
      exact .domain c hcmd hdom.1 live g hdom rfl
    · have hconn := isConnect_of_carries hcar hcmd
      have hset := carries_setPort hcar
      rcases hcar.2.2 with ⟨ht, -⟩ | ⟨ht, -⟩
      · have hdom : c.request.parser.request.destAddrType ≠ socksAddrTypeDomain := by rw [ht]; decide
        rw [if_pos ht]
        refine .connect _ hcmd hdom _
          (requestConnect_outcome (hlive _ rfl rfl rfl rfl rfl rfl rfl) ?_ hconn ?_ hs hk) rfl rfl ?_
        · exact greeted_same g ⟨rfl, rfl, rfl, fun _ => rfl, fun _ => rfl⟩
        · exact hset _ _ rfl rfl
        · exact hset _ _ rfl rfl
      · have h4 : c.request.parser.request.destAddrType ≠ socksAddrTypeIpv4 := by rw [ht]; decide
        have hdom : c.request.parser.request.destAddrType ≠ socksAddrTypeDomain := by rw [ht]; decide
        rw [if_neg h4, if_pos ht]
        refine .connect _ hcmd hdom _
          (requestConnect_outcome (hlive _ rfl rfl rfl rfl rfl rfl rfl) ?_ hconn ?_ hs hk) rfl rfl ?_
        · exact greeted_same g ⟨rfl, rfl, rfl, fun _ => rfl, fun _ => rfl⟩
        · exact hset _ _ rfl rfl
        · exact hset _ _ rfl rfl
  · rw [if_neg hcmd]
    exact .unsupported _ hcmd (hlive _ rfl rfl rfl rfl rfl rfl rfl)
      (greeted_same g ⟨rfl, rfl, rfl, fun _ => rfl, fun _ => rfl⟩)

/-! ## REQUEST_READ -/

/-- The bytes received complete the request, and the parser ends as `p`. -/
def Completes (c : Conn) (k : Key) (p : RequestParser) : Prop :=
  ∃ l b, recvInto c.input k.sys.recv = some (l, b) ∧ l ≠ [] ∧ (requestConsume b c.request.parser).2 = p ∧
    p.state = .done

theorem completes_unique {p p' : RequestParser} (h : Completes c k p) (h' : Completes c k p') : p = p' := by
  obtain ⟨l, b, hr, -, hp, -⟩ := h
  obtain ⟨l', b', hr', -, hp', -⟩ := h'
  obtain ⟨-, rfl⟩ := Prod.mk.inj (Option.some.inj (hr.symm.trans hr'))
  exact hp.symm.trans hp'

theorem completes_forall {P : RequestParser → Prop} {p : RequestParser} (h : Completes c k p) :
    (∀ p', Completes c k p' → P p') ↔ P p := by
  constructor
  · exact fun hall => hall p h
  · intro hp p' h'
    rw [completes_unique h' h]
    exact hp

/-- Where the bytes received in REQUEST_READ lead. -/
inductive ReadOutcome (k : Key) (c : Conn) (fd : Nat) (ms h : List UInt8) : Conn × SessionState → Prop
  | ended (c' : Conn) (live : ∃ i o, Live c' fd i o) (more : ∀ p, ¬ Completes c k p) :
      ReadOutcome k c fd ms h (c', .error)
  | more (c' : Conn) (u : List UInt8) (live : Live c' fd opRead none) (g : Greeted c' ms h u)
      (r : RequestReading c' u) (more : ∀ p, ¬ Completes c k p) : ReadOutcome k c fd ms h (c', .requestRead)
  | complete (r : Conn × SessionState) (c₁ : Conn) (q : List UInt8) (complete : Completes c k c₁.request.parser)
      (outcome : ProcessOutcome k c₁ fd ms h q r)
      (read : DomainRead c₁.request.parser.request q ∨ Carries c₁.request.parser.request q)
      (newFd : c₁.newFd k.sys.socket = c.newFd k.sys.socket)
      (status : c₁.request.status = .generalSocksServerFailure) (server : c₁.server.fd = -1) :
      ReadOutcome k c fd ms h r

theorem connectOrigin_leaves (k : Key) (g : Bool) (c : Conn) : (connectOrigin k g c).2 ≠ .requestRead := by
  unfold connectOrigin
  grind

theorem requestProcess_leaves (k : Key) (c : Conn) : (requestProcess k c).2 ≠ .requestRead := by
  unfold requestProcess requestConnect
  grind [connectOrigin_leaves]

theorem requestStops_false {p : RequestParser} (h : requestStops p = false) :
    requestIsDone p.state = (false, false) := by
  unfold requestStops at h
  cases hs : p.state <;> rw [hs] at h <;> first | rfl | exact absurd h (by decide)

theorem requestStops_true {p : RequestParser} (h : requestStops p = true) :
    p.state = .done ∨ (requestIsDone p.state = (true, true) ∧ p.state ≠ .done) := by
  unfold requestStops at h
  cases hs : p.state <;> rw [hs] at h <;>
    first | exact Or.inl rfl | exact absurd h (by decide) | exact Or.inr ⟨rfl, by decide⟩

theorem requestConsumed_error (live : Live c fd opRead none) (hk : k.fd = fd)
    (hd : requestIsDone c.request.parser.state = (true, true)) (hne : c.request.parser.state ≠ .done)
    (read : RequestRead q c.request.parser) :
    ∃ c', requestConsumed k c = (c', .error) ∧ ∃ i o, Live c' fd i o := by
  unfold requestConsumed
  simp only [hd, ite_true]
  refine ⟨_, rfl, ?_⟩
  unfold requestProcess
  have hlive : ∀ st : SocksResponseStatus, Live { c with request.status := st } fd opRead none := fun _ =>
    ⟨live.alive, live.clientFd, live.isOpen, live.entries, live.serverFd, live.sniff, live.limitInput,
      live.limitOutput⟩
  cases hs : c.request.parser.state with
  | errorUnsupportedVersion =>
    simp only [RequestRead, hs] at read
    have hcmd : c.request.parser.request.cmd ≠ socksReqCmdConnect := by rw [read]; decide
    simp only [hcmd, ite_false]
    exact ⟨_, _, hlive _⟩
  | errorUnsupportedAtype =>
    simp only [RequestRead, hs] at read
    obtain ⟨h4, h6, hd⟩ := read
    obtain ⟨sel, hset, hlive'⟩ := live_setClient (hlive .addressTypeNotSupported) hk opWrite
    simp only [h4, h6, hd, ite_false, hset]
    split
    · exact ⟨_, _, hlive'⟩
    · exact ⟨_, _, hlive _⟩
  | error => simp [RequestRead, hs] at read
  | done => exact absurd hs hne
  | _ => rw [hs] at hd; exact absurd hd (by decide)

/-- The session with the bytes received, and what they make of the request. -/
def requestReceived (k : Key) (c : Conn) (l : List UInt8) (b : Buffer) : Conn :=
  { c.note (.recv k.fd (some l)) with
    input := (requestConsume b c.request.parser).1
    request.parser := (requestConsume b c.request.parser).2 }

section
variable {u l : List UInt8} {b : Buffer} (live : Live c fd opRead none) (g : Greeted c ms h u)
  (r : RequestReading c u) (hk : k.fd = fd) (hrecv : recvInto c.input k.sys.recv = some (l, b)) (hl : l ≠ [])

include hrecv in
theorem completes_received {p : RequestParser} (hc : Completes c k p) :
    (requestReceived k c l b).request.parser = p ∧ p.state = .done := by
  obtain ⟨l', b', hr, -, hp, hs⟩ := hc
  obtain ⟨rfl, rfl⟩ := Prod.mk.inj (Option.some.inj (hrecv.symm.trans hr))
  exact ⟨hp, hs⟩

include live hrecv in
theorem requestReceived_live : Live (requestReceived k c l b) fd opRead none := by
  obtain ⟨-, hlimit, -⟩ := recvInto_some hrecv
  have hlim : (requestConsume b c.request.parser).1.limit = b.limit :=
    (consume_spec requestParserFeed requestStops b c.request.parser).2.2
  exact ⟨live.alive, live.clientFd, live.isOpen, live.entries, live.serverFd, live.sniff,
    hlim.trans (hlimit.trans live.limitInput), live.limitOutput⟩

include live g hk hrecv in
/-- The bytes that the parser has taken are the request's. -/
theorem requestReceived_greeted {t : List UInt8} (ht : b.unread = t ++ (requestReceived k c l b).input.unread) :
    Greeted (requestReceived k c l b) ms h (u ++ t) := by
  have hfd : k.fd = c.clientFd := hk.trans live.clientFd.symm
  obtain ⟨hb, -, -⟩ := recvInto_some hrecv
  have hfrom : (requestReceived k c l b).fromClient = c.fromClient ++ l := by
    simp [requestReceived, Conn.fromClient, Conn.note, Syscall.receivedOn, hfd]
  have hto : (requestReceived k c l b).toClient = c.toClient := by
    simp [requestReceived, Conn.toClient, Conn.note, Syscall.sentOn]
  refine ⟨g.hello, g.noAuth, ?_, hto.trans g.sent, g.drained, g.room, hfd ▸ quiet_recv g.quiet (some l)⟩
  rw [hfrom, g.received, List.append_assoc _ c.input.unread, ← hb, ht]
  simp only [List.append_assoc]

include live g r hk hrecv hl in
/-- The request has not ended with the bytes received. -/
theorem requestMore_outcome (hu : Undone requestParserFeed requestStops c.request.parser b.unread)
    (hp : (requestReceived k c l b).request.parser = feedAll requestParserFeed c.request.parser b.unread)
    (hun : (requestReceived k c l b).input.unread = []) :
    ReadOutcome k c fd ms h (requestConsumed k (requestReceived k c l b)) := by
  obtain ⟨p₀, hp₀, hu₀⟩ := r.parser
  obtain ⟨hb, -, -⟩ := recvInto_some hrecv
  rw [← hp₀] at hu
  rw [← hp₀, ← feedAll_append] at hp
  have hund := undone_append.mpr ⟨hu₀, hu⟩
  have hne : u ++ b.unread ≠ [] := by
    rw [hb]
    exact fun he => hl (List.append_eq_nil_iff.mp (List.append_eq_nil_iff.mp he).2).2
  have hdone : requestIsDone (requestReceived k c l b).request.parser.state = (false, false) :=
    requestStops_false (hp ▸ undone_done hund hne)
  have hstays : requestConsumed k (requestReceived k c l b) = (requestReceived k c l b, .requestRead) := by
    unfold requestConsumed
    simp only [hdone, Bool.false_eq_true, ite_false]
  rw [hstays]
  refine .more _ (u ++ b.unread) (requestReceived_live live hrecv)
    (requestReceived_greeted live g hk hrecv (by rw [hun, List.append_nil])) ?_ ?_
  · exact ⟨⟨p₀, hp.symm, hund⟩, r.status, r.requestFd, r.serverFd⟩
  · intro p hc
    obtain ⟨hparser, hs⟩ := completes_received hrecv hc
    rw [hparser, hs] at hdone
    exact absurd hdone (by decide)

include live g r hk hrecv hl in
/-- The parser stops at the byte `x`: the request is complete, or refused. -/
theorem requestEnd_outcome {v t : List UInt8} {x : UInt8} (hv : b.unread = v ++ x :: t)
    (hu : Undone requestParserFeed requestStops c.request.parser v)
    (hd : requestStops (feedAll requestParserFeed c.request.parser (v ++ [x])) = true)
    (hp : (requestReceived k c l b).request.parser = feedAll requestParserFeed c.request.parser (v ++ [x]))
    (hun : (requestReceived k c l b).input.unread = t) :
    ReadOutcome k c fd ms h (requestConsumed k (requestReceived k c l b)) := by
  obtain ⟨p₀, hp₀, hu₀⟩ := r.parser
  have hlive := requestReceived_live live hrecv
  have hgreeted : Greeted (requestReceived k c l b) ms h (u ++ v ++ [x]) := by
    rw [List.append_assoc]
    exact requestReceived_greeted live g hk hrecv (by rw [hv, hun, List.append_assoc]; rfl)
  rw [← hp] at hd
  rw [← hp₀] at hu
  rw [← hp₀, ← feedAll_append, ← List.append_assoc] at hp
  have hread := requestFeed_done p₀ (c := x) (undone_append.mpr ⟨hu₀, hu⟩)
  rw [← hp] at hread
  rcases requestStops_true hd with hs | ⟨hs, hne⟩
  · have hdone := requestRead_done hread hs
    have hcons : requestConsumed k (requestReceived k c l b) = requestProcess k (requestReceived k c l b) := by
      unfold requestConsumed
      simp [hs, requestIsDone]
    rw [hcons]
    exact .complete _ _ _ ⟨l, b, hrecv, hl, rfl, hs⟩
      (requestProcess_outcome hlive hgreeted r.requestFd hk hdone) hdone rfl r.status r.serverFd
  · -- `request_process` is called for the refused request too, and its answer replaced
    obtain ⟨c', he, hlive'⟩ := requestConsumed_error hlive hk hs hne hread
    rw [he]
    refine .ended c' hlive' ?_
    intro p hc
    obtain ⟨rfl, hsd⟩ := completes_received hrecv hc
    exact hne hsd

end

theorem requestRead_outcome {u : List UInt8} (live : Live c fd opRead none) (g : Greeted c ms h u)
    (r : RequestReading c u) (hk : k.fd = fd) : ReadOutcome k c fd ms h (requestRead k c) := by
  unfold requestRead
  cases hrecv : recvInto c.input k.sys.recv with
  | none =>
    refine .ended _ ⟨_, _, live_note live _⟩ ?_
    rintro p ⟨l, b, hr, -⟩
    rw [hrecv] at hr; cases hr
  | some lb =>
    obtain ⟨l, b⟩ := lb
    simp only
    by_cases hl : l = []
    · rw [if_pos hl]
      refine .ended _ ⟨_, _, live_note live _⟩ ?_
      rintro p ⟨l', b', hr, hne, -⟩
      obtain ⟨rfl, rfl⟩ := Prod.mk.inj (Option.some.inj (hrecv.symm.trans hr))
      exact hne hl
    rw [if_neg hl]
    change ReadOutcome k c fd ms h (requestConsumed k (requestReceived k c l b))
    rcases consume_cases requestParserFeed requestStops b c.request.parser with
      ⟨hu, hp, hun⟩ | ⟨v, x, t, hv, hu, hd, hp, hun⟩
    · exact requestMore_outcome live g r hk hrecv hl hu hp hun
    · exact requestEnd_outcome live g r hk hrecv hl hv hu hd hp hun

theorem requestRead_goes {r : Conn × SessionState} (ho : ReadOutcome k c fd ms h r) : Goes k fd .requestRead r := by
  cases ho with
  | ended c' live more =>
    obtain ⟨i, o, hl⟩ := live
    exact goes_error hl
  | more c' u live g r more => exact goes_stay (.requestRead ms h u live g r)
  | complete r c₁ q complete outcome read newFd status server =>
    cases outcome with
    | unsupported c' cmd live g =>
      obtain ⟨t, ht⟩ := head_of_read read
      exact goes_to (by decide) (.unsupported ms h q live g ⟨_, t, ht, cmd⟩)
    | domain c' cmd atyp live g read' server' =>
      have hne : c'.server.fd ≠ c'.clientFd := by rw [server', server, live.clientFd]; omega
      exact goes_to (by decide) (.stuck ms h q live g (Or.inr read') hne)
    | connect r cmd atyp c₂ outcome newFd' status' carries =>
      have hconn := isConnect_of_carries (read.resolve_left fun hd => atyp hd.1) cmd
      cases outcome with
      | failed c' live why =>
        obtain ⟨i, o, hl⟩ := live
        exact goes_error hl
      | stuck c' live g server why => exact goes_to (by decide) (.stuck ms h q live g (Or.inl hconn) server)
      | waiting c' m live g parser st why =>
        have harrive : (arrive sessionStateDef SessionState.requestConnecting.toNat k c').request.parser =
            c'.request.parser := rfl
        exact goes_to (by decide) (.connecting ms h q m live g hconn (by rw [harrive, parser]; exact carries)
          (st.trans (status'.trans status)))
      | refused c' m errno live r output parser why =>
        exact goes_to (by decide) (.replying ms h q m opNoop (Or.inl rfl) live r)

/-! ## REQUEST_CONNECTING -/

theorem live_setOrigin {m : Nat} {j : FdInterest} (hl : Live c fd i (some (m, j))) {x : Int} (hx : x = m)
    (j' : FdInterest) :
    ∃ sel, c.setInterest x j' = ({ c with sel := sel }, .success) ∧
      Live { c with sel := sel } fd i (some (m, j')) := by
  obtain ⟨h1, h2⟩ := entries_setOrigin hl.entries j'
  refine ⟨(selectorSetInterest c.sel m j').1, ?_, ?_⟩
  · rw [hx, Conn.setInterest, h1]
  · refine ⟨hl.alive, hl.clientFd, hl.isOpen, h2, ?_, hl.sniff, hl.limitInput, hl.limitOutput⟩
    intro m' j'' hm
    obtain ⟨rfl, -⟩ := Prod.mk.inj (Option.some.inj hm)
    exact hl.serverFd m j rfl

/-- The status a finished connection attempt leaves. -/
def settledStatus (error : Nat) : SocksResponseStatus :=
  if error = 0 then .succeeded else .generalSocksServerFailure

theorem requestConnecting_waiting {m : Nat} (live : Live c fd opNoop (some (m, opWrite))) (g : Greeted c ms h q)
    (connect : IsConnect q) (carries : Carries c.request.parser.request q)
    (status : c.request.status = .generalSocksServerFailure) (hs : k.sys.getsockopt = none) :
    ∃ c', requestConnecting k c = (c', .requestConnecting) ∧ Live c' fd opNoop (some (m, opWrite)) ∧
      Phase c' fd .requestConnecting := by
  unfold requestConnecting
  simp only [hs]
  refine ⟨_, rfl, live_note live _, .connecting ms h q m (live_note live _) ?_ connect carries status⟩
  exact greeted_same g (sameStreams_note (sameStreams_refl c) fun _ => ⟨rfl, rfl⟩)

theorem requestConnecting_settled {m error : Nat} (live : Live c fd opNoop (some (m, opWrite)))
    (g : Greeted c ms h q) (connect : IsConnect q) (carries : Carries c.request.parser.request q)
    (status : c.request.status = .generalSocksServerFailure) (hs : k.sys.getsockopt = some error) :
    ∃ c', requestConnecting k c = (c', .requestWrite) ∧ Live c' fd opWrite (some (m, opRead)) ∧
      Replying c' ms h q ∧ c'.output.unread = replyTo (settledStatus error) q ∧
      c'.request.parser = c.request.parser := by
  have same := sameStreams_note (sameStreams_refl c) (s := .getsockopt c.server.fd k.sys.getsockopt)
      fun _ => ⟨rfl, rfl⟩
  have hlive := live_note live (.getsockopt c.server.fd k.sys.getsockopt)
  have g₁ := greeted_same g same
  have hm := live.serverFd m _ rfl
  unfold requestConnecting
  simp only
  rw [hs] at hlive g₁ ⊢
  generalize hc₁ : c.note (.getsockopt c.server.fd (some error)) = c₁ at hlive g₁
  have hm₁ : c₁.server.fd = m := by subst hc₁; exact hm
  have hr₁ : c₁.request = c.request := by subst hc₁; rfl
  obtain ⟨sel, hset, hlive'⟩ := live_setClient hlive hlive.clientFd opWrite
  simp only [hset]
  have hsettled : (if error = 0 then { ({ c₁ with sel := sel } : Conn) with request.status := .succeeded }
      else { c₁ with sel := sel }) =
        { ({ c₁ with sel := sel } : Conn) with request.status := settledStatus error } := by
    unfold settledStatus
    split
    · rfl
    · rw [← status, ← hr₁]
  rw [hsettled]
  have g₂ : Greeted { c₁ with sel := sel } ms h q := greeted_same g₁ ⟨rfl, rfl, rfl, fun _ => rfl, fun _ => rfl⟩
  obtain ⟨b, n, hq, hneg, hb, hlive₂, hreply⟩ := queueReply_replies (live_status hlive' (settledStatus error))
    (greeted_status g₂ _) connect (by rw [← hr₁] at carries; exact carries)
  obtain ⟨sel', hset', hlive₃⟩ := live_setOrigin hlive₂ hm₁ opRead
  simp only [hq, hneg, ite_false, hset']
  have hparser : c₁.request.parser = c.request.parser := congrArg RequestSt.parser hr₁
  refine ⟨_, rfl, hlive₃, ?_, hb, hparser⟩
  exact ⟨hreply.hello, connect, hreply.received, hreply.sending, hreply.pending, hreply.quiet⟩

/-! ## REQUEST_WRITE -/

/-- Where a reply being sent leads. -/
inductive WriteOutcome (k : Key) (fd : Nat) (ms h q : List UInt8) (m : Nat) (j : FdInterest) :
    Conn × SessionState → Prop
  | failed (c' : Conn) (live : ∃ i o, Live c' fd i o) : WriteOutcome k fd ms h q m j (c', .error)
  | more (c' : Conn) (live : Live c' fd opWrite (some (m, j))) (r : Replying c' ms h q) :
      WriteOutcome k fd ms h q m j (c', .requestWrite)
  | sent (c' : Conn) (phase : Phase (copyArrival k c') fd .copy) : WriteOutcome k fd ms h q m j (c', .copy)

theorem requestWrite_outcome {m : Nat} {j : FdInterest} (live : Live c fd opWrite (some (m, j)))
    (r : Replying c ms h q) (hk : k.fd = fd) : WriteOutcome k fd ms h q m j (requestWrite k c) := by
  have hfd : k.fd = c.clientFd := hk.trans live.clientFd.symm
  unfold requestWrite
  cases hsend : sendFrom c.output k.sys.send with
  | none => exact .failed _ ⟨_, _, live_note live _⟩
  | some lb =>
    obtain ⟨l, b⟩ := lb
    obtain ⟨hb, hlimit⟩ := sendFrom_some hsend
    have hlive : Live { c.note (.send k.fd (some l)) with output := b } fd opWrite (some (m, j)) :=
      ⟨live.alive, live.clientFd, live.isOpen, live.entries, live.serverFd, live.sniff, live.limitInput,
        hlimit.trans live.limitOutput⟩
    have hto : sentOn c.clientFd (c.log ++ [.send k.fd (some l)]) ++ b.unread =
        [0x05, selectedMethod ms] ++ replyTo c.request.status q := by
      rw [hfd, toClient_send hb, r.sending]
    have hfrom : receivedOn c.clientFd (c.log ++ [.send k.fd (some l)]) = h ++ q ++ c.input.unread := by
      rw [fromClient_send, r.received]
    have hquiet : Quiet c.clientFd (c.log ++ [.send k.fd (some l)]) := hfd ▸ quiet_send r.quiet (some l)
    simp only
    by_cases hc : bufferCanRead b = true
    · rw [if_pos hc]
      exact .more _ hlive ⟨r.hello, r.connect, hfrom, hto, (canRead_iff b).mp hc, hquiet⟩
    · rw [if_neg hc]
      obtain ⟨sel, hset, hlive'⟩ := live_setClient hlive hk opRead
      simp only [hset]
      -- nothing has gone to or come from the origin yet
      have hm : c.server.fd = m := live.serverFd m j rfl
      have hne : c.server.fd ≠ c.clientFd := by
        rw [hm, live.clientFd]
        exact fun he => (live.entries.origin m j rfl).1 (Int.natCast_inj.mp he)
      obtain ⟨hrecv, hsent⟩ := hquiet c.server.fd hne
      refine .sent _ (.copying ms h q opRead m j ?_ ⟨r.hello, r.connect, ?_, c.request.status, ?_⟩)
      · exact ⟨hlive'.alive, hlive'.clientFd, hlive'.isOpen, hlive'.entries, hlive'.serverFd, hlive'.sniff,
          hlive'.limitInput, hlive'.limitOutput⟩
      · have hserver : sentOn c.server.fd (c.log ++ [.send k.fd (some l)]) ++ c.input.unread = c.input.unread := by
          rw [hsent, List.nil_append]
        exact hfrom.trans (congrArg (h ++ q ++ ·) hserver.symm)
      · have hserver : receivedOn c.server.fd (c.log ++ [.send k.fd (some l)]) = [] := hrecv
        exact hto.trans ((List.append_nil _).symm.trans (congrArg (_ ++ ·) hserver.symm))

theorem requestWrite_goes {m : Nat} {j : FdInterest} (hj : j = opNoop ∨ j = opRead) {r : Conn × SessionState}
    (ho : WriteOutcome k fd ms h q m j r) : Goes k fd .requestWrite r := by
  cases ho with
  | failed c' live =>
    obtain ⟨i, o, hl⟩ := live
    exact goes_error hl
  | more c' live r => exact goes_stay (.replying ms h q m j hj live r)
  | sent c' phase => exact goes_to (by decide) phase

end

end SocksProxy
