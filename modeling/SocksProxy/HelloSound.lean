import SocksProxy.SessionInv

/-!
# The hello states keep the phases
-/

namespace SocksProxy

open Lib

section
variable {c : Conn} {fd : Nat} {i : FdInterest} {o : Option (Nat × FdInterest)} {k : Key}

theorem live_note (h : Live c fd i o) (s : Syscall) : Live (c.note s) fd i o :=
  ⟨h.alive, h.clientFd, h.isOpen, h.entries, h.serverFd, h.sniff, h.limitInput, h.limitOutput⟩

theorem live_setClient (h : Live c fd i o) {x : Int} (hx : x = fd) (i' : FdInterest) :
    ∃ sel, c.setInterest x i' = ({ c with sel := sel }, .success) ∧ Live { c with sel := sel } fd i' o := by
  obtain ⟨h1, h2⟩ := entries_setClient h.entries i'
  refine ⟨(selectorSetInterest c.sel fd i').1, ?_, ?_⟩
  · rw [hx, Conn.setInterest, h1]
  · exact ⟨h.alive, h.clientFd, h.isOpen, h2, h.serverFd, h.sniff, h.limitInput, h.limitOutput⟩

/-! ## HELLO_READ -/

theorem selectedMethod_eq (ms : List UInt8) : selectedMethod ms =
    if methodUsernamePassword ∈ ms then methodUsernamePassword
    else if methodNoAuthenticationRequired ∈ ms then methodNoAuthenticationRequired else 5 :=
  foldl_onHelloMethod ms (by decide)

theorem selectedMethod_acceptable (ms : List UInt8) : selectedMethod ms ≠ methodNoAcceptableMethods := by
  rw [selectedMethod_eq]
  split
  · decide
  · split <;> decide

theorem helloStops_false {α : Type} {p : HelloParser × α} (h : helloStops p = false) :
    helloIsDone p.1.state = (false, false) := by
  unfold helloStops at h
  cases hs : p.1.state <;> rw [hs] at h <;> first | rfl | exact absurd h (by decide)

theorem helloProcess_fits (hroom : bufferWritePtr c.output = outputBufferSize)
    (hm : c.hello.method ≠ methodNoAcceptableMethods) :
    ∃ b, helloProcess c = ({ c with output := b }, .helloWrite) ∧
      b.unread = c.output.unread ++ [0x05, c.hello.method] ∧ b.limit = c.output.limit := by
  have hl : ([0x05, c.hello.method] : List UInt8).length ≤ bufferWritePtr c.output := by
    rw [hroom]; exact Nat.le_of_ble_eq_true rfl
  refine ⟨_, ?_, unread_fill c.output ⟨_, hl⟩, limit_fill _ _⟩
  unfold helloProcess helloMarshall
  rw [bufferMarshal_fits hl]
  simp [hm]

theorem helloProcess_live (h : Live c fd i o) : Live (helloProcess c).1 fd i o := by
  unfold helloProcess helloMarshall
  exact ⟨h.alive, h.clientFd, h.isOpen, h.entries, h.serverFd, h.sniff, h.limitInput,
    (limit_marshal _ _).trans h.limitOutput⟩

theorem helloConsumed_reading (live : Live c fd opRead none) (r : HelloReading c) (hne : c.fromClient ≠ []) :
    Goes k fd .helloRead (helloConsumed k c) := by
  have hstop := undone_done r.undone hne
  rw [r.parser] at hstop
  have hdone := helloStops_false hstop
  unfold helloConsumed
  simp only at hdone
  simp only [hdone, Bool.false_eq_true, ite_false]
  exact goes_stay (.helloRead live r)

theorem helloConsumed_error (live : Live c fd opRead none) (hk : k.fd = fd)
    (hs : c.hello.parser.state = .errorUnsupportedVersion) : Goes k fd .helloRead (helloConsumed k c) := by
  obtain ⟨sel, hset, hlive⟩ := live_setClient live hk opWrite
  unfold helloConsumed
  simp only [hs, helloIsDone, ite_true, hset]
  exact goes_error (helloProcess_live hlive)

theorem helloConsumed_done (live : Live c fd opRead none) (hk : k.fd = fd) {ms h : List UInt8}
    (hello : IsHello ms h) (received : c.fromClient = h ++ c.input.unread)
    (method : c.hello.method = selectedMethod ms) (hs : c.hello.parser.state = .done) (sent : c.toClient = [])
    (room : bufferWritePtr c.output = outputBufferSize) (quiet : Quiet c.clientFd c.log)
    (serverFd : c.server.fd = -1) :
    Goes k fd .helloRead (helloConsumed k c) := by
  obtain ⟨sel, hset, hlive⟩ := live_setClient live hk opWrite
  obtain ⟨hsent, hout⟩ := List.append_eq_nil_iff.mp sent
  have hm : c.hello.method ≠ methodNoAcceptableMethods := method ▸ selectedMethod_acceptable ms
  obtain ⟨b, hp, hb, hlimit⟩ := helloProcess_fits (c := { c with sel := sel }) room hm
  simp only [hout, List.nil_append, method] at hb
  unfold helloConsumed
  simp only [hs, helloIsDone, ite_true, hset, hp, Bool.false_eq_true, ite_false]
  have hto : sentOn c.clientFd c.log ++ b.unread = [0x05, selectedMethod ms] := by rw [hsent, hb]; rfl
  have hpending : b.unread ≠ [] := by rw [hb]; exact List.cons_ne_nil _ _
  refine goes_to (by decide) (.helloWrite ms h ?_ ⟨hello, received, method, hto, hpending, quiet, serverFd⟩)
  exact ⟨hlive.alive, hlive.clientFd, hlive.isOpen, hlive.entries, hlive.serverFd, hlive.sniff, hlive.limitInput,
    hlimit.trans hlive.limitOutput⟩

theorem helloRead_goes (live : Live c fd opRead none) (r : HelloReading c) (hk : k.fd = fd) :
    Goes k fd .helloRead (helloRead k c) := by
  have hfd : k.fd = c.clientFd := hk.trans live.clientFd.symm
  unfold helloRead
  cases hrecv : recvInto c.input k.sys.recv with
  | none => exact goes_error (live_note live _)
  | some lb =>
    obtain ⟨l, b⟩ := lb
    obtain ⟨hb, hlimit, -⟩ := recvInto_some hrecv
    rw [r.drained, List.nil_append] at hb
    simp only
    by_cases hl : l = []
    · rw [if_pos hl]; exact goes_error (live_note live _)
    rw [if_neg hl]
    obtain ⟨hsent, hout⟩ := List.append_eq_nil_iff.mp r.sent
    have hfrom : receivedOn c.clientFd (c.log ++ [.recv k.fd (some l)]) = c.fromClient ++ l := by
      simp [hfd, Syscall.receivedOn, Conn.fromClient]
    have hto : sentOn c.clientFd (c.log ++ [.recv k.fd (some l)]) ++ c.output.unread = [] := by
      simp [Syscall.sentOn, hsent, hout]
    have hquiet : Quiet c.clientFd (c.log ++ [.recv k.fd (some l)]) := hfd ▸ quiet_recv r.quiet (some l)
    have hcases := consume_cases (helloParserFeed (some onHelloMethod)) helloStops b
        (c.hello.parser, c.hello.method)
    have hlim := (consume_spec (helloParserFeed (some onHelloMethod)) helloStops b
      (c.hello.parser, c.hello.method)).2.2
    rw [hb] at hcases
    have hlive : ∀ res : Buffer × (HelloParser × UInt8), res.1.limit = b.limit →
        Live { c.note (.recv k.fd (some l)) with input := res.1, hello := ⟨res.2.1, res.2.2⟩ } fd opRead none := by
      intro res hres
      exact ⟨live.alive, live.clientFd, live.isOpen, live.entries, live.serverFd, live.sniff,
        hres.trans (hlimit.trans live.limitInput), live.limitOutput⟩
    -- the hello goes on, or it ends in the octet `x`
    rcases hcases with ⟨hu, hp, hun⟩ | ⟨u, x, t, rfl, hu, hd, hp, hun⟩
    · rw [← r.parser] at hu
      rw [← r.parser, ← feedAll_append, r.parser] at hp
      have hund : Undone (helloParserFeed (some onHelloMethod)) helloStops (helloParserInit, 5)
          (receivedOn c.clientFd (c.log ++ [.recv k.fd (some l)])) := hfrom ▸ undone_append.mpr ⟨r.undone, hu⟩
      have hne : receivedOn c.clientFd (c.log ++ [.recv k.fd (some l)]) ≠ [] :=
        hfrom ▸ fun he => hl (List.append_eq_nil_iff.mp he).2
      refine helloConsumed_reading (hlive _ hlim) ⟨?_, hund, hun, hto, r.room, hquiet, r.serverFd⟩ hne
      exact (congrArg (feedAll _ _) hfrom).trans hp.symm
    · have hu' := undone_append.mpr ⟨r.undone, r.parser ▸ hu⟩
      have happ := feedAll_append (helloParserFeed (some onHelloMethod)) (helloParserInit, (5 : UInt8)) c.fromClient
        (u ++ [x])
      rw [r.parser, ← List.append_assoc] at happ
      rw [← happ] at hd hp
      rcases helloFeed_done onHelloMethod 5 hu' hd with ⟨ms, n, hello, he⟩ | ⟨n, he⟩
      · have hres := hp.trans he
        have hst := congrArg (fun p : HelloParser × UInt8 => p.1.state) hres
        have hm := congrArg (fun p : HelloParser × UInt8 => p.2) hres
        refine helloConsumed_done (hlive _ hlim) hk hello (hfrom.trans ?_) hm hst hto r.room hquiet r.serverFd
        rw [← hun]
        simp only [List.append_assoc, List.singleton_append]
        rfl
      · exact helloConsumed_error (hlive _ hlim) hk
          (congrArg (fun p : HelloParser × UInt8 => p.1.state) (hp.trans he))

/-! ## HELLO_WRITE -/

/-- What is sent from the output buffer to the client leaves its stream as it was. -/
theorem toClient_send {b : Buffer} {l : List UInt8} (hb : c.output.unread = l ++ b.unread) :
    sentOn c.clientFd (c.log ++ [.send c.clientFd (some l)]) ++ b.unread = c.toClient := by
  simp [Syscall.sentOn, Conn.toClient, hb]

theorem fromClient_send (l : Option (List UInt8)) :
    receivedOn c.clientFd (c.log ++ [.send k.fd l]) = c.fromClient := by
  simp [Syscall.receivedOn, Conn.fromClient]

/-- The answer of `send` empties the buffer. -/
def Drains (b : Buffer) (a : SendAnswer) : Prop := ∃ l b', sendFrom b a = some (l, b') ∧ b'.unread = []

theorem helloWrite_authRead {ms h : List UInt8} (live : Live c fd opWrite none) (w : HelloWriting c ms h)
    (hk : k.fd = fd) :
    (helloWrite k c).2 = .authRead ↔ Drains c.output k.sys.send ∧ methodUsernamePassword ∈ ms := by
  have hm : c.hello.method = methodUsernamePassword ↔ methodUsernamePassword ∈ ms := by
    rw [w.method, selectedMethod_eq]
    split
    · simp [*]
    · split <;> simp [*] <;> decide
  unfold helloWrite Drains
  cases hsend : sendFrom c.output k.sys.send with
  | none => simp
  | some lb =>
    obtain ⟨l, b⟩ := lb
    simp only [Option.some.injEq, Prod.mk.injEq]
    by_cases hc : bufferCanRead b = true
    · have hne := (canRead_iff b).mp hc
      simp only [hc, ite_true, reduceCtorEq, false_iff, not_and]
      rintro ⟨l', b', ⟨rfl, rfl⟩, he⟩
      exact absurd he hne
    · have hb := (canRead_eq_false b).mp (Bool.eq_false_iff.mpr hc)
      have hlive : Live { c.note (.send k.fd (some l)) with output := b } fd opWrite none :=
        ⟨live.alive, live.clientFd, live.isOpen, live.entries, live.serverFd, live.sniff, live.limitInput,
          (sendFrom_some hsend).2.trans live.limitOutput⟩
      obtain ⟨sel, hset, -⟩ := live_setClient hlive hk opRead
      simp only [hc, hset, Bool.false_eq_true, ite_false]
      have hmethod : (c.note (.send k.fd (some l))).hello.method = c.hello.method := rfl
      rw [hmethod, ← hm]
      constructor
      · intro h'
        split at h'
        · rename_i h2; exact ⟨⟨l, b, ⟨rfl, rfl⟩, hb⟩, h2⟩
        · cases h'
      · rintro ⟨-, h2⟩
        rw [if_pos h2]

theorem helloWrite_goes {ms h : List UInt8} (live : Live c fd opWrite none) (w : HelloWriting c ms h)
    (hk : k.fd = fd) (hauth : (helloWrite k c).2 ≠ .authRead) : Goes k fd .helloWrite (helloWrite k c) := by
  have hfd : k.fd = c.clientFd := hk.trans live.clientFd.symm
  rw [Ne, helloWrite_authRead live w hk] at hauth
  unfold helloWrite
  cases hsend : sendFrom c.output k.sys.send with
  | none => exact goes_error (live_note live _)
  | some lb =>
    obtain ⟨l, b⟩ := lb
    obtain ⟨hb, hlimit⟩ := sendFrom_some hsend
    have hlive : Live { c.note (.send k.fd (some l)) with output := b } fd opWrite none :=
      ⟨live.alive, live.clientFd, live.isOpen, live.entries, live.serverFd, live.sniff, live.limitInput,
        hlimit.trans live.limitOutput⟩
    have hto : sentOn c.clientFd (c.log ++ [.send k.fd (some l)]) ++ b.unread = [0x05, selectedMethod ms] := by
      rw [hfd, toClient_send hb, w.sending]
    have hfrom : receivedOn c.clientFd (c.log ++ [.send k.fd (some l)]) = h ++ c.input.unread := by
      rw [fromClient_send, w.received]
    have hquiet : Quiet c.clientFd (c.log ++ [.send k.fd (some l)]) := hfd ▸ quiet_send w.quiet (some l)
    simp only
    by_cases hc : bufferCanRead b = true
    · rw [if_pos hc]
      exact goes_stay (.helloWrite ms h hlive
        ⟨w.hello, hfrom, w.method, hto, (canRead_iff b).mp hc, hquiet, w.serverFd⟩)
    · have hnil := (canRead_eq_false b).mp (Bool.eq_false_iff.mpr hc)
      have hno : methodUsernamePassword ∉ ms := fun h2 => hauth ⟨⟨l, b, hsend, hnil⟩, h2⟩
      have hm : c.hello.method ≠ methodUsernamePassword := by
        rw [w.method, selectedMethod_eq, if_neg hno]
        split <;> decide
      obtain ⟨sel, hset, hlive'⟩ := live_setClient hlive hk opRead
      have hroom : bufferWritePtr b = outputBufferSize :=
        (sendFrom_drained hsend w.pending hnil).trans live.limitOutput
      have hmethod : (c.note (.send k.fd (some l))).hello.method = c.hello.method := rfl
      rw [if_neg hc]
      simp only [hset, hmethod, hm, ite_false]
      refine goes_to (by decide) (.requestRead ms h [] ?_
        ⟨w.hello, hno, ?_, hto, hnil, hroom, hquiet⟩ ⟨⟨_, rfl, trivial⟩, rfl, w.serverFd, w.serverFd⟩)
      · exact ⟨hlive'.alive, hlive'.clientFd, hlive'.isOpen, hlive'.entries, hlive'.serverFd, hlive'.sniff,
          hlive'.limitInput, hlive'.limitOutput⟩
      · rw [List.append_nil]; exact hfrom

end

end SocksProxy
