import SocksProxy.CloseSound
import SocksProxy.CounterSound

/-!
# The relay goes on

While both directions of a session are open its relay takes what one side sends
and delivers it to the other, with one event each, and is then where it was: so
a server can relay any number of bytes (`rounds_copied`).
-/

namespace SocksProxy

open Lib

/-! ## One session -/

/-- The session relays between the descriptors `fd`, registered with the
interests `i`. -/
structure Bridged (c : Conn) (fd : Side → Nat) (i : Side → FdInterest) : Prop where
  machine : c.sMachine = { stmCreate with current := some SessionState.copy.toNat }
  alive : c.freed = false
  copyFd : ∀ s, c.copyFd s = fd s
  ne : ∀ s, fd s ≠ fd s.other
  fd_lt : ∀ s, fd s < fdSetsize
  item : ∀ s, c.sel.fds (fd s) = ownItem c.self (fd s) (i s)
  sniff : c.sniff = Pop3Sniff.fill
  duplex : ∀ s, c.duplex s = opReadWrite

section
variable {c d : Conn} {fd : Side → Nat} {i : Side → FdInterest} {k : Key} {s : Side} {l : List UInt8}

theorem bridged_setInterest (h : Bridged c fd i) (s : Side) (j : FdInterest) : ∃ sel,
    c.setInterest (c.copyFd s) j = ({ c with sel := sel }, .success) ∧
      Bridged { c with sel := sel } fd (fun t => if t = s then j else i t) ∧
      ∀ n, n ≠ fd s → sel.fds n = c.sel.fds n := by
  have hu : (c.sel.fds (fd s : Int).toNat).used = true := by rw [Int.toNat_natCast, h.item, ownItem_used]
  obtain ⟨h1, -, h3⟩ := selectorSetInterest_used (invalidFd_of_lt (h.fd_lt s)) hu j
  rw [Int.toNat_natCast] at h3
  rw [h.copyFd s]
  refine ⟨(selectorSetInterest c.sel (fd s) j).1, Prod.ext rfl h1,
    ⟨h.machine, h.alive, h.copyFd, h.ne, h.fd_lt, fun t => ?_,
    h.sniff, h.duplex⟩, fun n hn => by rw [h3, Function.update_of_ne hn]⟩
  show (selectorSetInterest c.sel (fd s) j).1.fds (fd t) = _
  rw [h3]
  by_cases hts : t = s
  · rw [if_pos hts, hts, Function.update_self, h.item]; rfl
  · have hother : t = s.other := by cases s <;> cases t <;> first | rfl | exact absurd rfl hts
    rw [if_neg hts, hother, Function.update_of_ne (h.ne s).symm, h.item]

theorem checkInterest_bridged (h : Bridged c fd i) (s : Side) :
    ∃ sel, checkInterest c s = .ok { c with sel := sel } ∧
    Bridged { c with sel := sel } fd (fun t => if t = s then copyInterest c s else i t) ∧
      ∀ n, n ≠ fd s → sel.fds n = c.sel.fds n := by
  obtain ⟨sel, hset, hb, hn⟩ := bridged_setInterest h s (copyInterest c s)
  refine ⟨sel, ?_, hb, hn⟩
  unfold checkInterest
  rw [if_pos (by rw [h.copyFd]; omega), hset]

theorem copyFinish_bridged (h : Bridged c fd i) (s : Side) :
    ∃ sel, copyFinish c s = .ok ({ c with sel := sel }, .copy) ∧
    Bridged { c with sel := sel } fd (copyInterest c) ∧ ∀ n, (∀ t, n ≠ fd t) → sel.fds n = c.sel.fds n := by
  obtain ⟨sel, h1, hb, hn⟩ := checkInterest_bridged h s
  obtain ⟨sel', h2, hb', hn'⟩ := checkInterest_bridged hb s.other
  have hopen : c.duplex s ≠ opNoop := by rw [h.duplex]; decide
  refine ⟨sel', ?_, ?_, fun n ht => (hn' n (ht _)).trans (hn n (ht _))⟩
  · unfold copyFinish
    simp only [h1, h2]
    rw [if_neg (by cases s <;> exact hopen)]
  · have hi : (fun t => if t = s.other then copyInterest { c with sel := sel } s.other
        else if t = s then copyInterest c s else i t) = copyInterest c := by
      funext t
      cases s <;> cases t <;> rfl
    rw [hi] at hb'
    exact hb'

theorem bridged_copyPtr (h : Bridged c fd i) (hk : k.fd = fd s) : copyPtr k c = s := by
  have hne := h.ne .client
  have hclient : c.clientFd = fd .client := h.copyFd .client
  unfold copyPtr
  rw [hclient, hk]
  cases s with
  | client => exact if_pos rfl
  | server => exact if_neg fun he => hne (Int.natCast_inj.mp he)

theorem bridged_sniff (h : Bridged c fd i) (l : List UInt8) : sniffOrigin k c l = .ok c := by
  unfold sniffOrigin
  rw [h.sniff, pop3sniff_fill]
  split
  · simp only [← h.sniff]
  · rfl

theorem bridged_note (h : Bridged c fd i) (x : Syscall) : Bridged (c.note x) fd i :=
  ⟨h.machine, h.alive, fun | .client => h.copyFd .client | .server => h.copyFd .server, h.ne, h.fd_lt, h.item,
    h.sniff, fun | .client => h.duplex .client | .server => h.duplex .server⟩

theorem bridged_stats (h : Bridged c fd i) (stats : Stadistics) : Bridged { c with stats := stats } fd i :=
  ⟨h.machine, h.alive, fun | .client => h.copyFd .client | .server => h.copyFd .server, h.ne, h.fd_lt, h.item,
    h.sniff, fun | .client => h.duplex .client | .server => h.duplex .server⟩

theorem bridged_setReadBuff (h : Bridged c fd i) (s : Side) (b : Buffer) : Bridged (c.setReadBuff s b) fd i := by
  cases s <;>
    exact ⟨h.machine, h.alive, fun | .client => h.copyFd .client | .server => h.copyFd .server, h.ne, h.fd_lt,
      h.item, h.sniff, fun | .client => h.duplex .client | .server => h.duplex .server⟩

/-- What an event of the relay leads to, when the callback ends with the session `x`. -/
theorem bridged_event {e : Event} {x : Conn} (h : Bridged c fd i) (he : e.fd = fd s) (hi : (i s).has e.ready = true)
    {g : Key → Conn → Except Fault (Conn × SessionState)} (hg : handlerOf .copy e.ready = some (mayFault g))
    (hx : Bridged x fd i) (hd : g e.key c = copyFinish x s) :
    Selects c e ∧ ∃ sel, dispatch c e = .ok { x with sel := sel } ∧
      Bridged { x with sel := sel } fd (copyInterest x) ∧ ∀ n, (∀ t, n ≠ fd t) → sel.fds n = x.sel.fds n := by
  have hs : Selects c e := by
    unfold Selects
    rw [he, h.item]
    exact (selects_ownItem _ _ _ _).mpr hi
  obtain ⟨sel, hfin, hb, hn⟩ := copyFinish_bridged hx s
  refine ⟨hs, sel, ?_, hb, hn⟩
  rw [dispatch_inState (Or.inl h.machine) h.alive, if_pos hs]
  unfold callbackStep
  simp only [hg, mayFault, hd, hfin, Except.map]
  show Except.ok { x with sel := sel, sMachine := { stmCreate with current := some SessionState.copy.toNat } } = _
  rw [← hx.machine]

theorem bridged_copyRead (h : Bridged c fd i) (hk : k.fd = fd s) {b : Buffer}
    (hr : recvInto (c.readBuff s) k.sys.recv = some (l, b)) (hl : l ≠ []) :
    copyRead k c = copyFinish ((c.note (.recv k.fd (some l))).setReadBuff s b) s := by
  unfold copyRead
  simp only [bridged_copyPtr h hk, h.copyFd, hk, ne_eq, not_true_eq_false, ite_false, hr, hl,
    bridged_sniff (bridged_note h (.recv (fd s) (some l)))]

theorem bridged_copyWrite (h : Bridged c fd i) (hk : k.fd = fd s) {b : Buffer}
    (hs : sendFrom (c.writeBuff s) k.sys.send = some (l, b)) : ∃ stats,
    copyWrite k c = copyFinish (Conn.setWriteBuff { c.note (.send k.fd (some l)) with stats := stats } s b) s := by
  refine ⟨stadisticsIncreaseBytesSent c.stats (UInt64.ofNat l.length), ?_⟩
  have hstats : (c.note (.send (fd s) (some l))).stats = c.stats := rfl
  unfold copyWrite
  simp only [bridged_copyPtr h hk, h.copyFd, hk, ne_eq, not_true_eq_false, ite_false, hs, hstats,
    bridged_sniff (bridged_stats (bridged_note h (.send (fd s) (some l))) _)]

theorem bridged_recv {e : Event} (h : Bridged c fd i) (hi : (i s).read = true) (he : e.fd = fd s)
    (hready : e.ready = .read) (hl : l ≠ []) (hrecv : e.sys.recv = .data l)
    (hroom : l.length ≤ bufferWritePtr (c.readBuff s)) :
    Selects c e ∧ ∃ d, dispatch c e = .ok d ∧ Bridged d fd (copyInterest d) ∧
      (d.readBuff s).unread = (c.readBuff s).unread ++ l ∧ (d.readBuff s).limit = (c.readBuff s).limit ∧
      d.self = c.self ∧ ∀ n, (∀ t, n ≠ fd t) → d.sel.fds n = c.sel.fds n := by
  have hr : recvInto (c.readBuff s) e.key.sys.recv = some (l, bufferFill (c.readBuff s) ⟨l, hroom⟩) := by
    show recvInto (c.readBuff s) e.sys.recv = _
    rw [hrecv]
    exact recvInto_fits hroom
  have hread := bridged_copyRead h (congrArg Nat.cast he) hr hl
  obtain ⟨hs, sel, hd, hb, hn⟩ := bridged_event h he (by rw [hready]; exact hi) (by rw [hready]; rfl)
    (bridged_setReadBuff (bridged_note h _) s _) hread
  refine ⟨hs, _, hd, ?_, ?_, ?_, ?_, fun n ht => ?_⟩
  · cases s <;> exact hb
  · cases s <;> exact unread_fill _ _
  · cases s <;> exact limit_fill _ _
  · cases s <;> rfl
  · rw [hn n ht]
    cases s <;> rfl

theorem bridged_send {e : Event} (h : Bridged c fd i) (hi : (i s).write = true) (he : e.fd = fd s)
    (hready : e.ready = .write) (hl : (c.writeBuff s).unread = l) (hne : l ≠ [])
    (hsend : e.sys.send = .accepted l.length) :
    Selects c e ∧ ∃ d, dispatch c e = .ok d ∧ Bridged d fd (copyInterest d) ∧ c.copied e = l.length ∧
      (d.writeBuff s).unread = [] ∧ bufferWritePtr (d.writeBuff s) = (c.writeBuff s).limit ∧
      (d.writeBuff s).limit = (c.writeBuff s).limit ∧ d.self = c.self ∧
      ∀ n, (∀ t, n ≠ fd t) → d.sel.fds n = c.sel.fds n := by
  have hsome : ∃ b, sendFrom (c.writeBuff s) e.key.sys.send = some (l, b) := by
    show ∃ b, sendFrom (c.writeBuff s) e.sys.send = some (l, b)
    have hptr : bufferReadPtr (c.writeBuff s) = l := hl
    simp only [hsend, sendFrom, Option.some.injEq, Prod.mk.injEq]
    exact ⟨_, by rw [hptr, Nat.min_self, List.take_length], rfl⟩
  obtain ⟨b, hb⟩ := hsome
  obtain ⟨hunread, hlimit⟩ := sendFrom_some hb
  have hempty : b.unread = [] := by rw [hl] at hunread; exact List.self_eq_append_right.mp hunread
  have hroom := sendFrom_drained hb (by rw [hl]; exact hne) hempty
  obtain ⟨stats, hwrite⟩ := bridged_copyWrite h (congrArg Nat.cast he) hb
  obtain ⟨hs, sel, hd, hb', hn⟩ := bridged_event h he (by rw [hready]; exact hi) (by rw [hready]; rfl)
    (bridged_setReadBuff (bridged_stats (bridged_note h _) stats) s.other b) hwrite
  refine ⟨hs, _, hd, ?_, ?_, ?_, ?_, ?_, ?_, fun n ht => ?_⟩
  · cases s <;> exact hb'
  · have hcopy : CopyWrites c e := ⟨hs, by rw [h.machine]; rfl, hready⟩
    have hlog : ∀ x : Conn, x.log = c.log ++ [.send e.key.fd (some l)] →
        bytesIn (x.log.drop c.log.length) = l.length := by
      intro x hx
      rw [hx, List.drop_left]
      exact Nat.add_zero _
    unfold Conn.copied
    rw [if_pos hcopy, hd]
    exact hlog _ (by cases s <;> rfl)
  · cases s <;> exact hempty
  · cases s <;> exact hroom
  · cases s <;> exact hlimit
  · cases s <;> rfl
  · rw [hn n ht]
    cases s <;> rfl

end

/-! ## The server -/

/-- A session of the server relays from the side `s`, of which nothing waits, as
long as the rest of the server is as in `v`. -/
structure Pumps (v : Server) (a : Nat) (fd : Side → Nat) (s : Side) (w : Server) : Prop where
  session : ∃ r i, w.find a = some r ∧ Bridged (w.conn r) fd i ∧ (i s).read = true ∧
    ((w.conn r).readBuff s).unread = [] ∧ bufferWritePtr ((w.conn r).readBuff s) = 100 ∧
    ((w.conn r).readBuff s).limit = 100
  prawtos : w.prawtos = v.prawtos
  elsewhere : ∀ n, (∀ t, n ≠ fd t) → w.process.sel.fds n = v.process.sel.fds n

section
variable {v w : Server} {a : Nat} {fd : Side → Nat} {s : Side}

theorem find_put {w : Proxy} {c : Conn} (hf : c.freed = false) :
    (w.put c).find c.self = some c.toRecord ∧ (w.put c).conn c.toRecord = c := by
  have hput : w.put c =
      ⟨c.toRecord :: w.sessions.filter fun r => decide (r.self ≠ c.self), w.closed, c.toProcess⟩ := by
    simp [Proxy.put, hf]
  rw [hput]
  exact ⟨List.find?_cons_of_pos (by simp), rfl⟩

theorem serverStep_event {r : Record} {e : Event} {d : Conn} (hfind : w.find a = some r) (hs : Selects (w.conn r) e)
    (hd : dispatch (w.conn r) e = .ok d) :
    serverStep w (.event e) = .ok { w with toProxy := w.toProxy.put d } ∧
      w.copied (.event e) = (w.conn r).copied e := by
  have hself : r.self = a := (find_some hfind).2
  have hcall : w.called e = some r.self := called_of_selects hs
  rw [hself] at hcall
  refine ⟨?_, ?_⟩
  · simp only [serverStep, proxyStep, hcall, hfind, hd, Except.map]
  · simp only [Server.copied, hcall, Option.bind_some, hfind]

/-- A read event of the relay, and the write event that delivers its bytes. -/
def roundEvents (fd : Side → Nat) (s : Side) (l : List UInt8) : List ServerStep :=
  [.event ⟨fd s, .read, { Answers.failed with recv := .data l }⟩,
    .event ⟨fd s.other, .write, { Answers.failed with send := .accepted l.length }⟩]

theorem writeBuff_other (c : Conn) (s : Side) : c.writeBuff s.other = c.readBuff s := by cases s <;> rfl

theorem round_pumps {l : List UInt8} (hl : l ≠ []) (hroom : l.length ≤ 100) (h : Pumps v a fd s w) :
    ∃ w', run serverStep w (roundEvents fd s l) = .ok w' ∧ Pumps v a fd s w' ∧
      tally Server.copied serverStep w (roundEvents fd s l) = l.length := by
  obtain ⟨⟨r, i, hfind, hb, hread, hempty, hfree, hlimit⟩, hprawtos, helse⟩ := h
  have hr : r.self = a := (find_some hfind).2
  -- the bytes are received
  obtain ⟨hs₁, d, hd, hb₁, hunread, hlimit₁, hself₁, hn₁⟩ :=
    bridged_recv hb hread (e := ⟨fd s, .read, { Answers.failed with recv := .data l }⟩) rfl rfl hl rfl
      (by rw [hfree]; exact hroom)
  obtain ⟨hstep₁, hcopied₁⟩ := serverStep_event hfind hs₁ hd
  have hnone : (w.conn r).copied ⟨fd s, .read, { Answers.failed with recv := .data l }⟩ = 0 :=
    if_neg fun hw => nomatch hw.2.2
  obtain ⟨hfind₁, hconn₁⟩ := find_put (w := w.toProxy) hb₁.alive
  rw [show d.self = a from hself₁.trans hr] at hfind₁
  -- and delivered
  have hwait : (d.writeBuff s.other).unread = l := by rw [writeBuff_other, hunread, hempty, List.nil_append]
  have hwrite : (copyInterest d s.other).write = true := by
    have hcan : bufferCanRead (d.writeBuff s.other) = true := (canRead_iff _).mpr (by rw [hwait]; exact hl)
    simp only [copyInterest, hb₁.duplex, hcan, opReadWrite, Bool.and_self]
  obtain ⟨hs₂, x, hx, hb₂, hcopied₂, hempty₂, hfree₂, hlimit₂, hself₂, hn₂⟩ :=
    bridged_send hb₁ hwrite (e := ⟨fd s.other, .write, { Answers.failed with send := .accepted l.length }⟩) rfl rfl
      hwait hl rfl
  rw [← hconn₁] at hs₂ hx
  obtain ⟨hstep₂, htally⟩ := serverStep_event (w := { w with toProxy := w.toProxy.put d }) hfind₁ hs₂ hx
  obtain ⟨hfind₂, hconn₂⟩ := find_put (w := (w.toProxy.put d)) hb₂.alive
  rw [show x.self = a from hself₂.trans (hself₁.trans hr)] at hfind₂
  rw [writeBuff_other] at hempty₂ hfree₂ hlimit₂
  rw [writeBuff_other, hlimit₁, hlimit] at hfree₂ hlimit₂
  have hconn : ({ w with toProxy := (w.toProxy.put d).put x } : Server).conn x.toRecord = x := hconn₂
  have hsel : ((w.toProxy.put d).put x).process = x.toProcess := congrArg Conn.toProcess hconn₂
  have hread₂ : (copyInterest x s).read = true := by
    have hcan : bufferCanWrite (x.readBuff s) = true := (canWrite_iff _).mpr (by rw [hfree₂]; decide)
    simp only [copyInterest, hb₂.duplex, hcan, opReadWrite, Bool.and_self]
  refine ⟨{ w with toProxy := (w.toProxy.put d).put x }, ?_, ⟨⟨x.toRecord, copyInterest x, hfind₂, ?_⟩, hprawtos,
    fun n ht => ?_⟩, ?_⟩
  · rw [roundEvents, run_cons_of_ok _ hstep₁, run_cons_of_ok _ hstep₂]
    rfl
  · rw [hconn]
    exact ⟨hb₂, hread₂, hempty₂, hfree₂, hlimit₂⟩
  · show (((w.toProxy.put d).put x).process.sel.fds n) = _
    rw [hsel, hn₂ n ht, hn₁ n ht]
    exact helse n ht
  · rw [roundEvents, tally_cons_of_ok _ hstep₁, tally_cons_of_ok _ hstep₂, hcopied₁, htally, hnone, hconn₁,
      hcopied₂]
    exact Nat.zero_add _

theorem rounds_copied {l : List UInt8} (hl : l ≠ []) (hroom : l.length ≤ 100) (n : Nat) (h : Pumps v a fd s w) :
    ∃ w', run serverStep w (List.replicate n (roundEvents fd s l)).flatten = .ok w' ∧ Pumps v a fd s w' ∧
      tally Server.copied serverStep w (List.replicate n (roundEvents fd s l)).flatten = n * l.length :=
  run_rounds (fun _ h => round_pumps hl hroom h) n h

end

/-! ## A server that relays -/

/-- A client that CONNECTs to 127.0.0.1, port 80, and one of the management
service that authenticates. -/
def openingSteps : List ServerStep :=
  [.accept (some 5) (some firstAccepted.memory),
    .event ⟨5, .read, { Answers.failed with recv := .data [0x05, 1, 0x00] }⟩,
    .event ⟨5, .write, { Answers.failed with send := .accepted 2 }⟩,
    .event ⟨5, .read, { connectAnswers 0 with recv := .data [0x05, 0x01, 0x00, 0x01, 127, 0, 0, 1, 0, 80] }⟩,
    .event ⟨8, .write, connectAnswers 0⟩,
    .event ⟨5, .write, { Answers.failed with send := .accepted 10 }⟩,
    .prawtosAccept (some 6) true (some 0),
    .prawtosEvent (prawtosReads 6 (authMessage admin2 alggo2)),
    .prawtosEvent (prawtosWrites 6 2)]

def opened : Server := final serverStep firstBooted.server openingSteps

def openedFd : Side → Nat
  | .client => 5
  | .server => 8

theorem opened_run : run serverStep firstBooted.server openingSteps = .ok opened ∧
    tally Server.copied serverStep firstBooted.server openingSteps = 0 :=
  ⟨run_final (by decide +kernel), by decide +kernel⟩

theorem opened_session : (opened.find 0).isSome = true := by decide +kernel

def openedSession : Conn := opened.conn ((opened.find 0).get opened_session)

/-- What is seen of the session in one evaluation of the run. -/
theorem openedSession_seen :
    openedSession.sMachine = { stmCreate with current := some SessionState.copy.toNat } ∧
      openedSession.freed = false ∧
      (openedSession.copyFd .client = openedFd .client ∧ openedSession.copyFd .server = openedFd .server) ∧
      (openedSession.sel.fds (openedFd .client) = ownItem openedSession.self (openedFd .client) opRead ∧
        openedSession.sel.fds (openedFd .server) = ownItem openedSession.self (openedFd .server) opRead) ∧
      openedSession.sniff = Pop3Sniff.fill ∧
      openedSession.duplex .client = opReadWrite ∧ openedSession.duplex .server = opReadWrite := by
  decide +kernel

theorem openedSession_bridged : Bridged openedSession openedFd fun _ => opRead := by
  obtain ⟨hmachine, halive, hfd, hitem, hsniff, hduplex⟩ := openedSession_seen
  refine ⟨hmachine, halive, ?_, ?_, ?_, ?_, hsniff, ?_⟩
  · intro s
    cases s with
    | client => exact hfd.1
    | server => exact hfd.2
  · intro s
    cases s <;> decide
  · intro s
    cases s <;> decide
  · intro s
    cases s with
    | client => exact hitem.1
    | server => exact hitem.2
  · intro s
    cases s with
    | client => exact hduplex.1
    | server => exact hduplex.2

theorem opened_pumps : Pumps opened 0 openedFd .client opened := by
  refine ⟨⟨_, _, (Option.some_get opened_session).symm, openedSession_bridged, rfl, ?_⟩, rfl, fun _ _ => rfl⟩
  decide +kernel

end SocksProxy
