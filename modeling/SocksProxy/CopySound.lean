import SocksProxy.RequestSound

/-!
# The relay keeps its phase

What one side has sent to the other and what waits in the buffer between them
is what has been received from it (`Relays`). An end of stream changes
neither.
-/

namespace SocksProxy

open Lib

@[simp] theorem other_other (s : Side) : s.other.other = s := by cases s <;> rfl

section
variable {c : Conn} {fd m : Nat} {i j : FdInterest} {k : Key} {s : Side}

@[simp] theorem note_log (x : Syscall) : (c.note x).log = c.log ++ [x] := rfl

@[simp] theorem note_copyFd (x : Syscall) (s : Side) : (c.note x).copyFd s = c.copyFd s := by cases s <;> rfl

@[simp] theorem note_readBuff (x : Syscall) (s : Side) : (c.note x).readBuff s = c.readBuff s := by cases s <;> rfl

@[simp] theorem setDuplex_copyFd (s' : Side) (i : FdInterest) : (c.setDuplex s' i).copyFd s = c.copyFd s := by
  cases s <;> cases s' <;> rfl

@[simp] theorem setDuplex_readBuff (s' : Side) (i : FdInterest) : (c.setDuplex s' i).readBuff s = c.readBuff s := by
  cases s <;> cases s' <;> rfl

@[simp] theorem setDuplex_log (s' : Side) (i : FdInterest) : (c.setDuplex s' i).log = c.log := by cases s' <;> rfl

@[simp] theorem setReadBuff_copyFd (s' : Side) (b : Buffer) : (c.setReadBuff s' b).copyFd s = c.copyFd s := by
  cases s <;> cases s' <;> rfl

@[simp] theorem setReadBuff_log (s' : Side) (b : Buffer) : (c.setReadBuff s' b).log = c.log := by cases s' <;> rfl

@[simp] theorem setReadBuff_self (b : Buffer) : (c.setReadBuff s b).readBuff s = b := by cases s <;> rfl

@[simp] theorem setReadBuff_other (b : Buffer) : (c.setReadBuff s b).readBuff s.other = c.readBuff s.other := by
  cases s <;> rfl

theorem setReadBuff_other' (b : Buffer) : (c.setReadBuff s.other b).readBuff s = c.readBuff s := by cases s <;> rfl

/-! ## One direction of the relay -/

/-- What has been received from side `s`, after the bytes `pre'` that did not come
from it, is what has been sent to the other side and what waits to be, after the
bytes `pre` that were not relayed. -/
def Relays (c : Conn) (s : Side) (pre pre' : List UInt8) : Prop :=
  pre ++ (sentOn (c.copyFd s.other) c.log ++ (c.readBuff s).unread) = pre' ++ receivedOn (c.copyFd s) c.log

variable {pre pre' : List UInt8}

theorem copying_iff {ms h q : List UInt8} : Copying c ms h q ↔
    IsHello ms h ∧ IsConnect q ∧ Relays c .client (h ++ q) [] ∧
      ∃ status, Relays c .server [] ([0x05, selectedMethod ms] ++ replyTo status q) := by
  constructor
  · rintro ⟨hh, hc, hr, st, hs⟩
    exact ⟨hh, hc, hr.symm, st, hs⟩
  · rintro ⟨hh, hc, hr, st, hs⟩
    exact ⟨hh, hc, hr.symm, st, hs⟩

theorem relays_silent (h : Relays c s pre pre') {x : Syscall} (hx : Silent x) : Relays (c.note x) s pre pre' := by
  unfold Relays at h ⊢
  simpa [receivedOn_silent hx, sentOn_silent hx] using h

theorem relays_setDuplex (h : Relays c s pre pre') (s' : Side) (i : FdInterest) :
    Relays (c.setDuplex s' i) s pre pre' := by
  unfold Relays at h ⊢
  simpa using h

theorem relays_recv_self {a : RecvAnswer} {l : List UInt8} {b : Buffer} (h : Relays c s pre pre')
    (hr : recvInto (c.readBuff s) a = some (l, b)) :
    Relays ((c.note (.recv (c.copyFd s) (some l))).setReadBuff s b) s pre pre' := by
  unfold Relays at h ⊢
  have hb := (recvInto_some hr).1
  simp only [setReadBuff_copyFd, note_copyFd, setReadBuff_log, setReadBuff_self, hb, note_log, receivedOn_append,
    sentOn_append, receivedOn_singleton, sentOn_singleton, Syscall.receivedOn, Syscall.sentOn, ite_true,
    List.append_nil]
  rw [← List.append_assoc pre', ← h]
  simp only [List.append_assoc]

theorem relays_recv_other {l : List UInt8} {b : Buffer} (h : Relays c s.other pre pre')
    (hne : c.copyFd s ≠ c.copyFd s.other) :
    Relays ((c.note (.recv (c.copyFd s) (some l))).setReadBuff s b) s.other pre pre' := by
  unfold Relays at h ⊢
  simpa [Syscall.receivedOn, Syscall.sentOn, hne] using h

theorem relays_send_self {l : List UInt8} {b : Buffer} (h : Relays c s pre pre')
    (hne : c.copyFd s ≠ c.copyFd s.other) :
    Relays ((c.note (.send (c.copyFd s) (some l))).setWriteBuff s b) s pre pre' := by
  unfold Relays at h ⊢
  simpa [Conn.setWriteBuff, setReadBuff_other', Syscall.receivedOn, Syscall.sentOn, hne] using h

theorem relays_send_other {a : SendAnswer} {l : List UInt8} {b : Buffer} (h : Relays c s.other pre pre')
    (hs : sendFrom (c.writeBuff s) a = some (l, b)) :
    Relays ((c.note (.send (c.copyFd s) (some l))).setWriteBuff s b) s.other pre pre' := by
  unfold Relays at h ⊢
  have hb := (sendFrom_some hs).1
  rw [Conn.writeBuff] at hb
  rw [hb] at h
  simp only [other_other] at h
  simp only [Conn.setWriteBuff, setReadBuff_copyFd, note_copyFd, setReadBuff_log, setReadBuff_self, note_log,
    receivedOn_append, sentOn_append, receivedOn_singleton, sentOn_singleton, Syscall.receivedOn, Syscall.sentOn,
    ite_true, List.append_nil, other_other, ← h, List.append_assoc]

/-! ## The end of a callback -/

theorem copyFd_client (live : Live c fd i (some (m, j))) : c.copyFd .client = fd := live.clientFd

theorem copyFd_server (live : Live c fd i (some (m, j))) : c.copyFd .server = m := live.serverFd m j rfl

theorem copyFd_ne (live : Live c fd i (some (m, j))) (s : Side) : c.copyFd s ≠ c.copyFd s.other := by
  have hne := (live.entries.origin m j rfl).1
  cases s with
  | client =>
    rw [copyFd_client live, Side.other, copyFd_server live]
    exact fun h => hne (Int.natCast_inj.mp h.symm)
  | server =>
    rw [copyFd_server live, Side.other, copyFd_client live]
    exact fun h => hne (Int.natCast_inj.mp h)

theorem copyFd_open (live : Live c fd i (some (m, j))) (s : Side) : c.copyFd s ≠ -1 := by
  cases s with
  | client => rw [copyFd_client live]; omega
  | server => rw [copyFd_server live]; omega

theorem checkInterest_client (live : Live c fd i (some (m, j))) :
    ∃ sel, checkInterest c .client = .ok { c with sel := sel } ∧
      Live { c with sel := sel } fd (copyInterest c .client) (some (m, j)) := by
  unfold checkInterest
  rw [if_pos (copyFd_open live .client)]
  obtain ⟨sel, hset, hlive⟩ := live_setClient live (copyFd_client live) (copyInterest c .client)
  exact ⟨sel, by rw [hset], hlive⟩

theorem checkInterest_server (live : Live c fd i (some (m, j))) :
    ∃ sel, checkInterest c .server = .ok { c with sel := sel } ∧
      Live { c with sel := sel } fd i (some (m, copyInterest c .server)) := by
  unfold checkInterest
  rw [if_pos (copyFd_open live .server)]
  obtain ⟨sel, hset, hlive⟩ := live_setOrigin live (copyFd_server live) (copyInterest c .server)
  exact ⟨sel, by rw [hset], hlive⟩

theorem copyFinish_live (live : Live c fd i (some (m, j))) (s : Side) :
    ∃ sel, copyFinish c s = .ok ({ c with sel := sel }, if c.duplex s = opNoop then .done else .copy) ∧
      Live { c with sel := sel } fd (copyInterest c .client) (some (m, copyInterest c .server)) := by
  cases s with
  | client =>
    obtain ⟨sel, h1, hl⟩ := checkInterest_client live
    obtain ⟨sel', h2, hl'⟩ := checkInterest_server hl
    exact ⟨sel', by simp only [copyFinish, h1, Side.other, h2]; rfl, hl'⟩
  | server =>
    obtain ⟨sel, h1, hl⟩ := checkInterest_server live
    obtain ⟨sel', h2, hl'⟩ := checkInterest_client hl
    exact ⟨sel', by simp only [copyFinish, h1, Side.other, h2]; rfl, hl'⟩

theorem copyFinish_goes (live : Live c fd i (some (m, j))) {ms h q : List UInt8} (r : Copying c ms h q) (s : Side) :
    ∃ sel st, copyFinish c s = .ok ({ c with sel := sel }, st) ∧ Goes k fd .copy ({ c with sel := sel }, st) ∧
      (st = .copy ∨ st = .done) ∧ ∃ i j, Live { c with sel := sel } fd i (some (m, j)) := by
  obtain ⟨sel, h1, hl⟩ := copyFinish_live live s
  by_cases hd : c.duplex s = opNoop
  · rw [if_pos hd] at h1
    exact ⟨sel, .done, h1, Or.inl ⟨Or.inr rfl, _, _, hl⟩, Or.inr rfl, _, _, hl⟩
  · rw [if_neg hd] at h1
    refine ⟨sel, .copy, h1, goes_stay ?_, Or.inl rfl, _, _, hl⟩
    exact .copying ms h q _ m _ hl ⟨r.hello, r.connect, r.received, r.sending⟩

theorem copyPtr_eq (live : Live c fd i (some (m, j))) (hk : k.fd = c.copyFd s) : copyPtr k c = s := by
  have hne := copyFd_ne live s
  unfold copyPtr
  cases s with
  | client => exact if_pos hk.symm
  | server => exact if_neg fun h => hne (hk.symm.trans h.symm)

theorem sniffOrigin_live (live : Live c fd i (some (m, j))) (l : List UInt8) : sniffOrigin k c l = .ok c := by
  unfold sniffOrigin
  rw [live.sniff, pop3sniff_fill]
  split
  · simp only [← live.sniff]
  · rfl

theorem live_setDuplex (live : Live c fd i (some (m, j))) (s : Side) (x : FdInterest) :
    Live (c.setDuplex s x) fd i (some (m, j)) := by
  cases s <;>
    exact ⟨live.alive, live.clientFd, live.isOpen, live.entries, live.serverFd, live.sniff, live.limitInput,
      live.limitOutput⟩

theorem live_setReadBuff (live : Live c fd i (some (m, j))) (s : Side) {b : Buffer}
    (hb : b.limit = (c.readBuff s).limit) : Live (c.setReadBuff s b) fd i (some (m, j)) := by
  cases s with
  | client =>
    exact ⟨live.alive, live.clientFd, live.isOpen, live.entries, live.serverFd, live.sniff,
      hb.trans live.limitInput, live.limitOutput⟩
  | server =>
    exact ⟨live.alive, live.clientFd, live.isOpen, live.entries, live.serverFd, live.sniff, live.limitInput,
      hb.trans live.limitOutput⟩

/-! ## Shutdowns -/

/-- A change of a session in COPY that touches none of the streams. -/
structure Still (c c' : Conn) (fd m : Nat) : Prop where
  live : ∀ i j, Live c fd i (some (m, j)) → Live c' fd i (some (m, j))
  relays : ∀ s pre pre', Relays c s pre pre' → Relays c' s pre pre'
  server : c'.server = c.server
  same : SameStreams c c'

theorem still_refl (c : Conn) (fd m : Nat) : Still c c fd m :=
  ⟨fun _ _ h => h, fun _ _ _ h => h, rfl, sameStreams_refl c⟩

theorem still_note {c' : Conn} (h : Still c c' fd m) {x : Syscall} (hx : Silent x) : Still c (c'.note x) fd m :=
  ⟨fun i j hl => live_note (h.live i j hl) x, fun s _ _ hr => relays_silent (h.relays s _ _ hr) hx, h.server,
    sameStreams_note h.same hx⟩

theorem still_setDuplex {c' : Conn} (h : Still c c' fd m) (s : Side) (x : FdInterest) :
    Still c (c'.setDuplex s x) fd m := by
  refine ⟨fun i j hl => live_setDuplex (h.live i j hl) s x,
    fun s' _ _ hr => relays_setDuplex (h.relays s' _ _ hr) s x, ?_, ?_⟩
  · cases s <;> exact h.server
  · cases s <;> exact ⟨h.same.clientFd, h.same.input, h.same.output, h.same.received, h.same.sent⟩

theorem still_shutdownRead (c : Conn) (s : Side) (fd m : Nat) : Still c (shutdownRead c s) fd m := by
  unfold shutdownRead
  simp only
  split
  · exact still_setDuplex (still_note (still_setDuplex (still_note (still_refl c fd m) fun _ => ⟨rfl, rfl⟩) _ _)
      fun _ => ⟨rfl, rfl⟩) _ _
  · exact still_setDuplex (still_note (still_refl c fd m) fun _ => ⟨rfl, rfl⟩) _ _

theorem still_shutdownWrite (c : Conn) (s : Side) (fd m : Nat) : Still c (shutdownWrite c s) fd m := by
  unfold shutdownWrite
  simp only
  split
  · exact still_setDuplex (still_note (still_setDuplex (still_note (still_refl c fd m) fun _ => ⟨rfl, rfl⟩) _ _)
      fun _ => ⟨rfl, rfl⟩) _ _
  · exact still_setDuplex (still_note (still_refl c fd m) fun _ => ⟨rfl, rfl⟩) _ _

theorem copying_still {c' : Conn} (h : Still c c' fd m) {ms h' q : List UInt8} (r : Copying c ms h' q) :
    Copying c' ms h' q := by
  rw [copying_iff] at r ⊢
  obtain ⟨hh, hc, hr, st, hs⟩ := r
  exact ⟨hh, hc, h.relays _ _ _ hr, st, h.relays _ _ _ hs⟩

theorem silent_recv_nothing (x : Int) (l : Option (List UInt8)) (hl : l = none ∨ l = some []) :
    Silent (.recv x l) := by
  intro y
  rcases hl with rfl | rfl <;> simp [Syscall.receivedOn, Syscall.sentOn]

/-! ## The callbacks -/

section
variable {ms h q : List UInt8}

/-- The other side closing, or an error: no byte is lost or made up. -/
theorem copyRead_ends (live : Live c fd i (some (m, j))) (r : Copying c ms h q) (hk : k.fd = c.copyFd s)
    (hr : recvInto (c.readBuff s) k.sys.recv = none ∨ ∃ b, recvInto (c.readBuff s) k.sys.recv = some ([], b)) :
    ∃ r', copyRead k c = .ok r' ∧ Goes k fd .copy r' ∧ (r'.2 = .copy ∨ r'.2 = .done) ∧
      (∃ i j, Live r'.1 fd i (some (m, j))) ∧ SameStreams c r'.1 ∧ r'.1.server = c.server := by
  have hshut : ∀ l : Option (List UInt8), (l = none ∨ l = some []) →
      ∃ r', copyFinish (shutdownRead (c.note (.recv k.fd l)) s) s = .ok r' ∧ Goes k fd .copy r' ∧
        (r'.2 = .copy ∨ r'.2 = .done) ∧ (∃ i j, Live r'.1 fd i (some (m, j))) ∧ SameStreams c r'.1 ∧
        r'.1.server = c.server := by
    intro l hl
    have hstill := still_note (still_refl c fd m) (silent_recv_nothing k.fd l hl)
    have hstill' := still_shutdownRead (c.note (.recv k.fd l)) s fd m
    obtain ⟨sel, st, h1, h2, h3, h4⟩ := copyFinish_goes (k := k) (hstill'.live _ _ (hstill.live _ _ live))
      (copying_still hstill' (copying_still hstill r)) s
    refine ⟨_, h1, h2, h3, h4, ⟨hstill'.same.clientFd, hstill'.same.input, hstill'.same.output, ?_, ?_⟩,
      hstill'.server⟩
    · exact fun x => (hstill'.same.received x).trans (hstill.same.received x)
    · exact fun x => (hstill'.same.sent x).trans (hstill.same.sent x)
  unfold copyRead
  simp only [copyPtr_eq live hk, hk, ne_eq, not_true_eq_false, ite_false]
  rcases hr with hr | ⟨b, hr⟩
  · simpa only [hr, hk] using hshut none (Or.inl rfl)
  · simpa only [hr, hk, ite_true] using hshut (some []) (Or.inr rfl)

/-- The direction from side `s` to the other ends. -/
structure HalfCloses (c d : Conn) (s : Side) : Prop where
  source : d.duplex s = { c.duplex s with read := false }
  sink : d.duplex s.other = { c.duplex s.other with write := false }

/-- What a callback of the relay has done when it comes to the interests. -/
structure Relaying (c d : Conn) (fd m : Nat) : Prop where
  live : ∀ i j, Live c fd i (some (m, j)) → Live d fd i (some (m, j))
  copying : ∀ ms h q, Copying c ms h q → Copying d ms h q
  duplex : (∀ s, d.duplex s = c.duplex s) ∨ ∃ s, HalfCloses c d s

theorem shutdownRead_halfCloses (live : Live c fd i (some (m, j))) (s : Side) :
    HalfCloses c (shutdownRead c s) s := by
  have hopen := copyFd_open live s.other
  unfold shutdownRead
  simp only [setDuplex_copyFd, note_copyFd, hopen, ne_eq, not_false_eq_true, ite_true]
  cases s <;> exact ⟨rfl, rfl⟩

theorem shutdownWrite_halfCloses (live : Live c fd i (some (m, j))) (s : Side) :
    HalfCloses c (shutdownWrite c s) s.other := by
  have hopen := copyFd_open live s.other
  unfold shutdownWrite
  simp only [setDuplex_copyFd, note_copyFd, hopen, ne_eq, not_false_eq_true, ite_true]
  cases s <;> exact ⟨rfl, rfl⟩

theorem relaying_shut {x : Syscall} {d : Conn} (hx : Silent x) (still : Still (c.note x) d fd m) {s : Side}
    (hd : HalfCloses (c.note x) d s) : Relaying c d fd m := by
  have hstill := still_note (still_refl c fd m) hx
  refine ⟨fun i j hl => still.live i j (hstill.live i j hl),
    fun _ _ _ r => copying_still still (copying_still hstill r), Or.inr ⟨s, ?_, ?_⟩⟩
  · rw [hd.source]; cases s <;> rfl
  · rw [hd.sink]; cases s <;> rfl

theorem copyRead_relaying (live : Live c fd i (some (m, j))) (hk : k.fd = c.copyFd s) :
    ∃ d, copyRead k c = copyFinish d s ∧ Relaying c d fd m := by
  have hshut : ∀ l, (l = none ∨ l = some []) →
      Relaying c (shutdownRead (c.note (.recv (c.copyFd s) l)) s) fd m := fun l hl =>
    relaying_shut (silent_recv_nothing _ l hl) (still_shutdownRead _ s fd m)
      (shutdownRead_halfCloses (live_note live _) s)
  unfold copyRead
  simp only [copyPtr_eq live hk, hk, ne_eq, not_true_eq_false, ite_false]
  cases hr : recvInto (c.readBuff s) k.sys.recv with
  | none => exact ⟨_, rfl, hshut none (Or.inl rfl)⟩
  | some lb =>
    obtain ⟨l, b⟩ := lb
    by_cases hl : l = []
    · subst hl
      exact ⟨_, by simp only [ite_true], hshut (some []) (Or.inr rfl)⟩
    · refine ⟨(c.note (.recv (c.copyFd s) (some l))).setReadBuff s b, ?_, ?_, ?_, Or.inl fun t => ?_⟩
      · simp only [hl, ite_false, sniffOrigin_live (live_note live (.recv (c.copyFd s) (some l)))]
      · exact fun i j hl => live_setReadBuff (live_note hl _) s (recvInto_some hr).2.1
      · intro ms h q hc
        rw [copying_iff] at hc ⊢
        obtain ⟨hh, hc, hrc, st, hrs⟩ := hc
        have hne := copyFd_ne live s
        cases s with
        | client => exact ⟨hh, hc, relays_recv_self hrc hr, st, relays_recv_other (s := .client) hrs hne⟩
        | server => exact ⟨hh, hc, relays_recv_other (s := .server) hrc hne, st, relays_recv_self hrs hr⟩
      · cases s <;> cases t <;> rfl

theorem copyWrite_relaying (live : Live c fd i (some (m, j))) (hk : k.fd = c.copyFd s) :
    ∃ d, copyWrite k c = copyFinish d s ∧ Relaying c d fd m := by
  unfold copyWrite
  simp only [copyPtr_eq live hk, hk, ne_eq, not_true_eq_false, ite_false]
  cases hs : sendFrom (c.writeBuff s) k.sys.send with
  | none =>
    have hsilent : Silent (.send (c.copyFd s) none) := fun _ => ⟨rfl, rfl⟩
    exact ⟨_, rfl, relaying_shut hsilent (still_shutdownWrite _ s fd m)
      (shutdownWrite_halfCloses (live_note live _) s)⟩
  | some lb =>
    obtain ⟨l, b⟩ := lb
    -- the session with the bytes counted
    generalize hn : ({ c.note (.send (c.copyFd s) (some l)) with
      stats := stadisticsIncreaseBytesSent c.stats (UInt64.ofNat l.length) } : Conn) = n
    have hlive : ∀ i j, Live c fd i (some (m, j)) → Live n fd i (some (m, j)) := fun i j hl => hn ▸
      ⟨hl.alive, hl.clientFd, hl.isOpen, hl.entries, hl.serverFd, hl.sniff, hl.limitInput, hl.limitOutput⟩
    have hstats : (c.note (.send (c.copyFd s) (some l))).stats = c.stats := rfl
    refine ⟨n.setWriteBuff s b, ?_, ?_, ?_, Or.inl fun t => ?_⟩
    · simp only [hstats, hn, sniffOrigin_live (hlive i j live)]
    · intro i j hl
      exact live_setReadBuff (hlive i j hl) s.other ((sendFrom_some hs).2.trans (by subst hn; cases s <;> rfl))
    · intro ms h q hc
      have hcopy : Copying ((c.note (.send (c.copyFd s) (some l))).setWriteBuff s b) ms h q := by
        rw [copying_iff] at hc ⊢
        obtain ⟨hh, hc, hrc, st, hrs⟩ := hc
        have hne := copyFd_ne live s
        cases s with
        | client => exact ⟨hh, hc, relays_send_self hrc hne, st, relays_send_other (s := .client) hrs hs⟩
        | server => exact ⟨hh, hc, relays_send_other (s := .server) hrc hs, st, relays_send_self hrs hne⟩
      subst hn
      cases s <;> exact ⟨hcopy.hello, hcopy.connect, hcopy.received, hcopy.sending⟩
    · subst hn
      cases s <;> cases t <;> rfl

end

end

end SocksProxy
