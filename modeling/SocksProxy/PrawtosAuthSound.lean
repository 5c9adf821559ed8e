import SocksProxy.PrawtosStep

/-!
# The authentication of a management connection

What the two callbacks of `auth_prawtos.c` make of a connection whose message
is being read (`AuthReading`) or has been answered (`AuthWriting`).
-/

namespace SocksProxy

open Lib

/-! ## The streams -/

def PrawtosConn.received (c : PrawtosConn) : List UInt8 := receivedOn c.clientFd c.log

def PrawtosConn.sent (c : PrawtosConn) : List UInt8 := sentOn c.clientFd c.log

/-- A callback that runs no handler of a command. -/
structure Untouched (c c' : PrawtosConn) : Prop where
  clientFd : c'.clientFd = c.clientFd
  users : c'.users = c.users
  calls : c'.calls = c.calls
  stats : c'.stats = c.stats

section
variable {c : PrawtosConn} {fd : Nat} {i : FdInterest} {k : PrawtosKey}

theorem received_recv (hk : k.fd = c.clientFd) (l : Option (List UInt8)) :
    (c.note (.recv k.fd l)).received = c.received ++ l.getD [] ∧ (c.note (.recv k.fd l)).sent = c.sent := by
  unfold PrawtosConn.received PrawtosConn.sent PrawtosConn.note
  simp only [receivedOn_append, sentOn_append, receivedOn_singleton, sentOn_singleton]
  cases l with
  | none => simp [Syscall.receivedOn, Syscall.sentOn]
  | some l => simp [Syscall.receivedOn, Syscall.sentOn, hk]

theorem sent_send (hk : k.fd = c.clientFd) (l : Option (List UInt8)) :
    (c.note (.send k.fd l)).sent = c.sent ++ l.getD [] ∧ (c.note (.send k.fd l)).received = c.received := by
  unfold PrawtosConn.received PrawtosConn.sent PrawtosConn.note
  simp only [receivedOn_append, sentOn_append, receivedOn_singleton, sentOn_singleton]
  cases l with
  | none => simp [Syscall.receivedOn, Syscall.sentOn]
  | some l => simp [Syscall.receivedOn, Syscall.sentOn, hk]

theorem prawtosLive_note (h : PrawtosLive c fd i) (s : Syscall) : PrawtosLive (c.note s) fd i :=
  ⟨h.alive, h.clientFd, h.entry, h.limitRead, h.limitWrite⟩

/-! ## The phases -/

structure AuthReading (c : PrawtosConn) : Prop where
  parser : feedAll authParserFeed authParserInit c.received = c.auth.parser
  undone : Undone authParserFeed authStops authParserInit c.received
  drained : c.readBuffer.unread = []
  sent : c.sent = []
  idle : c.writeBuffer.unread = []
  room : bufferWritePtr c.writeBuffer = prawtosBufferSize

structure AuthWriting (c : PrawtosConn) (uname passwd : Name) : Prop where
  received : c.received = authMessage uname passwd ++ c.readBuffer.unread
  sending : c.sent ++ c.writeBuffer.unread = [0x01, c.auth.status]
  pending : c.writeBuffer.unread ≠ []

/-- The status that answers a message. -/
def credentialsStatus (h : Heap) (users : List User) (uname passwd : Name) : UInt8 :=
  let a := credentialsOf uname passwd
  if userCheckCredentials h users a.unamePtr a.passwdPtr = 0 then authSuccess else authBadCredentials

/-! ## AUTH_READ -/

/-- How a callback of AUTH_READ can end. -/
inductive AuthReadOutcome (c : PrawtosConn) (fd : Nat) (k : PrawtosKey) : PrawtosConn × PrawtosState → Prop
  | failed (c' : PrawtosConn) (i : FdInterest) (live : PrawtosLive c' fd i) (same : Untouched c c')
      (sent : c'.sent = c.sent)
      (short : ∀ l b, recvInto c.readBuffer k.sys.recv = some (l, b) →
        ∀ uname passwd r, c.received ++ l ≠ authMessage uname passwd ++ r) :
      AuthReadOutcome c fd k (c', .error)
  | reading (c' : PrawtosConn) (l : List UInt8) (b : Buffer) (live : PrawtosLive c' fd opRead)
      (same : Untouched c c') (recv : recvInto c.readBuffer k.sys.recv = some (l, b))
      (received : c'.received = c.received ++ l) (r : AuthReading c') : AuthReadOutcome c fd k (c', .authRead)
  | checked (c' : PrawtosConn) (uname passwd : Name) (l : List UInt8) (b : Buffer)
      (live : PrawtosLive c' fd opWrite) (same : Untouched c c')
      (recv : recvInto c.readBuffer k.sys.recv = some (l, b))
      (received : c'.received = c.received ++ l) (w : AuthWriting c' uname passwd)
      (status : c'.auth.status = credentialsStatus k.sys.heap c.users uname passwd) :
      AuthReadOutcome c fd k (c', .authWrite)

theorem authStops_false {p : AuthParser} (h : authStops p = false) : authIsDone p.state = (false, false) := by
  unfold authStops at h
  cases hs : p.state <;> rw [hs] at h <;> first | rfl | exact absurd h (by decide)

theorem authPrawtosProcess_fits (h : Heap) (hroom : bufferWritePtr c.writeBuffer = prawtosBufferSize)
    (hidle : c.writeBuffer.unread = []) :
    ∃ b, authPrawtosProcess h c =
        ({ c with writeBuffer := b, auth.status := checkCredentials h c }, .authWrite) ∧
      b.unread = [0x01, checkCredentials h c] ∧ b.limit = c.writeBuffer.limit := by
  have hl : ([0x01, checkCredentials h c] : List UInt8).length ≤ bufferWritePtr c.writeBuffer := by
    rw [hroom]; exact Nat.le_of_ble_eq_true rfl
  refine ⟨_, ?_, (unread_fill c.writeBuffer ⟨_, hl⟩).trans (by rw [hidle]; rfl), limit_fill _ _⟩
  unfold authPrawtosProcess authMarshal
  simp only [bufferMarshal_fits hl]
  rfl

theorem authPrawtosProcess_live (h : PrawtosLive c fd i) (heap : Heap) :
    PrawtosLive (authPrawtosProcess heap c).1 fd i :=
  ⟨h.alive, h.clientFd, h.entry, h.limitRead, (limit_marshal _ _).trans h.limitWrite⟩

theorem authConsumed_error (live : PrawtosLive c fd opRead) (hk : k.fd = fd)
    (he : authIsDone c.auth.parser.state = (true, true)) :
    ∃ c' i, authPrawtosConsumed k c = (c', .error) ∧ PrawtosLive c' fd i ∧ Untouched c c' ∧ c'.sent = c.sent := by
  obtain ⟨c₁, hset, hlive, hc₁⟩ := prawtosLive_set live opWrite
  unfold authPrawtosConsumed
  simp only [he, ite_true, hk, hset]
  refine ⟨_, opWrite, rfl, authPrawtosProcess_live hlive _, ?_, ?_⟩
  · rw [hc₁]; exact ⟨rfl, rfl, rfl, rfl⟩
  · rw [hc₁]; rfl

theorem authConsumed_done (live : PrawtosLive c fd opRead) (hk : k.fd = fd) (hs : c.auth.parser.state = .done)
    (hroom : bufferWritePtr c.writeBuffer = prawtosBufferSize) (hidle : c.writeBuffer.unread = []) :
    ∃ c', authPrawtosConsumed k c = (c', .authWrite) ∧ PrawtosLive c' fd opWrite ∧ Untouched c c' ∧ c'.log = c.log ∧
      c'.readBuffer = c.readBuffer ∧ c'.auth.status = checkCredentials k.sys.heap c ∧
      c'.writeBuffer.unread = [0x01, checkCredentials k.sys.heap c] := by
  obtain ⟨c₁, hset, hlive, hc₁⟩ := prawtosLive_set live opWrite
  have hcheck : checkCredentials k.sys.heap c₁ = checkCredentials k.sys.heap c := by rw [hc₁]; rfl
  obtain ⟨b, hp, hb, hlimit⟩ := authPrawtosProcess_fits (c := c₁) k.sys.heap (by rw [hc₁]; exact hroom)
    (by rw [hc₁]; exact hidle)
  rw [hcheck] at hp hb
  unfold authPrawtosConsumed
  simp only [hs, authIsDone, ite_true, hk, hset, hp, Bool.false_eq_true, ite_false]
  refine ⟨_, rfl, ?_, ?_, ?_, ?_, rfl, hb⟩
  · exact ⟨hlive.alive, hlive.clientFd, hlive.entry, hlive.limitRead, hlimit.trans hlive.limitWrite⟩
  · rw [hc₁]; exact ⟨rfl, rfl, rfl, rfl⟩
  · rw [hc₁]
  · rw [hc₁]

/-- The connection with the bytes received, and what they make of the message. -/
def authReceived (k : PrawtosKey) (c : PrawtosConn) (l : List UInt8) (b : Buffer) : PrawtosConn :=
  { c.note (.recv k.fd (some l)) with
    readBuffer := (authConsume b c.auth.parser).1
    auth.parser := (authConsume b c.auth.parser).2 }

section
variable {l : List UInt8} {b : Buffer} (live : PrawtosLive c fd opRead) (r : AuthReading c) (hk : k.fd = fd)
  (hrecv : recvInto c.readBuffer k.sys.recv = some (l, b))

include r hrecv in
theorem auth_unread : b.unread = l := by
  obtain ⟨hb, -, -⟩ := recvInto_some hrecv
  rw [hb, r.drained, List.nil_append]

include live hrecv in
theorem authReceived_live : PrawtosLive (authReceived k c l b) fd opRead := by
  obtain ⟨-, hlimit, -⟩ := recvInto_some hrecv
  have hlim : (authConsume b c.auth.parser).1.limit = b.limit :=
    (consume_spec authParserFeed authStops b c.auth.parser).2.2
  exact ⟨live.alive, live.clientFd, live.entry, hlim.trans (hlimit.trans live.limitRead), live.limitWrite⟩

include live hk in
theorem authReceived_streams :
    (authReceived k c l b).received = c.received ++ l ∧ (authReceived k c l b).sent = c.sent :=
  received_recv (hk.trans live.clientFd.symm) (some l)

include live r hk hrecv in
/-- The message goes on after the bytes received. -/
theorem authMore_outcome (hl : l ≠ []) (hu : Undone authParserFeed authStops c.auth.parser b.unread)
    (hp : (authReceived k c l b).auth.parser = feedAll authParserFeed c.auth.parser b.unread)
    (hun : (authReceived k c l b).readBuffer.unread = []) :
    AuthReadOutcome c fd k (authPrawtosConsumed k (authReceived k c l b)) := by
  obtain ⟨hrec, hsent⟩ := authReceived_streams (l := l) (b := b) live hk
  rw [auth_unread r hrecv, ← r.parser] at hu
  rw [auth_unread r hrecv, ← r.parser, ← feedAll_append] at hp
  have hundone : Undone authParserFeed authStops authParserInit (c.received ++ l) :=
    undone_append.mpr ⟨r.undone, hu⟩
  have hstop : authIsDone (authReceived k c l b).auth.parser.state = (false, false) :=
    authStops_false (hp ▸ undone_done hundone (by simp [hl]))
  have hstays : authPrawtosConsumed k (authReceived k c l b) = (authReceived k c l b, .authRead) := by
    unfold authPrawtosConsumed
    simp only [hstop, Bool.false_eq_true, ite_false]
  rw [hstays]
  refine .reading _ l b (authReceived_live live hrecv) ⟨rfl, rfl, rfl, rfl⟩ hrecv hrec ?_
  refine ⟨?_, hrec.symm ▸ hundone, hun, hsent.trans r.sent, r.idle, r.room⟩
  rw [hrec]
  exact hp.symm

include live r hk hrecv in
/-- The octets up to `v` are a whole message, which is answered. -/
theorem authDone_outcome {v t : List UInt8} {uname passwd : Name} (hsplit : l = v ++ t)
    (hm : c.received ++ v = authMessage uname passwd) (hs : (authReceived k c l b).auth.parser.state = .done)
    (hf : (authReceived k c l b).auth.parser.credentials = credentialsOf uname passwd)
    (hun : (authReceived k c l b).readBuffer.unread = t) :
    AuthReadOutcome c fd k (authPrawtosConsumed k (authReceived k c l b)) := by
  obtain ⟨hrec, hsent⟩ := authReceived_streams (l := l) (b := b) live hk
  obtain ⟨c', hc', hlive', hsame, hlog, hread, hstatus, hwrite⟩ :=
    authConsumed_done (authReceived_live live hrecv) hk hs r.room r.idle
  have hcheck : checkCredentials k.sys.heap (authReceived k c l b) =
      credentialsStatus k.sys.heap c.users uname passwd := by
    simp only [checkCredentials, hf]
    rfl
  have hrec' : c'.received = c.received ++ l := by
    unfold PrawtosConn.received at hrec ⊢
    rw [hsame.clientFd, hlog]
    exact hrec
  have hsent' : c'.sent = [] := by
    unfold PrawtosConn.sent at hsent ⊢
    rw [hsame.clientFd, hlog]
    exact hsent.trans r.sent
  rw [hc']
  refine .checked c' uname passwd l b hlive' ⟨hsame.clientFd, hsame.users, hsame.calls, hsame.stats⟩
    hrecv hrec' ⟨?_, ?_, ?_⟩ (hstatus.trans hcheck)
  · rw [hrec', hsplit, ← List.append_assoc, hm, hread, hun]
  · rw [hsent', hwrite, hstatus]
    rfl
  · rw [hwrite]
    exact List.cons_ne_nil _ _

include live r hk hrecv in
/-- The parser stops at the octet `x`: the message is complete, or refused. -/
theorem authEnd_outcome {v t : List UInt8} {x : UInt8} (hv : b.unread = v ++ x :: t)
    (hu : Undone authParserFeed authStops c.auth.parser v)
    (hd : authStops (feedAll authParserFeed c.auth.parser (v ++ [x])) = true)
    (hp : (authReceived k c l b).auth.parser = feedAll authParserFeed c.auth.parser (v ++ [x]))
    (hun : (authReceived k c l b).readBuffer.unread = t) :
    AuthReadOutcome c fd k (authPrawtosConsumed k (authReceived k c l b)) := by
  rw [auth_unread r hrecv] at hv
  rw [← r.parser] at hu
  rw [← r.parser, ← feedAll_append, ← List.append_assoc] at hp hd
  have hsplit : l = v ++ [x] ++ t := by rw [hv, List.append_assoc]; rfl
  rcases authFeed_done (undone_append.mpr ⟨r.undone, hu⟩) hd with ⟨uname, passwd, hm, hs, hf⟩ | ⟨he, hno⟩
  · rw [← hp] at hs hf
    exact authDone_outcome live r hk hrecv hsplit (List.append_assoc _ _ _ ▸ hm) hs hf hun
  · have hstop : authIsDone (authReceived k c l b).auth.parser.state = (true, true) := by
      rw [hp]
      exact Prod.ext hd he
    obtain ⟨c', i, hc', hlive', hsame, hsent⟩ := authConsumed_error (authReceived_live live hrecv) hk hstop
    rw [hc']
    refine .failed c' i hlive' ⟨hsame.clientFd, hsame.users, hsame.calls, hsame.stats⟩
      (hsent.trans (authReceived_streams live hk).2) ?_
    intro l' b' hr uname passwd r' hr'
    obtain ⟨rfl, -⟩ := Prod.mk.inj (Option.some.inj (hrecv.symm.trans hr))
    rw [hsplit, ← List.append_assoc, ← List.append_assoc] at hr'
    exact hno uname passwd t r' hr'

end

/-- `auth_prawtos_read` on a message that has not ended. -/
theorem authPrawtosRead_outcome (live : PrawtosLive c fd opRead) (r : AuthReading c) (hk : k.fd = fd) :
    AuthReadOutcome c fd k (authPrawtosRead k c) := by
  have hfd : k.fd = c.clientFd := hk.trans live.clientFd.symm
  unfold authPrawtosRead
  cases hrecv : recvInto c.readBuffer k.sys.recv with
  | none =>
    refine .failed _ opRead (prawtosLive_note live _) ⟨rfl, rfl, rfl, rfl⟩ (received_recv hfd none).2
      fun l b h => ?_
    rw [hrecv] at h; cases h
  | some lb =>
    obtain ⟨l, b⟩ := lb
    simp only
    -- an empty read is the end of the connection
    by_cases hl : l = []
    · rw [if_pos hl]
      refine .failed _ opRead (prawtosLive_note live _) ⟨rfl, rfl, rfl, rfl⟩ (received_recv hfd (some l)).2
        fun l' b' h uname passwd t ht => ?_
      rw [hrecv, Option.some.injEq, Prod.mk.injEq] at h
      rw [← h.1, hl, List.append_nil] at ht
      exact authFeed_message (ht ▸ r.undone)
    rw [if_neg hl]
    change AuthReadOutcome c fd k (authPrawtosConsumed k (authReceived k c l b))
    rcases consume_cases authParserFeed authStops b c.auth.parser with
      ⟨hu, hp, hun⟩ | ⟨v, x, t, hv, hu, hd, hp, hun⟩
    · exact authMore_outcome live r hk hrecv hl hu hp hun
    · exact authEnd_outcome live r hk hrecv hv hu hd hp hun

/-! ## AUTH_WRITE -/

/-- How a callback of AUTH_WRITE can end. -/
inductive AuthWriteOutcome (c : PrawtosConn) (fd : Nat) (uname passwd : Name) : PrawtosConn × PrawtosState → Prop
  | failed (c' : PrawtosConn) (i : FdInterest) (live : PrawtosLive c' fd i) (same : Untouched c c')
      (status : c.auth.status ≠ authSuccess) (sent : ∃ r, c'.sent ++ r = [0x01, c.auth.status]) :
      AuthWriteOutcome c fd uname passwd (c', .error)
  | writing (c' : PrawtosConn) (live : PrawtosLive c' fd opWrite) (same : Untouched c c')
      (received : c'.received = c.received) (kept : c'.auth.status = c.auth.status)
      (w : AuthWriting c' uname passwd) :
      AuthWriteOutcome c fd uname passwd (c', .authWrite)
  | answered (c' : PrawtosConn) (live : PrawtosLive c' fd opRead) (same : Untouched c c')
      (received : c'.received = authMessage uname passwd ++ c'.readBuffer.unread)
      (status : c.auth.status = authSuccess) (sent : c'.sent = [0x01, authSuccess])
      (idle : c'.writeBuffer.unread = [])
      (room : bufferWritePtr c'.writeBuffer = prawtosBufferSize) :
      AuthWriteOutcome c fd uname passwd (c', .cmdRead)

theorem authPrawtosWrite_outcome {uname passwd : Name} (live : PrawtosLive c fd opWrite)
    (w : AuthWriting c uname passwd) (hk : k.fd = fd) :
    AuthWriteOutcome c fd uname passwd (authPrawtosWrite k c) := by
  have hfd : k.fd = c.clientFd := hk.trans live.clientFd.symm
  unfold authPrawtosWrite
  cases hsend : sendFrom c.writeBuffer k.sys.send with
  | none =>
    obtain ⟨hs, hr⟩ := sent_send (c := c) hfd none
    rw [Option.getD_none, List.append_nil] at hs
    have hlive := prawtosLive_note live (.send k.fd none)
    simp only
    by_cases hst : c.auth.status ≠ authSuccess
    · rw [if_pos hst]
      exact .failed _ opWrite hlive ⟨rfl, rfl, rfl, rfl⟩ hst ⟨c.writeBuffer.unread, by rw [hs]; exact w.sending⟩
    · rw [if_neg hst]
      refine .writing _ hlive ⟨rfl, rfl, rfl, rfl⟩ hr rfl ⟨hr.trans w.received, ?_, w.pending⟩
      rw [hs]; exact w.sending
  | some lb =>
    obtain ⟨l, b⟩ := lb
    obtain ⟨hb, hlimit⟩ := sendFrom_some hsend
    obtain ⟨hs, hr⟩ := sent_send (c := c) hfd (some l)
    rw [Option.getD_some] at hs
    have hlive := prawtosLive_note live (.send k.fd (some l))
    have hsend' : (c.note (.send k.fd (some l))).sent ++ b.unread = [0x01, c.auth.status] := by
      rw [hs, List.append_assoc, ← hb]; exact w.sending
    simp only
    by_cases hst : (c.note (.send k.fd (some l))).auth.status ≠ authSuccess
    · rw [if_pos hst]
      exact .failed _ opWrite hlive ⟨rfl, rfl, rfl, rfl⟩ hst ⟨b.unread, hsend'⟩
    rw [if_neg hst]
    by_cases hl : l = []
    · rw [if_pos hl]
      refine .writing _ hlive ⟨rfl, rfl, rfl, rfl⟩ hr rfl ⟨hr.trans w.received, ?_, w.pending⟩
      rw [hs, hl, List.append_nil]; exact w.sending
    rw [if_neg hl]
    have live₁ : PrawtosLive { c.note (.send k.fd (some l)) with writeBuffer := b } fd opWrite :=
      ⟨live.alive, live.clientFd, live.entry, live.limitRead, hlimit.trans live.limitWrite⟩
    by_cases hcan : bufferCanRead b = true
    · simp only [hcan, ite_true]
      exact .writing _ live₁ ⟨rfl, rfl, rfl, rfl⟩ hr rfl ⟨hr.trans w.received, hsend', (canRead_iff b).mp hcan⟩
    · rw [Bool.not_eq_true] at hcan
      have hidle := (canRead_eq_false b).mp hcan
      have hroom := sendFrom_drained hsend w.pending hidle
      obtain ⟨c₂, hset, hlive₂, hc₂⟩ := prawtosLive_set live₁ opRead
      rw [← hk] at hset
      simp only [hcan, Bool.false_eq_true, ite_false, hset]
      rw [not_not] at hst
      rw [hidle, List.append_nil] at hsend'
      refine .answered c₂ hlive₂ ?_ ?_ hst ?_ ?_ ?_
      · rw [hc₂]; exact ⟨rfl, rfl, rfl, rfl⟩
      · rw [hc₂]; exact hr.trans w.received
      · rw [hc₂]; exact hsend'.trans (by rw [show c.auth.status = authSuccess from hst])
      · rw [hc₂]; exact hidle
      · rw [hc₂]; exact hroom.trans live.limitWrite

end

end SocksProxy
