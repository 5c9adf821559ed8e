import SocksProxy.PrawtosAuthSound

/-!
# The commands of a management connection

What the two callbacks of `cmd_prawtos.c` make of a connection on which the
bytes `u` of a command have been read. `cmdRead_outcome` goes as far as the
call of `cmd_process`; `cmdProcess_ok` says what no command changes.
-/

namespace SocksProxy

open Lib

/-- The bytes `u` of a command that has not ended have been read. -/
def CmdReading (c : PrawtosConn) (u : List UInt8) : Prop :=
  ∃ p, feedAll prawtosParserFeed (prawtosParserInit p) u = c.cmd.parser ∧
    Undone prawtosParserFeed prawtosStops (prawtosParserInit p) u

/-- The state `cmd_read` returns, given that of `cmd_process`. -/
def cmdReturn (p : PrawtosParser) (ret : PrawtosState) : PrawtosState :=
  if (prawtosIsDone p.state).2 then .error else ret

section
variable {c : PrawtosConn} {fd : Nat} {i : FdInterest} {k : PrawtosKey} {u : List UInt8}

/-! ## CMD_READ -/

/-- How a callback of CMD_READ can end: in the last case the octets `v`, `x`
complete a command, or end it with an error. -/
inductive CmdReadOutcome (c : PrawtosConn) (fd : Nat) (k : PrawtosKey) (u : List UInt8) :
    Except Fault (PrawtosConn × PrawtosState) → Prop
  | failed (c' : PrawtosConn) (live : PrawtosLive c' fd opRead) (same : Untouched c c') (sent : c'.sent = c.sent)
      (nothing : ∀ l b, recvInto c.readBuffer k.sys.recv = some (l, b) → l = []) :
      CmdReadOutcome c fd k u (.ok (c', .error))
  | reading (c' : PrawtosConn) (l : List UInt8) (b : Buffer) (recv : recvInto c.readBuffer k.sys.recv = some (l, b))
      (parser : c'.cmd.parser = (prawtosConsume b c.cmd.parser).2) (live : PrawtosLive c' fd opRead)
      (same : Untouched c c') (sent : c'.sent = c.sent)
      (received : c'.received = c.received ++ l) (kept : c'.writeBuffer = c.writeBuffer)
      (drained : c'.readBuffer.unread = []) (r : CmdReading c' (u ++ (c.readBuffer.unread ++ l))) :
      CmdReadOutcome c fd k u (.ok (c', .cmdRead))
  | processed (c' : PrawtosConn) (l : List UInt8) (b : Buffer) (v : List UInt8) (x : UInt8)
      (recv : recvInto c.readBuffer k.sys.recv = some (l, b))
      (parser : c'.cmd.parser = (prawtosConsume b c.cmd.parser).2)
      (split : c.readBuffer.unread ++ l = v ++ x :: c'.readBuffer.unread) (live : PrawtosLive c' fd opWrite)
      (same : Untouched c c') (sent : c'.sent = c.sent) (received : c'.received = c.received ++ l)
      (kept : c'.writeBuffer = c.writeBuffer) (fin : CommandEnd (u ++ v ++ [x]) c'.cmd.parser) :
      CmdReadOutcome c fd k u
        (match cmdProcess k.sys.heap c' with
        | .error f => .error f
        | .ok (d, ret) => .ok (d, cmdReturn c'.cmd.parser ret))

theorem prawtosStops_false {p : PrawtosParser} (h : prawtosStops p = false) :
    prawtosIsDone p.state = (false, false) := by
  unfold prawtosStops at h
  cases hs : p.state <;> rw [hs] at h <;> first | rfl | exact absurd h (by decide)

/-- The connection after `cmd_read` has received `l` and parsed the buffer `b`. -/
def cmdReceived (k : PrawtosKey) (c : PrawtosConn) (l : List UInt8) (b : Buffer) : PrawtosConn :=
  { c.note (.recv k.fd (some l)) with
    readBuffer := (prawtosConsume b c.cmd.parser).1
    cmd.parser := (prawtosConsume b c.cmd.parser).2 }

section
variable {l : List UInt8} {b : Buffer} (live : PrawtosLive c fd opRead) (r : CmdReading c u) (hk : k.fd = fd)
  (hrecv : recvInto c.readBuffer k.sys.recv = some (l, b))

include live hrecv in
theorem cmdReceived_live : PrawtosLive (cmdReceived k c l b) fd opRead := by
  obtain ⟨-, hlimit, -⟩ := recvInto_some hrecv
  have hlim : (prawtosConsume b c.cmd.parser).1.limit = b.limit :=
    (consume_spec prawtosParserFeed prawtosStops b c.cmd.parser).2.2
  exact ⟨live.alive, live.clientFd, live.entry, hlim.trans (hlimit.trans live.limitRead), live.limitWrite⟩

include live hk in
theorem cmdReceived_streams :
    (cmdReceived k c l b).received = c.received ++ l ∧ (cmdReceived k c l b).sent = c.sent :=
  received_recv (hk.trans live.clientFd.symm) (some l)

include live r hk hrecv in
/-- The command goes on after the bytes received. -/
theorem cmdMore_outcome (hl : l ≠ []) (hu : Undone prawtosParserFeed prawtosStops c.cmd.parser b.unread)
    (hp : (cmdReceived k c l b).cmd.parser = feedAll prawtosParserFeed c.cmd.parser b.unread)
    (hun : (cmdReceived k c l b).readBuffer.unread = []) :
    CmdReadOutcome c fd k u (cmdConsumed k (cmdReceived k c l b)) := by
  obtain ⟨p, hfed, hundone⟩ := r
  obtain ⟨hb, -, -⟩ := recvInto_some hrecv
  obtain ⟨hrec, hsent⟩ := cmdReceived_streams (l := l) (b := b) live hk
  rw [hb, ← hfed] at hu
  rw [hb, ← hfed, ← feedAll_append] at hp
  have hmore := undone_append.mpr ⟨hundone, hu⟩
  have hstop : prawtosIsDone (cmdReceived k c l b).cmd.parser.state = (false, false) :=
    prawtosStops_false (hp ▸ undone_done hmore (by simp [hl]))
  have hstays : cmdConsumed k (cmdReceived k c l b) = .ok (cmdReceived k c l b, .cmdRead) := by
    unfold cmdConsumed
    simp only [hstop, Bool.false_eq_true, ite_false]
  rw [hstays]
  exact .reading _ l b hrecv rfl (cmdReceived_live live hrecv) ⟨rfl, rfl, rfl, rfl⟩ hsent hrec rfl hun
    ⟨p, hp.symm, hmore⟩

include live r hk hrecv in
/-- The parser stops at the octet `x`, and `cmd_process` is called. -/
theorem cmdEnd_outcome {v t : List UInt8} {x : UInt8} (hv : b.unread = v ++ x :: t)
    (hu : Undone prawtosParserFeed prawtosStops c.cmd.parser v)
    (hd : prawtosStops (feedAll prawtosParserFeed c.cmd.parser (v ++ [x])) = true)
    (hp : (cmdReceived k c l b).cmd.parser = feedAll prawtosParserFeed c.cmd.parser (v ++ [x]))
    (hun : (cmdReceived k c l b).readBuffer.unread = t) :
    CmdReadOutcome c fd k u (cmdConsumed k (cmdReceived k c l b)) := by
  obtain ⟨p, hfed, hundone⟩ := r
  obtain ⟨hb, -, -⟩ := recvInto_some hrecv
  obtain ⟨hrec, hsent⟩ := cmdReceived_streams (l := l) (b := b) live hk
  rw [← hfed] at hu
  rw [← hfed, ← feedAll_append, ← List.append_assoc] at hp hd
  have hfin := prawtosFeed_done p (undone_append.mpr ⟨hundone, hu⟩) hd
  rw [← hp] at hfin
  have hdone : (prawtosIsDone (cmdReceived k c l b).cmd.parser.state).1 = true := by
    rw [hp]
    exact hd
  obtain ⟨c₂, hset, hlive₂, hc₂⟩ := prawtosLive_set (cmdReceived_live live hrecv) opWrite
  rw [← hk] at hset
  have hcmd : c₂.cmd = (cmdReceived k c l b).cmd := by rw [hc₂]
  unfold cmdConsumed
  simp only [hdone, ite_true, hset]
  rw [← hcmd] at hfin ⊢
  refine .processed c₂ l b v x hrecv (congrArg (·.parser) hcmd) ?_ hlive₂ ?_ ?_ ?_ ?_ hfin
  · rw [← hb, hv, ← hun, hc₂]
  · rw [hc₂]; exact ⟨rfl, rfl, rfl, rfl⟩
  · rw [hc₂]; exact hsent
  · rw [hc₂]; exact hrec
  · rw [hc₂]; rfl

end

theorem cmdRead_outcome (live : PrawtosLive c fd opRead) (r : CmdReading c u) (hk : k.fd = fd) :
    CmdReadOutcome c fd k u (cmdRead k c) := by
  have hfd : k.fd = c.clientFd := hk.trans live.clientFd.symm
  unfold cmdRead
  cases hrecv : recvInto c.readBuffer k.sys.recv with
  | none =>
    refine .failed _ (prawtosLive_note live _) ⟨rfl, rfl, rfl, rfl⟩ (received_recv hfd none).2 fun l b h => ?_
    rw [hrecv] at h; cases h
  | some lb =>
    obtain ⟨l, b⟩ := lb
    simp only
    by_cases hl : l = []
    · rw [if_pos hl]
      refine .failed _ (prawtosLive_note live _) ⟨rfl, rfl, rfl, rfl⟩ (received_recv hfd (some l)).2
        fun l' b' h => ?_
      rw [hrecv, Option.some.injEq, Prod.mk.injEq] at h
      exact h.1.symm.trans hl
    rw [if_neg hl]
    change CmdReadOutcome c fd k u (cmdConsumed k (cmdReceived k c l b))
    rcases consume_cases prawtosParserFeed prawtosStops b c.cmd.parser with
      ⟨hu, hp, hun⟩ | ⟨v, x, t, hv, hu, hd, hp, hun⟩
    · exact cmdMore_outcome live r hk hrecv hl hu hp hun
    · exact cmdEnd_outcome live r hk hrecv hv hu hd hp hun

/-! ## CMD_WRITE -/

/-- How a callback of CMD_WRITE can end. -/
inductive CmdWriteOutcome (c : PrawtosConn) (fd : Nat) : PrawtosConn × PrawtosState → Prop
  | failed (c' : PrawtosConn) (live : PrawtosLive c' fd opWrite) (same : Untouched c c')
      (status : c.cmd.status = .cmdNotSupported) : CmdWriteOutcome c fd (c', .error)
  | finished (c' : PrawtosConn) (r : List UInt8) (live : PrawtosLive c' fd opWrite) (same : Untouched c c')
      (type : c.cmd.parser.type = 0x03) (sent : c'.sent ++ r = c.sent ++ c.writeBuffer.unread) :
      CmdWriteOutcome c fd (c', .done)
  | writing (c' : PrawtosConn) (live : PrawtosLive c' fd opWrite) (same : Untouched c c')
      (received : c'.received = c.received) (read : c'.readBuffer = c.readBuffer) (kept : c'.cmd = c.cmd)
      (sent : c'.sent ++ c'.writeBuffer.unread = c.sent ++ c.writeBuffer.unread) :
      CmdWriteOutcome c fd (c', .cmdWrite)
  | answered (c' : PrawtosConn) (live : PrawtosLive c' fd opRead) (same : Untouched c c')
      (received : c'.received = c.received) (read : c'.readBuffer = c.readBuffer) (type : c.cmd.parser.type ≠ 0x03)
      (sent : c'.sent = c.sent ++ c.writeBuffer.unread) (idle : c'.writeBuffer.unread = [])
      (room : bufferWritePtr c'.writeBuffer = prawtosBufferSize) : CmdWriteOutcome c fd (c', .cmdRead)

theorem cmdWrite_outcome (live : PrawtosLive c fd opWrite) (hk : k.fd = fd) :
    CmdWriteOutcome c fd (cmdWrite k c) := by
  have hfd : k.fd = c.clientFd := hk.trans live.clientFd.symm
  unfold cmdWrite
  cases hsend : sendFrom c.writeBuffer k.sys.send with
  | none =>
    obtain ⟨hs, hr⟩ := sent_send (c := c) hfd none
    rw [Option.getD_none, List.append_nil] at hs
    have hlive := prawtosLive_note live (.send k.fd none)
    simp only
    by_cases hst : c.cmd.status = .cmdNotSupported
    · rw [if_pos hst]; exact .failed _ hlive ⟨rfl, rfl, rfl, rfl⟩ hst
    · rw [if_neg hst]
      refine .writing _ hlive ⟨rfl, rfl, rfl, rfl⟩ hr rfl rfl ?_
      rw [hs]; rfl
  | some lb =>
    obtain ⟨l, b⟩ := lb
    obtain ⟨hb, hlimit⟩ := sendFrom_some hsend
    obtain ⟨hs, hr⟩ := sent_send (c := c) hfd (some l)
    rw [Option.getD_some] at hs
    have hlive := prawtosLive_note live (.send k.fd (some l))
    have hsend' : (c.note (.send k.fd (some l))).sent ++ b.unread = c.sent ++ c.writeBuffer.unread := by
      rw [hs, hb, List.append_assoc]
    simp only
    -- the answer to an unknown command is the last thing on the connection
    by_cases hst : (c.note (.send k.fd (some l))).cmd.status = .cmdNotSupported
    · rw [if_pos hst]; exact .failed _ hlive ⟨rfl, rfl, rfl, rfl⟩ hst
    rw [if_neg hst]
    -- `send` that takes nothing leaves the interest as it is
    by_cases hl : l = []
    · rw [if_pos hl]
      refine .writing _ hlive ⟨rfl, rfl, rfl, rfl⟩ hr rfl rfl ?_
      rw [hs, hl, List.append_nil]; rfl
    rw [if_neg hl]
    by_cases ht : (c.note (.send k.fd (some l))).cmd.parser.type = 0x03
    · rw [if_pos ht]; exact .finished _ b.unread hlive ⟨rfl, rfl, rfl, rfl⟩ ht hsend'
    rw [if_neg ht]
    have live₁ : PrawtosLive { c.note (.send k.fd (some l)) with writeBuffer := b } fd opWrite :=
      ⟨live.alive, live.clientFd, live.entry, live.limitRead, hlimit.trans live.limitWrite⟩
    by_cases hcan : bufferCanRead b = true
    · simp only [hcan, ite_true]
      exact .writing _ live₁ ⟨rfl, rfl, rfl, rfl⟩ hr rfl rfl hsend'
    · rw [Bool.not_eq_true] at hcan
      have hidle := (canRead_eq_false b).mp hcan
      have hne : c.writeBuffer.unread ≠ [] := by rw [hb]; simp [hl]
      have hroom := sendFrom_drained hsend hne hidle
      obtain ⟨c₂, hset, hlive₂, hc₂⟩ := prawtosLive_set live₁ opRead
      rw [← hk] at hset
      simp only [hcan, Bool.false_eq_true, ite_false, hset]
      rw [hidle, List.append_nil] at hsend'
      refine .answered c₂ hlive₂ ?_ ?_ ?_ ht ?_ ?_ ?_
      · rw [hc₂]; exact ⟨rfl, rfl, rfl, rfl⟩
      · rw [hc₂]; exact hr
      · rw [hc₂]; rfl
      · rw [hc₂]; exact hsend'
      · rw [hc₂]; exact hidle
      · rw [hc₂]; exact hroom.trans live.limitWrite

/-! ## The handlers -/

/-- What running a command changes: the users, the answer and the record of calls. -/
structure Processed (c d : PrawtosConn) : Prop where
  clientFd : d.clientFd = c.clientFd
  freed : d.freed = c.freed
  self : d.self = c.self
  log : d.log = c.log
  readBuffer : d.readBuffer = c.readBuffer
  process : d.toProcess = c.toProcess
  limit : d.writeBuffer.limit = c.writeBuffer.limit
  parser : d.cmd.parser = c.cmd.parser

theorem processed_refl (c : PrawtosConn) : Processed c c := ⟨rfl, rfl, rfl, rfl, rfl, rfl, rfl, rfl⟩

theorem processed_live {d : PrawtosConn} (h : Processed c d) (live : PrawtosLive c fd i) : PrawtosLive d fd i where
  alive := h.freed.trans live.alive
  clientFd := h.clientFd.trans live.clientFd
  entry := by rw [h.self, h.process]; exact live.entry
  limitRead := by rw [h.readBuffer]; exact live.limitRead
  limitWrite := h.limit.trans live.limitWrite

theorem getAnswer_ok {nargs : UInt8} {args : List UInt8} {heap : Heap} {d : PrawtosConn} {n : Nat}
    (h : getAnswer nargs args heap c = .ok (d, n)) :
    d = { c with cmd.args := args, cmd.nargs := nargs, cmd.status := .success } := by
  unfold getAnswer at h
  split at h
  · exact (Prod.mk.inj (Except.ok.inj h)).1.symm
  · cases h

theorem userAnswer_ok {r : List User × Bool} {d : PrawtosConn} {n : Nat} (h : userAnswer c r = .ok (d, n)) :
    d = { c with users := r.1, cmd.status := if r.2 then .success else .userCredentia } :=
  (Prod.mk.inj (Except.ok.inj h)).1.symm

theorem getHandlers_ok {f : CmdOptions} (hf : f ∈ getHandlers) {heap : Heap} {d : PrawtosConn} {n : Nat}
    (h : f heap c = .ok (d, n)) : ∃ args nargs,
      d = { c with cmd.args := args, cmd.nargs := nargs, cmd.status := .success } := by
  simp only [getHandlers, List.mem_cons, List.not_mem_nil, or_false] at hf
  rcases hf with rfl | rfl | rfl | rfl
  · exact ⟨_, _, getAnswer_ok h⟩
  · exact ⟨_, _, getAnswer_ok h⟩
  · exact ⟨_, _, getAnswer_ok h⟩
  · exact ⟨_, _, getAnswer_ok h⟩

theorem userHandlers_ok {f : CmdOptions} (hf : f ∈ userHandlers) {heap : Heap} {d : PrawtosConn} {n : Nat}
    (h : f heap c = .ok (d, n)) : ∃ r : List User × Bool,
      d = { c with users := r.1, cmd.status := if r.2 then .success else .userCredentia } := by
  simp only [userHandlers, List.mem_cons, List.not_mem_nil, or_false] at hf
  rcases hf with rfl | rfl | rfl
  · unfold createUser at h
    simp only at h
    split at h
    · cases h
    · exact ⟨_, userAnswer_ok h⟩
  · exact ⟨_, userAnswer_ok h⟩
  · unfold modifyUser at h
    simp only at h
    split at h
    · cases h
    · exact ⟨_, userAnswer_ok h⟩

theorem invoke_ok {table : List CmdOptions} {entry : Nat → HandlerEntry} {j : UInt8} {heap : Heap} {d : PrawtosConn}
    {n : Nat} (h : invoke table entry j heap c = .ok (d, n)) :
    ∃ f ∈ table, f heap { c with calls := c.calls ++ [entry j.toNat] } = .ok (d, n) := by
  unfold invoke at h
  split at h
  · cases h
  · rename_i f hf
    exact ⟨f, List.mem_of_getElem? hf, h⟩

theorem getMarshal_limit {heap : Heap} {b : Buffer} {status : PrawtosResponseStatus} {cmd nargs : UInt8}
    {args : List UInt8} {r : Buffer × Int} (h : getMarshal heap b status cmd nargs args = .ok r) :
    r.1.limit = b.limit := by
  unfold getMarshal at h
  split at h
  · rw [← Except.ok.inj h]
  · simp only at h
    split at h
    · cases h
    · rw [← Except.ok.inj h]; exact limit_marshal _ _

theorem cmdProcess_ok {heap : Heap} {d : PrawtosConn} {ret : PrawtosState} (h : cmdProcess heap c = .ok (d, ret)) :
    Processed c d ∧ (ret = .cmdWrite ∨ ret = .error) := by
  have hret : ∀ b : Bool, (if b then PrawtosState.error else .cmdWrite) = .cmdWrite ∨
      (if b then PrawtosState.error else .cmdWrite) = .error := by decide
  unfold cmdProcess at h
  split at h
  · split at h
    · cases h
    · rename_i c₁ n hi
      obtain ⟨f, hf, hf'⟩ := invoke_ok hi
      obtain ⟨args, nargs, rfl⟩ := getHandlers_ok hf hf'
      split at h
      · cases h
      · rename_i r hr
        simp only [Except.ok.injEq, Prod.mk.injEq] at h
        obtain ⟨rfl, rfl⟩ := h
        exact ⟨⟨rfl, rfl, rfl, rfl, rfl, rfl, getMarshal_limit hr, rfl⟩, by simpa using hret (decide (r.2 = -1))⟩
  · split at h
    · split at h
      · cases h
      · rename_i c₁ n hi
        obtain ⟨f, hf, hf'⟩ := invoke_ok hi
        obtain ⟨r, rfl⟩ := userHandlers_ok hf hf'
        simp only [Except.ok.injEq, Prod.mk.injEq] at h
        obtain ⟨rfl, rfl⟩ := h
        exact ⟨⟨rfl, rfl, rfl, rfl, rfl, rfl, limit_marshal _ _, rfl⟩, by
          simpa using hret (decide ((userMarshal c.writeBuffer (if r.2 then .success else .userCredentia)).2 = -1))⟩
    · split at h
      · simp only [Except.ok.injEq, Prod.mk.injEq] at h
        obtain ⟨rfl, rfl⟩ := h
        exact ⟨⟨rfl, rfl, rfl, rfl, rfl, rfl, limit_marshal _ _, rfl⟩, by
          simpa using hret (decide ((quitMarshal c.writeBuffer .success).2 = -1))⟩
      · simp only [Except.ok.injEq, Prod.mk.injEq] at h
        obtain ⟨rfl, rfl⟩ := h
        exact ⟨processed_refl c, Or.inr rfl⟩

/-- A command of a type that has a table of handlers calls one of them. -/
theorem cmdProcess_calls {heap : Heap} {d : PrawtosConn} {ret : PrawtosState}
    (ht : c.cmd.parser.type = 0x00 ∨ c.cmd.parser.type = 0x01) (h : cmdProcess heap c = .ok (d, ret)) :
    ∃ entry, d.calls = c.calls ++ [entry] := by
  unfold cmdProcess at h
  rcases ht with ht | ht
  · rw [if_pos ht] at h
    split at h
    · cases h
    · rename_i c₁ n hi
      obtain ⟨f, hf, hf'⟩ := invoke_ok hi
      obtain ⟨args, nargs, rfl⟩ := getHandlers_ok hf hf'
      split at h
      · cases h
      · simp only [Except.ok.injEq, Prod.mk.injEq] at h
        exact ⟨_, by rw [← h.1]⟩
  · rw [if_neg (by rw [ht]; decide), if_pos ht] at h
    split at h
    · cases h
    · rename_i c₁ n hi
      obtain ⟨f, hf, hf'⟩ := invoke_ok hi
      obtain ⟨r, rfl⟩ := userHandlers_ok hf hf'
      simp only [Except.ok.injEq, Prod.mk.injEq] at h
      exact ⟨_, by rw [← h.1]⟩

theorem cmdProcess_unknown {heap : Heap} (hget : c.cmd.parser.type ≠ 0x00) (huser : c.cmd.parser.type ≠ 0x01)
    (hquit : c.cmd.parser.type ≠ 0x03) : cmdProcess heap c = .ok (c, .error) := by
  unfold cmdProcess
  rw [if_neg hget, if_neg huser, if_neg hquit]

theorem cmdProcess_outside {heap : Heap} {d : PrawtosConn} {ret : PrawtosState} (hget : c.cmd.parser.type ≠ 0x00)
    (huser : c.cmd.parser.type ≠ 0x01) (h : cmdProcess heap c = .ok (d, ret)) :
    d.users = c.users ∧ d.calls = c.calls := by
  by_cases hquit : c.cmd.parser.type = 0x03
  · unfold cmdProcess at h
    rw [if_neg hget, if_neg huser, if_pos hquit] at h
    simp only [Except.ok.injEq, Prod.mk.injEq] at h
    rw [← h.1]; exact ⟨rfl, rfl⟩
  · rw [cmdProcess_unknown hget huser hquit] at h
    simp only [Except.ok.injEq, Prod.mk.injEq] at h
    rw [← h.1]; exact ⟨rfl, rfl⟩

end

end SocksProxy
