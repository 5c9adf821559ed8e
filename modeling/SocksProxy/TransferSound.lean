import SocksProxy.Client
import SocksProxy.PrawtosSound
import SocksProxy.RelayRun
import SocksProxy.Service

/-!
# What the client shows of the counters

The server sends a counter with its most significant octet first, and the
client shifts the octets back within an `int`: the bytes transfered are shown
as they are up to 2^31 only (`shows_iff`), the two counts of connections always.
-/

namespace SocksProxy

open Lib

/-! ## The octets of a number -/

theorem promote_toNat (c : UInt8) : (promote c).toNat = c.toNat := by
  have h := c.toNat_lt
  rw [promote, BitVec.toNat_setWidth]
  exact Nat.mod_eq_of_lt (Nat.lt_trans h (by decide))

/-- An octet keeps its bits when it is shifted within an `int`. -/
theorem promote_shift (c : UInt8) {i : Nat} (h : i ≤ 24) : (promote c <<< i).toNat = c.toNat * 2 ^ i := by
  have hc := c.toNat_lt
  have hi : 2 ^ i ≤ 2 ^ 24 := Nat.pow_le_pow_right (by decide) h
  rw [BitVec.toNat_shiftLeft, promote_toNat, Nat.shiftLeft_eq]
  refine Nat.mod_eq_of_lt ?_
  calc c.toNat * 2 ^ i < 2 ^ 8 * 2 ^ i := Nat.mul_lt_mul_of_pos_right hc (Nat.two_pow_pos i)
    _ ≤ 2 ^ 8 * 2 ^ 24 := Nat.mul_le_mul_left _ hi

theorem or_eq_add (a : Nat) {b i : Nat} (h : b < 2 ^ i) : a * 2 ^ i ||| b = a * 2 ^ i + b := by
  rw [← Nat.shiftLeft_eq, Nat.shiftLeft_add_eq_or_of_lt h]

theorem twoOctets (c d : UInt8) : (promote c <<< 8 ||| promote d).toNat = c.toNat * 2 ^ 8 + d.toNat := by
  rw [BitVec.toNat_or, promote_shift c (by decide), promote_toNat, or_eq_add _ d.toNat_lt]

theorem fourOctets (a b c d : UInt8) :
    (promote a <<< 24 ||| promote b <<< 16 ||| promote c <<< 8 ||| promote d).toNat =
      ((a.toNat * 2 ^ 8 + b.toNat) * 2 ^ 8 + c.toNat) * 2 ^ 8 + d.toNat := by
  have hb := b.toNat_lt
  have hc := c.toNat_lt
  have hab : (promote a <<< 24 ||| promote b <<< 16).toNat = (a.toNat * 2 ^ 8 + b.toNat) * 2 ^ 16 := by
    rw [BitVec.toNat_or, promote_shift a (by decide), promote_shift b (by decide), or_eq_add _ (by omega),
      Nat.add_mul, Nat.mul_assoc, ← Nat.pow_add]
  have habc : (promote a <<< 24 ||| promote b <<< 16 ||| promote c <<< 8).toNat =
      ((a.toNat * 2 ^ 8 + b.toNat) * 2 ^ 8 + c.toNat) * 2 ^ 8 := by
    rw [BitVec.toNat_or, hab, promote_shift c (by decide), or_eq_add _ (by omega), Nat.add_mul _ c.toNat,
      Nat.mul_assoc _ _ (2 ^ 8), ← Nat.pow_add]
  rw [BitVec.toNat_or, habc, promote_toNat, or_eq_add _ d.toNat_lt]

theorem unsignedLong_eq (n : BitVec 32) :
    unsignedLong n = if n.toNat < 2 ^ 31 then n.toNat else n.toNat + (2 ^ 64 - 2 ^ 32) := by
  have h := n.isLt
  have hwide : (n.setWidth 64).toNat = n.toNat := by
    rw [BitVec.toNat_setWidth]; exact Nat.mod_eq_of_lt (by omega)
  rw [unsignedLong, BitVec.toNat_signExtend, BitVec.msb_eq_decide, hwide]
  by_cases hn : n.toNat < 2 ^ 31
  · rw [if_pos hn, if_neg (by simpa using hn)]
    rfl
  · rw [if_neg hn, if_pos (by simpa using hn)]

section
variable {n : Nat}

theorem bigEndian_two (h : n < 2 ^ 16) : ∃ c d : UInt8, bigEndian n 2 = [c, d] ∧ c.toNat * 2 ^ 8 + d.toNat = n := by
  refine ⟨UInt8.ofNat (n >>> 8), UInt8.ofNat (n >>> 0), rfl, ?_⟩
  simp only [UInt8.toNat_ofNat', Nat.shiftRight_eq_div_pow]
  omega

theorem bigEndian_four (h : n < 2 ^ 32) : ∃ a b c d : UInt8, bigEndian n 4 = [a, b, c, d] ∧
    ((a.toNat * 2 ^ 8 + b.toNat) * 2 ^ 8 + c.toNat) * 2 ^ 8 + d.toNat = n := by
  refine ⟨UInt8.ofNat (n >>> 24), UInt8.ofNat (n >>> 16), UInt8.ofNat (n >>> 8), UInt8.ofNat (n >>> 0), rfl, ?_⟩
  simp only [UInt8.toNat_ofNat', Nat.shiftRight_eq_div_pow]
  omega

/-! ## The client -/

theorem answer_front (mem : ClientMemory) (bytes : List UInt8) (h : bytes.length ≤ 1000) :
    ∃ rest, store ((List.range 1000).map mem.stack) 0 bytes = bytes ++ rest :=
  ⟨_, store_front (by rw [List.length_map, List.length_range]; exact h)⟩

theorem getCommand_bytes (mem : ClientMemory) (h : n < 2 ^ 32) :
    getCommand mem 0x00 (getFrame .success 0x00 0x01 (0x04 :: bigEndian n 4)) =
      .ok (.bytesTransfered (if n < 2 ^ 31 then n else n + (2 ^ 64 - 2 ^ 32))) := by
  obtain ⟨a, b, c, d, hoctets, hn⟩ := bigEndian_four h
  have hlong := unsignedLong_eq (promote a <<< 24 ||| promote b <<< 16 ||| promote c <<< 8 ||| promote d)
  rw [fourOctets a b c d, hn] at hlong
  obtain ⟨rest, hanswer⟩ := answer_front mem [0x00, 0x00, 0x01, 0x04, a, b, c, d] (by simp)
  have hrecv : recv (getFrame .success 0x00 0x01 [0x04, a, b, c, d]) (answerLength 0x00) =
    .ok ([0x00, 0x00, 0x01, 0x04, a, b, c, d], []) := rfl
  rw [hoctets, ← hlong]
  unfold getCommand
  simp only [hrecv, bind, Except.bind, hanswer]
  rfl

theorem getCommand_connections (mem : ClientMemory) (h : n < 2 ^ 16) :
    getCommand mem 0x01 (getFrame .success 0x01 0x01 (0x02 :: bigEndian n 2)) = .ok (.historicalConnections n) ∧
      getCommand mem 0x02 (getFrame .success 0x02 0x01 (0x02 :: bigEndian n 2)) =
        .ok (.concurrentConnections n) := by
  obtain ⟨c, d, hoctets, hn⟩ := bigEndian_two h
  have hlong : unsignedLong (promote c <<< 8 ||| promote d) = n := by
    have hint := (twoOctets c d).trans hn
    rw [unsignedLong_eq, hint, if_pos (by omega)]
  rw [hoctets]
  have hshown : ∀ cmd, cmd = 0x01 ∨ cmd = 0x02 → ∃ rest,
      getCommand mem cmd (getFrame .success cmd 0x01 [0x02, c, d]) =
        getAnswerHandler ([0x00, cmd, 0x01, 0x02, c, d] ++ rest) [] := by
    intro cmd hcmd
    obtain ⟨rest, hanswer⟩ := answer_front mem [0x00, cmd, 0x01, 0x02, c, d] (by simp)
    refine ⟨rest, ?_⟩
    have hrecv : recv (getFrame .success cmd 0x01 [0x02, c, d]) (answerLength cmd) =
      .ok ([0x00, cmd, 0x01, 0x02, c, d], []) := by
      rcases hcmd with rfl | rfl <;> rfl
    unfold getCommand
    simp only [hrecv, bind, Except.bind, hanswer]
    rcases hcmd with rfl | rfl <;> rfl
  obtain ⟨r, hr⟩ := hshown 0x01 (Or.inl rfl)
  obtain ⟨r', hr'⟩ := hshown 0x02 (Or.inr rfl)
  rw [hr, hr', ← hlong]
  exact ⟨rfl, rfl⟩

end

/-! ## The answer -/

/-- The entry `n` of the GET handlers has been called, and its answer follows
what was in the write buffer. -/
def AnswersGet (heap : Heap) (c d : PrawtosConn) (n : Nat) : Prop :=
  ∃ cmd : UInt8, n = cmd.toNat ∧ d.writeBuffer.unread = c.writeBuffer.unread ++
    getFrame .success cmd (getArguments heap c.stats c.users cmd).1 (getArguments heap c.stats c.users cmd).2

section
variable {k : PrawtosKey} {heap : Heap} {c d : PrawtosConn} {n : Nat} {ret : PrawtosState}

theorem calls_called {entry : HandlerEntry} (h : d.calls = c.calls ++ [entry])
    (hcalls : d.calls = c.calls ++ [.get n]) :
    entry = .get n := by
  rw [h] at hcalls
  simpa using List.append_cancel_left hcalls

theorem calls_kept (h : d.calls = c.calls) : d.calls ≠ c.calls ++ [.get n] := by
  rw [h]
  simp

theorem getMarshal_answers {b : Buffer} {status : PrawtosResponseStatus} {cmd nargs : UInt8} {args : List UInt8}
    {r : Buffer × Int} (h : getMarshal heap b status cmd nargs args = .ok r) (hr : r.2 ≠ -1) :
    r.1.unread = b.unread ++ getFrame status cmd nargs args := by
  unfold getMarshal at h
  simp only at h
  split at h
  · rw [← Except.ok.inj h] at hr; exact absurd rfl hr
  · split at h
    · cases h
    · rw [← Except.ok.inj h] at hr ⊢
      exact bufferMarshal_ok hr

theorem invoke_get {cmd : UInt8} {m : Nat} (h : invoke getHandlers .get cmd heap c = .ok (d, m)) :
    d = { c with
      calls := c.calls ++ [.get cmd.toNat]
      cmd.args := (getArguments heap c.stats c.users cmd).2
      cmd.nargs := (getArguments heap c.stats c.users cmd).1
      cmd.status := .success } := by
  unfold invoke at h
  cases hf : getHandlers[cmd.toNat]? with
  | none => rw [hf] at h; cases h
  | some f =>
    have hlt : cmd < 4 := by
      rw [UInt8.lt_iff_toNat_lt]
      exact (List.getElem?_eq_some_iff.mp hf).1
    obtain ⟨g, hg, hargs⟩ := getHandler_arguments hlt
    obtain rfl := Option.some.inj (hf.symm.trans hg)
    rw [hf] at h
    simp only [hargs] at h
    exact getAnswer_ok h

theorem cmdProcess_answersGet (h : cmdProcess heap c = .ok (d, .cmdWrite))
    (hcalls : d.calls = c.calls ++ [.get n]) :
    AnswersGet heap c d n := by
  unfold cmdProcess at h
  split at h
  · split at h
    · cases h
    · rename_i c₁ m hi
      obtain rfl := invoke_get hi
      simp only at h
      split at h
      · cases h
      · rename_i r hr
        simp only [Except.ok.injEq, Prod.mk.injEq] at h
        obtain ⟨rfl, hret⟩ := h
        have hroom : r.2 ≠ -1 := fun hno => by rw [if_pos hno] at hret; cases hret
        have hentry := calls_called (c := c) rfl hcalls
        injection hentry with hentry
        exact ⟨c.cmd.parser.get, hentry.symm, getMarshal_answers hr hroom⟩
  · split at h
    · split at h
      · cases h
      · rename_i c₁ m hi
        obtain ⟨f, hf, hf'⟩ := invoke_ok hi
        obtain ⟨r, rfl⟩ := userHandlers_ok hf hf'
        simp only [Except.ok.injEq, Prod.mk.injEq] at h
        obtain ⟨rfl, -⟩ := h
        cases calls_called (c := c) rfl hcalls
    · split at h
      · simp only [Except.ok.injEq, Prod.mk.injEq] at h
        obtain ⟨rfl, -⟩ := h
        exact absurd hcalls (calls_kept rfl)
      · cases h

theorem cmdRead_answersGet (h : cmdRead k c = .ok (d, .cmdWrite)) (hcalls : d.calls = c.calls ++ [.get n]) :
    AnswersGet k.sys.heap c d n := by
  unfold cmdRead at h
  split at h
  · cases h
  · rename_i l b _
    simp only at h
    split at h
    · cases h
    · unfold cmdConsumed at h
      simp only at h
      split at h
      · generalize hset : PrawtosConn.setInterest _ k.fd opWrite = r at h
        obtain ⟨c₁, status⟩ := r
        have hc₁ : c₁ = _ := (congrArg Prod.fst hset).symm
        cases status with
        | success =>
          simp only at h
          split at h
          · cases h
          · rename_i c₂ ret hp
            simp only [Except.ok.injEq, Prod.mk.injEq] at h
            obtain ⟨rfl, hret⟩ := h
            have hret' : ret = .cmdWrite := by
              split at hret
              · cases hret
              · exact hret
            rw [hret'] at hp
            subst hc₁
            have hanswers := cmdProcess_answersGet hp hcalls
            exact hanswers
        | _ => cases h
      · cases h

theorem callsKept_rule : PrawtosRule fun c d => d.calls = c.calls where
  trans := fun h h' => h'.trans h
  note := fun _ _ => rfl
  setInterest := fun _ _ _ => rfl
  own := fun h => h.calls

theorem prawtosArrive_buffer (i : Nat) (k : PrawtosKey) (c : PrawtosConn) :
    (arrive prawtosInitStates i k c).calls = c.calls ∧
      (arrive prawtosInitStates i k c).writeBuffer = c.writeBuffer ∧
      (arrive prawtosInitStates i k c).stats = c.stats ∧ (arrive prawtosInitStates i k c).users = c.users := by
  match i with
  | 0 | 1 | 2 | 3 | 4 | 5 => exact ⟨rfl, rfl, rfl, rfl⟩
  | i + 6 => exact ⟨rfl, rfl, rfl, rfl⟩

/-- Only `cmd_read` calls a handler. -/
theorem callback_answersGet {st : PrawtosState} {r : Readiness}
    {g : PrawtosKey → PrawtosConn → Except Fault (PrawtosConn × Nat)} (hg : prawtosHandlerOf st r = some g)
    (h : g k c = .ok (d, PrawtosState.cmdWrite.toNat)) (hcalls : d.calls = c.calls ++ [.get n]) :
    AnswersGet k.sys.heap c d n := by
  match r, st with
  | .read, .authRead =>
    cases hg
    rw [prawtosReturning_ok h] at hcalls
    exact absurd hcalls (calls_kept (authPrawtosRead_rel callsKept_rule k c))
  | .write, .authWrite =>
    cases hg
    rw [prawtosReturning_ok h] at hcalls
    exact absurd hcalls (calls_kept (authPrawtosWrite_rel callsKept_rule k c))
  | .write, .cmdWrite =>
    cases hg
    rw [prawtosReturning_ok h] at hcalls
    exact absurd hcalls (calls_kept (cmdWrite_rel callsKept_rule k c))
  | .read, .cmdRead =>
    cases hg
    unfold prawtosMayFault at h
    cases hr : cmdRead k c with
    | error f => rw [hr] at h; cases h
    | ok q =>
      obtain ⟨y, ret⟩ := q
      rw [hr] at h
      simp only [Except.map, Except.ok.injEq, Prod.mk.injEq] at h
      obtain ⟨rfl, hret⟩ := h
      rw [prawtosState_inj hret] at hr
      exact cmdRead_answersGet hr hcalls
  | .write, .authRead | .read, .authWrite | .write, .cmdRead | .read, .cmdWrite => cases hg
  | .read, .done | .write, .done | .read, .error | .write, .error => cases hg

/-- An event on which a GET handler is called, and after which the connection
goes on to answer. -/
theorem prawtosDispatch_answersGet {e : PrawtosEvent} (h : prawtosDispatch c e = .ok d)
    (hstm : d.stm.current = some PrawtosState.cmdWrite.toNat) (hcalls : d.calls = c.calls ++ [.get n]) :
    AnswersGet e.sys.heap c d n := by
  rcases prawtosDispatch_ok h with rfl | ⟨st, g, x, y, z, ret, hg, hx, hcall, hz, m, hm, hd⟩
  · exact absurd hcalls (calls_kept rfl)
  have hret : ret = PrawtosState.cmdWrite.toNat := by
    split at hd
    · rw [prawtosDone_stm hd] at hstm
      exact Option.some.inj (hm.symm.trans hstm)
    · rw [hd] at hstm
      exact Option.some.inj (hm.symm.trans hstm)
  subst hret
  rw [if_neg (by decide)] at hd
  have hxs : x.calls = c.calls ∧ x.writeBuffer = c.writeBuffer ∧ x.stats = c.stats ∧ x.users = c.users := by
    rcases hx with rfl | ⟨i, rfl⟩
    · exact ⟨rfl, rfl, rfl, rfl⟩
    · exact prawtosArrive_buffer i e.key c
  have hzs : z.calls = y.calls ∧ z.writeBuffer = y.writeBuffer := by
    rcases hz with rfl | ⟨i, rfl⟩
    · exact ⟨rfl, rfl⟩
    · exact ⟨(prawtosArrive_buffer i e.key y).1, (prawtosArrive_buffer i e.key y).2.1⟩
  obtain ⟨h1, h2, h3, h4⟩ := hxs
  have hdc : d.calls = y.calls := by rw [hd]; exact hzs.1
  have hdw : d.writeBuffer = y.writeBuffer := by rw [hd]; exact hzs.2
  rw [hdc, ← h1] at hcalls
  obtain ⟨cmd, hn, hanswer⟩ := callback_answersGet hg hcall hcalls
  refine ⟨cmd, hn, ?_⟩
  rw [hdw, hanswer, h2, h3, h4]
  rfl

end

/-! ## A counter, from the server to the client -/

/-- An event on which the server calls the handler of GET for a counter, and
after which the connection goes on to answer. -/
structure Query (w : Server) where
  cmd : UInt8
  counter : cmd < 3
  record : PrawtosRecord
  event : PrawtosEvent
  after : PrawtosConn
  found : w.prawtosFind record.self = some record
  dispatched : prawtosDispatch (w.prawtosConn record) event = .ok after
  called : after.calls = record.calls ++ [.get cmd.toNat]
  answers : after.stm.current = some PrawtosState.cmdWrite.toNat

namespace Query

variable {w : Server} (q : Query w)

/-- What the event puts behind the octets that wait to be sent. -/
def answer : List UInt8 := q.after.writeBuffer.unread.drop q.record.writeBuffer.unread.length

/-- The counter asked for, `T` bytes having been transfered. -/
def figure (T : Nat) : Shown :=
  if q.cmd = 0x00 then .bytesTransfered T
  else if q.cmd = 0x01 then .historicalConnections (getTotalConnections w.process.stats).toNat
  else .concurrentConnections (getConcurrentConnections w.process.stats).toNat

/-- The client shows the counter. -/
def Shows (mem : ClientMemory) (T : Nat) : Prop := getCommand mem q.cmd q.answer = .ok (q.figure T)

end Query

section
variable {k : PrawtosKey} {c : PrawtosConn} {e : PrawtosEvent} {cmd : UInt8} {hcmd : cmd < 4} {b : Buffer}
    {l : List UInt8}

/-- The bytes received complete a GET, whose answer fits. -/
structure ReadsGet (k : PrawtosKey) (c : PrawtosConn) (cmd : UInt8) (hcmd : cmd < 4)
    (l : List UInt8) (b : Buffer) : Prop where
  recv : recvInto c.readBuffer k.sys.recv = some (l, b)
  some : l ≠ []
  parsed : (Command.get cmd hcmd).Parsed (prawtosConsume b c.cmd.parser).2
  done : (prawtosConsume b c.cmd.parser).2.state = .parserDone
  allocates : k.sys.heap.allocates = true
  room : bufferWritePtr c.writeBuffer = prawtosBufferSize
  idle : c.writeBuffer.unread = []
  fits : ((Command.get cmd hcmd).execute c.stats c.users k.sys.heap).2.length ≤ prawtosBufferSize

theorem cmdRead_get (h : ReadsGet k c cmd hcmd l b) (hv : invalidFd k.fd = false)
    (hu : (c.sel.fds k.fd.toNat).used = true) :
    ∃ d, cmdRead k c = .ok (d, .cmdWrite) ∧ d.calls = c.calls ++ [.get cmd.toNat] := by
  unfold cmdRead
  simp only [h.recv, h.some, ite_false]
  unfold cmdConsumed
  simp only [show (c.note (.recv k.fd (some l))).cmd = c.cmd from rfl, h.done,
    show prawtosIsDone .parserDone = (true, false) from rfl, ite_true]
  generalize hset : PrawtosConn.setInterest _ k.fd opWrite = r
  obtain ⟨x, status⟩ := r
  have hx : x = _ := (congrArg Prod.fst hset).symm
  have hstatus : status = .success :=
    (congrArg Prod.snd hset).symm.trans (selectorSetInterest_used hv hu opWrite).1
  subst hstatus
  have hprocess : (k.sys.heap.allocates = false ∧ cmdProcess k.sys.heap x = .error .wildPointer) ∨
      ∃ d, cmdProcess k.sys.heap x = .ok (d, .cmdWrite) ∧ Executed x k.sys.heap (.get cmd hcmd) d := by
    rw [hx]
    exact cmdProcess_get h.parsed h.room h.idle h.fits
  rcases hprocess with ⟨hno, -⟩ | ⟨d, hd, he⟩
  · rw [h.allocates] at hno
    cases hno
  · refine ⟨d, ?_, ?_⟩
    · simp only [hd]
      rfl
    · rw [hx] at he
      exact he.calls

theorem dispatch_get (hst : PrawtosInState c .cmdRead) (hf : c.freed = false) (hfd : e.fd < fdSetsize)
    (hitem : c.sel.fds e.fd = ⟨e.fd, opRead, some .prawtos, some (.prawtos c.self)⟩) (hready : e.ready = .read)
    (h : ReadsGet e.key c cmd hcmd l b) :
    ∃ d, prawtosDispatch c e = .ok d ∧ d.calls = c.calls ++ [.get cmd.toNat] ∧
      d.stm.current = some PrawtosState.cmdWrite.toNat := by
  have hs : PrawtosSelects c e := by
    unfold PrawtosSelects
    rw [hitem, hready]
    exact ⟨used_of_fd rfl, rfl, rfl, rfl⟩
  obtain ⟨d, hd, hcalls⟩ := cmdRead_get h (invalidFd_of_lt hfd) hs.1
  refine ⟨{ d with stm := { prawtosStm with current := some PrawtosState.cmdWrite.toNat } }, ?_, hcalls, rfl⟩
  rw [prawtosDispatch_inState hst hf, if_pos hs, prawtosCallbackStep, hready,
    show prawtosHandlerOf .cmdRead .read = some (prawtosMayFault cmdRead) from rfl]
  simp only [prawtosMayFault, hd, Except.map]
  exact prawtosSettle_to (Or.inr (Or.inl rfl))

end

theorem counter_cases {cmd : UInt8} (h : cmd < 3) : cmd = 0x00 ∨ cmd = 0x01 ∨ cmd = 0x02 := by
  rw [UInt8.lt_iff_toNat_lt] at h
  simp only [← UInt8.toNat_inj, UInt8.reduceToNat] at h ⊢
  omega

theorem query_answer {w : Server} (q : Query w) : ∃ heap, q.answer =
    getFrame .success q.cmd (getArguments heap w.process.stats w.users q.cmd).1
      (getArguments heap w.process.stats w.users q.cmd).2 := by
  obtain ⟨cmd, hcmd, hanswer⟩ := prawtosDispatch_answersGet q.dispatched q.answers q.called
  rw [UInt8.toNat_inj] at hcmd
  refine ⟨q.event.sys.heap, ?_⟩
  rw [Query.answer, hanswer, hcmd]
  exact List.drop_left

theorem prawtosConn_record (w : Server) (r : PrawtosRecord) : (w.prawtosConn r).toPrawtosRecord = r := rfl

theorem query_get {w : Server} {r : PrawtosRecord} {e : PrawtosEvent} {cmd : UInt8} {hcmd : cmd < 4} {b : Buffer}
    {l : List UInt8} (counter : cmd < 3) (found : w.prawtosFind r.self = some r)
    (hstm : r.stm = { prawtosStm with current := some PrawtosState.cmdRead.toNat }) (hf : r.freed = false)
    (hfd : e.fd < fdSetsize) (hready : e.ready = .read)
    (hitem : w.process.sel.fds e.fd = ⟨e.fd, opRead, some .prawtos, some (.prawtos r.self)⟩)
    (h : ReadsGet e.key (w.prawtosConn r) cmd hcmd l b) : ∃ q : Query w, q.cmd = cmd := by
  obtain ⟨d, hd, hcalls, hd'⟩ := dispatch_get (c := w.prawtosConn r) (Or.inl hstm) hf hfd hitem hready h
  exact ⟨⟨cmd, counter, r, e, d, found, hd, hcalls, hd'⟩, rfl⟩

theorem query_bytes {w : Server} (q : Query w) (hq : q.cmd = 0x00) {T : Nat}
    (h : (getBytesSent w.process.stats).toNat = T) (mem : ClientMemory) :
    getCommand mem q.cmd q.answer = .ok (.bytesTransfered (if T < 2 ^ 31 then T else T + (2 ^ 64 - 2 ^ 32))) := by
  obtain ⟨heap, hanswer⟩ := query_answer q
  rw [hanswer, hq, ← h]
  exact getCommand_bytes mem (getBytesSent w.process.stats).toNat_lt

/-! ## A run of rounds -/

theorem opened_management : (opened.prawtosFind 0).isSome = true := by decide +kernel

def openedManagement : PrawtosRecord := (opened.prawtosFind 0).get opened_management

theorem openedManagement_waits : openedManagement.self = 0 ∧
    openedManagement.stm = { prawtosStm with current := some PrawtosState.cmdRead.toNat } ∧
    openedManagement.freed = false := by
  decide +kernel

/-- The client that has authenticated asks for the bytes transfered. -/
def asksBytes : PrawtosEvent := prawtosReads 6 (Command.get 0x00 (by decide)).encode

theorem asksBytes_fits :
    (Command.get 0x00 (by decide)).encode.length ≤ bufferWritePtr openedManagement.readBuffer := by
  decide +kernel

/-- What the request for the bytes leads to, in one evaluation of the run. -/
theorem openedManagement_seen :
    (prawtosConsume (bufferFill openedManagement.readBuffer ⟨_, asksBytes_fits⟩)
        openedManagement.cmd.parser).2.state = .parserDone ∧
      bufferWritePtr openedManagement.writeBuffer = prawtosBufferSize ∧
      openedManagement.writeBuffer.unread = [] := by
  decide +kernel

theorem openedManagement_reads {c : PrawtosConn} (h : c.toPrawtosRecord = openedManagement) :
    ReadsGet asksBytes.key c 0x00 (by decide) (Command.get 0x00 (by decide)).encode
      (bufferFill openedManagement.readBuffer ⟨_, asksBytes_fits⟩) where
  recv := by
    rw [h]
    exact recvInto_fits asksBytes_fits
  some := by decide
  parsed := by
    rw [h]
    constructor <;> decide +kernel
  done := by
    rw [h]
    exact openedManagement_seen.1
  allocates := rfl
  room := by
    rw [h]
    exact openedManagement_seen.2.1
  idle := by
    rw [h]
    exact openedManagement_seen.2.2
  fits := Nat.le_of_ble_eq_true rfl

/-- The relay has carried `n` messages of 100 bytes. -/
def relayedSteps (n : Nat) : List ServerStep :=
  openingSteps ++ (List.replicate n (roundEvents openedFd .client (List.replicate 100 0))).flatten

theorem relayed_query (n : Nat) : ∃ w, run serverStep firstBooted.server (relayedSteps n) = .ok w ∧
    tally Server.copied serverStep firstBooted.server (relayedSteps n) = n * 100 ∧ ∃ q : Query w, q.cmd = 0x00 := by
  obtain ⟨hopen, hnone⟩ := opened_run
  obtain ⟨w, hw, ⟨-, hprawtos, helse⟩, htally⟩ :=
    rounds_copied (l := List.replicate 100 0) (by simp) (by simp) n opened_pumps
  refine ⟨w, run_append.mpr ⟨opened, hopen, hw⟩, ?_, ?_⟩
  · rw [relayedSteps, tally_append _ hopen, hnone, htally, List.length_replicate, Nat.zero_add]
  obtain ⟨hself, hstm, halive⟩ := openedManagement_waits
  have hitem : w.process.sel.fds 6 = ⟨6, opRead, some .prawtos, some (.prawtos openedManagement.self)⟩ := by
    rw [helse 6 fun t => by cases t <;> decide]
    decide +kernel
  refine query_get (r := openedManagement) (by decide) ?_ hstm halive (by decide) rfl hitem
    (openedManagement_reads (prawtosConn_record w _))
  rw [hself, Server.prawtosFind, hprawtos]
  exact (Option.some_get opened_management).symm

/-! ## What the client shows -/

/-- In a run in which `copy_write` sends fewer than 2^32 - 1 bytes, the client
shows every counter as it is, except that of the bytes from 2^31 on. -/
theorem shows_iff (b : Booted) (es : List ServerStep) {w : Server} (hr : run serverStep b.server es = .ok w)
    (hT : tally Server.copied serverStep b.server es < 2 ^ 32 - 1) (q : Query w) (mem : ClientMemory) :
    q.Shows mem (tally Server.copied serverStep b.server es) ↔
      (q.cmd = 0x00 → tally Server.copied serverStep b.server es < 2 ^ 31) := by
  have hcount := bytesSent_run b hr hT
  generalize tally Server.copied serverStep b.server es = T at hcount ⊢
  obtain ⟨heap, hanswer⟩ := query_answer q
  unfold Query.Shows Query.figure
  rcases counter_cases q.counter with h | h | h
  · rw [query_bytes q h hcount, if_pos h]
    simp only [Except.ok.injEq, Shown.bytesTransfered.injEq, h, forall_const]
    -- from 2^31 on the sign of the `int` is extended to the `unsigned long`
    by_cases hlt : T < 2 ^ 31
    · rw [if_pos hlt]
      exact iff_of_true rfl hlt
    · rw [if_neg hlt]
      exact iff_of_false (by omega) hlt
  · -- the other two counters have two octets and no sign
    rw [hanswer, h, show getArguments heap w.process.stats w.users 0x01 =
      (0x01, 0x02 :: bigEndian (getTotalConnections w.process.stats).toNat 2) from rfl,
      (getCommand_connections mem (getTotalConnections w.process.stats).toNat_lt).1]
    exact iff_of_true rfl fun h0 => absurd h0 (by decide)
  · rw [hanswer, h, show getArguments heap w.process.stats w.users 0x02 =
      (0x01, 0x02 :: bigEndian (getConcurrentConnections w.process.stats).toNat 2) from rfl,
      (getCommand_connections mem (getConcurrentConnections w.process.stats).toNat_lt).2]
    exact iff_of_true rfl fun h0 => absurd h0 (by decide)

/-- The client shows the 100 bytes of one round. -/
theorem oneRound_shown : ∃ w, run serverStep firstBooted.server (relayedSteps 1) = .ok w ∧
    ∃ q : Query w, q.cmd = 0x00 ∧ ∀ mem, q.Shows mem 100 := by
  obtain ⟨w, hw, htally, q, hq⟩ := relayed_query 1
  have hiff := fun mem => shows_iff firstBooted (relayedSteps 1) hw (by rw [htally]; decide) q mem
  rw [htally] at hiff
  exact ⟨w, hw, q, hq, fun mem => (hiff mem).mpr fun _ => by decide⟩

/-- After 2147483700 bytes the client shows 2^64 - 2^32 more. -/
theorem manyRounds_misshown : ∃ w, run serverStep firstBooted.server (relayedSteps 21474837) = .ok w ∧
    tally Server.copied serverStep firstBooted.server (relayedSteps 21474837) = 2147483700 ∧
      ∃ q : Query w, q.cmd = 0x00 ∧ ∀ mem,
        getCommand mem q.cmd q.answer = .ok (.bytesTransfered 18446744071562068020) ∧ ¬ q.Shows mem 2147483700 := by
  obtain ⟨w, hw, htally, q, hq⟩ := relayed_query 21474837
  have hcount : (getBytesSent w.process.stats).toNat = 2147483700 := by
    rw [bytesSent_run firstBooted hw (by rw [htally]; decide), htally]
  refine ⟨w, hw, htally, q, hq, fun mem => ?_⟩
  have hshown := query_bytes q hq hcount mem
  refine ⟨hshown, fun h => ?_⟩
  rw [Query.Shows, hshown, Query.figure, if_pos hq] at h
  simp at h

end SocksProxy
