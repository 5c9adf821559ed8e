import SocksProxy.PrawtosSound
import SocksProxy.Service

/-!
# The management service serves its clients

`Serving` relates a connection to the commands of the client that have been
executed; every event of the connection keeps it, executing at most one command
more. `commands_serialised` is the simulation of `serve` by a run.
-/

namespace SocksProxy

open Lib

/-- The bytes that `recv` gives go on with the stream `l`. -/
def Receives (l : List UInt8) (c : PrawtosConn) (e : PrawtosEvent) : Prop :=
  PrawtosSelects c e → e.ready = .read →
    match recvInto c.readBuffer e.sys.recv with
    | some (bytes, _) => c.received ++ bytes <+: l
    | none => True

instance (l : List UInt8) (c : PrawtosConn) (e : PrawtosEvent) : Decidable (Receives l c e) := by
  unfold Receives
  cases recvInto c.readBuffer e.sys.recv <;> infer_instance

section
variable (s : Conversation) (H : Heap → Prop) (stats : Stadistics) (users : List User)

/-- The commands `done` have been executed, each in the heap it comes with. -/
structure Progress (done : List (Command × Heap)) (c : PrawtosConn) : Prop where
  ahead : done.map Prod.fst <+: s.commands
  heaps : ∀ x ∈ done, H x.2
  users : c.users = (serve stats users done).1
  calls : c.calls = done.map fun x => x.1.entry

/-- What the client is still to get in each state. -/
inductive Serving (done : List (Command × Heap)) (c : PrawtosConn) (fd : Nat) : PrawtosState → Prop
  | authRead (first : done = []) (live : PrawtosLive c fd opRead) (r : AuthReading c) : Serving done c fd .authRead
  | authWrite (first : done = []) (live : PrawtosLive c fd opWrite) (w : AuthWriting c s.uname s.passwd)
      (status : c.auth.status = authSuccess) : Serving done c fd .authWrite
  | cmdRead (u : List UInt8) (live : PrawtosLive c fd opRead) (r : CmdReading c u)
      (received : c.received =
        authMessage s.uname s.passwd ++ ((done.map Prod.fst).flatMap Command.encode ++ (u ++ c.readBuffer.unread)))
      (sent : c.sent = [0x01, authSuccess] ++ (serve stats users done).2) (idle : c.writeBuffer.unread = [])
      (room : bufferWritePtr c.writeBuffer = prawtosBufferSize) : Serving done c fd .cmdRead
  | cmdWrite (live : PrawtosLive c fd opWrite)
      (received : c.received =
        authMessage s.uname s.passwd ++ ((done.map Prod.fst).flatMap Command.encode ++ c.readBuffer.unread))
      (sending : c.sent ++ c.writeBuffer.unread = [0x01, authSuccess] ++ (serve stats users done).2)
      (type : c.cmd.parser.type ≠ 0x03) (status : c.cmd.status ≠ .cmdNotSupported) : Serving done c fd .cmdWrite
  | quitting (live : PrawtosLive c fd opWrite) (last : done.length = s.commands.length) (quit : s.quit = true)
      (sending : c.sent ++ c.writeBuffer.unread = s.answers stats users done)
      (type : c.cmd.parser.type = 0x03) (status : c.cmd.status ≠ .cmdNotSupported) : Serving done c fd .cmdWrite

/-- The connection has ended, and nothing carries it any more. -/
structure ServiceEnded (done : List (Command × Heap)) (c : PrawtosConn) : Prop where
  unknown : ∀ n, (c.sel.fds n).used = true → (c.sel.fds n).data ≠ some (.prawtos c.self)
  sent : c.sent <+: s.answers stats users done

/-- The invariant of the simulation. -/
def Serves (c : PrawtosConn) : Prop :=
  ∃ done, Progress s H stats users done c ∧
    (ServiceEnded s stats users done c ∨
      ∃ fd st, c.stats = stats ∧ PrawtosInState c st ∧ Serving s stats users done c fd st)

end

section
variable {s : Conversation} {H : Heap → Prop} {stats : Stadistics} {users : List User}
  {done : List (Command × Heap)}
  {c c' d : PrawtosConn} {fd : Nat} {i : FdInterest} {st ret : PrawtosState} {e : PrawtosEvent}

theorem progress_untouched (h : Progress s H stats users done c) (same : Untouched c c') :
    Progress s H stats users done c' :=
  ⟨h.ahead, h.heaps, same.users.trans h.users, same.calls.trans h.calls⟩

theorem progress_stm (h : Progress s H stats users done c) (m : StateMachine) :
    Progress s H stats users done { c with stm := m } := ⟨h.ahead, h.heaps, h.users, h.calls⟩

theorem answers_started {l : List UInt8} (h : l <+: [0x01, authSuccess] ++ (serve stats users done).2) :
    l <+: s.answers stats users done := h.trans (List.prefix_append _ _)

theorem serves_closed (p : Progress s H stats users done c') (live : PrawtosLive c' fd i)
    (h : ret = .error ∨ ret = .done) (sent : c'.sent <+: s.answers stats users done) :
    ∃ d, prawtosSettle e.key st c' ret.toNat = .ok d ∧ Serves s H stats users d := by
  obtain ⟨d, hd, hclosed⟩ := prawtosSettle_closed e.key st live h
  refine ⟨d, hd, done, ⟨p.ahead, p.heaps, hclosed.users.trans p.users, hclosed.calls.trans p.calls⟩, Or.inl ?_⟩
  exact ⟨hclosed.unknown, by rw [prawtosClosed_sent hclosed]; exact sent⟩

theorem serves_goes (p : Progress s H stats users done c') (hstats : c'.stats = stats)
    (h : ret = .authWrite ∨ ret = .cmdWrite ∨ (ret = st ∧ (st = .authRead ∨ st = .cmdRead)))
    (hs : Serving s stats users done { c' with stm := { prawtosStm with current := some ret.toNat } } fd ret) :
    ∃ d, prawtosSettle e.key st c' ret.toNat = .ok d ∧ Serves s H stats users d :=
  ⟨_, prawtosSettle_to h, done, progress_stm p _, Or.inr ⟨fd, ret, hstats, Or.inl rfl, hs⟩⟩

theorem serves_ready (p : Progress s H stats users done c') (hstats : c'.stats = stats)
    (live : PrawtosLive c' fd opRead) (hst : st ≠ .cmdRead)
    (received : c'.received =
      authMessage s.uname s.passwd ++ ((done.map Prod.fst).flatMap Command.encode ++ c'.readBuffer.unread))
    (sent : c'.sent = [0x01, authSuccess] ++ (serve stats users done).2) (idle : c'.writeBuffer.unread = [])
    (room : bufferWritePtr c'.writeBuffer = prawtosBufferSize) :
    ∃ d, prawtosSettle e.key st c' PrawtosState.cmdRead.toNat = .ok d ∧ Serves s H stats users d := by
  refine ⟨_, prawtosSettle_cmdRead hst, done, ⟨p.ahead, p.heaps, p.users, p.calls⟩,
    Or.inr ⟨fd, .cmdRead, hstats, Or.inl rfl, .cmdRead [] ?_ ⟨c'.cmd.parser, rfl, trivial⟩ received sent idle room⟩⟩
  exact ⟨live.alive, live.clientFd, live.entry, live.limitRead, live.limitWrite⟩

/-! ## An event in each state -/

theorem serves_authRead (p : Progress s H stats users done c) (hstats : c.stats = stats) (first : done = [])
    (live : PrawtosLive c fd opRead) (r : AuthReading c) (hs : PrawtosSelects c e) (hrec : Receives s.stream c e)
    (hvalid : credentialsStatus e.sys.heap users s.uname s.passwd = authSuccess) :
    ∃ d, prawtosCallbackStep c .authRead e = .ok d ∧ Serves s H stats users d := by
  obtain ⟨hfd, hr⟩ := prawtosReady_read live hs
  rw [callback_authRead live hs]
  have hout := authPrawtosRead_outcome (k := e.key) live r (congrArg Nat.cast hfd)
  generalize authPrawtosRead e.key c = q at hout
  cases hout with
  | failed c' i live' same sent _ =>
    refine serves_closed (progress_untouched p same) live' (Or.inl rfl) ?_
    rw [sent, r.sent]; exact List.nil_prefix
  | reading c' l b live' same _ _ r' =>
    refine serves_goes (progress_untouched p same) (same.stats.trans hstats) (Or.inr (Or.inr ⟨rfl, Or.inl rfl⟩))
      (.authRead first (prawtosLive_stm live' _) ?_)
    exact ⟨r'.parser, r'.undone, r'.drained, r'.sent, r'.idle, r'.room⟩
  | checked c' uname passwd l b live' same recv received w status =>
    -- the message is the one the client sends
    have hpre := hrec hs hr
    rw [show recvInto c.readBuffer e.sys.recv = some (l, b) from recv] at hpre
    obtain ⟨t, ht⟩ := hpre
    rw [← received, w.received, List.append_assoc] at ht
    obtain ⟨rfl, rfl, -⟩ := authMessage_unique ht
    have husers : c.users = users := by rw [p.users, first]; rfl
    rw [husers] at status
    exact serves_goes (progress_untouched p same) (same.stats.trans hstats) (Or.inl rfl)
      (.authWrite first (prawtosLive_stm live' _) ⟨w.received, w.sending, w.pending⟩ (status.trans hvalid))

theorem serves_authWrite (p : Progress s H stats users done c) (hstats : c.stats = stats) (first : done = [])
    (live : PrawtosLive c fd opWrite) (w : AuthWriting c s.uname s.passwd) (status : c.auth.status = authSuccess)
    (hs : PrawtosSelects c e) : ∃ d, prawtosCallbackStep c .authWrite e = .ok d ∧ Serves s H stats users d := by
  rw [callback_authWrite live hs]
  have hout := authPrawtosWrite_outcome (k := e.key) live w (congrArg Nat.cast (prawtosReady_write live hs).1)
  generalize authPrawtosWrite e.key c = q at hout
  cases hout with
  | failed c' i _ _ hstatus => exact absurd status hstatus
  | writing c' live' same _ kept w' =>
    exact serves_goes (progress_untouched p same) (same.stats.trans hstats) (Or.inl rfl)
      (.authWrite first (prawtosLive_stm live' _) ⟨w'.received, w'.sending, w'.pending⟩ (kept.trans status))
  | answered c' live' same received _ sent idle room =>
    refine serves_ready (progress_untouched p same) (same.stats.trans hstats) live' (by decide) ?_ ?_ idle room
    · rw [received, first]; rfl
    · rw [sent, first]; rfl

theorem serves_cmdWrite (p : Progress s H stats users done c) (hstats : c.stats = stats)
    (live : PrawtosLive c fd opWrite) (received : c.received =
      authMessage s.uname s.passwd ++ ((done.map Prod.fst).flatMap Command.encode ++ c.readBuffer.unread))
    (sending : c.sent ++ c.writeBuffer.unread = [0x01, authSuccess] ++ (serve stats users done).2)
    (type : c.cmd.parser.type ≠ 0x03) (status : c.cmd.status ≠ .cmdNotSupported) (hs : PrawtosSelects c e) :
    ∃ d, prawtosCallbackStep c .cmdWrite e = .ok d ∧ Serves s H stats users d := by
  rw [callback_cmdWrite live hs]
  have hout := cmdWrite_outcome (k := e.key) live (congrArg Nat.cast (prawtosReady_write live hs).1)
  generalize cmdWrite e.key c = q at hout
  cases hout with
  | failed c' _ _ hstatus => exact absurd hstatus status
  | finished c' r _ _ htype _ => exact absurd htype type
  | writing c' live' same hreceived read kept sent =>
    refine serves_goes (progress_untouched p same) (same.stats.trans hstats) (Or.inr (Or.inl rfl))
      (.cmdWrite (prawtosLive_stm live' _) ?_ (sent.trans sending) ?_ ?_)
    · rw [read]; exact hreceived.trans received
    · rw [kept]; exact type
    · rw [kept]; exact status
  | answered c' live' same hreceived read _ sent idle room =>
    refine serves_ready (progress_untouched p same) (same.stats.trans hstats) live' (by decide) ?_ ?_ idle room
    · rw [read]; exact hreceived.trans received
    · rw [sent]; exact sending

theorem serves_quitting (p : Progress s H stats users done c) (hstats : c.stats = stats)
    (live : PrawtosLive c fd opWrite) (last : done.length = s.commands.length) (quit : s.quit = true)
    (sending : c.sent ++ c.writeBuffer.unread = s.answers stats users done) (type : c.cmd.parser.type = 0x03)
    (status : c.cmd.status ≠ .cmdNotSupported) (hs : PrawtosSelects c e) :
    ∃ d, prawtosCallbackStep c .cmdWrite e = .ok d ∧ Serves s H stats users d := by
  rw [callback_cmdWrite live hs]
  have hout := cmdWrite_outcome (k := e.key) live (congrArg Nat.cast (prawtosReady_write live hs).1)
  generalize cmdWrite e.key c = q at hout
  cases hout with
  | failed c' _ _ hstatus => exact absurd hstatus status
  | finished c' r live' same _ sent =>
    refine serves_closed (progress_untouched p same) live' (Or.inr rfl) ⟨r, ?_⟩
    rw [sent, sending]
  | writing c' live' same _ _ kept sent =>
    refine serves_goes (progress_untouched p same) (same.stats.trans hstats) (Or.inr (Or.inl rfl))
      (.quitting (prawtosLive_stm live' _) last quit (sent.trans sending) ?_ ?_)
    · rw [kept]; exact type
    · rw [kept]; exact status
  | answered c' _ _ _ _ htype _ _ _ => exact absurd type htype

theorem stream_next {u v t : List UInt8} {x : UInt8} (p : Progress s H stats users done c)
    (received : c.received =
      authMessage s.uname s.passwd ++ ((done.map Prod.fst).flatMap Command.encode ++ (u ++ c.readBuffer.unread)))
    {l : List UInt8} (hpre : c.received ++ l <+: s.stream) (split : c.readBuffer.unread ++ l = v ++ x :: t) :
    ∃ rest r, s.commands = done.map Prod.fst ++ rest ∧
      u ++ v ++ [x] ++ r = rest.flatMap Command.encode ++ (if s.quit then quitMessage else []) := by
  obtain ⟨rest, hrest⟩ := p.ahead
  obtain ⟨r, hr⟩ := hpre
  refine ⟨rest, t ++ r, hrest.symm, ?_⟩
  rw [received, Conversation.stream, ← hrest, List.flatMap_append] at hr
  simp only [List.append_assoc, List.append_cancel_left_eq] at hr
  calc u ++ v ++ [x] ++ (t ++ r) = u ++ (c.readBuffer.unread ++ l) ++ r := by rw [split]; simp
    _ = rest.flatMap Command.encode ++ s.ending := by rw [← hr]; simp

theorem cmdReturn_done {p : PrawtosParser} (h : p.state = .parserDone) (ret : PrawtosState) :
    cmdReturn p ret = ret := by
  simp [cmdReturn, h, prawtosIsDone]

theorem parsed_type {cmd : Command} {p : PrawtosParser} (h : cmd.Parsed p) : p.type ≠ 0x03 := by
  cases cmd <;> rw [h.1] <;> decide

theorem progress_snoc {cmd : Command} {more : List Command} {heap : Heap} (p : Progress s H stats users done c)
    (hH : H heap) (hahead : s.commands = done.map Prod.fst ++ cmd :: more) (hstats : c.stats = stats)
    (he : Executed c heap cmd d) : Progress s H stats users (done ++ [(cmd, heap)]) d ∧
      d.writeBuffer.unread = (cmd.execute stats (serve stats users done).1 heap).2 := by
  obtain ⟨husers, hanswer, hcalls, -, -⟩ := he
  rw [hstats, p.users] at husers hanswer
  refine ⟨⟨⟨more, by rw [hahead]; simp⟩, ?_, ?_, ?_⟩, hanswer⟩
  · intro x hx
    rcases List.mem_append.mp hx with hx | hx
    · exact p.heaps x hx
    · rw [List.mem_singleton.mp hx]; exact hH
  · rw [husers, serve, serve, transduce_snoc]
  · rw [hcalls, p.calls, List.map_append]; rfl

theorem serves_processed {l v u : List UInt8} {x : UInt8} {more : List Command} {cmd : Command} {c₁ : PrawtosConn}
    (p : Progress s H stats users done c) (hstats : c.stats = stats)
    (hfits : s.Fits H stats users) (hH : H e.sys.heap) (hahead : s.commands = done.map Prod.fst ++ cmd :: more)
    (received : c.received =
      authMessage s.uname s.passwd ++ ((done.map Prod.fst).flatMap Command.encode ++ (u ++ c.readBuffer.unread)))
    (sent : c.sent = [0x01, authSuccess] ++ (serve stats users done).2) (idle : c.writeBuffer.unread = [])
    (room : bufferWritePtr c.writeBuffer = prawtosBufferSize)
    (split : c.readBuffer.unread ++ l = v ++ x :: c₁.readBuffer.unread) (live : PrawtosLive c₁ fd opWrite)
    (same : Untouched c c₁) (hsent : c₁.sent = c.sent) (hreceived : c₁.received = c.received ++ l)
    (kept : c₁.writeBuffer = c.writeBuffer) (hcmd : u ++ v ++ [x] = cmd.encode) (hp : cmd.Parsed c₁.cmd.parser) :
    (e.sys.heap.allocates = false ∧ cmdProcess e.sys.heap c₁ = .error .wildPointer) ∨
      ∃ c₂ d, cmdProcess e.sys.heap c₁ = .ok (c₂, .cmdWrite) ∧
        prawtosSettle e.key .cmdRead c₂ PrawtosState.cmdWrite.toNat = .ok d ∧ Serves s H stats users d := by
  have p₁ := progress_untouched p same
  have hterm : cmd.Terminated := s.terminated cmd (by rw [hahead]; simp)
  have hfits₁ : ∀ n hn, cmd = .get n hn → (cmd.execute c₁.stats c₁.users e.sys.heap).2.length ≤
      prawtosBufferSize := by
    rintro n hn rfl
    rw [same.stats.trans hstats, p₁.users]
    exact hfits done n hn _ ⟨more, by rw [hahead]; simp⟩ p.heaps hH
  rcases cmdProcess_command hp hterm (by rw [kept]; exact room) (by rw [kept]; exact idle) hfits₁ with
    h | ⟨c₂, hc₂, he⟩
  · exact Or.inl h
  right
  obtain ⟨hok, -⟩ := cmdProcess_ok hc₂
  obtain ⟨p₂, hanswer⟩ := progress_snoc p₁ hH hahead (same.stats.trans hstats) he
  have hlog : c₂.received = c₁.received ∧ c₂.sent = c₁.sent := by
    simp only [PrawtosConn.received, PrawtosConn.sent, hok.clientFd, hok.log, and_self]
  have hread : c₂.received =
      authMessage s.uname s.passwd ++ (((done ++ [(cmd, e.sys.heap)]).map Prod.fst).flatMap Command.encode ++
        c₂.readBuffer.unread) := by
    have hsplit : u ++ (c.readBuffer.unread ++ l) = cmd.encode ++ c₂.readBuffer.unread := by
      rw [hok.readBuffer, split, ← hcmd]; simp
    rw [hlog.1, hreceived, received]
    simp only [List.append_assoc, hsplit, List.map_append, List.map_cons, List.map_nil, List.flatMap_append,
      List.flatMap_cons, List.flatMap_nil, List.append_nil]
  have hwritten : c₂.sent ++ c₂.writeBuffer.unread =
      [0x01, authSuccess] ++ (serve stats users (done ++ [(cmd, e.sys.heap)])).2 := by
    rw [hlog.2, hsent, sent, hanswer, serve, serve, transduce_snoc, List.append_assoc]
  have htype : c₂.cmd.parser.type ≠ 0x03 := by rw [hok.parser]; exact parsed_type hp
  have hgoes : ∃ d, prawtosSettle e.key .cmdRead c₂ PrawtosState.cmdWrite.toNat = .ok d ∧
      Serves s H stats users d :=
    serves_goes p₂ (he.stats.trans (same.stats.trans hstats)) (Or.inr (Or.inl rfl))
      (.cmdWrite (prawtosLive_stm (processed_live hok live) _) hread hwritten htype he.status)
  obtain ⟨d, hd, hserves⟩ := hgoes
  exact ⟨c₂, d, hc₂, hd, hserves⟩

theorem serves_quit {c₁ : PrawtosConn} (heap : Heap) (p : Progress s H stats users done c)
    (hstats : c.stats = stats) (hall : s.commands = done.map Prod.fst) (quit : s.quit = true)
    (sent : c.sent = [0x01, authSuccess] ++ (serve stats users done).2) (idle : c.writeBuffer.unread = [])
    (room : bufferWritePtr c.writeBuffer = prawtosBufferSize) (live : PrawtosLive c₁ fd opWrite)
    (same : Untouched c c₁) (hsent : c₁.sent = c.sent) (kept : c₁.writeBuffer = c.writeBuffer)
    (htype : c₁.cmd.parser.type = 0x03) :
    ∃ c₂ d, cmdProcess heap c₁ = .ok (c₂, .cmdWrite) ∧
      prawtosSettle e.key .cmdRead c₂ PrawtosState.cmdWrite.toNat = .ok d ∧ Serves s H stats users d := by
  have p₁ := progress_untouched p same
  obtain ⟨c₂, hc₂, husers, hanswer, hcalls, hstats₂, hstatus⟩ :=
    cmdProcess_quit heap htype (by rw [kept]; exact room) (by rw [kept]; exact idle)
  obtain ⟨hok, -⟩ := cmdProcess_ok hc₂
  have hlast : done.length = s.commands.length := by rw [hall, List.length_map]
  have hwritten : c₂.sent ++ c₂.writeBuffer.unread = s.answers stats users done := by
    rw [PrawtosConn.sent, hok.clientFd, hok.log, ← PrawtosConn.sent, hsent, sent, hanswer, Conversation.answers,
      if_pos ⟨quit, hlast⟩]
  have hgoes : ∃ d, prawtosSettle e.key .cmdRead c₂ PrawtosState.cmdWrite.toNat = .ok d ∧
      Serves s H stats users d :=
    serves_goes ⟨p₁.ahead, p₁.heaps, husers.trans p₁.users, hcalls.trans p₁.calls⟩
      (hstats₂.trans (same.stats.trans hstats)) (Or.inr (Or.inl rfl))
      (.quitting (prawtosLive_stm (processed_live hok live) _) hlast quit hwritten
        (by rw [hok.parser]; exact htype) hstatus)
  obtain ⟨d, hd, hserves⟩ := hgoes
  exact ⟨c₂, d, hc₂, hd, hserves⟩

theorem serves_cmdRead {u : List UInt8} (p : Progress s H stats users done c) (hstats : c.stats = stats)
    (hfits : s.Fits H stats users) (hH : H e.sys.heap) (live : PrawtosLive c fd opRead) (r : CmdReading c u)
    (received : c.received =
      authMessage s.uname s.passwd ++ ((done.map Prod.fst).flatMap Command.encode ++ (u ++ c.readBuffer.unread)))
    (sent : c.sent = [0x01, authSuccess] ++ (serve stats users done).2) (idle : c.writeBuffer.unread = [])
    (room : bufferWritePtr c.writeBuffer = prawtosBufferSize) (hs : PrawtosSelects c e)
    (hrec : Receives s.stream c e) :
    (e.sys.heap.allocates = false ∧ prawtosCallbackStep c .cmdRead e = .error .wildPointer) ∨
      ∃ d, prawtosCallbackStep c .cmdRead e = .ok d ∧ Serves s H stats users d := by
  obtain ⟨hfd, hr⟩ := prawtosReady_read live hs
  rw [callback_cmdRead live hs]
  have hout := cmdRead_outcome (k := e.key) live r (congrArg Nat.cast hfd)
  generalize cmdRead e.key c = q at hout
  cases hout with
  | failed c' live' same hsent _ =>
    right
    refine serves_closed (progress_untouched p same) live' (Or.inl rfl) (answers_started ?_)
    rw [hsent, sent]
  | reading c' l b _ _ live' same hsent hreceived kept drained r' =>
    right
    refine serves_goes (progress_untouched p same) (same.stats.trans hstats) (Or.inr (Or.inr ⟨rfl, Or.inr rfl⟩))
      (.cmdRead _ (prawtosLive_stm live' _) r' ?_ ?_ ?_ ?_)
    · show c'.received = _ ++ (_ ++ (_ ++ c'.readBuffer.unread))
      rw [hreceived, received, drained]; simp
    · exact hsent.trans sent
    · rw [kept]; exact idle
    · rw [kept]; exact room
  | processed c₁ l b v x recv _ split live' same hsent hreceived kept fin =>
    have hpre := hrec hs hr
    rw [show recvInto c.readBuffer e.sys.recv = some (l, b) from recv] at hpre
    obtain ⟨rest, t, hahead, ht⟩ := stream_next p received hpre split
    rw [show e.key.sys.heap = e.sys.heap from rfl]
    rcases commandEnd_next fin (by simp) ht with ⟨cmd, more, rfl, hcmd, hp, hst⟩ | ⟨rfl, quit, htype, hst⟩
    · rcases serves_processed p hstats hfits hH hahead received sent idle room split live' same hsent hreceived
        kept hcmd hp with ⟨ha, herr⟩ | ⟨c₂, d, hc₂, hd, hserves⟩
      · exact Or.inl ⟨ha, by rw [herr]⟩
      · refine Or.inr ⟨d, ?_, hserves⟩
        rw [hc₂]; simp only [cmdReturn_done hst]; exact hd
    · rw [List.append_nil] at hahead
      obtain ⟨c₂, d, hc₂, hd, hserves⟩ :=
        serves_quit (e := e) e.sys.heap p hstats hahead quit sent idle room live' same hsent kept htype
      refine Or.inr ⟨d, ?_, hserves⟩
      rw [hc₂]; simp only [cmdReturn_done hst]; exact hd

/-! ## The step -/

theorem serves_step (hfits : s.Fits H stats users) (hH : H e.sys.heap)
    (hvalid : credentialsStatus e.sys.heap users s.uname s.passwd = authSuccess) (h : Serves s H stats users c)
    (hrec : Receives s.stream c e) :
    (e.sys.heap.allocates = false ∧ prawtosDispatch c e = .error .wildPointer) ∨
      ∃ d, prawtosDispatch c e = .ok d ∧ Serves s H stats users d := by
  by_cases hs : PrawtosSelects c e
  swap
  · exact Or.inr ⟨c, by rw [prawtosDispatch, if_neg hs], h⟩
  obtain ⟨done, p, hended | ⟨fd, st, hstats, hst, hserving⟩⟩ := h
  · exact absurd hs.2.1 (hended.unknown e.fd hs.1)
  have hstep : c.freed = false → prawtosDispatch c e = prawtosCallbackStep c st e := fun hf => by
    rw [prawtosDispatch_inState hst hf, if_pos hs]
  cases hserving with
  | authRead first live r =>
    rw [hstep live.alive]; exact Or.inr (serves_authRead p hstats first live r hs hrec hvalid)
  | authWrite first live w status =>
    rw [hstep live.alive]; exact Or.inr (serves_authWrite p hstats first live w status hs)
  | cmdRead u live r received sent idle room =>
    rw [hstep live.alive]; exact serves_cmdRead p hstats hfits hH live r received sent idle room hs hrec
  | cmdWrite live received sending type status =>
    rw [hstep live.alive]; exact Or.inr (serves_cmdWrite p hstats live received sending type status hs)
  | quitting live last quit sending type status =>
    rw [hstep live.alive]; exact Or.inr (serves_quitting p hstats live last quit sending type status hs)

theorem serving_sent (hserving : Serving s stats users done c fd st) : c.sent <+: s.answers stats users done := by
  cases hserving with
  | authRead first live r => rw [r.sent]; exact List.nil_prefix
  | authWrite first live w status =>
    refine answers_started ⟨c.writeBuffer.unread ++ (serve stats users done).2, ?_⟩
    rw [← List.append_assoc, w.sending, status]
  | cmdRead u live r received sent idle room => exact answers_started (by rw [sent])
  | cmdWrite live received sending type status => exact answers_started ⟨_, sending⟩
  | quitting live last quit sending type status => exact ⟨_, sending⟩

end

theorem answers_append {s : Conversation} {stats : Stadistics} {users : List User}
    {done rest : List (Command × Heap)} (h : (done ++ rest).map Prod.fst = s.commands) :
    s.answers stats users done <+: s.answers stats users (done ++ rest) := by
  by_cases hrest : rest = []
  · rw [hrest, List.append_nil]
  · have hlen : done.length ≠ s.commands.length := by
      have := List.length_pos_iff.mpr hrest
      rw [← h, List.length_map, List.length_append]; omega
    have hserve : (serve stats users done).2 <+: (serve stats users (done ++ rest)).2 := by
      rw [serve, serve, transduce_append]; exact List.prefix_append _ _
    unfold Conversation.answers
    rw [if_neg (fun hq => hlen hq.2), List.append_nil]
    exact ((List.prefix_append_right_inj _).mpr hserve).trans (List.prefix_append _ _)

/-- A client that gives valid credentials and then a list of commands, and
perhaps QUIT, in any segments, is served as if its commands were executed one
at a time. A run only ends early if the process gets no memory; in particular
the engine of the machine never aborts. -/
theorem commands_serialised (a : PrawtosAccepted) (s : Conversation) (es : List PrawtosEvent)
    (hvalid : ∀ e ∈ es, credentialsStatus e.sys.heap a.users s.uname s.passwd = authSuccess)
    (hfits : s.Fits (fun h => ∃ e ∈ es, h = e.sys.heap) a.conn.stats a.users)
    (hrec : Along prawtosDispatch (Receives s.stream) a.conn es) :
    ((∃ e ∈ es, e.sys.heap.allocates = false) ∧ run prawtosDispatch a.conn es = .error .wildPointer) ∨
      ∃ c, run prawtosDispatch a.conn es = .ok c ∧
        ∃ done, done.map Prod.fst <+: s.commands ∧ (∀ x ∈ done, ∃ e ∈ es, x.2 = e.sys.heap) ∧
          (c.calls = done.map fun x => x.1.entry) ∧
          c.users = (serve a.conn.stats a.users done).1 ∧ c.sent <+: s.answers a.conn.stats a.users done ∧
          ∀ rest, (done ++ rest).map Prod.fst = s.commands →
            c.sent <+: s.answers a.conn.stats a.users (done ++ rest) := by
  have hinit : Serves s (fun h => ∃ e ∈ es, h = e.sys.heap) a.conn.stats a.users a.conn := by
    refine ⟨[], ⟨List.nil_prefix, fun x hx => absurd hx List.not_mem_nil, rfl, rfl⟩,
      Or.inr ⟨a.fd, .authRead, rfl, Or.inr ⟨rfl, rfl, rfl⟩, .authRead rfl (prawtosAccepted_live a) ?_⟩⟩
    exact prawtosAccepted_reading a
  have hrun := run_ok_or (I := Serves s (fun h => ∃ e ∈ es, h = e.sys.heap) a.conn.stats a.users)
    (B := fun e => e.sys.heap.allocates = false) (f := .wildPointer)
    (fun c e he h hr => serves_step hfits ⟨e, he, rfl⟩ (hvalid e he) h hr) hinit hrec
  refine hrun.imp_right fun ⟨c, hc, done, p, h⟩ => ⟨c, hc, done, p.ahead, p.heaps, p.calls, p.users, ?_⟩
  have hsent : c.sent <+: s.answers a.conn.stats a.users done := by
    rcases h with hended | ⟨fd, st, -, -, hserving⟩
    · exact hended.sent
    · exact serving_sent hserving
  exact ⟨hsent, fun rest hrest => hsent.trans (answers_append hrest)⟩

/-- A client that adds a user, asks for the count of connections and quits. -/
def firstConversation : Conversation where
  uname := admin2
  passwd := alggo2
  commands := [.create false ⟨[98, 111, 98, 0], by decide⟩ ⟨[112, 119, 0], by decide⟩, .get 1 (by decide)]
  terminated := by simp [Command.Terminated]
  quit := true

/-- Its bytes come in segments that do not end where the commands do. -/
def firstSegments : List PrawtosEvent :=
  [prawtosReads 5 (firstConversation.stream.take 20), prawtosWrites 5 1, prawtosWrites 5 1,
    prawtosReads 5 (firstConversation.stream.drop 20 |>.take 8), prawtosWrites 5 1,
    prawtosReads 5 (firstConversation.stream.drop 28 |>.take 1), prawtosWrites 5 4, prawtosWrites 5 4,
    prawtosReads 5 (firstConversation.stream.drop 29), prawtosWrites 5 1]

theorem commands_serialised_first : ∃ c, run prawtosDispatch firstPrawtosAccepted.conn firstSegments = .ok c ∧
    ∃ done, done.map Prod.fst <+: firstConversation.commands ∧ (c.calls = done.map fun x => x.1.entry) ∧
      c.users = (serve firstPrawtosAccepted.conn.stats firstPrawtosAccepted.users done).1 ∧
      c.sent <+: firstConversation.answers firstPrawtosAccepted.conn.stats firstPrawtosAccepted.users done := by
  have hvalid : ∀ e ∈ firstSegments, credentialsStatus e.sys.heap firstPrawtosAccepted.users firstConversation.uname
    firstConversation.passwd = authSuccess := by decide +kernel
  have hfits : firstConversation.Fits (fun h => ∃ e ∈ firstSegments, h = e.sys.heap) firstPrawtosAccepted.conn.stats
      firstPrawtosAccepted.users := by
    intro done cmd hc h hpre _ _
    have hmem := hpre.subset (List.mem_append_right _ (List.mem_singleton_self (Command.get cmd hc)))
    simp only [firstConversation, List.mem_cons, reduceCtorEq, Command.get.injEq, List.not_mem_nil, or_false,
      false_or] at hmem
    subst hmem
    exact Nat.le_of_ble_eq_true rfl
  rcases commands_serialised firstPrawtosAccepted firstConversation firstSegments hvalid hfits
      (by decide +kernel) with
    ⟨hmem, -⟩ | ⟨c, hc, done, h1, -, h2, h3, h4, -⟩
  · exact absurd hmem (by decide +kernel)
  · exact ⟨c, hc, done, h1, h2, h3, h4⟩

end SocksProxy
