import SocksProxy.GreetingSound
import SocksProxy.InputSound

/-!
# Everything received has been consumed

While a message is read, everything received before it has been answered and
the parser has been fed the rest. `consumes_iff` says which runs keep to this:
those in which no answer is completed while the client's next bytes already wait
in the buffer, for they wait there until the client sends more.
-/

namespace SocksProxy

open Lib

/-! ## Sessions -/

structure HelloConsumed (c : Conn) : Prop where
  drained : c.input.unread = []
  fed : feedAll (helloParserFeed (some onHelloMethod)) (helloParserInit, 5) c.fromClient =
    (c.hello.parser, c.hello.method)
  incomplete : Undone (helloParserFeed (some onHelloMethod)) helloStops (helloParserInit, 5) c.fromClient
  answered : c.toClient = []

structure RequestConsumed (c : Conn) : Prop where
  drained : c.input.unread = []
  fed : ∃ ms h u p, IsHello ms h ∧ c.fromClient = h ++ u ∧
    feedAll requestParserFeed (requestParserInit p) u = c.request.parser ∧
    Undone requestParserFeed requestStops (requestParserInit p) u ∧ c.toClient = [0x05, selectedMethod ms]

/-- No byte received is left to be parsed whenever a message is read. -/
def Consumed (c : Conn) : Prop := AtState .helloRead HelloConsumed c ∧ AtState .requestRead RequestConsumed c

section
variable {c c' : Conn}

theorem consumed_sound (h : Sound c) : Consumed c ↔ AtRead (fun b => b.unread = []) c := by
  rcases h.inv with hf | ⟨fd, st, hst, hp⟩
  · exact iff_of_true ⟨atState_freed hf, atState_freed hf⟩ ⟨atState_freed hf, atState_freed hf⟩
  have hhello : AtState .helloRead HelloConsumed c ↔ AtState .helloRead (fun c => c.input.unread = []) c := by
    refine forall_congr' fun hf => forall_congr' fun hat => ⟨fun h => h.drained, fun h => ?_⟩
    obtain rfl := toNat_inj ((stmState_inState hst).symm.trans hat)
    cases hp with
    | helloRead live r => exact ⟨h, r.parser, r.undone, r.sent⟩
  have hrequest : AtState .requestRead RequestConsumed c ↔
      AtState .requestRead (fun c => c.input.unread = []) c := by
    refine forall_congr' fun hf => forall_congr' fun hat => ⟨fun h => h.drained, fun h => ?_⟩
    obtain rfl := toNat_inj ((stmState_inState hst).symm.trans hat)
    cases hp with
    | requestRead ms h' u live g r =>
      obtain ⟨p, hfed, hundone⟩ := r.parser
      have hreceived : c.fromClient = h' ++ u := by rw [g.received, h, List.append_nil]
      exact ⟨h, ms, h', u, p, g.hello, hreceived, hfed, hundone, g.sent⟩
  exact and_congr hhello hrequest

/-- Sessions that have received the same bytes have answered alike, in whatever
pieces the bytes have come. -/
theorem consumed_alike (h : HelloConsumed c ∨ RequestConsumed c) (h' : HelloConsumed c' ∨ RequestConsumed c')
    (he : c.fromClient = c'.fromClient) : c.toClient = c'.toClient := by
  rcases h with h | ⟨-, ms, m, u, p, hello, hr, -, -, hs⟩ <;>
    rcases h' with h' | ⟨-, ms', m', u', p', hello', hr', -, -, hs'⟩
  · rw [h.answered, h'.answered]
  · exact absurd (he.trans hr') (hello_incomplete h.incomplete hello')
  · exact absurd (he.symm.trans hr) (hello_incomplete h'.incomplete hello)
  · obtain ⟨rfl, -⟩ := isHello_unique hello hello' (hr.symm.trans (he.trans hr'))
    rw [hs, hs']

end

/-! ## Management connections -/

structure AuthConsumed (c : PrawtosConn) : Prop where
  drained : c.readBuffer.unread = []
  fed : feedAll authParserFeed authParserInit c.received = c.auth.parser
  incomplete : Undone authParserFeed authStops authParserInit c.received
  answered : c.sent = []

/-- The commands `cmds` have been received and answered, then the octets `u` and
what waits in the read buffer have been received. -/
structure Commanded (c : PrawtosConn) (cmds : List Command) (u : List UInt8) : Prop where
  received : ∃ uname passwd, c.received =
    authMessage uname passwd ++ (cmds.flatMap Command.encode ++ (u ++ c.readBuffer.unread))
  answered : ∃ answers : List (List UInt8), answers.length = cmds.length ∧ [] ∉ answers ∧
    c.sent ++ c.writeBuffer.unread = [0x01, authSuccess] ++ answers.flatten

structure CommandConsumed (c : PrawtosConn) : Prop where
  drained : c.readBuffer.unread = []
  fed : ∃ cmds u, Commanded c cmds u ∧ CmdReading c u
  answered : c.writeBuffer.unread = []

def PrawtosConsumed (c : PrawtosConn) : Prop :=
  PrawtosAtState .authRead AuthConsumed c ∧ PrawtosAtState .cmdRead CommandConsumed c

/-- The commands received before the octets `u` of the next one. -/
structure Serviced (c : PrawtosConn) : Prop where
  reading : PrawtosAtState .cmdRead
    (fun c => c.writeBuffer.unread = [] ∧ ∃ cmds u, Commanded c cmds u ∧ CmdReading c u) c
  writing : PrawtosAtState .cmdWrite (fun c => c.cmd.parser.type ≠ 0x03 → ∃ cmds, Commanded c cmds []) c

section
variable {c d : PrawtosConn} {fd : Nat} {st ret : PrawtosState} {e : PrawtosEvent} {k : PrawtosKey} {heap : Heap}
  {u : List UInt8}

/-- A command that is answered has an answer of its own in the write buffer. -/
theorem cmdProcess_answers (h : cmdProcess heap c = .ok (d, .cmdWrite)) :
    ∃ a, a ≠ [] ∧ d.writeBuffer.unread = c.writeBuffer.unread ++ a := by
  have hwrite : ∀ n : Int, (if n = -1 then PrawtosState.error else .cmdWrite) = .cmdWrite → n ≠ -1 := by
    intro n hn he
    rw [if_pos he] at hn
    cases hn
  -- one case a type of command, each with its marshalling function
  unfold cmdProcess at h
  split at h
  · split at h
    · cases h
    · rename_i c₁ n hi
      obtain ⟨f, hf, hf'⟩ := invoke_ok hi
      obtain ⟨args, nargs, rfl⟩ := getHandlers_ok hf hf'
      split at h
      · cases h
      · rename_i r hr
        simp only [Except.ok.injEq, Prod.mk.injEq] at h
        obtain ⟨rfl, hret⟩ := h
        have hne := hwrite r.2 hret
        unfold getMarshal at hr
        split at hr
        · rw [← Except.ok.inj hr] at hne
          exact absurd rfl hne
        · simp only at hr
          split at hr
          · cases hr
          · rw [← Except.ok.inj hr] at hne ⊢
            exact ⟨_, List.cons_ne_nil _ _, bufferMarshal_ok hne⟩
  · split at h
    · split at h
      · cases h
      · rename_i c₁ n hi
        obtain ⟨f, hf, hf'⟩ := invoke_ok hi
        obtain ⟨r, rfl⟩ := userHandlers_ok hf hf'
        simp only [Except.ok.injEq, Prod.mk.injEq] at h
        obtain ⟨rfl, hret⟩ := h
        exact ⟨_, List.cons_ne_nil _ _, bufferMarshal_ok (hwrite _ hret)⟩
    · split at h
      · simp only [Except.ok.injEq, Prod.mk.injEq] at h
        obtain ⟨rfl, hret⟩ := h
        exact ⟨_, List.cons_ne_nil _ _, bufferMarshal_ok (hwrite _ hret)⟩
      · simp only [Except.ok.injEq, Prod.mk.injEq, reduceCtorEq, and_false] at h

/-! ## What an event keeps -/

theorem serviced_elsewhere {r : PrawtosState} (hread : r ≠ .cmdRead) (hwrite : r ≠ .cmdWrite)
    (hd : prawtosSettle k st c r.toNat = .ok d) : Serviced d :=
  ⟨prawtosSettle_elsewhere hread hd, prawtosSettle_elsewhere hwrite hd⟩

theorem serviced_awaiting (cmds : List Command) (hst : st ≠ .cmdRead) (hidle : c.writeBuffer.unread = [])
    (hc : Commanded c cmds []) (hd : prawtosSettle k st c PrawtosState.cmdRead.toNat = .ok d) : Serviced d := by
  refine ⟨?_, prawtosSettle_elsewhere (r := .cmdRead) (by decide) hd⟩
  rw [prawtosSettle_cmdRead hst, Except.ok.injEq] at hd
  subst hd
  exact fun _ _ => ⟨hidle, cmds, [], ⟨hc.received, hc.answered⟩, c.cmd.parser, rfl, trivial⟩

theorem serviced_authWrite {uname passwd : Name} (live : PrawtosLive c fd opWrite) (w : AuthWriting c uname passwd)
    (hs : PrawtosSelects c e) (hd : prawtosCallbackStep c .authWrite e = .ok d) : Serviced d := by
  rw [callback_authWrite live hs] at hd
  have hout := authPrawtosWrite_outcome (k := e.key) live w (congrArg Nat.cast (prawtosReady_write live hs).1)
  generalize authPrawtosWrite e.key c = q at hout hd
  cases hout with
  | failed c' i => exact serviced_elsewhere (r := .error) (by decide) (by decide) hd
  | writing c' => exact serviced_elsewhere (r := .authWrite) (by decide) (by decide) hd
  | answered c' live' same received status sent idle room =>
    refine serviced_awaiting [] (by decide) idle ⟨⟨uname, passwd, received⟩, [], rfl, by simp, ?_⟩ hd
    rw [sent, idle]
    rfl

theorem serviced_cmdWrite (h : Serviced c) (hst : PrawtosInState c .cmdWrite) (live : PrawtosLive c fd opWrite)
    (hs : PrawtosSelects c e) (hd : prawtosCallbackStep c .cmdWrite e = .ok d) : Serviced d := by
  have hc := h.writing live.alive (prawtosStmState hst)
  rw [callback_cmdWrite live hs] at hd
  have hout := cmdWrite_outcome (k := e.key) live (congrArg Nat.cast (prawtosReady_write live hs).1)
  generalize cmdWrite e.key c = q at hout hd
  cases hout with
  | failed c' => exact serviced_elsewhere (r := .error) (by decide) (by decide) hd
  | finished c' => exact serviced_elsewhere (r := .done) (by decide) (by decide) hd
  | writing c' live' same received read kept sent =>
    refine ⟨prawtosSettle_elsewhere (r := .cmdWrite) (by decide) hd, ?_⟩
    rw [prawtosSettle_to (Or.inr (Or.inl rfl)), Except.ok.injEq] at hd
    subst hd
    intro _ _ ht
    obtain ⟨cmds, ⟨uname, passwd, hr⟩, answers, hlen, hne, hans⟩ := hc (by rw [← kept]; exact ht)
    refine ⟨cmds, ⟨uname, passwd, ?_⟩, answers, hlen, hne, sent.trans hans⟩
    show c'.received = _ ++ (_ ++ ([] ++ c'.readBuffer.unread))
    rw [received, hr, read]
  | answered c' live' same received read type sent idle room =>
    obtain ⟨cmds, ⟨uname, passwd, hr⟩, answers, hlen, hne, hans⟩ := hc type
    refine serviced_awaiting cmds (by decide) idle ⟨⟨uname, passwd, ?_⟩, answers, hlen, hne, ?_⟩ hd
    · rw [received, hr, read]
    · rw [idle, List.append_nil, sent]
      exact hans

/-- Octets that do not end the command are the command's. -/
theorem commanded_reading {c' : PrawtosConn} {cmds : List Command} {l : List UInt8} (hc : Commanded c cmds u)
    (hidle : c.writeBuffer.unread = []) (received : c'.received = c.received ++ l) (sent : c'.sent = c.sent)
    (kept : c'.writeBuffer = c.writeBuffer) (drained : c'.readBuffer.unread = []) :
    Commanded c' cmds (u ++ (c.readBuffer.unread ++ l)) := by
  obtain ⟨⟨uname, passwd, hr⟩, answers, hlen, hne, hans⟩ := hc
  rw [hidle, List.append_nil] at hans
  refine ⟨⟨uname, passwd, ?_⟩, answers, hlen, hne, ?_⟩
  · rw [received, hr, drained]
    simp
  · rw [kept, hidle, sent, List.append_nil]
    exact hans

/-- A message that has an answer and is not QUIT is one of the protocol's commands. -/
theorem answered_command {c' c₂ : PrawtosConn} {l : List UInt8} (fin : CommandEnd l c'.cmd.parser)
    (htype : c'.cmd.parser.type ≠ 0x03) (hp : cmdProcess heap c' = .ok (c₂, .cmdWrite))
    (hw : cmdReturn c'.cmd.parser .cmdWrite = .cmdWrite) : ∃ cmd : Command, l = cmd.encode := by
  cases fin with
  | command cmd hl => exact ⟨cmd, hl⟩
  | quit _ _ ht => exact absurd ht htype
  | sniff _ _ _ ht =>
    rw [cmdProcess_unknown (by rw [ht]; decide) (by rw [ht]; decide) htype] at hp
    cases hp
  | error he =>
    -- `cmd_process` may have marshalled an answer, which `cmd_read` gives up
    unfold cmdReturn at hw
    rw [if_pos he] at hw
    cases hw

/-- The command that ends with the octets received is answered in its turn. -/
theorem commanded_answered {c' c₂ : PrawtosConn} {cmds : List Command} {cmd : Command} {l v ans : List UInt8}
    {x : UInt8} (hc : Commanded c cmds u) (hidle : c.writeBuffer.unread = [])
    (received : c'.received = c.received ++ l) (sent : c'.sent = c.sent) (kept : c'.writeBuffer = c.writeBuffer)
    (split : c.readBuffer.unread ++ l = v ++ x :: c'.readBuffer.unread) (hcmd : u ++ v ++ [x] = cmd.encode)
    (hok : Processed c' c₂) (hans : ans ≠ []) (hwrite : c₂.writeBuffer.unread = c'.writeBuffer.unread ++ ans) :
    Commanded c₂ (cmds ++ [cmd]) [] := by
  obtain ⟨⟨uname, passwd, hr⟩, answers, hlen, hne, hsent⟩ := hc
  rw [hidle, List.append_nil] at hsent
  have hreceived : c₂.received = c'.received := by simp only [PrawtosConn.received, hok.clientFd, hok.log]
  have hsent' : c₂.sent = c'.sent := by simp only [PrawtosConn.sent, hok.clientFd, hok.log]
  refine ⟨⟨uname, passwd, ?_⟩, answers ++ [ans], ?_, ?_, ?_⟩
  · rw [hreceived, received, hr, hok.readBuffer, List.flatMap_append, List.flatMap_singleton, ← hcmd]
    simp [split]
  · rw [List.length_append, List.length_append, hlen]
    rfl
  · rw [List.mem_append, List.mem_singleton]
    exact not_or.mpr ⟨hne, hans.symm⟩
  · rw [hsent', sent, hwrite, kept, hidle, hsent]
    simp

theorem serviced_cmdRead (h : Serviced c) (hst : PrawtosInState c .cmdRead) (live : PrawtosLive c fd opRead)
    (hs : PrawtosSelects c e) (hd : prawtosCallbackStep c .cmdRead e = .ok d) : Serviced d := by
  obtain ⟨hidle, cmds, u, hc, r⟩ := h.reading live.alive (prawtosStmState hst)
  rw [callback_cmdRead live hs] at hd
  have hout := cmdRead_outcome (k := e.key) live r (congrArg Nat.cast (prawtosReady_read live hs).1)
  generalize cmdRead e.key c = q at hout hd
  cases hout with
  | failed c' => exact serviced_elsewhere (r := .error) (by decide) (by decide) hd
  | reading c' l b _ _ live' _ sent received kept drained r' =>
    simp only at hd
    refine ⟨?_, prawtosSettle_elsewhere (r := .cmdRead) (by decide) hd⟩
    rw [prawtosSettle_to (Or.inr (Or.inr ⟨rfl, Or.inr rfl⟩)), Except.ok.injEq] at hd
    subst hd
    obtain ⟨hreceived, hanswered⟩ := commanded_reading hc hidle received sent kept drained
    exact fun _ _ => ⟨by rw [kept]; exact hidle, cmds, _, ⟨hreceived, hanswered⟩, r'⟩
  | processed c' l b v x _ _ split live' _ sent received kept fin =>
    cases hp : cmdProcess e.key.sys.heap c' with
    | error f => rw [hp] at hd; cases hd
    | ok q =>
      obtain ⟨c₂, ret⟩ := q
      rw [hp] at hd
      simp only at hd
      obtain ⟨hok, hret⟩ := cmdProcess_ok hp
      by_cases hw : cmdReturn c'.cmd.parser ret = .cmdWrite
      · obtain rfl : ret = .cmdWrite := by
          unfold cmdReturn at hw
          split at hw
          · cases hw
          · exact hw
        obtain ⟨ans, hnonempty, hwrite⟩ := cmdProcess_answers hp
        rw [hw] at hd
        refine ⟨prawtosSettle_elsewhere (r := .cmdWrite) (by decide) hd, ?_⟩
        rw [prawtosSettle_to (Or.inr (Or.inl rfl)), Except.ok.injEq] at hd
        subst hd
        intro _ _ ht
        obtain ⟨cmd, hcmd⟩ := answered_command fin (by rw [← hok.parser]; exact ht) hp hw
        obtain ⟨hreceived, hanswered⟩ :=
          commanded_answered hc hidle received sent kept split hcmd hok hnonempty hwrite
        exact ⟨cmds ++ [cmd], ⟨hreceived, hanswered⟩⟩
      · refine serviced_elsewhere ?_ hw hd
        unfold cmdReturn
        rcases hret with h | h <;> rw [h] <;> split <;> decide

theorem serviced_event (h : Serviced c) (hst : PrawtosInState c st) (hp : PrawtosPhase (fun _ _ => True) c fd st)
    (hs : PrawtosSelects c e) (hd : prawtosCallbackStep c st e = .ok d) : Serviced d := by
  cases hp with
  | authRead live r calls =>
    rw [callback_authRead live hs] at hd
    have hout := authPrawtosRead_outcome (k := e.key) live r (congrArg Nat.cast (prawtosReady_read live hs).1)
    refine serviced_elsewhere (fun hret => ?_) (fun hret => ?_) hd
    · generalize authPrawtosRead e.key c = q at hout hret
      cases hout <;> cases hret
    · generalize authPrawtosRead e.key c = q at hout hret
      cases hout <;> cases hret
  | authWrite uname passwd live w calls vouched => exact serviced_authWrite live w hs hd
  | cmdRead u live r vouched => exact serviced_cmdRead h hst live hs hd
  | cmdWrite live vouched => exact serviced_cmdWrite h hst live hs hd

theorem serviced_step (c : PrawtosConn) (s : PrawtosStep) (d : PrawtosConn) (hc : PrawtosSound c ∧ Serviced c)
    (hd : prawtosStep c s = .ok d) : PrawtosSound d ∧ Serviced d := by
  obtain ⟨hsound, h⟩ := hc
  refine ⟨prawtosStep_sound c s d hsound hd, ?_⟩
  -- a change of the process or of the users leaves what has been read and sent
  have hsame : ∀ (p : Process) (l : List User), Serviced { c with toProcess := p, users := l } := by
    intro p l
    refine ⟨fun hf hat => ?_, fun hf hat ht => ?_⟩
    · obtain ⟨hidle, cmds, u, hc, r⟩ := h.reading hf hat
      exact ⟨hidle, cmds, u, ⟨hc.received, hc.answered⟩, r⟩
    · obtain ⟨cmds, hc⟩ := h.writing hf hat ht
      exact ⟨cmds, hc.received, hc.answered⟩
  cases s with
  | event e =>
    rcases hsound.inv with hended | ⟨fd, st, hst, hp⟩
    · rcases prawtosDispatch_freed hended.freed e with hd' | hd' <;> rw [prawtosStep, hd'] at hd
      · cases hd
      · exact Except.ok.inj hd ▸ h
    · rw [prawtosStep, prawtosDispatch_inState hst (prawtosPhase_alive hp)] at hd
      by_cases hs : PrawtosSelects c e
      · rw [if_pos hs] at hd
        exact serviced_event h hst hp hs hd
      · rw [if_neg hs] at hd
        exact Except.ok.inj hd ▸ h
  | other x a =>
    rw [prawtosStep, Except.ok.injEq] at hd
    subst hd
    split
    · exact h
    · exact hsame _ _
  | users l =>
    rw [prawtosStep, Except.ok.injEq] at hd
    exact hd ▸ hsame _ _

theorem prawtosConsumed_sound (hc : PrawtosSound c ∧ Serviced c) :
    PrawtosConsumed c ↔ PrawtosAtRead (fun b => b.unread = []) c := by
  obtain ⟨hsound, h⟩ := hc
  refine and_congr ?_ ?_
  · refine forall_congr' fun hf => forall_congr' fun hat => ⟨fun h => h.drained, fun h => ?_⟩
    rcases hsound.inv with hended | ⟨fd, st, hst, hp⟩
    · exact absurd (hended.freed.symm.trans hf) (by decide)
    · obtain rfl := prawtosState_inj ((prawtosStmState hst).symm.trans hat)
      cases hp with
      | authRead live r => exact ⟨h, r.parser, r.undone, r.sent⟩
  · refine forall_congr' fun hf => forall_congr' fun hat => ⟨fun h => h.drained, fun hdrained => ?_⟩
    obtain ⟨hidle, hfed⟩ := h.reading hf hat
    exact ⟨hdrained, hfed, hidle⟩

end

/-! ## Runs -/

/-- In a run of a session from a new connection everything received has been
consumed whenever a message is read exactly when no step sends the last byte of
the answer to the hello, with a method other than 02, while the input buffer
holds bytes; in a run of a management connection exactly when no step sends the
last byte of an answer after which a command is awaited, while the read buffer
holds bytes. -/
theorem consumes_iff (a : Accepted) (es : List Step) (pa : PrawtosAccepted) (pes : List PrawtosStep) :
    (Always step Consumed a.conn es ↔ Along step (OnEvent (HandsOver fun b => b.unread = [])) a.conn es) ∧
    (Always prawtosStep PrawtosConsumed pa.conn pes ↔
      Along prawtosStep (PrawtosOnEvent (PrawtosHandsOver fun b => b.unread = [])) pa.conn pes) := by
  constructor
  · rw [← readable_iff (fun _ hu _ => hu)]
    exact always_congr step_sound (fun _ => consumed_sound) es (accepted_sound a)
  · rw [← prawtosReadable_iff (fun _ hu _ => hu)]
    have hstart : Serviced pa.conn := by
      refine ⟨fun _ hat => ?_, fun _ hat => ?_⟩
      · exact absurd (show stmState prawtosStm = PrawtosState.cmdRead.toNat from hat) (by decide)
      · exact absurd (show stmState prawtosStm = PrawtosState.cmdWrite.toNat from hat) (by decide)
    exact always_congr serviced_step (fun _ => prawtosConsumed_sound) pes ⟨prawtosAccepted_sound pa, hstart⟩

/-- A client that sends its request with the hello. -/
def pipelinedEvents : List Step :=
  [reads 5 [0x05, 1, 0x00, 0x05, 0x01, 0x00, 0x01, 127, 0, 0, 1, 0, 80] .failed, writes 5 2 .failed]

theorem pipelined_not_consumed : ¬ Always step Consumed firstAccepted.conn pipelinedEvents := by
  intro h
  have hr : run step firstAccepted.conn pipelinedEvents = .ok (final step firstAccepted.conn pipelinedEvents) :=
    run_final (by decide +kernel)
  have hdrained := ((always_run h hr).2 (by decide +kernel) (by decide +kernel)).drained
  exact absurd hdrained (by decide +kernel)

end SocksProxy
