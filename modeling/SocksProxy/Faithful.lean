import SocksProxy.ApartSound
import SocksProxy.RelaySound

/-!
# What the server passes on

`Faithful` is what the calls of a session say of its streams, while it is open
and when it has ended: the callback that ends a session has sent nothing that
is not in them (`ends_faithful`). An event of the server is an event of one
session, so all of them stay faithful (`serverStep_faithful`).
-/

namespace SocksProxy

open Lib

/-- Each side has been sent, from its beginning, what it is to get: nothing at
all, the answer to the hello, or what the session relays. -/
inductive Faithful (r : Record) : Prop
  | silent (sent : ∀ x, sentOn x r.log = []) (received : ∀ x, x ≠ r.clientFd → receivedOn x r.log = []) : Faithful r
  | greeted (ms h : List UInt8) (hello : IsHello ms h) (received : h <+: receivedOn r.clientFd r.log)
      (sent : sentOn r.clientFd r.log <+: [0x05, selectedMethod ms]) (quiet : Quiet r.clientFd r.log) : Faithful r
  | relayed (ms h q : List UInt8) (status : SocksResponseStatus) (hello : IsHello ms h) (connect : IsConnect q)
      (origin : r.server.fd ≠ r.clientFd)
      (toOrigin : h ++ q ++ sentOn r.server.fd r.log <+: receivedOn r.clientFd r.log)
      (toClient : sentOn r.clientFd r.log <+:
        [0x05, selectedMethod ms] ++ replyTo status q ++ receivedOn r.server.fd r.log) : Faithful r

/-! ## An open session -/

section
variable {c d : Conn} {fd : Nat} {st : SessionState} {ms h q u : List UInt8}

theorem helloReading_silent (r : HelloReading c) : Faithful c.toRecord := by
  have hclient : sentOn c.clientFd c.log = [] := (List.append_eq_nil_iff.mp r.sent).1
  refine .silent (fun x => ?_) fun x hx => (r.quiet x hx).1
  by_cases hx : x = c.clientFd
  · exact hx ▸ hclient
  · exact (r.quiet x hx).2

theorem helloWriting_greeted (w : HelloWriting c ms h) : Faithful c.toRecord :=
  .greeted ms h w.hello ⟨c.input.unread, w.received.symm⟩ ⟨c.output.unread, w.sending⟩ w.quiet

theorem greeted_faithful (g : Greeted c ms h u) : Faithful c.toRecord := by
  refine .greeted ms h g.hello ⟨u ++ c.input.unread, ?_⟩ ⟨c.output.unread, g.sent⟩ g.quiet
  rw [← List.append_assoc]
  exact g.received.symm

theorem replying_faithful (r : Replying c ms h q) (hne : c.server.fd ≠ c.clientFd) : Faithful c.toRecord := by
  obtain ⟨hreceived, hsent⟩ := r.quiet c.server.fd hne
  refine .relayed ms h q c.request.status r.hello r.connect hne ⟨c.input.unread, ?_⟩ ⟨c.output.unread, ?_⟩
  · rw [hsent, List.append_nil]
    exact r.received.symm
  · rw [hreceived, List.append_nil]
    exact r.sending

theorem copying_faithful (r : Copying c ms h q) (hne : c.server.fd ≠ c.clientFd) : Faithful c.toRecord := by
  obtain ⟨status, hs⟩ := r.sending
  refine .relayed ms h q status r.hello r.connect hne ⟨c.input.unread, ?_⟩ ⟨c.output.unread, hs⟩
  rw [List.append_assoc (h ++ q)]
  exact r.received.symm

theorem phase_faithful (hp : Phase c fd st) : Faithful c.toRecord := by
  cases hp with
  | helloRead live r => exact helloReading_silent r
  | helloWrite ms h live w => exact helloWriting_greeted w
  | requestRead ms h u live g r => exact greeted_faithful g
  | connecting ms h q m live g connect carries status => exact greeted_faithful g
  | stuck ms h q live g request server => exact greeted_faithful g
  | unsupported ms h q live g request => exact greeted_faithful g
  | replying ms h q m j hj live r => exact replying_faithful r (live_server_ne live)
  | copying ms h q i m j live r => exact copying_faithful r (live_server_ne live)

/-! ## A session that ends -/

/-- Nothing has been sent, and only the client has been read from. -/
structure Mutes (c d : Conn) : Prop where
  clientFd : d.clientFd = c.clientFd
  log : ∃ l, d.log = c.log ++ l ∧ (∀ x, sentOn x l = []) ∧ ∀ x, x ≠ c.clientFd → receivedOn x l = []

theorem mutes_same (hclient : d.clientFd = c.clientFd) (hlog : d.log = c.log) : Mutes c d :=
  ⟨hclient, [], by rw [hlog, List.append_nil], fun _ => rfl, fun _ _ => rfl⟩

theorem mutes_trans {c' : Conn} (h : Mutes c c') (h' : Mutes c' d) : Mutes c d := by
  obtain ⟨l, hl, hsent, hreceived⟩ := h.log
  obtain ⟨l', hl', hsent', hreceived'⟩ := h'.log
  refine ⟨h'.clientFd.trans h.clientFd, l ++ l', by rw [hl', hl, List.append_assoc], fun x => ?_, fun x hx => ?_⟩
  · rw [sentOn_append, hsent, hsent', List.append_nil]
  · rw [receivedOn_append, hreceived x hx, hreceived' x (h.clientFd ▸ hx), List.append_nil]

theorem mutes_call (s : Syscall) (hsent : ∀ x, s.sentOn x = [])
    (hreceived : ∀ x, x ≠ c.clientFd → s.receivedOn x = []) :
    Mutes c (c.note s) :=
  ⟨rfl, [s], rfl, fun x => by rw [sentOn_singleton]; exact hsent x,
    fun x hx => by rw [receivedOn_singleton]; exact hreceived x hx⟩

theorem mutes_recv {k : Key} (hk : k.fd = c.clientFd) (l : Option (List UInt8)) :
    Mutes c (c.note (.recv k.fd l)) := by
  refine mutes_call _ (fun _ => rfl) fun x hx => ?_
  cases l with
  | none => rfl
  | some l => exact if_neg fun he => hx (he.symm.trans hk)

theorem mutes_quiet (hq : Quiet c.clientFd c.log) (h : Mutes c d) : Quiet d.clientFd d.log := by
  obtain ⟨l, hl, hsent, hreceived⟩ := h.log
  rw [hl, h.clientFd]
  exact quiet_append hq fun x hx => ⟨hreceived x hx, hsent x⟩

theorem mutes_silent (r : HelloReading c) (h : Mutes c d) : Faithful d.toRecord := by
  obtain ⟨l, hl, hsent, hreceived⟩ := h.log
  have hclient : sentOn c.clientFd c.log = [] := (List.append_eq_nil_iff.mp r.sent).1
  refine .silent (fun x => ?_) fun x hx => ?_
  · rw [hl, sentOn_append, hsent, List.append_nil]
    by_cases hx : x = c.clientFd
    · exact hx ▸ hclient
    · exact (r.quiet x hx).2
  · have hx' : x ≠ c.clientFd := h.clientFd ▸ hx
    rw [hl, receivedOn_append, hreceived x hx', List.append_nil]
    exact (r.quiet x hx').1

theorem mutes_greeted (hello : IsHello ms h) (received : h <+: c.fromClient)
    (sent : c.toClient = [0x05, selectedMethod ms]) (quiet : Quiet c.clientFd c.log) (hm : Mutes c d) :
    Faithful d.toRecord := by
  obtain ⟨l, hl, hsent, -⟩ := hm.log
  refine .greeted ms h hello ?_ ⟨c.output.unread, ?_⟩ (mutes_quiet quiet hm)
  · rw [hl, hm.clientFd, receivedOn_append]
    exact received.trans (List.prefix_append _ _)
  · rw [hl, hm.clientFd, sentOn_append, hsent, List.append_nil]
    exact sent

variable {k : Key}

theorem helloRead_mutes (hk : k.fd = c.clientFd) : Mutes c (helloRead k c).1 := by
  unfold helloRead
  split
  · exact mutes_recv hk none
  · rename_i l b _
    simp only
    split
    · exact mutes_recv hk (some l)
    · refine mutes_trans (mutes_recv hk (some l)) (mutes_same ?_ (helloConsumed_log k _))
      exact (helloConsumed_confined k _).clientFd

theorem connectOrigin_mutes (g : Bool) : Mutes c (connectOrigin k g c).1 := by
  have hlog : (connectOrigin k g c).1.log =
      c.log ++ [.connect c.server.fd c.server.address c.server.addressLen k.sys.connect] := by
    unfold connectOrigin
    grind [Conn.note, Conn.setInterest, Conn.register, queueReply]
  exact ⟨(connectOrigin_confined k c g).clientFd, _, hlog, fun _ => rfl, fun _ _ => rfl⟩

theorem socket_mutes (domain : Nat) (answer : Option Nat) :
    Mutes c { (c.socket domain answer).1 with
      request.serverFd := (c.socket domain answer).2, server.fd := (c.socket domain answer).2 } := by
  unfold Conn.socket
  split
  · exact ⟨rfl, _, rfl, fun _ => rfl, fun _ _ => rfl⟩
  · exact ⟨rfl, _, rfl, fun _ => rfl, fun _ _ => rfl⟩

/-- No descriptor of an origin has to be closed first. -/
theorem requestConnect_mutes (hno : c.request.serverFd = -1) : Mutes c (requestConnect k c).1 := by
  unfold requestConnect
  have hreg : decide (c.request.serverFd ≠ -1) = false := decide_eq_false (not_not.mpr hno)
  simp only [hreg, Bool.false_eq_true, if_false, Bool.not_true]
  have hsocket := socket_mutes (c := c) c.server.domain k.sys.socket
  split
  · exact hsocket
  · split
    · exact hsocket
    · exact mutes_trans hsocket (connectOrigin_mutes _)

theorem requestProcess_mutes (hno : c.request.serverFd = -1) : Mutes c (requestProcess k c).1 := by
  unfold requestProcess
  simp only
  split
  · split
    · refine mutes_trans ?_ (requestConnect_mutes ?_)
      · exact mutes_same rfl rfl
      · exact hno
    · split
      · refine mutes_trans ?_ (requestConnect_mutes ?_)
        · exact mutes_same rfl rfl
        · exact hno
      · split <;> exact mutes_same rfl rfl
  · exact mutes_same rfl rfl

theorem requestRead_mutes (hk : k.fd = c.clientFd) (hno : c.request.serverFd = -1) :
    Mutes c (requestRead k c).1 := by
  unfold requestRead
  split
  · exact mutes_recv hk none
  · rename_i l b _
    simp only
    split
    · exact mutes_recv hk (some l)
    · refine mutes_trans (mutes_recv hk (some l)) ?_
      unfold requestConsumed
      simp only
      split
      · refine mutes_trans ?_ (requestProcess_mutes ?_)
        · exact mutes_same rfl rfl
        · exact hno
      · exact mutes_same rfl rfl

/-- An answer that has gone out leaves the interest to be set, which works. -/
theorem helloWrite_failed (live : Live c fd opWrite none) (hk : k.fd = fd) (he : (helloWrite k c).2 = .error) :
    (helloWrite k c).1 = c.note (.send k.fd none) := by
  unfold helloWrite at he ⊢
  cases hsend : sendFrom c.output k.sys.send with
  | none => rfl
  | some lb =>
    obtain ⟨l, b⟩ := lb
    exfalso
    have hlive : Live { c.note (.send k.fd (some l)) with output := b } fd opWrite none :=
      ⟨live.alive, live.clientFd, live.isOpen, live.entries, live.serverFd, live.sniff, live.limitInput,
        (sendFrom_some hsend).2.trans live.limitOutput⟩
    obtain ⟨sel, hset, -⟩ := live_setClient hlive hk opRead
    simp only [hsend, hset] at he
    grind

theorem requestWrite_failed {m : Nat} {j : FdInterest} (live : Live c fd opWrite (some (m, j))) (hk : k.fd = fd)
    (he : (requestWrite k c).2 = .error) : (requestWrite k c).1 = c.note (.send k.fd none) := by
  unfold requestWrite at he ⊢
  cases hsend : sendFrom c.output k.sys.send with
  | none => rfl
  | some lb =>
    obtain ⟨l, b⟩ := lb
    exfalso
    have hlive : Live { c.note (.send k.fd (some l)) with output := b } fd opWrite (some (m, j)) :=
      ⟨live.alive, live.clientFd, live.isOpen, live.entries, live.serverFd, live.sniff, live.limitInput,
        (sendFrom_some hsend).2.trans live.limitOutput⟩
    obtain ⟨sel, hset, -⟩ := live_setClient hlive hk opRead
    simp only [hsend, hset] at he
    grind

theorem helloWrite_ends (live : Live c fd opWrite none) (w : HelloWriting c ms h) (hk : k.fd = fd)
    (he : (helloWrite k c).2 = .error) : Faithful (helloWrite k c).1.toRecord := by
  rw [helloWrite_failed live hk he]
  exact mutes_greeted w.hello ⟨c.input.unread, w.received.symm⟩ w.sending w.quiet
    (mutes_call _ (fun _ => rfl) fun _ _ => rfl)

theorem requestRead_ends (live : Live c fd opRead none) (g : Greeted c ms h u) (r : RequestReading c u)
    (hk : k.fd = fd) : Faithful (requestRead k c).1.toRecord := by
  refine mutes_greeted g.hello ⟨u ++ c.input.unread, ?_⟩ g.sent g.quiet
    (requestRead_mutes (hk.trans live.clientFd.symm) r.requestFd)
  rw [← List.append_assoc]
  exact g.received.symm

theorem replying_note (r : Replying c ms h q) {s : Syscall} (hs : Silent s) : Replying (c.note s) ms h q where
  hello := r.hello
  connect := r.connect
  received := (receivedOn_silent hs c.clientFd c.log).trans r.received
  sending := by
    have hto : (c.note s).toClient = c.toClient :=
      congrArg (· ++ c.output.unread) (sentOn_silent hs c.clientFd c.log)
    exact hto.trans r.sending
  pending := r.pending
  quiet := by
    intro x hx
    obtain ⟨hreceived, hsent⟩ := r.quiet x hx
    exact ⟨(receivedOn_silent hs x c.log).trans hreceived, (sentOn_silent hs x c.log).trans hsent⟩

theorem requestWrite_ends {m : Nat} {j : FdInterest} (live : Live c fd opWrite (some (m, j)))
    (r : Replying c ms h q) (hk : k.fd = fd) (he : (requestWrite k c).2 = .error) :
    Faithful (requestWrite k c).1.toRecord := by
  have hne : c.server.fd ≠ c.clientFd := live_server_ne live
  rw [requestWrite_failed live hk he]
  exact replying_faithful (replying_note r fun _ => ⟨rfl, rfl⟩) hne

variable {e : Event} {r : Conn × SessionState} {g : Key → Conn → Except Fault (Conn × Nat)}

/-- The origin is registered for nothing or for what REQUEST_WRITE has no
callback for. -/
theorem replying_selects {m : Nat} {j : FdInterest} (hj : j = opNoop ∨ j = opRead)
    (live : Live c fd opWrite (some (m, j))) (hs : Selects c e) (hh : handlerOf .requestWrite e.ready = some g) :
    e.fd = fd ∧ e.ready = .write := by
  rcases selects_live live hs with ⟨he, hi⟩ | ⟨j', hj', hi⟩
  · exact ⟨he, (has_opWrite _).mp hi⟩
  · obtain ⟨-, rfl⟩ := Prod.mk.inj (Option.some.inj hj')
    rcases hj with rfl | rfl
    · rw [has_opNoop] at hi
      cases hi
    · rw [(has_opRead _).mp hi] at hh
      cases hh

theorem copying_ends {i j : FdInterest} {m : Nat} (live : Live c fd i (some (m, j))) (cp : Copying c ms h q)
    (hs : Selects c e) (hh : handlerOf .copy e.ready = some g) (hg : g e.key c = .ok (r.1, r.2.toNat)) :
    Faithful r.1.toRecord := by
  obtain ⟨g', s, d, r', hh', -, hrel, hfinish, hg', -, -⟩ := copy_event live cp hs
  obtain rfl := Option.some.inj (hh.symm.trans hh')
  have hpair := Except.ok.inj (hg.symm.trans hg')
  have hcp := hrel.copying ms h q cp
  have hlive := hrel.live i j live
  obtain ⟨sel, st', hfinish', -⟩ := copyFinish_goes (k := e.key) hlive hcp s
  have hconn : r.1 = { d with sel := sel } := by
    rw [congrArg Prod.fst hpair, Except.ok.inj (hfinish.symm.trans hfinish')]
  have hfaithful : Faithful d.toRecord := copying_faithful hcp (live_server_ne hlive)
  rw [hconn]
  exact hfaithful

/-- The callback that ends the session has sent nothing but what it relays. -/
theorem ends_faithful (hp : Phase c fd st) (hs : Selects c e) (hh : handlerOf st e.ready = some g)
    (hg : g e.key c = .ok (r.1, r.2.toNat)) (hn : r.2 ∈ nextStates st) (hr : r.2 = .error ∨ r.2 = .done) :
    Faithful r.1.toRecord := by
  have herror : SessionState.done ∉ nextStates st → r.2 = .error :=
    fun hno => hr.resolve_right fun he => hno (he ▸ hn)
  cases hp with
  | helloRead live rd =>
    obtain ⟨he, hready⟩ := selects_opRead live hs
    rw [hready] at hh
    cases hh
    rw [(returning_ok hg).1]
    exact mutes_silent rd (helloRead_mutes ((key_client he).trans live.clientFd.symm))
  | helloWrite ms h live w =>
    obtain ⟨he, hready⟩ := selects_opWrite live hs
    rw [hready] at hh
    cases hh
    obtain ⟨hc, hst⟩ := returning_ok hg
    rw [hc]
    exact helloWrite_ends live w (key_client he) ((toNat_inj hst).symm.trans (herror (by decide)))
  | requestRead ms h u live g' rr =>
    obtain ⟨he, hready⟩ := selects_opRead live hs
    rw [hready] at hh
    cases hh
    rw [(returning_ok hg).1]
    exact requestRead_ends live g' rr (key_client he)
  | connecting | stuck =>
    -- neither of them has a way out
    rcases hr with hr | hr <;> rw [hr] at hn <;> exact absurd hn (by decide)
  | unsupported ms h q live g' request =>
    obtain ⟨-, hready⟩ := selects_opRead live hs
    rw [hready] at hh
    cases hh
  | replying ms h q m j hj live rp =>
    obtain ⟨he, hready⟩ := replying_selects hj live hs hh
    rw [hready] at hh
    cases hh
    obtain ⟨hc, hst⟩ := returning_ok hg
    rw [hc]
    exact requestWrite_ends live rp (key_client he) ((toNat_inj hst).symm.trans (herror (by decide)))
  | copying ms h q i m j live cp => exact copying_ends live cp hs hh hg

/-- Closing the client's descriptor is the last thing a session does. -/
theorem closed_faithful {i : FdInterest} {o : Option (Nat × FdInterest)} (live : Live c fd i o)
    (h : Faithful c.toRecord) : Faithful (closeSession c).toRecord := by
  obtain ⟨-, hfd, hserver, hlog⟩ := closeSession_live live
  have hsent : ∀ x, sentOn x (closeSession c).log = sentOn x c.log := fun x => by
    rw [hlog, sentOn_append]
    exact List.append_nil _
  have hreceived : ∀ x, receivedOn x (closeSession c).log = receivedOn x c.log := fun x => by
    rw [hlog, receivedOn_append]
    exact List.append_nil _
  have hquiet : Quiet c.clientFd c.log → Quiet (closeSession c).clientFd (closeSession c).log := fun hq x hx => by
    rw [hsent, hreceived]
    exact hq x (hfd ▸ hx)
  cases h with
  | silent sent received =>
    refine .silent (fun x => ?_) fun x hx => ?_
    · rw [hsent]; exact sent x
    · rw [hreceived]; exact received x (hfd ▸ hx)
  | greeted ms h hello received sent quiet =>
    refine .greeted ms h hello ?_ ?_ (hquiet quiet)
    · rw [hreceived, hfd]; exact received
    · rw [hsent, hfd]; exact sent
  | relayed ms h q status hello connect origin toOrigin toClient =>
    refine .relayed ms h q status hello connect ?_ ?_ ?_
    · rw [hfd, hserver]; exact origin
    · rw [hsent, hreceived, hserver, hfd]; exact toOrigin
    · rw [hsent, hreceived, hserver, hfd]; exact toClient

theorem machine_faithful (h : Faithful c.toRecord) (m : StateMachine) :
    Faithful { c with sMachine := m }.toRecord := by
  cases h with
  | silent sent received => exact .silent sent received
  | greeted ms h hello received sent quiet => exact .greeted ms h hello received sent quiet
  | relayed ms h q status hello connect origin toOrigin toClient =>
    exact .relayed ms h q status hello connect origin toOrigin toClient

theorem settle_faithful {k : Key} (hst : st ≠ .error ∧ st ≠ .done) (hgo : Goes k fd st r)
    (hend : r.2 = .error ∨ r.2 = .done → Faithful r.1.toRecord) :
    Faithful (settle k st r.1 r.2.toNat).toRecord := by
  rcases settle_goes hst hgo with hf | ⟨-, hp⟩
  · rcases hgo with ⟨hr, i, o, hl⟩ | hp
    · have harrive : (if r.2.toNat = st.toNat then r.1 else arrive sessionStateDef r.2.toNat k r.1) = r.1 := by
        rcases hr with hr | hr
        · rw [hr]; exact ite_self _
        · rw [hr]; exact ite_self _
      have hfinal : r.2.toNat = SessionState.error.toNat ∨ r.2.toNat = SessionState.done.toNat :=
        hr.imp (congrArg _) (congrArg _)
      unfold settle
      rw [harrive, if_pos hfinal]
      exact closed_faithful (live_machine hl _) (machine_faithful (hend hr) _)
    · -- a session that goes on has not been freed
      have hgoing : ¬ (r.2.toNat = SessionState.error.toNat ∨ r.2.toNat = SessionState.done.toNat) := by
        generalize r.2 = s at hp
        cases hp <;> decide
      unfold settle at hf
      rw [if_neg hgoing] at hf
      obtain ⟨i, o, hl⟩ := phase_live hp
      exact absurd (hl.alive.symm.trans hf) Bool.false_ne_true
  · exact phase_faithful hp

theorem dispatch_faithful (h : Inv c) (hf : c.freed = false) (hd : dispatch c e = .ok d) : Faithful d.toRecord := by
  rcases h with hfreed | ⟨fd, st, hst, hp⟩
  · exact absurd (hf.symm.trans hfreed) Bool.false_ne_true
  rw [dispatch_inState hst hf] at hd
  by_cases hs : Selects c e
  · rw [if_pos hs] at hd
    rcases phase_leads hp hs with ⟨g, r, hh, hg, hgo, hn⟩ | hnone | ⟨rfl, -, hready, ha⟩
    · rw [callbackStep_ok hh hg hgo, Except.ok.injEq] at hd
      subst hd
      exact settle_faithful (phase_not_final hp) hgo fun hr => ends_faithful hp hs hh hg hn hr
    · rw [callbackStep_none hnone] at hd
      cases hd
    · rw [callbackStep_authRead (by rw [hready]; rfl) ha] at hd
      cases hd
  · rw [if_neg hs, Except.ok.injEq] at hd
    exact hd ▸ phase_faithful hp

end

/-! ## The server -/

/-- Every session of the server, open or ended, is faithful. -/
structure Server.PassesOn (w : Server) : Prop where
  sessions : ∀ r ∈ w.sessions, Faithful r
  closed : ∀ r ∈ w.closed, Faithful r

section
variable {w w' : Server}

theorem put_passesOn (h : w.PassesOn) {c : Conn} (hc : Faithful c.toRecord) :
    Server.PassesOn { w with toProxy := w.put c } := by
  have hput := put_eq w.toProxy c
  refine ⟨fun r hr => ?_, fun r hr => ?_⟩
  · rw [hput] at hr
    rcases mem_put (k := sessionParty) hr with ⟨rfl, -⟩ | ⟨hr, -⟩
    · exact hc
    · exact h.sessions r hr
  · rw [hput] at hr
    simp only at hr
    split at hr
    · rcases List.mem_cons.mp hr with rfl | hr
      · exact hc
      · exact h.closed r hr
    · exact h.closed r hr

theorem newConnection_faithful (p : Process) (a : Allocation) (fd : Int) :
    Faithful (newConnection p a fd).toRecord := by
  refine .silent (fun x => ?_) fun x _ => ?_
  · rfl
  · rfl

theorem accept_passesOn {fd : Option Nat} {memory : Option Allocation} (h : w.PassesOn) :
    Server.PassesOn { w with toProxy := w.accept fd memory } := by
  cases memory with
  | none => exact h
  | some a =>
    by_cases hused : (w.find a.session).isSome = true
    · rw [Proxy.accept, if_pos hused]
      exact h
    · rw [accept_new (Bool.not_eq_true _ ▸ hused)]
      cases w.newFd fd with
      | none => exact put_passesOn h (newConnection_faithful _ _ _)
      | some n => exact put_passesOn h (newConnection_faithful _ _ _)

theorem prawtosPut_passesOn (h : w.PassesOn) (c : PrawtosConn) : (w.prawtosPut c).PassesOn := by
  rw [prawtosPut_eq]
  exact ⟨h.sessions, h.closed⟩

theorem serverStep_passesOn {s : ServerStep} (hp : Partitioned w) (h : w.PassesOn) (hs : serverStep w s = .ok w') :
    w'.PassesOn := by
  cases s with
  | accept fd memory =>
    rw [serverStep, proxyStep, Except.map, Except.ok.injEq] at hs
    exact hs ▸ accept_passesOn h
  | event e =>
    rcases serverEvent_ok hs with ⟨-, rfl⟩ | ⟨a, r, d, ha, hr, hd, rfl⟩
    · exact h
    · obtain ⟨hmem, -, hruns⟩ := called_runs hp ha hr
      exact put_passesOn h (dispatch_faithful (runsIn_inv hruns) (hp.alive r hmem) hd)
  | prawtosAccept fd nio memory =>
    rw [serverStep, Except.ok.injEq] at hs
    subst hs
    unfold Server.prawtosAccept
    split
    · exact ⟨h.sessions, h.closed⟩
    · exact prawtosPut_passesOn h _
  | prawtosEvent e =>
    rcases serverPrawtosEvent_ok hs with rfl | ⟨a, r, d, hr, hd, rfl⟩
    · exact h
    · exact prawtosPut_passesOn h d

/-- In every run of the server every session, while it is open and when it has
ended, has sent its client nothing but the answer to the client's hello, the
reply to its request and what its origin sent, from the first byte on and in
order, and has sent its origin nothing but what the client sent after its
request. -/
theorem sessions_faithful (b : Booted) {es : List ServerStep} (hr : run serverStep b.server es = .ok w)
    (hf : Along serverStep Server.Fresh b.server es) : ∀ r, r ∈ w.sessions ∨ r ∈ w.closed → Faithful r := by
  have hboth : Partitioned w ∧ w.PassesOn := by
    refine run_along (I := fun w => Partitioned w ∧ w.PassesOn)
      (fun _ _ _ h hfresh hs => ⟨serverStep_partitioned h.1 hfresh hs, serverStep_passesOn h.1 h.2 hs⟩)
      ⟨partitioned_booted b, ?_, ?_⟩ hf hr
    · exact fun _ hr => absurd hr List.not_mem_nil
    · exact fun _ hr => absurd hr List.not_mem_nil
  rintro r (hr | hr)
  · exact hboth.2.sessions r hr
  · exact hboth.2.closed r hr

/-- The origin sends two bytes that the client never gets, and both sides close. -/
def endedEvents : List Event :=
  [⟨5, .read, { Answers.failed with recv := .data [0x05, 1, 0x00] }⟩,
    ⟨5, .write, { Answers.failed with send := .accepted 2 }⟩,
    ⟨5, .read, { connectAnswers 0 with recv := .data [0x05, 0x01, 0x00, 0x01, 127, 0, 0, 1, 0, 80] }⟩,
    ⟨8, .write, connectAnswers 0⟩, ⟨5, .write, { Answers.failed with send := .accepted 10 }⟩,
    ⟨8, .read, { Answers.failed with recv := .data [66, 67] }⟩,
    ⟨8, .read, { Answers.failed with recv := .data [] }⟩,
    ⟨5, .read, { Answers.failed with recv := .data [] }⟩]

def endedSteps : List ServerStep :=
  .accept (some 5) (some firstAccepted.memory) :: endedEvents.map .event

theorem sessions_faithful_ended :
    ∃ r ∈ (final serverStep firstBooted.server endedSteps).closed, receivedOn 8 r.log = [66, 67] ∧ Faithful r := by
  have hr : run serverStep firstBooted.server endedSteps = .ok (final serverStep firstBooted.server endedSteps) :=
    run_final (by decide +kernel)
  have hf : Along serverStep Server.Fresh firstBooted.server endedSteps :=
    ⟨firstBooted_fresh _, fun _ _ => fresh_events rfl⟩
  have hend : ∃ r ∈ (final serverStep firstBooted.server endedSteps).closed, receivedOn 8 r.log = [66, 67] := by
    decide +kernel
  obtain ⟨r, hmem, hreceived⟩ := hend
  exact ⟨r, hmem, hreceived, sessions_faithful firstBooted hr hf r (Or.inr hmem)⟩

end

end SocksProxy
