import SocksProxy.SessionSound

/-!
# The reply to a request

`repliesOnce_iff` says which requests and which results of connecting are
answered as they should be: a reply is missing for the commands and addresses
that are not served, and an asynchronous failure is always reported as a
general one.
-/

namespace SocksProxy

open Lib

/-- The status the reply queued by the event should carry. -/
def expectedStatus (c : Conn) (e : Event) (r : Request) : SocksResponseStatus :=
  if r.cmd ≠ socksReqCmdConnect then .commandNotSupported
  else if c.sMachine.current = some SessionState.requestConnecting.toNat then
    errnoToSocks (e.sys.getsockopt.getD 0)
  else errnoToSocks (e.sys.connect.getD 0)

/-- One reply has been appended to the output buffer, for the client to get. -/
structure ReplyQueued (c : Conn) (e : Event) (c' : Conn) : Prop where
  reply : c'.output.unread = c.output.unread ++
    replyFrame (expectedStatus c e c'.request.parser.request) c'.request.parser.request.destAddrType
      c'.request.parser.request.destAddr c'.request.parser.request.destPort
  interest : (c'.sel.fds c'.clientFd.toNat).interest = opWrite

/-- What the event `e` does to the replies of `c`, which it takes to `c'`: a session that
enters REQUEST_WRITE has its reply queued, and a request for a domain gets a
reply that is a failure. -/
structure RepliedOnce (c : Conn) (e : Event) (c' : Conn) : Prop where
  entered : c'.freed = false → c.sMachine.current ≠ some SessionState.requestWrite.toNat →
    c'.sMachine.current = some SessionState.requestWrite.toNat → ReplyQueued c e c'
  domain : c.freed = false → Selects c e → c.sMachine.current = some SessionState.requestRead.toNat →
    ∀ p, Completes c e.key p → p.request.cmd = socksReqCmdConnect →
      p.request.destAddrType = socksAddrTypeDomain →
        ∃ rep t, rep ≠ SocksResponseStatus.succeeded.toByte ∧ c'.output.unread = c.output.unread ++ 0x05 :: rep :: t

def RepliesOnce (c : Conn) : Step → Prop
  | .event e => ∀ c', step c (.event e) = .ok c' → RepliedOnce c e c'
  | .other _ _ => True

/-- A request that the event completes is to connect to an address, and a
connection attempt that it finds failed has none of the errors with a status of
their own. -/
def Served (c : Conn) : Step → Prop
  | .event e =>
    c.freed = false → Selects c e →
      (c.sMachine.current = some SessionState.requestRead.toNat → ∀ p, Completes c e.key p →
        p.request.cmd = socksReqCmdConnect ∧ p.request.destAddrType ≠ socksAddrTypeDomain) ∧
      (c.sMachine.current = some SessionState.requestConnecting.toNat → e.ready = .write →
        ∀ error, e.sys.getsockopt = some error →
        error ≠ ECONNREFUSED ∧ error ≠ EHOSTUNREACH ∧ error ≠ ENETUNREACH ∧ error ≠ ETIMEDOUT)
  | .other _ _ => True

theorem settledStatus_errno (error : Nat) : settledStatus error = errnoToSocks error ↔
    error ≠ ECONNREFUSED ∧ error ≠ EHOSTUNREACH ∧ error ≠ ENETUNREACH ∧ error ≠ ETIMEDOUT := by
  unfold settledStatus errnoToSocks
  grind [ECONNREFUSED, EHOSTUNREACH, ENETUNREACH, ETIMEDOUT]

theorem toByte_inj {s s' : SocksResponseStatus} (h : s.toByte = s'.toByte) : s = s' := by
  cases s <;> cases s' <;> first | rfl | exact absurd h (by decide)

theorem replyTo_inj {s s' : SocksResponseStatus} {q : List UInt8} : replyTo s q = replyTo s' q ↔ s = s' := by
  constructor
  · intro h
    simp only [replyTo, List.cons_append, List.cons.injEq, true_and] at h
    exact toByte_inj h.1
  · exact fun h => by rw [h]

section
variable {c : Conn} {fd : Nat} {st : SessionState} {e : Event}

theorem repliesOnce_step {c' : Conn} (hstep : step c (.event e) = .ok c') :
    RepliesOnce c (.event e) ↔ RepliedOnce c e c' := by
  constructor
  · exact fun h => h c' hstep
  · intro h c'' hc''
    rw [hstep, Except.ok.injEq] at hc''
    exact hc'' ▸ h

theorem repliesOnce_fault {f : Fault} (hstep : step c (.event e) = .error f) : RepliesOnce c (.event e) := by
  intro c' hc'
  rw [hstep] at hc'; cases hc'

theorem repliesOnce_elsewhere {c' : Conn} {st' : SessionState} (hst : InState c st) (hread : st ≠ .requestRead)
    (hc' : c'.freed = true ∨ InState c' st') (hw : st' ≠ .requestWrite ∨ st = .requestWrite)
    (hstep : step c (.event e) = .ok c') : RepliesOnce c (.event e) := by
  rw [repliesOnce_step hstep]
  refine ⟨fun hf hne hcur => ?_, fun _ _ hc => absurd (inState_of_current hst hc) hread⟩
  rcases hc' with h | h
  · rw [hf] at h; cases h
  · have he := inState_of_current h hcur
    rcases hw with hw | rfl
    · exact absurd he hw
    · exact absurd (inState_current hst (by decide)) hne

theorem repliesOnce_goes {g : Key → Conn → Except Fault (Conn × Nat)} {r : Conn × SessionState} (hst : InState c st)
    (hread : st ≠ .requestRead) (hfin : st ≠ .error ∧ st ≠ .done) (hh : handlerOf st e.ready = some g)
    (hg : g e.key c = .ok (r.1, r.2.toNat)) (hgo : Goes e.key fd st r)
    (hw : r.2 ≠ .requestWrite ∨ st = .requestWrite) (hf : c.freed = false) (hs : Selects c e) :
    RepliesOnce c (.event e) := by
  have hstep : step c (.event e) = .ok (settle e.key st r.1 r.2.toNat) := by
    rw [step, dispatch_inState hst hf, if_pos hs, callbackStep_ok hh hg hgo]
  exact repliesOnce_elsewhere hst hread ((settle_goes hfin hgo).imp_right And.left) hw hstep

theorem served_elsewhere (hst : InState c st) (hread : st ≠ .requestRead) (hconnecting : st ≠ .requestConnecting) :
    Served c (.event e) :=
  fun _ _ => ⟨fun hc => absurd (inState_of_current hst hc) hread,
    fun hc => absurd (inState_of_current hst hc) hconnecting⟩

/-- The output held nothing, and now it holds the reply that is due. -/
theorem replyQueued_replyTo {c' : Conn} {o : Option (Nat × FdInterest)} {s : SocksResponseStatus} {q : List UInt8}
    (live : Live c' fd opWrite o) (hempty : c.output.unread = []) (carries : Carries c'.request.parser.request q)
    (hwanted : expectedStatus c e c'.request.parser.request = s) (houtput : c'.output.unread = replyTo s q)
    (m : StateMachine) : ReplyQueued c e { c' with sMachine := m } := by
  have hfd : c'.clientFd.toNat = fd := by rw [live.clientFd, Int.toNat_natCast]
  refine ⟨?_, ?_⟩
  · simp only [hempty, List.nil_append, hwanted, carries_reply s carries, houtput]
  · simp only [hfd, live.entries.client]
    rfl

/-! ## REQUEST_READ -/

theorem carries_cmd {r r' : Request} {q : List UInt8} (h : DomainRead r q ∨ Carries r q) (h' : Carries r' q) :
    r'.cmd = r.cmd := by
  obtain ⟨t, ht⟩ := head_of_read h
  obtain ⟨t', ht'⟩ := head_of_read (Or.inr h')
  rw [ht] at ht'
  simp only [List.cons.injEq, true_and] at ht'
  exact ht'.1.symm

/-- In REQUEST_READ the reply is to say what `connect` has answered. -/
theorem expectedStatus_refused {r : Request} {errno : Nat}
    (hcur : c.sMachine.current = some SessionState.requestRead.toNat) (hcmd : r.cmd = socksReqCmdConnect)
    (hconnect : e.sys.connect = some errno) : expectedStatus c e r = errnoToSocks errno := by
  have hnot : c.sMachine.current ≠ some SessionState.requestConnecting.toNat := by
    rw [hcur]
    decide
  simp [expectedStatus, hcmd, hnot, hconnect]

theorem requestRead_replies {ms h : List UInt8} {r : Conn × SessionState} (hst : InState c .requestRead)
    (hf : c.freed = false) (hs : Selects c e) (hempty : c.output.unread = []) (ho : ReadOutcome e.key c fd ms h r)
    (hstep : step c (.event e) = .ok (settle e.key .requestRead r.1 r.2.toNat)) :
    RepliesOnce c (.event e) ↔
      ∀ p, Completes c e.key p → p.request.cmd = socksReqCmdConnect ∧
        p.request.destAddrType ≠ socksAddrTypeDomain := by
  have hgo := requestRead_goes ho
  have hfin : SessionState.requestRead ≠ .error ∧ SessionState.requestRead ≠ .done := by decide
  have hcur : c.sMachine.current = some SessionState.requestRead.toNat := inState_current hst (by decide)
  have hne : c.sMachine.current ≠ some SessionState.requestWrite.toNat := by rw [hcur]; decide
  rw [repliesOnce_step hstep]
  -- a step to another state than REQUEST_WRITE
  have helse : r.2 ≠ .requestWrite → ∀ X : Prop, (settle e.key .requestRead r.1 r.2.toNat).freed = false →
      (settle e.key .requestRead r.1 r.2.toNat).sMachine.current = some SessionState.requestWrite.toNat → X := by
    intro hr X hf' hc'
    rcases settle_goes hfin hgo with h' | ⟨h', -⟩
    · rw [hf'] at h'; cases h'
    · exact absurd (inState_of_current h' hc') hr
  cases ho with
  | ended c' live more =>
    exact ⟨fun _ p hp => absurd hp (more p),
      fun _ => ⟨fun h1 _ h2 => helse (by simp) _ h1 h2, fun _ _ _ p hp => absurd hp (more p)⟩⟩
  | more c' u live g r more =>
    exact ⟨fun _ p hp => absurd hp (more p),
      fun _ => ⟨fun h1 _ h2 => helse (by simp) _ h1 h2, fun _ _ _ p hp => absurd hp (more p)⟩⟩
  | complete r c₁ q complete outcome read newFd status server =>
    rw [completes_forall (P := fun p => p.request.cmd = socksReqCmdConnect ∧
      p.request.destAddrType ≠ socksAddrTypeDomain) complete]
    cases outcome with
    | unsupported c' cmd live g =>
      rw [settle_kept (by decide) (Or.inr rfl)]
      refine ⟨fun hr => ?_, fun hr => absurd hr.1 cmd⟩
      have hq := (hr.entered live.alive hne rfl).reply
      rw [hempty] at hq
      exact absurd (g.drained.symm.trans hq) (by simp [replyFrame])
    | domain c' cmd atyp live g read' server' =>
      rw [settle_kept (by decide) (Or.inl rfl)]
      refine ⟨fun hr => ?_, fun hr => absurd atyp hr.2⟩
      obtain ⟨rep, t, -, hq⟩ := hr.domain hf hs hcur _ complete cmd atyp
      rw [hempty] at hq
      exact absurd (g.drained.symm.trans hq) (by simp)
    | connect r cmd atyp c₂ outcome newFd' status' carries =>
      refine ⟨fun _ => ⟨cmd, atyp⟩, fun _ => ⟨?_, ?_⟩⟩
      · intro h1 _ h2
        cases outcome with
        | failed c' live why => exact helse (by simp) _ h1 h2
        | stuck c' live g server why => exact helse (by simp) _ h1 h2
        | waiting c' m live g parser st why => exact helse (by simp) _ h1 h2
        | refused c' m errno live r output parser why =>
          have hkept : settle e.key .requestRead c' SessionState.requestWrite.toNat =
              { c' with sMachine := { stmCreate with current := some SessionState.requestWrite.toNat } } :=
            settle_kept (by decide) (Or.inr rfl)
          rw [hkept]
          have hcmd : c'.request.parser.request.cmd = socksReqCmdConnect := by
            rw [parser, carries_cmd read carries]
            exact cmd
          have hwanted : expectedStatus c e c'.request.parser.request = errnoToSocks errno :=
            expectedStatus_refused hcur hcmd why.2.1
          exact replyQueued_replyTo live hempty (by rw [parser]; exact carries) hwanted output _
      · intro _ _ _ p hp _ hd
        exact absurd hd (completes_unique hp complete ▸ atyp)

/-! ## REQUEST_CONNECTING -/

theorem connecting_replies {ms h q : List UInt8} {m error : Nat} (hst : InState c .requestConnecting)
    (live : Live c fd opNoop (some (m, opWrite))) (g : Greeted c ms h q) (connect : IsConnect q)
    (carries : Carries c.request.parser.request q) (status : c.request.status = .generalSocksServerFailure)
    (hf : c.freed = false) (hs : Selects c e)
    (hh : handlerOf .requestConnecting e.ready = some (returning requestConnecting))
    (herr : e.key.sys.getsockopt = some error) :
    RepliesOnce c (.event e) ↔
      error ≠ ECONNREFUSED ∧ error ≠ EHOSTUNREACH ∧ error ≠ ENETUNREACH ∧ error ≠ ETIMEDOUT := by
  obtain ⟨c', hc', hl, hr', hout, hparser⟩ := requestConnecting_settled live g connect carries status herr
  have hgo : Goes e.key fd .requestConnecting (requestConnecting e.key c) :=
    hc' ▸ goes_to (by decide) (.replying ms h q m opRead (Or.inr rfl) hl hr')
  have hcur : c.sMachine.current = some SessionState.requestConnecting.toNat := inState_current hst (by decide)
  have hne : c.sMachine.current ≠ some SessionState.requestWrite.toNat := by rw [hcur]; decide
  have hnr : c.sMachine.current ≠ some SessionState.requestRead.toNat := by rw [hcur]; decide
  have hstep : step c (.event e) = .ok { c' with sMachine :=
      { stmCreate with current := some SessionState.requestWrite.toNat } } := by
    rw [step, dispatch_inState hst hf, if_pos hs, callbackStep_ok hh rfl hgo, hc',
      settle_kept (by decide) (Or.inr rfl)]
  have hcmd : c'.request.parser.request.cmd = socksReqCmdConnect := by
    obtain ⟨t, ht⟩ := head_of_read (Or.inr carries)
    obtain ⟨rsv, atyp, t', ht', -⟩ : ∃ rsv atyp t', q = 0x05 :: socksReqCmdConnect :: rsv :: atyp :: t' ∧ True := by
      obtain ⟨atyp, addr, port, ⟨rsv, rfl⟩, -⟩ := connect
      exact ⟨rsv, atyp, _, rfl, trivial⟩
    rw [ht] at ht'
    simp only [List.cons.injEq, true_and] at ht'
    rw [hparser]; exact ht'.1
  have hexp : expectedStatus c e c'.request.parser.request = errnoToSocks error := by
    have herr' : e.sys.getsockopt = some error := herr
    simp [expectedStatus, hcmd, hcur, herr']
  have hframe := carries_reply (errnoToSocks error) carries
  rw [← hparser] at hframe
  rw [repliesOnce_step hstep, ← settledStatus_errno]
  constructor
  · intro hr
    have hq := (hr.entered hl.alive hne rfl).reply
    simp only [g.drained, List.nil_append, hexp, hframe, hout] at hq
    exact replyTo_inj.mp hq
  · intro hstat
    refine ⟨fun _ _ _ => ?_, fun _ _ hc => absurd hc hnr⟩
    exact replyQueued_replyTo hl g.drained (by rw [hparser]; exact carries) hexp (by rw [hout, hstat]) _

/-! ## Runs -/

theorem event_replies (h : InState c st) (hp : Phase c fd st) (hf : c.freed = false) (hs : Selects c e) :
    RepliesOnce c (.event e) ↔ Served c (.event e) := by
  have hfin := phase_not_final hp
  have hdis : step c (.event e) = callbackStep c st e := by rw [step, dispatch_inState h hf, if_pos hs]
  -- a state that cannot lead to a new reply
  have haway : SessionState.requestWrite ∉ nextStates st ∨ st = .requestWrite → RepliesOnce c (.event e) := by
    intro hno
    have hread : st ≠ .requestRead := by
      rintro rfl
      rcases hno with hno | hno
      · exact hno (by decide)
      · cases hno
    rcases phase_leads hp hs with ⟨g, r', hh, hg, hgo, hr⟩ | hnone | ⟨rfl, -, hw, ha⟩
    · exact repliesOnce_goes h hread hfin hh hg hgo (hno.imp_left fun h he => h (he ▸ hr)) hf hs
    · exact repliesOnce_fault (hdis.trans (callbackStep_none hnone))
    · exact repliesOnce_fault (hdis.trans (callbackStep_authRead (by rw [hw]; rfl) ha))
  cases hp with
  | helloRead | helloWrite | copying =>
    exact iff_of_true (haway (Or.inl (by decide))) (served_elsewhere h (by decide) (by decide))
  | unsupported | replying => exact iff_of_true (haway (Or.inr rfl)) (served_elsewhere h (by decide) (by decide))
  | requestRead ms h' u live g r =>
    obtain ⟨he, hr⟩ := selects_opRead live hs
    have ho := requestRead_outcome live g r (key_client he)
    rw [requestRead_replies h hf hs g.drained ho
      (hdis.trans (callbackStep_ok (g := returning requestRead) (by rw [hr]; rfl) rfl (requestRead_goes ho)))]
    refine ⟨fun hall _ _ => ⟨fun _ => hall, fun hc => absurd (inState_of_current h hc) (by decide)⟩, fun hall => ?_⟩
    exact (hall hf hs).1 (inState_current h (by decide))
  | connecting ms h' q m live g connect carries status =>
    obtain ⟨he, hr⟩ := selects_waiting live hs
    have hh : handlerOf .requestConnecting e.ready = some (returning requestConnecting) := by rw [hr]; rfl
    have hserved : Served c (.event e) ↔ ∀ error, e.key.sys.getsockopt = some error →
        error ≠ ECONNREFUSED ∧ error ≠ EHOSTUNREACH ∧ error ≠ ENETUNREACH ∧ error ≠ ETIMEDOUT := by
      refine ⟨fun hall => (hall hf hs).2 (inState_current h (by decide)) hr, fun hall _ _ => ⟨?_, fun _ _ => hall⟩⟩
      exact fun hc => absurd (inState_of_current h hc) (by decide)
    rw [hserved]
    cases hso : e.key.sys.getsockopt with
    | none =>
      obtain ⟨c', hc', -, hp'⟩ := requestConnecting_waiting live g connect carries status hso
      have hg : Goes e.key fd .requestConnecting (requestConnecting e.key c) := hc' ▸ goes_stay hp'
      exact iff_of_true (repliesOnce_goes h (by decide) hfin hh rfl hg (Or.inl (by rw [hc']; simp)) hf hs) (by simp)
    | some error =>
      rw [connecting_replies h live g connect carries status hf hs hh hso]
      simp
  | stuck ms h' q live g request server =>
    obtain ⟨-, hr⟩ := selects_opRead live hs
    have hno : handlerOf .requestConnecting e.ready = none := by rw [hr]; rfl
    refine iff_of_true (repliesOnce_fault (hdis.trans (callbackStep_none hno))) fun _ _ => ⟨?_, ?_⟩
    · exact fun hc => absurd (inState_of_current h hc) (by decide)
    · exact fun _ hw => absurd (hr.symm.trans hw) (by decide)

theorem step_replies {s : Step} (h : Inv c) : RepliesOnce c s ↔ Served c s := by
  cases s with
  | other x a => exact Iff.rfl
  | event e =>
    by_cases hlive : c.freed = false ∧ Selects c e
    · obtain ⟨hf, hs⟩ := hlive
      rcases h with h' | ⟨fd, st, hst, hp⟩
      · rw [hf] at h'; cases h'
      · exact event_replies hst hp hf hs
    · refine iff_of_true ?_ fun hf hs => absurd ⟨hf, hs⟩ hlive
      intro c' hc'
      refine ⟨fun hf hne hcur => ?_, fun hf hs => absurd ⟨hf, hs⟩ hlive⟩
      -- an event that is not for an open session changes nothing
      rw [step, dispatch] at hc'
      by_cases hs : Selects c e
      · have hfr : c.freed = true := by
          rw [← Bool.not_eq_false]; exact fun hf' => hlive ⟨hf', hs⟩
        rw [if_pos hs, hfr] at hc'; cases hc'
      · rw [if_neg hs, Except.ok.injEq] at hc'
        subst hc'
        exact absurd hcur hne

/-- Along a run every session that enters REQUEST_WRITE has the reply its request
and its connection attempt call for, and every request for a domain is refused,
exactly when the requests are to connect to addresses and no attempt fails late
with an error that has a status of its own. -/
theorem repliesOnce_iff (a : Accepted) (es : List Step) :
    Along step RepliesOnce a.conn es ↔ Along step Served a.conn es :=
  along_iff (J := Inv) (fun _ _ h => step_replies h) (fun c s c' h _ hs => step_inv c s c' h hs) es (accepted_inv a)

/-- A client whose request is for a domain. -/
def domainEvents : List Step := [reads 5 [0x05, 1, 0x00] .failed, writes 5 2 .failed]

theorem domain_not_replied : ¬ Along step RepliesOnce firstAccepted.conn
    (domainEvents ++ [reads 5 [0x05, 0x01, 0x00, 0x03, 1, 97, 0, 80] .failed]) := by
  intro h
  have hr : run step firstAccepted.conn domainEvents = .ok (final step firstAccepted.conn domainEvents) :=
    run_final (by decide +kernel)
  have hstep : run step (final step firstAccepted.conn domainEvents)
      [reads 5 [0x05, 0x01, 0x00, 0x03, 1, 97, 0, 80] .failed] =
        .ok (final step (final step firstAccepted.conn domainEvents)
          [reads 5 [0x05, 0x01, 0x00, 0x03, 1, 97, 0, 80] .failed]) := run_final (by decide +kernel)
  obtain ⟨u, hu, hr'⟩ := run_cons_ok.mp hstep
  rw [run_nil, Except.ok.injEq] at hr'
  rw [hr'] at hu
  obtain ⟨rep, t, -, hq⟩ := (along_last h hr _ hu).domain (by decide +kernel) (by decide +kernel)
    (by decide +kernel) _ ⟨_, _, rfl, by decide, rfl, by decide +kernel⟩ (by decide +kernel) (by decide +kernel)
  have hout : (final step (final step firstAccepted.conn domainEvents)
      [reads 5 [0x05, 0x01, 0x00, 0x03, 1, 97, 0, 80] .failed]).output.unread = [] := by decide +kernel
  rw [hout] at hq
  simp at hq

end

end SocksProxy
