import SocksProxy.SessionRun

/-!
# Waiting for the connection

A session in REQUEST_CONNECTING waits for its origin's descriptor to become
writable, and for nothing else (`Waits`), unless its request has led there
without a connection attempt in progress.
-/

namespace SocksProxy

open Lib

/-- The origin's descriptor is registered for the end of the connection attempt,
and no other event is awaited. -/
structure Waits (c : Conn) : Prop where
  valid : invalidFd c.server.fd = false
  origin : c.sel.fds c.server.fd.toNat = ⟨c.server.fd, opWrite, some .client, some (.session c.self)⟩
  client : (c.sel.fds c.clientFd.toNat).interest = opNoop
  only : ∀ n r, (c.sel.fds n).used = true → (c.sel.fds n).data = some (.session c.self) →
    (c.sel.fds n).interest.has r = true → (n : Int) = c.server.fd ∧ r = .write

/-- A request to connect to a domain, or whose connection is made, or cannot be
made non blocking, before `connect` returns. -/
def Unwatched (c : Conn) (sys : Answers) (r : Request) : Prop :=
  r.cmd = socksReqCmdConnect ∧
    (r.destAddrType = socksAddrTypeDomain ∨ (c.newFd sys.socket ≠ none ∧ (sys.fcntl = false ∨ sys.connect = none)))

/-- The event completes no such request. -/
def Watched (c : Conn) (e : Event) : Prop :=
  c.sMachine.current = some SessionState.requestRead.toNat → ∀ p, Completes c e.key p →
    ¬ Unwatched c e.sys p.request

section
variable {c : Conn} {fd : Nat} {st : SessionState} {e : Event}

theorem opRead_ne_opNoop : opRead ≠ opNoop := by decide

theorem waits_live {m : Nat} (live : Live c fd opNoop (some (m, opWrite))) : Waits c := by
  obtain ⟨-, hlt, hm⟩ := live.entries.origin m opWrite rfl
  have hs := live.serverFd m opWrite rfl
  refine ⟨by rw [hs]; exact invalidFd_of_lt hlt, ?_, ?_, fun n r hu hd hi => ?_⟩
  · rw [hs, Int.toNat_natCast, hm]; rfl
  · rw [live.clientFd, Int.toNat_natCast, live.entries.client]; rfl
  · rcases live.entries.only n hu hd with rfl | ⟨j, hj⟩
    · rw [live.entries.client] at hi
      have hno : opNoop.has r = true := hi
      rw [has_opNoop] at hno; cases hno
    · obtain ⟨rfl, rfl⟩ := Prod.mk.inj (Option.some.inj hj)
      rw [hm] at hi
      exact ⟨hs.symm, (has_opWrite r).mp hi⟩

theorem not_waits_live {o : Option (Nat × FdInterest)} (live : Live c fd opRead o) : ¬ Waits c := by
  intro h
  have hi := h.client
  rw [live.clientFd, Int.toNat_natCast, live.entries.client] at hi
  exact opRead_ne_opNoop hi

theorem waits_other (hst : InState c st) (hp : Phase c fd st) {x : Int} {a : Action} (hx : ¬ c.Owns x)
    (ha : a.data ≠ some (.session c.self)) (hw : AtState .requestConnecting Waits c) :
    AtState .requestConnecting Waits { c with toProcess := c.toProcess.act x a } := by
  refine atState_other hst (fun hc _ hw => ?_) hw
  subst hc
  cases hp with
  | connecting ms h q m live => exact waits_live (live_other live hx ha)
  | stuck ms h q live => exact absurd hw (not_waits_live live)

theorem requestRead_waits {ms h : List UInt8} {r : Conn × SessionState} (ho : ReadOutcome e.key c fd ms h r) :
    AtState .requestConnecting Waits (settle e.key .requestRead r.1 r.2.toNat) ↔
      ∀ p, Completes c e.key p → ¬ Unwatched c e.sys p.request := by
  have hgo := requestRead_goes ho
  have hfin : SessionState.requestRead ≠ .error ∧ SessionState.requestRead ≠ .done := by decide
  have hconnecting : SessionState.requestConnecting ≠ .error ∧ SessionState.requestConnecting ≠ .done := by decide
  cases ho with
  | ended c' live more => exact iff_of_true (settle_elsewhere hfin hgo (by simp)) fun p hp => absurd hp (more p)
  | more c' u live g r more =>
    exact iff_of_true (settle_elsewhere hfin hgo (by simp)) fun p hp => absurd hp (more p)
  | complete r c₁ q complete outcome read newFd status server =>
    rw [completes_forall (P := fun p => ¬ Unwatched c e.sys p.request) complete]
    cases outcome with
    | unsupported c' cmd live g =>
      exact iff_of_true (settle_elsewhere hfin hgo (by simp)) fun hu => cmd hu.1
    | domain c' cmd atyp live g read' server' =>
      rw [settle_atState hgo hconnecting]
      refine iff_of_false ?_ fun hu => hu ⟨cmd, Or.inl atyp⟩
      rw [settle_kept (by decide) (Or.inl rfl)]
      exact not_waits_live (live_machine live _)
    | connect r cmd atyp c₂ outcome newFd' status' carries =>
      have hfd : c₂.newFd e.key.sys.socket = c.newFd e.sys.socket := newFd'.trans newFd
      have hun : Unwatched c e.sys c₁.request.parser.request ↔
          c.newFd e.sys.socket ≠ none ∧ (e.sys.fcntl = false ∨ e.sys.connect = none) := by
        simp only [Unwatched, cmd, atyp, false_or, true_and]
      rw [hun]
      cases outcome with
      | failed c' live why =>
        exact iff_of_true (settle_elsewhere hfin hgo (by simp)) (not_stranded (hfd ▸ why))
      | stuck c' live g server why =>
        rw [settle_atState hgo hconnecting]
        refine iff_of_false ?_ fun hu => hu ⟨hfd ▸ why.1, why.2⟩
        rw [settle_kept (by decide) (Or.inl rfl)]
        exact not_waits_live (live_machine live _)
      | waiting c' m live g parser st why =>
        rw [settle_atState hgo hconnecting]
        refine iff_of_true ?_ (not_stranded_answered why.1 why.2)
        rw [settle_kept (by decide) (Or.inl rfl)]
        exact waits_live (live_machine live _)
      | refused c' m errno live r output parser why =>
        exact iff_of_true (settle_elsewhere hfin hgo (by simp)) (not_stranded_answered why.1 why.2.1)

theorem event_waits (h : InState c st) (hp : Phase c fd st) (hs : Selects c e)
    (hw : AtState .requestConnecting Waits c) :
    (∀ c', callbackStep c st e = .ok c' → AtState .requestConnecting Waits c') ↔ Watched c e := by
  have hfin := phase_not_final hp
  have helse : st ≠ .requestRead → Watched c e := fun hne hc => absurd (inState_of_current h hc) hne
  have haway : SessionState.requestConnecting ∉ nextStates st → ∀ c', callbackStep c st e = .ok c' →
      AtState .requestConnecting Waits c' := fun hno _ => callbackStep_elsewhere hp hs hno
  cases hp with
  | helloRead | helloWrite | unsupported | replying | copying =>
    exact iff_of_true (haway (by decide)) (helse (by decide))
  | requestRead ms h' u live g r =>
    obtain ⟨he, hr⟩ := selects_opRead live hs
    have ho := requestRead_outcome live g r (key_client he)
    have hok := callbackStep_ok (g := returning requestRead) (e := e) (by rw [hr]; rfl) rfl (requestRead_goes ho)
    rw [callbackStep_forall hok, requestRead_waits ho]
    exact ⟨fun hall _ => hall, fun hall => hall (inState_current h (by decide))⟩
  | connecting ms h' q m live g connect carries status =>
    obtain ⟨he, hr⟩ := selects_waiting live hs
    have hh : handlerOf .requestConnecting e.ready = some (returning requestConnecting) := by rw [hr]; rfl
    refine iff_of_true ?_ (helse (by decide))
    cases hso : e.key.sys.getsockopt with
    | none =>
      obtain ⟨c', hc', hl, hp'⟩ := requestConnecting_waiting live g connect carries status hso
      have hgo : Goes e.key fd .requestConnecting (requestConnecting e.key c) := hc' ▸ goes_stay hp'
      rw [callbackStep_forall (callbackStep_ok hh rfl hgo), hc']
      exact fun _ _ => waits_live (live_machine hl _)
    | some error =>
      obtain ⟨c', hc', hl, hr', -⟩ := requestConnecting_settled live g connect carries status hso
      have hgo : Goes e.key fd .requestConnecting (requestConnecting e.key c) :=
        hc' ▸ goes_to (by decide) (.replying ms h' q m opRead (Or.inr rfl) hl hr')
      exact (callbackStep_forall (callbackStep_ok hh rfl hgo)).mpr (settle_elsewhere hfin hgo (by rw [hc']; simp))
  | stuck ms h' q live g request server =>
    -- the session would have no connection to wait for
    exact absurd ((atState_inState h live.alive).mp hw rfl) (not_waits_live live)

/-- In a run from a new connection, the session waits for its origin in every
state in REQUEST_CONNECTING exactly when no step completes a request to connect to a
domain, or whose socket `connect` connects at once or `fcntl` fails for. -/
theorem waits_iff (a : Accepted) (es : List Step) :
    Always step (AtState .requestConnecting Waits) a.conn es ↔ Along step (OnEvent Watched) a.conn es :=
  always_onEvent (fun _ => atState_freed) (fun _ _ _ _ _ hst hp => waits_other hst hp)
    (fun _ _ _ _ _ hst hp _ hs hw => event_waits hst hp hs hw) a es
    fun _ h => absurd (show stmState stmCreate = _ from h) (by decide)

end

/-- A client whose connection is made before `connect` returns. -/
def promptEvents : List Step :=
  [reads 5 [0x05, 1, 0x00] .failed, writes 5 2 .failed,
    reads 5 [0x05, 0x01, 0x00, 0x01, 127, 0, 0, 1, 0, 80] { Answers.failed with socket := some 8, fcntl := true }]

theorem prompt_not_waits : ¬ Always step (AtState .requestConnecting Waits) firstAccepted.conn promptEvents := by
  intro h
  have hr : run step firstAccepted.conn promptEvents = .ok (final step firstAccepted.conn promptEvents) :=
    run_final (by decide +kernel)
  exact absurd (always_run h hr (by decide +kernel) (by decide +kernel)).client (by decide +kernel)

end SocksProxy
