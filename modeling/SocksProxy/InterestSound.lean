import SocksProxy.SessionSound

/-!
# Interests and callbacks

A descriptor whose interest the state of the session has no callback for stops
the process when it becomes ready. `inStep_iff` says which steps keep the two
in step.
-/

namespace SocksProxy

open Lib

/-- The state of the session has a callback for every interest it has registered. -/
def InStep (c : Conn) : Prop :=
  c.freed = false → ∀ n, (c.sel.fds n).used = true → (c.sel.fds n).data = some (.session c.self) →
    ((c.sel.fds n).interest.read = true → (entry sessionStateDef (stmState c.sMachine)).onReadReady.isSome) ∧
      ((c.sel.fds n).interest.write = true → (entry sessionStateDef (stmState c.sMachine)).onWriteReady.isSome)

/-- A request the session does not serve, or whose connection is made, or cannot
be made non blocking, before `connect` returns. -/
def Unserved (c : Conn) (sys : Answers) (r : Request) : Prop :=
  r.cmd ≠ socksReqCmdConnect ∨ r.destAddrType = socksAddrTypeDomain ∨
    (c.newFd sys.socket ≠ none ∧ (sys.fcntl = false ∨ sys.connect = none))

/-- The step neither completes such a request nor finds a connection attempt finished. -/
def KeepsInStep (c : Conn) : Step → Prop
  | .event e =>
    c.freed = false → Selects c e →
      (c.sMachine.current = some SessionState.requestRead.toNat →
        ∀ p, Completes c e.key p → ¬ Unserved c e.sys p.request) ∧
      (c.sMachine.current = some SessionState.requestConnecting.toNat → e.sys.getsockopt = none)
  | .other _ _ => True

/-- The state `st` has a callback for the interest `i`. -/
def Fits (st : SessionState) (i : FdInterest) : Prop :=
  (i.read = true → (handlerOf st .read).isSome) ∧ (i.write = true → (handlerOf st .write).isSome)

instance (st : SessionState) (i : FdInterest) : Decidable (Fits st i) := by unfold Fits; infer_instance

section
variable {c : Conn} {fd : Nat} {st : SessionState} {i : FdInterest} {o : Option (Nat × FdInterest)}

theorem inStep_live (live : Live c fd i o) (h : InState c st) :
    InStep c ↔ Fits st i ∧ ∀ m j, o = some (m, j) → Fits st j := by
  unfold InStep
  rw [stmState_inState h]
  constructor
  · intro hin
    have hin := hin live.alive
    constructor
    · have := hin fd
      rw [live.entries.client] at this
      exact this (ownItem_used _ _ _) rfl
    · intro m j hm
      have := hin m
      rw [(live.entries.origin m j hm).2.2] at this
      exact this (ownItem_used _ _ _) rfl
  · rintro ⟨hi, ho⟩ - n hu hd
    rcases live.entries.only n hu hd with rfl | ⟨j, hj⟩
    · rw [live.entries.client]; exact hi
    · rw [(live.entries.origin n j hj).2.2]; exact ho n j hj

theorem inStep_freed (h : c.freed = true) : InStep c := fun hf => by rw [h] at hf; cases hf

theorem inStep_phase (h : InState c st) (hp : Phase c fd st)
    (hst : st = .helloRead ∨ st = .helloWrite ∨ st = .requestRead ∨ st = .copy) : InStep c := by
  cases hp with
  | helloRead live => exact (inStep_live live h).mpr ⟨by decide, by simp⟩
  | helloWrite ms h' live => exact (inStep_live live h).mpr ⟨by decide, by simp⟩
  | requestRead ms h' u live => exact (inStep_live live h).mpr ⟨by decide, by simp⟩
  | copying ms h' q i m j live =>
    have hall : ∀ i, Fits .copy i := fun i => ⟨fun _ => rfl, fun _ => rfl⟩
    exact (inStep_live live h).mpr ⟨hall i, fun _ j _ => hall j⟩
  | _ => rcases hst with h | h | h | h <;> cases h

/-! ## One step -/

theorem inStep_goes {k : Key} {r : Conn × SessionState} (hst : st ≠ .error ∧ st ≠ .done) (hg : Goes k fd st r)
    (hr : (r.2 = .error ∨ r.2 = .done) ∨ r.2 = .helloRead ∨ r.2 = .helloWrite ∨ r.2 = .requestRead ∨ r.2 = .copy) :
    InStep (settle k st r.1 r.2.toNat) := by
  rcases settle_goes hst hg with hf | ⟨h1, h2⟩
  · exact inStep_freed hf
  · rcases hr with hr | hr
    · have := phase_not_final h2
      rcases hr with hr | hr
      · exact absurd hr this.1
      · exact absurd hr this.2
    · exact inStep_phase h1 h2 hr

/-- A session that goes to REQUEST_CONNECTING or REQUEST_WRITE keeps its entries. -/
theorem inStep_settle {k : Key} {c' : Conn} {st' : SessionState} (live : Live c' fd i o)
    (hne : st'.toNat ≠ st.toNat) (hst' : st' = .requestConnecting ∨ st' = .requestWrite) :
    InStep (settle k st c' st'.toNat) ↔ Fits st' i ∧ ∀ m j, o = some (m, j) → Fits st' j := by
  rw [settle_kept hne hst']
  exact inStep_live (live_machine live _) (Or.inl rfl)

theorem inStep_stays {k : Key} {c' : Conn} (live : Live c' fd i o) (hst : st ≠ .error ∧ st ≠ .done) :
    InStep (settle k st c' st.toNat) ↔ Fits st i ∧ ∀ m j, o = some (m, j) → Fits st j := by
  have hfin : ¬ (st.toNat = SessionState.error.toNat ∨ st.toNat = SessionState.done.toNat) := by
    rintro (h | h)
    · exact hst.1 (toNat_inj h)
    · exact hst.2 (toNat_inj h)
  have hs : settle k st c' st.toNat = { c' with sMachine := { stmCreate with current := some st.toNat } } := by
    unfold settle
    rw [if_pos rfl]
    exact if_neg hfin
  rw [hs]
  exact inStep_live (live_machine live _) (Or.inl rfl)

theorem keepsInStep_other_state {e : Event} (h : InState c st) (hread : st ≠ .requestRead)
    (hconnecting : st ≠ .requestConnecting) : KeepsInStep c (.event e) :=
  fun _ _ => ⟨fun hc => absurd (inState_of_current h hc) hread,
    fun hc => absurd (inState_of_current h hc) hconnecting⟩

theorem callbackStep_inStep {e : Event} {r : Conn × SessionState}
    (hc : callbackStep c st e = .ok (settle e.key st r.1 r.2.toNat)) :
    (∀ c', callbackStep c st e = .ok c' → InStep c') ↔ InStep (settle e.key st r.1 r.2.toNat) := by
  rw [hc]
  simp only [Except.ok.injEq, forall_eq']

/-- REQUEST_READ: what the request leads to is in step unless it is one that the session does not serve. -/
theorem requestRead_inStep {e : Event} {ms h : List UInt8} {r : Conn × SessionState}
    (ho : ReadOutcome e.key c fd ms h r) :
    InStep (settle e.key .requestRead r.1 r.2.toNat) ↔ ∀ p, Completes c e.key p → ¬ Unserved c e.sys p.request := by
  have hgo := requestRead_goes ho
  have hfin : SessionState.requestRead ≠ .error ∧ SessionState.requestRead ≠ .done := by decide
  cases ho with
  | ended c' live more =>
    exact ⟨fun _ p hp => absurd hp (more p), fun _ => inStep_goes hfin hgo (Or.inl (Or.inl rfl))⟩
  | more c' u live g r more =>
    exact ⟨fun _ p hp => absurd hp (more p), fun _ => inStep_goes hfin hgo (Or.inr (Or.inr (Or.inr (Or.inl rfl))))⟩
  | complete r c₁ q complete outcome read newFd status server =>
    rw [completes_forall (P := fun p => ¬ Unserved c e.sys p.request) complete]
    cases outcome with
    | unsupported c' cmd live g =>
      rw [inStep_settle live (by decide) (Or.inr rfl)]
      exact ⟨fun hs => absurd hs.1 (by decide), fun hu => absurd (Or.inl cmd) hu⟩
    | domain c' cmd atyp live g read' server' =>
      rw [inStep_settle live (by decide) (Or.inl rfl)]
      exact ⟨fun hs => absurd hs.1 (by decide), fun hu => absurd (Or.inr (Or.inl atyp)) hu⟩
    | connect r cmd atyp c₂ outcome newFd' status' carries =>
      have hfd : c₂.newFd e.key.sys.socket = c.newFd e.sys.socket := newFd'.trans newFd
      have hun : Unserved c e.sys c₁.request.parser.request ↔
          c.newFd e.sys.socket ≠ none ∧ (e.sys.fcntl = false ∨ e.sys.connect = none) := by
        simp only [Unserved, cmd, atyp, ne_eq, not_true_eq_false, false_or]
      rw [hun]
      cases outcome with
      | failed c' live why =>
        exact ⟨fun _ => not_stranded (hfd ▸ why), fun _ => inStep_goes hfin hgo (Or.inl (Or.inl rfl))⟩
      | stuck c' live g server why =>
        rw [inStep_settle live (by decide) (Or.inl rfl)]
        exact ⟨fun hs => absurd hs.1 (by decide), fun hu => absurd ⟨hfd ▸ why.1, why.2⟩ hu⟩
      | waiting c' m live g parser st why =>
        rw [inStep_settle live (by decide) (Or.inl rfl)]
        refine ⟨fun _ => not_stranded_answered why.1 why.2, fun _ => ⟨by decide, ?_⟩⟩
        intro m' j' hm
        obtain ⟨-, rfl⟩ := Prod.mk.inj (Option.some.inj hm)
        decide
      | refused c' m errno live r output parser why =>
        rw [inStep_settle live (by decide) (Or.inr rfl)]
        refine ⟨fun _ => not_stranded_answered why.1 why.2.1, fun _ => ⟨by decide, ?_⟩⟩
        intro m' j' hm
        obtain ⟨-, rfl⟩ := Prod.mk.inj (Option.some.inj hm)
        decide

/-- Once `getsockopt` has answered, the origin is registered for reading, which
REQUEST_WRITE has no callback for. -/
theorem connecting_inStep {e : Event} {ms h' q : List UInt8} {m : Nat} (h : InState c .requestConnecting)
    (live : Live c fd opNoop (some (m, opWrite))) (g : Greeted c ms h' q) (connect : IsConnect q)
    (carries : Carries c.request.parser.request q)
    (status : c.request.status = .generalSocksServerFailure) (hf : c.freed = false) (hs : Selects c e) :
    (∀ c', callbackStep c .requestConnecting e = .ok c' → InStep c') ↔ KeepsInStep c (.event e) := by
  have hfin : SessionState.requestConnecting ≠ .error ∧ SessionState.requestConnecting ≠ .done := by decide
  obtain ⟨he, hr⟩ := selects_waiting live hs
  have hh : handlerOf .requestConnecting e.ready = some (returning requestConnecting) := by rw [hr]; rfl
  have hk : KeepsInStep c (.event e) ↔ e.key.sys.getsockopt = none := by
    refine ⟨fun hk => (hk hf hs).2 (inState_current h (by decide)), fun hn _ _ => ⟨?_, fun _ => hn⟩⟩
    exact fun hc => absurd (inState_of_current h hc) (by decide)
  rw [hk]
  cases hso : e.key.sys.getsockopt with
  | none =>
    obtain ⟨c', hc', hl, hp'⟩ := requestConnecting_waiting live g connect carries status hso
    have hg : Goes e.key fd .requestConnecting (requestConnecting e.key c) := hc' ▸ goes_stay hp'
    rw [callbackStep_inStep (callbackStep_ok hh rfl hg), hc', inStep_stays hl hfin]
    refine ⟨fun _ => rfl, fun _ => ⟨by decide, ?_⟩⟩
    intro m' j' hm
    obtain ⟨-, rfl⟩ := Prod.mk.inj (Option.some.inj hm)
    decide
  | some error =>
    obtain ⟨c', hc', hl, hr', -⟩ := requestConnecting_settled live g connect carries status hso
    have hg : Goes e.key fd .requestConnecting (requestConnecting e.key c) :=
      hc' ▸ goes_to (by decide) (.replying ms h' q m opRead (Or.inr rfl) hl hr')
    rw [callbackStep_inStep (callbackStep_ok hh rfl hg), hc', inStep_settle hl (by decide) (Or.inr rfl)]
    refine ⟨fun hs => absurd (hs.2 m opRead rfl) (by decide), fun hs => absurd hs (Option.some_ne_none _)⟩

/-- A reply that is being sent stays in step, and so does what comes after it. -/
theorem replying_inStep {e : Event} {c' : Conn} {ms h' q : List UInt8} {m : Nat} {j : FdInterest}
    (hj : j = opNoop ∨ j = opRead) (live : Live c fd opWrite (some (m, j))) (r : Replying c ms h' q)
    (hfit : Fits .requestWrite j) (hs : Selects c e) (hc' : callbackStep c .requestWrite e = .ok c') :
    InStep c' := by
  have hfin : SessionState.requestWrite ≠ .error ∧ SessionState.requestWrite ≠ .done := by decide
  rcases selects_live live hs with ⟨he, hr⟩ | ⟨j', hj', hr⟩
  · have ho := requestWrite_outcome live r (key_client he)
    have hw := (has_opWrite _).mp hr
    have hg := requestWrite_goes hj ho
    rw [callbackStep_ok (g := returning requestWrite) (by rw [hw]; rfl) rfl hg, Except.ok.injEq] at hc'
    subst hc'
    generalize requestWrite e.key c = r' at ho hg
    cases ho with
    | failed c' live' => exact inStep_goes hfin hg (Or.inl (Or.inl rfl))
    | more c' live' r' =>
      refine (inStep_stays live' hfin).mpr ⟨by decide, ?_⟩
      intro m' j' hm
      obtain ⟨-, rfl⟩ := Prod.mk.inj (Option.some.inj hm)
      exact hfit
    | sent c' phase => exact inStep_goes hfin hg (Or.inr (Or.inr (Or.inr (Or.inr rfl))))
  · -- the origin has no interest in this state
    obtain ⟨-, rfl⟩ := Prod.mk.inj (Option.some.inj hj')
    rcases hj with rfl | rfl
    · rw [has_opNoop] at hr; cases hr
    · exact absurd hfit (by decide)

theorem event_inStep {e : Event} (h : InState c st) (hp : Phase c fd st) (hin : InStep c) (hf : c.freed = false)
    (hs : Selects c e) : (∀ c', callbackStep c st e = .ok c' → InStep c') ↔ KeepsInStep c (.event e) := by
  have hfin := phase_not_final hp
  -- a state that leads only to states in step in all their phases
  have haway : (∀ s ∈ nextStates st,
      (s = .error ∨ s = .done) ∨ s = .helloRead ∨ s = .helloWrite ∨ s = .requestRead ∨ s = .copy) →
        ∀ c', callbackStep c st e = .ok c' → InStep c' := by
    intro hall c' hc'
    rcases phase_leads hp hs with ⟨g, r, hh, hg, hgo, hr⟩ | hnone | ⟨rfl, -, hw, ha⟩
    · rw [callbackStep_ok hh hg hgo, Except.ok.injEq] at hc'
      exact hc' ▸ inStep_goes hfin hgo (hall r.2 hr)
    · rw [callbackStep_none hnone] at hc'; cases hc'
    · rw [callbackStep_authRead (by rw [hw]; rfl) ha] at hc'; cases hc'
  cases hp with
  | helloRead | helloWrite | copying =>
    exact iff_of_true (haway (by decide)) (keepsInStep_other_state h (by decide) (by decide))
  | requestRead ms h' u live g r =>
    obtain ⟨he, hr⟩ := selects_opRead live hs
    have ho := requestRead_outcome live g r (key_client he)
    rw [callbackStep_inStep (callbackStep_ok (g := returning requestRead) (by rw [hr]; rfl) rfl
      (requestRead_goes ho)), requestRead_inStep ho]
    refine ⟨fun hall _ _ => ⟨fun _ => hall, fun hc => absurd (inState_of_current h hc) (by decide)⟩, fun hk => ?_⟩
    exact (hk hf hs).1 (inState_current h (by decide))
  | connecting ms h' q m live g connect carries status =>
    exact connecting_inStep h live g connect carries status hf hs
  -- a session that is stuck was out of step before
  | stuck ms h' q live g request server => exact absurd ((inStep_live live h).mp hin).1 (by decide)
  | unsupported ms h' q live g request => exact absurd ((inStep_live live h).mp hin).1 (by decide)
  | replying ms h' q m j hj live r =>
    have hfit := ((inStep_live live h).mp hin).2 m j rfl
    exact iff_of_true (fun _ hc' => replying_inStep hj live r hfit hs hc')
      (keepsInStep_other_state h (by decide) (by decide))

/-! ## Runs -/

theorem keepsInStep_iff {s : Step} (h : Inv c) (hin : InStep c) :
    (∀ c', step c s = .ok c' → InStep c') ↔ KeepsInStep c s := by
  cases s with
  | other x a =>
    refine ⟨fun _ => trivial, fun _ c' hc' => ?_⟩
    simp only [step, Except.ok.injEq] at hc'
    subst hc'
    split
    · exact hin
    · rename_i hno
      rw [not_or] at hno
      rcases h with hf | ⟨fd, st, hst, hp⟩
      · exact inStep_freed hf
      · obtain ⟨i, o, live⟩ := phase_live hp
        have hst' : InState { c with toProcess := c.toProcess.act x a } st := hst
        exact (inStep_live (live_other live hno.1 hno.2) hst').mpr ((inStep_live live hst).mp hin)
  | event e =>
    by_cases hf : c.freed = true
    · have hk : KeepsInStep c (.event e) := fun h' _ => absurd (h'.symm.trans hf) Bool.false_ne_true
      refine ⟨fun _ => hk, fun _ c' hc' => ?_⟩
      rcases dispatch_freed hf e with hd | hd
      · rw [step, hd] at hc'; cases hc'
      · rw [step, hd, Except.ok.injEq] at hc'; exact hc' ▸ hin
    · rw [Bool.not_eq_true] at hf
      rcases h with h' | ⟨fd, st, hst, hp⟩
      · rw [hf] at h'; cases h'
      · by_cases hs : Selects c e
        · rw [step, dispatch_inState hst hf, if_pos hs]
          exact event_inStep hst hp hin hf hs
        · rw [step, dispatch_inState hst hf, if_neg hs]
          refine ⟨fun _ _ hs' => absurd hs' hs, fun _ c' hc' => ?_⟩
          rw [Except.ok.injEq] at hc'; exact hc' ▸ hin

/-- A session in step has a callback for every event the selector gives it. -/
theorem step_handler (c : Conn) (s : Step) (h : Inv c) (hin : InStep c) (r : Readiness) :
    step c s ≠ .error (noHandler r) := by
  cases s with
  | other x a => simp [step]
  | event e =>
    by_cases hf : c.freed = true
    · rcases dispatch_freed hf e with hd | hd
      · rw [step, hd]; cases r <;> simp [noHandler]
      · rw [step, hd]; simp
    · rw [Bool.not_eq_true] at hf
      rcases h with h' | ⟨fd, st, hst, hp⟩
      · rw [hf] at h'; cases h'
      · rw [step, dispatch_inState hst hf]
        by_cases hs : Selects c e
        · have hfit := hin hf e.fd hs.1 hs.2.1
          rw [stmState_inState hst] at hfit
          have hsome : (handlerOf st e.ready).isSome := by
            have hi := hs.2.2.2
            cases hr : e.ready with
            | read => rw [hr] at hi; exact hfit.1 hi
            | write => rw [hr] at hi; exact hfit.2 hi
          rw [if_pos hs]
          rcases phase_leads hp hs with ⟨g, r', hh, h', hg, -⟩ | h' | ⟨rfl, -, hw, ha⟩
          · rw [callbackStep_ok hh h' hg]; simp
          · rw [h'] at hsome; cases hsome
          · rw [callbackStep_authRead (by rw [hw]; rfl) ha]; cases r <;> simp [noHandler]
        · rw [if_neg hs]; simp

theorem accepted_inStep (a : Accepted) : InStep a.conn := by
  rcases accepted_inv a with h | ⟨fd, st, hst, hp⟩
  · exact inStep_freed h
  · rcases hst with h | ⟨-, rfl, -⟩
    · exact absurd (congrArg StateMachine.current h)
        (by simp [Accepted.conn, newConnection, Conn.register, initializeSession, stmCreate])
    · exact inStep_phase (Or.inr ⟨rfl, rfl, rfl⟩) hp (Or.inl rfl)

/-- In a run from a new connection, every descriptor registered has a callback
for its interest in every state, and no event finds one missing, exactly when
no step of the run completes a request that is not served or finds a
connection attempt finished. -/
theorem inStep_iff (a : Accepted) (es : List Step) :
    (Always step InStep a.conn es ∧ run step a.conn es ≠ .error .noReadHandler ∧
        run step a.conn es ≠ .error .noWriteHandler) ↔ Along step KeepsInStep a.conn es := by
  have hiff : Along step (fun c s => ∀ c', step c s = .ok c' → InStep c') a.conn es ↔
      Along step KeepsInStep a.conn es :=
    along_iff (J := fun c => Inv c ∧ InStep c) (fun _ _ h => keepsInStep_iff h.1 h.2)
      (fun c s c' h hk hs => ⟨step_inv c s c' h.1 hs, (keepsInStep_iff h.1 h.2).mpr hk c' hs⟩) es
      ⟨accepted_inv a, accepted_inStep a⟩
  constructor
  · rintro ⟨hall, -⟩
    exact hiff.mp (always_iff_along.mp hall).2
  · intro hk
    have hall := always_iff_along.mpr ⟨accepted_inStep a, hiff.mpr hk⟩
    exact ⟨hall, always_ne_error step_inv (fun c s h hin => step_handler c s h hin .read) (accepted_inv a) hall,
      always_ne_error step_inv (fun c s h hin => step_handler c s h hin .write) (accepted_inv a) hall⟩

/-- A client that asks for BIND and then sends one more byte. -/
def bindEvents : List Step :=
  [reads 5 [0x05, 1, 0x00] .failed, writes 5 2 .failed,
    reads 5 [0x05, 0x02, 0x00, 0x01, 127, 0, 0, 1, 0, 80] .failed, reads 5 [65] .failed]

theorem bind_not_inStep :
    ¬ (Always step InStep firstAccepted.conn bindEvents ∧
      run step firstAccepted.conn bindEvents ≠ .error .noReadHandler ∧
      run step firstAccepted.conn bindEvents ≠ .error .noWriteHandler) :=
  fun h => h.2.1 rfl

end

end SocksProxy
