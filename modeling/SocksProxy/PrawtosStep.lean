import SocksProxy.Prawtos
import SocksProxy.SessionStep

/-!
# One step of a management connection

`prawtosDispatch_inState` says what an event does in terms of the callback of
the state the connection is in. `PrawtosLive` is what every state of a
connection before `prawtos_done` has in common.
-/

namespace SocksProxy

/-! ## The engine on the table -/

def PrawtosInState (c : PrawtosConn) (st : PrawtosState) : Prop :=
  c.stm = { prawtosStm with current := some st.toNat } ∨
    (c.stm = prawtosStm ∧ st = .authRead ∧ c.auth.parser = authParserInit)

def prawtosHandlerOf (st : PrawtosState) :
    Readiness → Option (PrawtosKey → PrawtosConn → Except Fault (PrawtosConn × Nat))
  | .read => (entry prawtosInitStates st.toNat).onReadReady
  | .write => (entry prawtosInitStates st.toNat).onWriteReady

/-- What follows a callback of state `st` that has returned `ret`. -/
def prawtosSettle (k : PrawtosKey) (st : PrawtosState) (c : PrawtosConn) (ret : Nat) : Except Fault PrawtosConn :=
  let c : PrawtosConn :=
    { (if ret = st.toNat then c else arrive prawtosInitStates ret k c) with
      stm := { prawtosStm with current := some ret } }
  if ret = PrawtosState.error.toNat ∨ ret = PrawtosState.done.toNat then prawtosDone c else .ok c

/-- The callback of state `st`, with what the machine makes of its result. -/
def prawtosCallbackStep (c : PrawtosConn) (st : PrawtosState) (e : PrawtosEvent) : Except Fault PrawtosConn :=
  match prawtosHandlerOf st e.ready with
  | none => .error (noHandler e.ready)
  | some g =>
    match g e.key c with
    | .error f => .error f
    | .ok (c', ret) =>
      if PrawtosState.error.toNat < ret then .error .badTransition else prawtosSettle e.key st c' ret

theorem prawtosEntry_onDeparture (i : Nat) : (entry prawtosInitStates i).onDeparture = none := by
  match i with
  | 0 | 1 | 2 | 3 | 4 | 5 => rfl
  | i + 6 => rfl

section
variable {c : PrawtosConn} {st : PrawtosState}

theorem prawtosState_inj {st st' : PrawtosState} (h : st.toNat = st'.toNat) : st = st' := by
  cases st <;> cases st' <;> first | rfl | exact absurd h (by decide)

theorem prawtosInState_of_current {st' : PrawtosState} (h : PrawtosInState c st)
    (hc : c.stm.current = some st'.toNat) :
    st = st' := by
  rcases h with h | ⟨h, -, -⟩ <;> rw [h] at hc
  · exact prawtosState_inj (Option.some.inj hc)
  · cases hc

theorem prawtosHandler_inState (h : PrawtosInState c st)
    (on : StateDefinition PrawtosConn PrawtosKey →
      Option (PrawtosKey → PrawtosConn → Except Fault (PrawtosConn × Nat)))
    (f : Fault) (k : PrawtosKey) :
    stmHandler prawtosInitStates on f c.stm k c =
      stmHandler prawtosInitStates on f { prawtosStm with current := some st.toNat } k c := by
  rcases h with h | ⟨h, rfl, hp⟩
  · rw [h]
  · have harr : arrive prawtosInitStates prawtosStm.initial k c = c := by
      have : arrive prawtosInitStates prawtosStm.initial k c = { c with auth.parser := authParserInit } := rfl
      rw [this, ← hp]
    rw [h, stmHandler_first rfl, harr]
    rfl

theorem afterPrawtosHandler_inState (h : PrawtosInState c st)
    (on : StateDefinition PrawtosConn PrawtosKey →
      Option (PrawtosKey → PrawtosConn → Except Fault (PrawtosConn × Nat)))
    (f : Fault) (k : PrawtosKey) :
    afterPrawtosHandler (stmHandler prawtosInitStates on f c.stm k c) =
      match on (entry prawtosInitStates st.toNat) with
      | none => .error f
      | some g =>
        match g k c with
        | .error f => .error f
        | .ok (c', ret) =>
          if PrawtosState.error.toNat < ret then .error .badTransition else prawtosSettle k st c' ret := by
  rw [prawtosHandler_inState h, stmHandler_current rfl (prawtosEntry_onDeparture _)]
  cases on (entry prawtosInitStates st.toNat) with
  | none => rfl
  | some g =>
    simp only
    cases g k c with
    | error f => rfl
    | ok r =>
      simp only
      by_cases hm : PrawtosState.error.toNat < r.2
      · simp only [show prawtosStm.maxState = PrawtosState.error.toNat from rfl, hm, ite_true]; rfl
      · simp only [show prawtosStm.maxState = PrawtosState.error.toNat from rfl, hm, ite_false]; rfl

theorem prawtosDispatch_inState (h : PrawtosInState c st) (hf : c.freed = false) (e : PrawtosEvent) :
    prawtosDispatch c e = if PrawtosSelects c e then prawtosCallbackStep c st e else .ok c := by
  unfold prawtosDispatch prawtosCallbackStep
  by_cases hs : PrawtosSelects c e
  · simp only [hs, ite_true, hf, Bool.false_eq_true, ite_false]
    cases hr : e.ready with
    | read => exact afterPrawtosHandler_inState h _ _ e.key
    | write => exact afterPrawtosHandler_inState h _ _ e.key
  · simp only [hs, ite_false]

theorem prawtosHandler_state {i : Nat} {g : PrawtosKey → PrawtosConn → Except Fault (PrawtosConn × Nat)} :
    ((entry prawtosInitStates i).onReadReady = some g →
        ∃ st, i = PrawtosState.toNat st ∧ prawtosHandlerOf st .read = some g) ∧
      ((entry prawtosInitStates i).onWriteReady = some g →
        ∃ st, i = PrawtosState.toNat st ∧ prawtosHandlerOf st .write = some g) := by
  match i with
  | 0 => exact ⟨fun h => ⟨.authRead, rfl, h⟩, fun h => ⟨.authRead, rfl, h⟩⟩
  | 1 => exact ⟨fun h => ⟨.authWrite, rfl, h⟩, fun h => ⟨.authWrite, rfl, h⟩⟩
  | 2 => exact ⟨fun h => ⟨.cmdRead, rfl, h⟩, fun h => ⟨.cmdRead, rfl, h⟩⟩
  | 3 => exact ⟨fun h => ⟨.cmdWrite, rfl, h⟩, fun h => ⟨.cmdWrite, rfl, h⟩⟩
  | 4 => exact ⟨fun h => ⟨.done, rfl, h⟩, fun h => ⟨.done, rfl, h⟩⟩
  | 5 => exact ⟨fun h => ⟨.error, rfl, h⟩, fun h => ⟨.error, rfl, h⟩⟩
  | i + 6 => exact ⟨nofun, nofun⟩

/-- Between two arrivals the callback of a state, and perhaps `prawtos_done`. -/
def PrawtosRuns (c : PrawtosConn) (e : PrawtosEvent) (d : PrawtosConn) : Prop :=
  ∃ st g x y z ret, prawtosHandlerOf st e.ready = some g ∧ (x = c ∨ ∃ i, x = arrive prawtosInitStates i e.key c) ∧
    g e.key x = .ok (y, ret) ∧ (z = y ∨ ∃ i, z = arrive prawtosInitStates i e.key y) ∧
    ∃ m : StateMachine, m.current = some ret ∧
      if ret = PrawtosState.error.toNat ∨ ret = PrawtosState.done.toNat then prawtosDone { z with stm := m } = .ok d
      else d = { z with stm := m }

theorem afterPrawtosHandler_runs {e : PrawtosEvent} {d : PrawtosConn}
    {on : StateDefinition PrawtosConn PrawtosKey →
      Option (PrawtosKey → PrawtosConn → Except Fault (PrawtosConn × Nat))}
    {f : Fault} (hon : ∀ g, on (entry prawtosInitStates (stmState c.stm)) = some g →
      ∃ st, prawtosHandlerOf st e.ready = some g)
    (h : afterPrawtosHandler (stmHandler prawtosInitStates on f c.stm e.key c) = .ok d) : PrawtosRuns c e d := by
  cases hr : stmHandler prawtosInitStates on f c.stm e.key c with
  | error e => rw [hr] at h; cases h
  | ok q =>
    obtain ⟨m, z, ret⟩ := q
    rw [hr] at h
    obtain ⟨g, x, y, hg, hfirst, hcall, hm, hlast⟩ := stmHandler_ok hr
    obtain ⟨st, hst⟩ := hon g hg
    refine ⟨st, g, x, y, z, ret, hst, hfirst.imp_right fun hx => ⟨_, hx⟩, hcall, ?_, m, hm, ?_⟩
    · rcases hlast with hz | ⟨i, hz⟩
      · exact Or.inl hz
      · refine Or.inr ⟨ret, ?_⟩
        rw [hz]
        cases i with
        | none => rfl
        | some i => simp only [depart, Option.bind_some, prawtosEntry_onDeparture]
    · simp only [afterPrawtosHandler] at h
      by_cases hfin : ret = PrawtosState.error.toNat ∨ ret = PrawtosState.done.toNat
      · rw [if_pos hfin] at h ⊢; exact h
      · rw [if_neg hfin] at h ⊢; exact (Except.ok.inj h).symm

/-- What an event has done, whatever is known of the connection. -/
theorem prawtosDispatch_ok {e : PrawtosEvent} {d : PrawtosConn} (h : prawtosDispatch c e = .ok d) :
    d = c ∨ PrawtosRuns c e d := by
  unfold prawtosDispatch at h
  split at h
  · split at h
    · cases h
    · right
      cases hr : e.ready with
      | read =>
        rw [hr] at h
        refine afterPrawtosHandler_runs (fun g hg => ?_) h
        exact (prawtosHandler_state.1 hg).imp fun st hst => hr.symm ▸ hst.2
      | write =>
        rw [hr] at h
        refine afterPrawtosHandler_runs (fun g hg => ?_) h
        exact (prawtosHandler_state.2 hg).imp fun st hst => hr.symm ▸ hst.2
  · exact Or.inl (Except.ok.inj h).symm

theorem prawtosDispatch_freed (hf : c.freed = true) (e : PrawtosEvent) :
    prawtosDispatch c e = .error .useAfterFree ∨ prawtosDispatch c e = .ok c := by
  unfold prawtosDispatch
  by_cases hs : PrawtosSelects c e
  · simp [hs, hf]
  · simp [hs]

end

/-! ## Live connections -/

/-- The entry that carries the connection, on the client's descriptor `fd`
with interest `i`. -/
structure PrawtosEntry (sel : Selector Handler Ptr) (addr fd : Nat) (i : FdInterest) : Prop where
  fdSize : fdSetsize < sel.fdSize
  fd_lt : fd < fdSetsize
  item : sel.fds fd = ⟨fd, i, some .prawtos, some (.prawtos addr)⟩
  only : ∀ n, (sel.fds n).used = true → (sel.fds n).data = some (.prawtos addr) → n = fd

structure PrawtosLive (c : PrawtosConn) (fd : Nat) (i : FdInterest) : Prop where
  alive : c.freed = false
  clientFd : c.clientFd = fd
  entry : PrawtosEntry c.sel c.self fd i
  limitRead : c.readBuffer.limit = prawtosBufferSize
  limitWrite : c.writeBuffer.limit = prawtosBufferSize

section
variable {sel : Selector Handler Ptr} {addr fd : Nat} {i : FdInterest}

theorem prawtosEntry_set (h : PrawtosEntry sel addr fd i) (j : FdInterest) :
    (selectorSetInterest sel fd j).2 = .success ∧ PrawtosEntry (selectorSetInterest sel fd j).1 addr fd j := by
  have hu : (sel.fds (fd : Int).toNat).used = true := by rw [Int.toNat_natCast, h.item]; exact used_of_fd rfl
  obtain ⟨h1, h2, h3⟩ := selectorSetInterest_used (invalidFd_of_lt h.fd_lt) hu j
  rw [Int.toNat_natCast, h.item] at h3
  refine ⟨h1, h2 ▸ h.fdSize, h.fd_lt, by rw [h3, Function.update_self], fun n hn hd => ?_⟩
  by_cases hne : n = fd
  · exact hne
  · rw [h3, Function.update_of_ne hne] at hn hd
    exact h.only n hn hd

theorem prawtosEntry_changedAt (h : PrawtosEntry sel addr fd i) {sel' : Selector Handler Ptr} {x : Int}
    {d : Option Ptr} (hc : ChangedAt x d sel sel') (hx : x ≠ fd) (hd : d ≠ some (.prawtos addr)) :
    PrawtosEntry sel' addr fd i := by
  obtain ⟨hs, hc⟩ := hc
  refine ⟨hs ▸ h.fdSize, h.fd_lt, ?_, fun n hn hd' => ?_⟩
  · rcases hc fd with h' | ⟨h', -⟩
    · rw [h']; exact h.item
    · exact absurd h'.symm hx
  · rcases hc n with h' | ⟨-, h'⟩
    · rw [h'] at hn hd'; exact h.only n hn hd'
    · rcases h' hn with h' | ⟨hu, h'⟩
      · exact absurd (h'.symm.trans hd') hd
      · exact h.only n hu (h'.symm.trans hd')

variable {c : PrawtosConn}

theorem prawtosSelects_live (h : PrawtosLive c fd i) (e : PrawtosEvent) :
    PrawtosSelects c e ↔ e.fd = fd ∧ i.has e.ready = true := by
  unfold PrawtosSelects
  constructor
  · rintro ⟨hu, hd, -, hi⟩
    have he := h.entry.only e.fd hu hd
    rw [he, h.entry.item] at hi
    exact ⟨he, hi⟩
  · rintro ⟨he, hi⟩
    rw [he, h.entry.item]
    exact ⟨used_of_fd rfl, rfl, rfl, hi⟩

theorem prawtosLive_set (h : PrawtosLive c fd i) (j : FdInterest) :
    ∃ c', c.setInterest fd j = (c', .success) ∧ PrawtosLive c' fd j ∧ c' = { c with sel := c'.sel } := by
  obtain ⟨h1, h2⟩ := prawtosEntry_set h.entry j
  refine ⟨(c.setInterest fd j).1, Prod.ext rfl h1, ⟨h.alive, h.clientFd, h2, h.limitRead, h.limitWrite⟩, rfl⟩

theorem prawtosLive_other (h : PrawtosLive c fd i) {x : Int} {a : Action} (hx : x ≠ c.clientFd)
    (hd : a.data ≠ some (.prawtos c.self)) : PrawtosLive { c with toProcess := c.toProcess.act x a } fd i :=
  ⟨h.alive, h.clientFd, prawtosEntry_changedAt h.entry (act_changedAt h.entry.fdSize x a) (h.clientFd ▸ hx) hd,
    h.limitRead, h.limitWrite⟩

/-- `d` is what `prawtos_done` leaves of `c`: nothing carries it any more. -/
structure PrawtosClosed (c d : PrawtosConn) : Prop where
  freed : d.freed = true
  unknown : ∀ n, (d.sel.fds n).used = true → (d.sel.fds n).data ≠ some (.prawtos d.self)
  clientFd : d.clientFd = c.clientFd
  stm : d.stm = c.stm
  log : d.log = c.log ++ [.close c.clientFd]
  calls : d.calls = c.calls
  users : d.users = c.users

theorem prawtosDone_live (h : PrawtosLive c fd i) : ∃ d, prawtosDone c = .ok d ∧ PrawtosClosed c d := by
  have hu : (c.sel.fds c.clientFd.toNat).used = true := by
    rw [h.clientFd, Int.toNat_natCast, h.entry.item]; exact used_of_fd rfl
  have hv : invalidFd c.clientFd = false := by rw [h.clientFd]; exact invalidFd_of_lt h.entry.fd_lt
  have hne : c.clientFd ≠ -1 := by rw [h.clientFd]; omega
  obtain ⟨h1, -, h3⟩ := selectorUnregisterFd_used hv hu
  have hd : (c.sel.fds c.clientFd.toNat).data = some (.prawtos c.self) := by
    rw [h.clientFd, Int.toNat_natCast, h.entry.item]
  have hself : c.clientFd.toNat = fd := by rw [h.clientFd, Int.toNat_natCast]
  generalize hr : selectorUnregisterFd c.sel c.clientFd = r at h1 h3
  obtain ⟨sel, status, item⟩ := r
  simp only [Prod.mk.injEq] at h1 h3
  obtain ⟨rfl, rfl⟩ := h1
  have hdone : prawtosDone c =
      .ok ((prawtosClose (some (.prawtos c.self)) { c with sel := sel }).close c.clientFd) := by
    simp only [prawtosDone, hne, ne_eq, not_false_eq_true, ite_true, hr, Option.bind_some, hd]
  refine ⟨_, hdone, by simp [PrawtosConn.close, PrawtosConn.note, prawtosClose], fun n hn hd' => ?_, rfl, rfl, rfl,
    rfl, rfl⟩
  have hn' : (sel.fds n).used = true := hn
  have hd'' : (sel.fds n).data = some (.prawtos c.self) := hd'
  rw [h3, hself] at hn' hd''
  by_cases hnfd : n = fd
  · rw [hnfd, Function.update_self] at hn'; cases hn'
  · rw [Function.update_of_ne hnfd] at hn' hd''
    exact hnfd (h.entry.only n hn' hd'')

end

/-! ## Accepting a connection -/

theorem prawtosAccepted_live (a : PrawtosAccepted) : PrawtosLive a.conn a.fd opRead := by
  have hs : (a.fd : Int).toNat ≤ a.process.sel.fdSize := by
    have := a.fdSize_lt; have := a.fd_lt; rw [Int.toNat_natCast]; omega
  have hu : (a.process.sel.fds (a.fd : Int).toNat).used = false := by rw [Int.toNat_natCast]; exact a.unused
  obtain ⟨-, h2, h3⟩ :=
    selectorRegister_free (invalidFd_of_lt a.fd_lt) hs hu Handler.prawtos opRead (some (Ptr.prawtos a.self)) true
  rw [Int.toNat_natCast] at h3
  refine ⟨rfl, rfl, ⟨h2 ▸ a.fdSize_lt, a.fd_lt, ?_, fun n hn hd => ?_⟩, List.length_replicate,
    List.length_replicate⟩
  · show (selectorRegister _ _ _ _ _ _).1.fds a.fd = _
    rw [h3, Function.update_self]; rfl
  · by_cases hne : n = a.fd
    · exact hne
    · have hn' : ((selectorRegister a.process.sel a.fd (some Handler.prawtos) opRead
        (some (Ptr.prawtos a.self)) true).1.fds n).used = true := hn
      have hd' : ((selectorRegister a.process.sel a.fd (some Handler.prawtos) opRead
        (some (Ptr.prawtos a.self)) true).1.fds n).data = some (.prawtos a.self) := hd
      rw [h3, Function.update_of_ne hne] at hn' hd'
      exact absurd hd' (a.unknown n hn')

end SocksProxy
