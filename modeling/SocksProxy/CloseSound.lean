import SocksProxy.Proxy
import SocksProxy.SessionFrame

/-!
# Closing a session

`close_session` unregisters the client's descriptor and closes it twice; the
origin's descriptor stays registered, with the freed session as its data, and
open. `cleansUp_iff` is about all that is left of a session, and
`nothingDangles_iff` about the registrations alone.
-/

namespace SocksProxy

open Lib

/-! ## What closing has to do -/

def Syscall.opens : Syscall → Option Int
  | .accept fd => if fd = -1 then none else some fd
  | .socket _ fd => if fd = -1 then none else some fd
  | _ => none

/-- The descriptors that were opened for a session. -/
def openedFor (log : List Syscall) : List Int := log.filterMap Syscall.opens

/-- What has to hold when `close_session` has run. -/
structure CleanedUp (w : Proxy) (r : Record) : Prop where
  notCarried : ∀ n, (w.process.sel.fds n).used = true → (w.process.sel.fds n).data ≠ some (.session r.self)
  client : (w.process.sel.fds r.clientFd.toNat).used = false
  server : 0 ≤ r.server.fd → (w.process.sel.fds r.server.fd.toNat).used = false
  closed : ∀ fd ∈ openedFor r.log, r.log.count (.close fd) = 1

/-- Every registration that carries a session carries one that is live. -/
def NothingDangles (w : Proxy) : Prop :=
  ∀ n a, (w.process.sel.fds n).used = true → (w.process.sel.fds n).data = some (.session a) →
    (w.find a).isSome = true

/-- A session the step closes is cleaned up, every registered session is live
after it, and the event is not of a session that has been freed. -/
structure CleansUp (w : Proxy) (s : ProxyStep) : Prop where
  cleaned : ∀ w' r, proxyStep w s = .ok w' → w'.closed = r :: w.closed → CleanedUp w' r
  live : ∀ w', proxyStep w s = .ok w' → NothingDangles w'
  valid : proxyStep w s ≠ .error .useAfterFree

/-- The handler of the machine returns `x`, and a final state. -/
def EndsIn (c : Conn) (e : Event) (x : Conn) : Prop :=
  Selects c e ∧ c.freed = false ∧
    ∃ m ret, sessionHandler c e = .ok (m, x, ret) ∧ (ret = SessionState.error.toNat ∨ ret = SessionState.done.toNat)

/-- `close_session` runs in the step. -/
def Closes (w : Proxy) : ProxyStep → Prop
  | .event e => ∃ r ∈ w.sessions, ∃ x, EndsIn (w.conn r) e x
  | _ => False

/-- `close_session` runs in the step on a session that a registration other
than the client's carries. -/
def Abandons (w : Proxy) : ProxyStep → Prop
  | .event e =>
    ∃ r ∈ w.sessions, ∃ x, EndsIn (w.conn r) e x ∧
      ∃ n, n ≠ r.clientFd.toNat ∧ (x.sel.fds n).used = true ∧ (x.sel.fds n).data = some (.session r.self)
  | _ => False

/-! ## The invariant of the proxy -/

structure Kempt (w : Proxy) : Prop where
  fdSize : fdSetsize < w.process.sel.fdSize
  alive : ∀ r ∈ w.sessions, r.freed = false
  distinct : ∀ r ∈ w.sessions, ∀ r' ∈ w.sessions, r.self = r'.self → r = r'
  accepted : ∀ r ∈ w.sessions, .accept r.clientFd ∈ r.log
  carried : ∀ n a, (w.process.sel.fds n).used = true → (w.process.sel.fds n).data = some (.session a) →
    ∃ r ∈ w.sessions, r.self = a ∧ ClientCarried w.process.sel r

section
variable {w : Proxy}

theorem find_some {a : Nat} {r : Record} (h : w.find a = some r) : r ∈ w.sessions ∧ r.self = a := by
  refine ⟨List.mem_of_find?_eq_some h, ?_⟩
  simpa using List.find?_some h

theorem find_isSome {a : Nat} : (w.find a).isSome = true ↔ ∃ r ∈ w.sessions, r.self = a := by
  simp [Proxy.find, List.find?_isSome]

theorem find_of_mem (h : Kempt w) {r : Record} (hr : r ∈ w.sessions) : w.find r.self = some r := by
  obtain ⟨r', hr'⟩ := Option.isSome_iff_exists.mp (find_isSome.mpr ⟨r, hr, rfl⟩)
  rw [hr', h.distinct r' (find_some hr').1 r hr (find_some hr').2]

theorem called_some {e : Event} {a : Nat} (h : w.called e = some a) :
    (w.process.sel.fds e.fd).used = true ∧ (w.process.sel.fds e.fd).data = some (.session a) ∧
      (w.process.sel.fds e.fd).handler = some .client ∧ (w.process.sel.fds e.fd).interest.has e.ready = true := by
  unfold Proxy.called at h
  simp only at h
  split at h
  · rename_i hi
    split at h
    · rename_i hd
      cases h
      exact ⟨hi.1, hd, hi.2.1, hi.2.2⟩
    · cases h
  · cases h

theorem called_of_selects {e : Event} {r : Record} (h : Selects (w.conn r) e) : w.called e = some r.self := by
  obtain ⟨hu, hd, hh, hi⟩ := h
  have hd' : (w.process.sel.fds e.fd).data = some (.session r.self) := hd
  unfold Proxy.called
  simp only [hd']
  exact if_pos ⟨hu, hh, hi⟩

theorem nothingDangles_kempt (h : Kempt w) : NothingDangles w := by
  intro n a hu hd
  obtain ⟨r, hr, ha, -⟩ := h.carried n a hu hd
  exact find_isSome.mpr ⟨r, hr, ha⟩

theorem kempt_started (p : Started) : Kempt p.proxy where
  fdSize := p.fdSize_lt
  alive := fun _ hr => absurd hr List.not_mem_nil
  distinct := fun _ hr => absurd hr List.not_mem_nil
  accepted := fun _ hr => absurd hr List.not_mem_nil
  carried := fun n a hu hd => absurd hd (p.unknown n a hu)

theorem clientCarried_onlyAdds {d : Option Ptr} {sel sel' : Selector Handler Ptr} {r : Record}
    (h : ClientCarried sel r) (ho : OnlyAdds d sel sel') : ClientCarried sel' r :=
  ⟨h.1, (ho.kept _ h.2.1).1, (ho.kept _ h.2.1).2.trans h.2.2⟩

/-- A session that is new or has run a callback is put back among the others. -/
theorem kempt_put (h : Kempt w) {c : Conn} (hf : c.freed = false) (ha : .accept c.clientFd ∈ c.log)
    (hsel : OnlyAdds (some (.session c.self)) w.process.sel c.sel)
    (hc : ∀ n, (c.sel.fds n).used = true → (c.sel.fds n).data = some (.session c.self) →
      ClientCarried c.sel c.toRecord) : Kempt (w.put c) := by
  have hput : w.put c = ⟨c.toRecord :: w.sessions.filter
      fun r => decide (r.self ≠ c.self), w.closed, c.toProcess⟩ := by
    simp [Proxy.put, hf]
  have hmem : ∀ r ∈ (w.put c).sessions, r = c.toRecord ∨ (r ∈ w.sessions ∧ r.self ≠ c.self) := by
    intro r hr
    rw [hput] at hr
    simpa using hr
  refine ⟨?_, ?_, ?_, ?_, ?_⟩
  · rw [hput]; exact hsel.fdSize ▸ h.fdSize
  · intro r hr
    rcases hmem r hr with rfl | ⟨hr, -⟩
    · exact hf
    · exact h.alive r hr
  · intro r hr r' hr' he
    rcases hmem r hr with rfl | ⟨hr, hne⟩
    · rcases hmem r' hr' with rfl | ⟨-, hne'⟩
      · rfl
      · exact absurd he.symm hne'
    · rcases hmem r' hr' with rfl | ⟨hr', -⟩
      · exact absurd he hne
      · exact h.distinct r hr r' hr' he
  · intro r hr
    rcases hmem r hr with rfl | ⟨hr, -⟩
    · exact ha
    · exact h.accepted r hr
  · -- an entry that carries a session is one of before, or the one that has just been registered
    intro n a hu hd
    rw [hput] at hu hd ⊢
    by_cases hself : a = c.self
    · exact ⟨c.toRecord, List.mem_cons_self, hself.symm, hc n hu (by rw [← hself]; exact hd)⟩
    · rcases hsel.added n hu with hu' | hd'
      · have hd' := (hsel.kept n hu').2.symm.trans hd
        obtain ⟨r, hr, hra, hcar⟩ := h.carried n a hu' hd'
        refine ⟨r, List.mem_cons_of_mem _ (List.mem_filter.mpr ⟨hr, ?_⟩), hra, clientCarried_onlyAdds hcar hsel⟩
        simpa [hra] using hself
      · have := hd'.symm.trans hd
        simp only [Option.some.injEq, Ptr.session.injEq] at this
        exact absurd this.symm hself

theorem newConnection_kempt (h : Kempt w) {a : Allocation} (hnew : (w.find a.session).isSome = false) (fd : Int) :
    Kempt (w.put (newConnection w.process a fd)) := by
  have hsel : (newConnection w.process a fd).sel =
      (selectorRegister w.process.sel fd (some .client) opRead (some (.session a.session)) true).1 := rfl
  refine kempt_put h rfl (List.mem_singleton.mpr rfl) (onlyAdds_register h.fdSize _ _ _ _ _) fun n hu hd => ?_
  rw [hsel] at hu hd ⊢
  by_cases hr : (selectorRegister w.process.sel fd (some .client) opRead (some (.session a.session)) true).2 =
      .success
  · obtain ⟨hv, hun⟩ := selectorRegister_success h.fdSize hr
    have hle : fd.toNat ≤ w.process.sel.fdSize := by
      have := h.fdSize
      simp only [invalidFd, decide_eq_false_iff_not] at hv; omega
    obtain ⟨-, -, h3⟩ := selectorRegister_free hv hle hun Handler.client opRead (some (Ptr.session a.session)) true
    refine ⟨hv, ?_, ?_⟩
    · show ((selectorRegister _ fd _ _ _ _).1.fds fd.toNat).used = true
      rw [h3, Function.update_self]; exact used_of_valid hv
    · show ((selectorRegister _ fd _ _ _ _).1.fds fd.toNat).data = _
      rw [h3, Function.update_self]; rfl
  · rw [selectorRegister_refused h.fdSize _ _ _ _ hr] at hu hd
    obtain ⟨r, hm, ha, -⟩ := h.carried n _ hu hd
    exact absurd (hnew.symm.trans (find_isSome.mpr ⟨r, hm, ha⟩)) Bool.false_ne_true

theorem accept_kempt (h : Kempt w) (fd : Option Nat) (memory : Option Allocation) : Kempt (w.accept fd memory) := by
  unfold Proxy.accept
  cases memory with
  | none => exact h
  | some a =>
    simp only
    split
    · exact h
    · rename_i hnew
      rw [Bool.not_eq_true] at hnew
      split
      · exact newConnection_kempt h hnew _
      · exact newConnection_kempt h hnew _

theorem other_kempt (h : Kempt w) {fd : Int} {a : Action} (ho : ¬ w.Owns fd) (ha : a.ofSession = false) :
    Kempt { w with process := w.process.act fd a } := by
  obtain ⟨hs, hc⟩ := act_changedAt h.fdSize fd a
  have hdata : ∀ b, a.data ≠ some (.session b) := by
    intro b hb
    cases a with
    | register g i d =>
      simp only [Action.data, Option.some.injEq] at hb
      rw [hb] at ha; cases ha
    | _ => cases hb
  refine ⟨hs ▸ h.fdSize, h.alive, h.distinct, h.accepted, fun n b hu hd => ?_⟩
  have hbefore : (w.process.sel.fds n).used = true ∧ (w.process.sel.fds n).data = some (.session b) := by
    rcases hc n with he | ⟨-, he⟩
    · rw [he] at hu hd; exact ⟨hu, hd⟩
    · rcases he hu with he | ⟨hu', he⟩
      · exact absurd (he.symm.trans hd) (hdata b)
      · exact ⟨hu', he.symm.trans hd⟩
  obtain ⟨r, hr, hb, hv, hu', hd'⟩ := h.carried n b hbefore.1 hbefore.2
  have hne : r.clientFd ≠ fd := by
    intro hfd
    exact ho (Or.inl ⟨r, List.mem_append_left _ hr, Or.inl ⟨h.alive r hr, hfd.symm⟩⟩)
  have hkeep : (w.process.act fd a).sel.fds r.clientFd.toNat = w.process.sel.fds r.clientFd.toNat := by
    rcases hc r.clientFd.toNat with he | ⟨he, -⟩
    · exact he
    · refine absurd ?_ hne
      rw [← he]
      simp only [invalidFd, decide_eq_false_iff_not] at hv; omega
  exact ⟨r, hr, hb, hv, by rw [hkeep]; exact hu', by rw [hkeep]; exact hd'⟩

/-! ## An event -/

theorem carried_after {e : Event} {r : Record} {x : Conn} (h : Kempt w) (hr : r ∈ w.sessions)
    (hs : Selects (w.conn r) e) (hk : Kept (w.conn r) x) : ClientCarried x.sel x.toRecord := by
  obtain ⟨r', hr', ha', hcar⟩ := h.carried e.fd r.self hs.1 hs.2.1
  obtain rfl : r' = r := h.distinct r' hr' r hr ha'
  have := clientCarried_onlyAdds hcar (hk.sel h.fdSize)
  unfold ClientCarried at this ⊢
  rw [hk.clientFd, hk.self]; exact this

/-- In an event the callback goes on, or `close_session` runs. -/
theorem event_open {w' : Proxy} {e : Event} (h : Kempt w) (hs : proxyStep w (.event e) = .ok w') :
    (Kempt w' ∧ w'.closed = w.closed) ∨ Closes w (.event e) := by
  simp only [proxyStep] at hs
  cases hcall : w.called e with
  | none =>
    rw [hcall] at hs
    simp only [Except.ok.injEq] at hs
    exact Or.inl (hs ▸ ⟨h, rfl⟩)
  | some a =>
    rw [hcall] at hs
    simp only at hs
    cases hfind : w.find a with
    | none => rw [hfind] at hs; cases hs
    | some r =>
      obtain ⟨hr, hra⟩ := find_some hfind
      have hsel : Selects (w.conn r) e := by rw [← hra] at hcall; exact called_some hcall
      have hf : (w.conn r).freed = false := h.alive r hr
      rw [hfind] at hs
      simp only [dispatch_eq, if_pos hsel, hf, Bool.false_eq_true, ite_false] at hs
      cases hh : sessionHandler (w.conn r) e with
      | error f => rw [hh] at hs; cases hs
      | ok y =>
        obtain ⟨m, x, ret⟩ := y
        rw [hh] at hs
        simp only [afterHandler, Except.map, Except.ok.injEq] at hs
        -- `close_session` runs exactly after a callback that returns ERROR or DONE
        by_cases hend : ret = SessionState.error.toNat ∨ ret = SessionState.done.toNat
        · exact Or.inr ⟨r, hr, x, hsel, hf, m, ret, hh, hend⟩
        · left
          rw [if_neg hend] at hs
          subst hs
          have hkept := sessionHandler_kept hh
          have hfx : x.freed = false := hkept.freed.trans hf
          have hcarx : ClientCarried x.sel x.toRecord := carried_after h hr hsel hkept
          refine ⟨kempt_put h hfx ?_ ?_ fun _ _ _ => hcarx, by simp [Proxy.put, hfx]⟩
          · show Syscall.accept x.clientFd ∈ x.log
            rw [hkept.clientFd]
            exact hkept.log _ (h.accepted r hr)
          · show OnlyAdds (some (.session x.self)) w.process.sel x.sel
            rw [hkept.self]; exact hkept.sel h.fdSize

theorem closes_step {e : Event} {r : Record} {x : Conn} (h : Kempt w) (hr : r ∈ w.sessions)
    (he : EndsIn (w.conn r) e x) :
    ∃ w' r', proxyStep w (.event e) = .ok w' ∧ w'.closed = r' :: w.closed ∧ r'.clientFd = r.clientFd ∧
      r'.self = r.self ∧ r'.log = x.log ++ [.close r.clientFd, .close r.clientFd] ∧
      w'.sessions = w.sessions.filter (fun r₁ => decide (r₁.self ≠ r.self)) ∧
      w'.process.sel.fdSize = w.process.sel.fdSize ∧
      w'.process.sel.fds = Function.update x.sel.fds r.clientFd.toNat .blank := by
  obtain ⟨hsel, hf, m, ret, hh, hend⟩ := he
  have hkept := sessionHandler_kept hh
  have hadds := hkept.sel h.fdSize
  have hcarx := carried_after h hr hsel hkept
  have hclose := closeSession_carried (c := { x with sMachine := m }) hcarx
  obtain ⟨h1, h2, -, h4, h5, h6⟩ := hclose
  obtain ⟨-, hs2, hs3⟩ := selectorUnregisterFd_used hcarx.1 hcarx.2.1
  have hself : x.self = r.self := hkept.self
  have hfd : x.clientFd = r.clientFd := hkept.clientFd
  refine ⟨w.put (closeSession { x with sMachine := m }), (closeSession { x with sMachine := m }).toRecord, ?_, ?_,
    h2.trans hfd, h5.trans hself, ?_, ?_, ?_, ?_⟩
  · simp only [proxyStep, called_of_selects hsel, find_of_mem h hr, dispatch_eq, if_pos hsel, hf, hh, afterHandler,
      if_pos hend, Bool.false_eq_true, ite_false, Except.map]
  · simp only [Proxy.put, h1, ite_true]
  · rw [h4]; show x.log ++ [.close x.clientFd, .close x.clientFd] = _; rw [hfd]
  · simp only [Proxy.put, h1, ite_true, h5]
    show (w.sessions.filter fun r₁ => decide (r₁.self ≠ x.self)) = _
    rw [hself]
  · simp only [Proxy.put, h1, ite_true]
    show (closeSession { x with sMachine := m }).sel.fdSize = _
    rw [h6]; exact hs2.trans hadds.fdSize
  · simp only [Proxy.put, h1, ite_true]
    show (closeSession { x with sMachine := m }).sel.fds = _
    rw [h6, ← hfd]; exact hs3

theorem step_open {s : ProxyStep} {w' : Proxy} (h : Kempt w) (hc : ¬ Closes w s) (hs : proxyStep w s = .ok w') :
    Kempt w' ∧ w'.closed = w.closed := by
  cases s with
  | accept fd memory =>
    cases hs
    refine ⟨accept_kempt h fd memory, ?_⟩
    have hput : ∀ a fd, (w.put (newConnection w.process a fd)).closed = w.closed := fun _ _ => rfl
    unfold Proxy.accept
    cases memory with
    | none => rfl
    | some a =>
      simp only
      split
      · rfl
      · split <;> exact hput _ _
  | event e =>
    exact (event_open h hs).resolve_right hc
  | other fd a =>
    simp only [proxyStep, Except.ok.injEq] at hs
    split at hs
    · exact hs ▸ ⟨h, rfl⟩
    · rename_i ho
      rw [not_or, Bool.not_eq_true] at ho
      exact hs ▸ ⟨other_kempt h ho.1 ho.2, rfl⟩

/-- While the invariant holds no event is of a session that has been freed. -/
theorem step_valid (h : Kempt w) (s : ProxyStep) : proxyStep w s ≠ .error .useAfterFree := by
  cases s with
  | accept fd memory => simp [proxyStep]
  | other fd a => simp [proxyStep]
  | event e =>
    simp only [proxyStep]
    cases hcall : w.called e with
    | none => simp
    | some a =>
      obtain ⟨hu, hd, -⟩ := called_some hcall
      obtain ⟨r, hr⟩ := Option.isSome_iff_exists.mp (nothingDangles_kempt h e.fd a hu hd)
      have hf : (w.conn r).freed = false := h.alive r (find_some hr).1
      have hv := sessionHandler_valid (w.conn r) e
      simp only [hr, dispatch_eq, hf, Bool.false_eq_true, ite_false]
      split
      · cases hh : sessionHandler (w.conn r) e with
        | error f =>
          rw [hh] at hv
          simpa [afterHandler, Except.map] using hv
        | ok x => simp [afterHandler, Except.map]
      · simp [Except.map]

/-! ## What is left of a closed session -/

theorem step_cleansUp (h : Kempt w) (s : ProxyStep) : CleansUp w s ↔ ¬ Closes w s := by
  constructor
  · intro hc hcl
    cases s with
    | accept fd memory => exact hcl
    | other fd a => exact hcl
    | event e =>
      obtain ⟨r, hr, x, he⟩ := hcl
      obtain ⟨w', r', hs, hclosed, hfd, -, hlog, -⟩ := closes_step h hr he
      obtain ⟨hsel, -, m, ret, hh, -⟩ := he
      have hkept := sessionHandler_kept hh
      have hacc : .accept r.clientFd ∈ x.log := hkept.log _ (h.accepted r hr)
      have hne : r.clientFd ≠ -1 := by
        have hv := (carried_after h hr hsel hkept).1
        rw [hkept.clientFd] at hv
        rintro heq
        rw [show (w.conn r).clientFd = r.clientFd from rfl, heq] at hv
        cases hv
      have hopen : r.clientFd ∈ openedFor r'.log :=
        List.mem_filterMap.mpr
          ⟨.accept r.clientFd, by rw [hlog]; exact List.mem_append_left _ hacc, by simp [Syscall.opens, hne]⟩
      have := (hc.cleaned w' r' hs hclosed).closed _ hopen
      rw [hlog, List.count_append] at this
      simp at this
  · intro hc
    refine ⟨fun w' r hs hcl => ?_, fun w' hs => nothingDangles_kempt (step_open h hc hs).1, step_valid h s⟩
    have := congrArg List.length ((step_open h hc hs).2.symm.trans hcl)
    simp at this

/-- In every run sessions are cleaned up exactly as long as none is closed. -/
theorem cleansUp_iff (p : Started) (es : List ProxyStep) :
    Along proxyStep CleansUp p.proxy es ↔ Along proxyStep (fun w s => ¬ Closes w s) p.proxy es :=
  along_iff (fun _ s h => step_cleansUp h s) (fun _ _ _ h hc hs => (step_open h hc hs).1) es (kempt_started p)

/-- A client that goes away between its connection to the origin and the reply. -/
def abandonedEvents : List ProxyStep :=
  [.accept (some 5) (some firstAccepted.memory),
    .event ⟨5, .read, { Answers.failed with recv := .data [0x05, 1, 0x00] }⟩,
    .event ⟨5, .write, { Answers.failed with send := .accepted 2 }⟩,
    .event ⟨5, .read, { Answers.failed with
      recv := .data [0x05, 0x01, 0x00, 0x01, 127, 0, 0, 1, 0, 80], socket := some 6, fcntl := true
      connect := some EINPROGRESS }⟩,
    .event ⟨6, .write, { Answers.failed with getsockopt := some 0 }⟩,
    .event ⟨5, .write, .failed⟩]

/-- The origin's answer finds the session freed. -/
theorem abandoned_not_cleansUp :
    ¬ Along proxyStep CleansUp firstStarted.proxy
      (abandonedEvents ++ [.event ⟨6, .read, { Answers.failed with recv := .data [43] }⟩]) := by
  intro h
  have hr : run proxyStep firstStarted.proxy abandonedEvents =
      .ok (final proxyStep firstStarted.proxy abandonedEvents) := run_final (by decide +kernel)
  exact (along_last h hr).valid rfl

/-! ## The registrations that are left -/

theorem step_kempt {s : ProxyStep} {w' : Proxy} (h : Kempt w) (ha : ¬ Abandons w s) (hs : proxyStep w s = .ok w') :
    Kempt w' := by
  by_cases hc : Closes w s
  · cases s with
    | accept fd memory => exact hc.elim
    | other fd a => exact hc.elim
    | event e =>
      obtain ⟨r, hr, x, he⟩ := hc
      obtain ⟨w₁, r', hs₁, -, -, -, -, hsess, hsize, hfds⟩ := closes_step h hr he
      obtain rfl : w₁ = w' := Except.ok.inj (hs₁.symm.trans hs)
      obtain ⟨-, -, m, ret, hh, -⟩ := id he
      have hadds := (sessionHandler_kept hh).sel h.fdSize
      have hmem : ∀ r₁, r₁ ∈ w₁.sessions ↔ r₁ ∈ w.sessions ∧ r₁.self ≠ r.self := by
        intro r₁; rw [hsess]; simp
      refine ⟨hsize ▸ h.fdSize, fun r₁ h₁ => h.alive r₁ ((hmem r₁).mp h₁).1, fun r₁ h₁ r₂ h₂ =>
        h.distinct r₁ ((hmem r₁).mp h₁).1 r₂ ((hmem r₂).mp h₂).1, fun r₁ h₁ => h.accepted r₁ ((hmem r₁).mp h₁).1,
          ?_⟩
      intro n a hu hd
      rw [hfds] at hu hd
      by_cases hn : n = r.clientFd.toNat
      · rw [hn, Function.update_self, used_blank] at hu; cases hu
      · rw [Function.update_of_ne hn] at hu hd
        -- an entry of the freed session that is left would be the origin's, which `ha` excludes
        by_cases hself : a = r.self
        · exact absurd ⟨r, hr, x, he, n, hn, hu, hself ▸ hd⟩ ha
        · rcases hadds.added n hu with hu' | hd'
          · obtain ⟨r₁, hr₁, ha₁, hcar⟩ := h.carried n a hu' ((hadds.kept n hu').2.symm.trans hd)
            refine ⟨r₁, (hmem r₁).mpr ⟨hr₁, ha₁ ▸ hself⟩, ha₁, ?_⟩
            obtain ⟨hv, hu₁, hd₁⟩ := clientCarried_onlyAdds hcar hadds
            have hne : r₁.clientFd.toNat ≠ r.clientFd.toNat := by
              intro heq
              have hd₂ := (carried_after h hr he.1 (sessionHandler_kept hh)).2.2
              rw [(sessionHandler_kept hh).clientFd, (sessionHandler_kept hh).self] at hd₂
              rw [heq] at hd₁
              have := Ptr.session.inj (Option.some.inj (hd₁.symm.trans hd₂))
              exact hself (ha₁.symm.trans this)
            unfold ClientCarried
            rw [hfds, Function.update_of_ne hne]
            exact ⟨hv, hu₁, hd₁⟩
          · exact absurd (Ptr.session.inj (Option.some.inj (hd'.symm.trans hd))).symm hself
  · exact (step_open h hc hs).1

/-- A step that leaves no registration of a freed session behind, and is not an event of one. -/
def KeepsLive (w : Proxy) (s : ProxyStep) : Prop :=
  (∀ w', proxyStep w s = .ok w' → NothingDangles w') ∧ proxyStep w s ≠ .error .useAfterFree

theorem step_keepsLive (h : Kempt w) (s : ProxyStep) : KeepsLive w s ↔ ¬ Abandons w s := by
  constructor
  · intro hk ha
    cases s with
    | accept fd memory => exact ha
    | other fd a => exact ha
    | event e =>
      obtain ⟨r, hr, x, he, n, hn, hu, hd⟩ := ha
      obtain ⟨w', r', hs, -, -, -, -, hsess, -, hfds⟩ := closes_step h hr he
      have := hk.1 w' hs n r.self (by rw [hfds, Function.update_of_ne hn]; exact hu)
        (by rw [hfds, Function.update_of_ne hn]; exact hd)
      obtain ⟨r₁, h₁, ha₁⟩ := find_isSome.mp this
      rw [hsess, List.mem_filter, decide_eq_true_eq] at h₁
      exact h₁.2 ha₁
  · exact fun ha => ⟨fun w' hs => nothingDangles_kempt (step_kempt h ha hs), step_valid h s⟩

/-- The registrations stay those of live sessions as long as no session is
closed that is registered for its origin too. -/
theorem nothingDangles_iff (p : Started) (es : List ProxyStep) :
    Along proxyStep KeepsLive p.proxy es ↔ Along proxyStep (fun w s => ¬ Abandons w s) p.proxy es :=
  along_iff (fun _ s h => step_keepsLive h s) (fun _ _ _ h ha hs => step_kempt h ha hs) es (kempt_started p)

end

end SocksProxy
