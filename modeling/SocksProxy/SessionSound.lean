import SocksProxy.CopySound

/-!
# Every step of a session keeps the invariant
-/

namespace SocksProxy

open Lib

@[simp] theorem has_opRead (r : Readiness) : opRead.has r = true ↔ r = .read := by cases r <;> decide

@[simp] theorem has_opWrite (r : Readiness) : opWrite.has r = true ↔ r = .write := by cases r <;> decide

@[simp] theorem has_opNoop (r : Readiness) : opNoop.has r = false := by cases r <;> rfl

section
variable {c : Conn} {fd : Nat} {st : SessionState} {e : Event}

/-! ## What the callbacks return -/

/-- The states that the callback of a state may return, AUTH_READ apart. -/
def nextStates : SessionState → List SessionState
  | .helloRead => [.helloRead, .helloWrite, .error]
  | .helloWrite => [.helloWrite, .requestRead, .error]
  | .requestRead => [.requestRead, .requestConnecting, .requestWrite, .error]
  | .requestConnecting => [.requestConnecting, .requestWrite]
  | .requestWrite => [.requestWrite, .copy, .error]
  | .copy => [.copy, .done]
  | _ => []

theorem helloRead_next (k : Key) (c : Conn) : (helloRead k c).2 ∈ nextStates .helloRead := by
  unfold helloRead
  split
  · simp [nextStates]
  · simp only
    split
    · simp [nextStates]
    · unfold helloConsumed helloProcess
      simp only [nextStates, List.mem_cons]
      grind

theorem helloWrite_next {k : Key} {c : Conn} (ha : (helloWrite k c).2 ≠ .authRead) :
    (helloWrite k c).2 ∈ nextStates .helloWrite := by
  unfold helloWrite at ha ⊢
  simp only [nextStates, List.mem_cons]
  grind

theorem readOutcome_next {k : Key} {c : Conn} {ms h : List UInt8} {r : Conn × SessionState}
    (ho : ReadOutcome k c fd ms h r) : r.2 ∈ nextStates .requestRead := by
  cases ho with
  | ended | more => simp [nextStates]
  | complete r c₁ q complete outcome =>
    cases outcome with
    | unsupported | domain => simp [nextStates]
    | connect r cmd atyp c₂ outcome => cases outcome <;> simp [nextStates]

theorem writeOutcome_next {k : Key} {ms h q : List UInt8} {m : Nat} {j : FdInterest} {r : Conn × SessionState}
    (ho : WriteOutcome k fd ms h q m j r) : r.2 ∈ nextStates .requestWrite := by
  cases ho <;> simp [nextStates]

/-! ## From a callback to a step -/

theorem goes_toNat {k : Key} {r : Conn × SessionState} (h : Goes k fd st r) :
    r.2.toNat ≤ SessionState.done.toNat := by
  rcases h with ⟨hr | hr, -⟩ | hp
  · rw [hr]; decide
  · rw [hr]
  · generalize r.2 = s at hp
    cases hp <;> decide

theorem callbackStep_ok {g : Key → Conn → Except Fault (Conn × Nat)} {r : Conn × SessionState}
    (hh : handlerOf st e.ready = some g) (hg : g e.key c = .ok (r.1, r.2.toNat)) (hgo : Goes e.key fd st r) :
    callbackStep c st e = .ok (settle e.key st r.1 r.2.toNat) := by
  unfold callbackStep
  simp only [hh, hg]
  rw [if_neg (Nat.not_lt.mpr (goes_toNat hgo))]

theorem callbackStep_none (hh : handlerOf st e.ready = none) :
    callbackStep c st e = .error (noHandler e.ready) := by
  simp only [callbackStep, hh]

/-- What an event selected by the selector can do in a state. -/
def Leads (c : Conn) (fd : Nat) (st : SessionState) (e : Event) : Prop :=
  (∃ g r, handlerOf st e.ready = some g ∧ g e.key c = .ok (r.1, r.2.toNat) ∧ Goes e.key fd st r ∧
      r.2 ∈ nextStates st) ∨
    handlerOf st e.ready = none ∨
      (st = .helloWrite ∧ e.fd = fd ∧ e.ready = .write ∧ (helloWrite e.key c).2 = .authRead)

theorem leads_returning {f : Key → Conn → Conn × SessionState} (hh : handlerOf st e.ready = some (returning f))
    (hg : Goes e.key fd st (f e.key c)) (hn : (f e.key c).2 ∈ nextStates st) : Leads c fd st e :=
  Or.inl ⟨_, _, hh, rfl, hg, hn⟩

theorem callbackStep_authRead (hh : handlerOf .helloWrite e.ready = some (returning helloWrite))
    (ha : (helloWrite e.key c).2 = .authRead) : callbackStep c .helloWrite e = .error .badTransition := by
  unfold callbackStep
  simp only [hh, returning, ha]
  exact if_pos (by decide)

theorem key_client (he : e.fd = fd) : e.key.fd = fd := congrArg Nat.cast he

theorem selects_opRead (live : Live c fd opRead none) (hs : Selects c e) : e.fd = fd ∧ e.ready = .read := by
  rcases selects_live live hs with ⟨he, hr⟩ | ⟨j, hj, -⟩
  · exact ⟨he, (has_opRead _).mp hr⟩
  · cases hj

theorem selects_opWrite (live : Live c fd opWrite none) (hs : Selects c e) : e.fd = fd ∧ e.ready = .write := by
  rcases selects_live live hs with ⟨he, hr⟩ | ⟨j, hj, -⟩
  · exact ⟨he, (has_opWrite _).mp hr⟩
  · cases hj

theorem selects_waiting {m : Nat} (live : Live c fd opNoop (some (m, opWrite))) (hs : Selects c e) :
    e.fd = m ∧ e.ready = .write := by
  rcases selects_live live hs with ⟨he, hr⟩ | ⟨j, hj, hr⟩
  · rw [has_opNoop] at hr; cases hr
  · obtain ⟨rfl, rfl⟩ := Prod.mk.inj (Option.some.inj hj)
    exact ⟨rfl, (has_opWrite _).mp hr⟩

theorem selects_copying {i j : FdInterest} {m : Nat} (live : Live c fd i (some (m, j))) (hs : Selects c e) :
    ∃ s, e.key.fd = c.copyFd s := by
  rcases selects_live live hs with ⟨he, -⟩ | ⟨j', hj, -⟩
  · exact ⟨.client, (key_client he).trans (copyFd_client live).symm⟩
  · obtain ⟨rfl, rfl⟩ := Prod.mk.inj (Option.some.inj hj)
    exact ⟨.server, (copyFd_server live).symm⟩

/-- An event in COPY: the callback relays on one side, and ends in COPY or in DONE. -/
theorem copy_event {ms h q : List UInt8} {i j : FdInterest} {m : Nat} (live : Live c fd i (some (m, j)))
    (r : Copying c ms h q) (hs : Selects c e) :
    ∃ g s d r', handlerOf .copy e.ready = some g ∧ e.key.fd = c.copyFd s ∧ Relaying c d fd m ∧
      copyFinish d s = .ok r' ∧ g e.key c = .ok (r'.1, r'.2.toNat) ∧ Goes e.key fd .copy r' ∧
      (r'.2 = .copy ∨ r'.2 = .done) := by
  obtain ⟨s, hk⟩ := selects_copying live hs
  have hend : ∀ d, Relaying c d fd m → ∃ r', copyFinish d s = .ok r' ∧ Goes e.key fd .copy r' ∧
      (r'.2 = .copy ∨ r'.2 = .done) := by
    intro d hd
    obtain ⟨sel, st, h1, h2, h3, -⟩ := copyFinish_goes (k := e.key) (hd.live i j live) (hd.copying ms h q r) s
    exact ⟨_, h1, h2, h3⟩
  cases hr : e.ready with
  | read =>
    obtain ⟨d, hread, hd⟩ := copyRead_relaying live hk
    obtain ⟨r', h1, h2, h3⟩ := hend d hd
    exact ⟨mayFault copyRead, s, d, r', rfl, hk, hd, h1, by rw [mayFault, hread, h1]; rfl, h2, h3⟩
  | write =>
    obtain ⟨d, hwrite, hd⟩ := copyWrite_relaying live hk
    obtain ⟨r', h1, h2, h3⟩ := hend d hd
    exact ⟨mayFault copyWrite, s, d, r', rfl, hk, hd, h1, by rw [mayFault, hwrite, h1]; rfl, h2, h3⟩

theorem phase_leads (h : Phase c fd st) (hs : Selects c e) : Leads c fd st e := by
  cases h with
  | helloRead live r =>
    obtain ⟨he, hr⟩ := selects_opRead live hs
    exact leads_returning (by rw [hr]; rfl) (helloRead_goes live r (key_client he)) (helloRead_next _ _)
  | helloWrite ms h live w =>
    obtain ⟨he, hr⟩ := selects_opWrite live hs
    have hh : handlerOf .helloWrite e.ready = some (returning helloWrite) := by rw [hr]; rfl
    by_cases ha : (helloWrite e.key c).2 = .authRead
    · exact Or.inr (Or.inr ⟨rfl, he, hr, ha⟩)
    · exact leads_returning hh (helloWrite_goes live w (key_client he) ha) (helloWrite_next ha)
  | requestRead ms h u live g r =>
    obtain ⟨he, hr⟩ := selects_opRead live hs
    have ho := requestRead_outcome live g r (key_client he)
    exact leads_returning (by rw [hr]; rfl) (requestRead_goes ho) (readOutcome_next ho)
  | connecting ms h q m live g connect carries status =>
    obtain ⟨he, hr⟩ := selects_waiting live hs
    have hh : handlerOf .requestConnecting e.ready = some (returning requestConnecting) := by rw [hr]; rfl
    cases hso : e.key.sys.getsockopt with
    | none =>
      obtain ⟨c', hc', -, hp⟩ := requestConnecting_waiting live g connect carries status hso
      exact leads_returning hh (hc' ▸ goes_stay hp) (by rw [hc']; simp [nextStates])
    | some error =>
      obtain ⟨c', hc', hl, hr, -⟩ := requestConnecting_settled live g connect carries status hso
      exact leads_returning hh (hc' ▸ goes_to (by decide) (.replying ms h q m opRead (Or.inr rfl) hl hr))
        (by rw [hc']; simp [nextStates])
  | stuck ms h q live g request server =>
    obtain ⟨-, hr⟩ := selects_opRead live hs
    exact Or.inr (Or.inl (by rw [hr]; rfl))
  | unsupported ms h q live g request =>
    obtain ⟨-, hr⟩ := selects_opRead live hs
    exact Or.inr (Or.inl (by rw [hr]; rfl))
  | replying ms h q m j hj live r =>
    -- the reply is sent on, or the origin is ready before all of it is out
    rcases selects_live live hs with ⟨he, hr⟩ | ⟨j', hj', hr⟩
    · have hw := (has_opWrite _).mp hr
      have ho := requestWrite_outcome live r (key_client he)
      exact leads_returning (by rw [hw]; rfl) (requestWrite_goes hj ho) (writeOutcome_next ho)
    · obtain ⟨-, rfl⟩ := Prod.mk.inj (Option.some.inj hj')
      rcases hj with rfl | rfl
      · rw [has_opNoop] at hr; cases hr
      · have hr' := (has_opRead _).mp hr
        exact Or.inr (Or.inl (by rw [hr']; rfl))
  | copying ms h q i m j live r =>
    obtain ⟨g, -, -, r', hh, -, -, -, hg, hgo, hr⟩ := copy_event live r hs
    refine Or.inl ⟨g, r', hh, hg, hgo, ?_⟩
    rcases hr with hr | hr
    · rw [hr]; decide
    · rw [hr]; decide

theorem stmState_inState (h : InState c st) : stmState c.sMachine = st.toNat := by
  rcases h with h | ⟨h, rfl, -⟩
  · rw [h]; rfl
  · rw [h]; rfl

theorem phase_live (hp : Phase c fd st) : ∃ i o, Live c fd i o := by
  cases hp with
  | helloRead live | helloWrite _ _ live | requestRead _ _ _ live | connecting _ _ _ _ live | stuck _ _ _ live
  | unsupported _ _ _ live | replying _ _ _ _ _ _ live | copying _ _ _ _ _ _ live => exact ⟨_, _, live⟩

theorem phase_not_final (h : Phase c fd st) : st ≠ .error ∧ st ≠ .done := by cases h <;> decide

theorem settle_kept {k : Key} {c' : Conn} {st' : SessionState} (hne : st'.toNat ≠ st.toNat)
    (hst' : st' = .requestConnecting ∨ st' = .requestWrite) :
    settle k st c' st'.toNat = { c' with sMachine := { stmCreate with current := some st'.toNat } } := by
  unfold settle
  rcases hst' with rfl | rfl
  · rw [if_neg hne]; rfl
  · rw [if_neg hne]; rfl

/-! ## The invariant -/

theorem dispatch_inv {c' : Conn} (h : Inv c) (hd : dispatch c e = .ok c') : Inv c' := by
  rcases h with hf | ⟨fd, st, hst, hp⟩
  · rcases dispatch_freed hf e with h | h
    · rw [h] at hd; cases hd
    · rw [h, Except.ok.injEq] at hd; exact hd ▸ Or.inl hf
  · by_cases hf : c.freed = true
    · rcases dispatch_freed hf e with h | h
      · rw [h] at hd; cases hd
      · rw [h, Except.ok.injEq] at hd; exact hd ▸ Or.inl hf
    · rw [dispatch_inState hst (Bool.eq_false_iff.mpr hf)] at hd
      by_cases hs : Selects c e
      · rw [if_pos hs] at hd
        rcases phase_leads hp hs with ⟨g, r, hh, h, hg, -⟩ | h | ⟨rfl, -, hr, ha⟩
        · rw [callbackStep_ok hh h hg, Except.ok.injEq] at hd
          subst hd
          rcases settle_goes (phase_not_final hp) hg with hfr | ⟨h1, h2⟩
          · exact Or.inl hfr
          · exact Or.inr ⟨fd, _, h1, h2⟩
        · rw [callbackStep_none h] at hd; cases hd
        · rw [callbackStep_authRead (by rw [hr]; rfl) ha] at hd; cases hd
      · rw [if_neg hs, Except.ok.injEq] at hd
        exact hd ▸ Or.inr ⟨fd, st, hst, hp⟩

theorem step_inv (c : Conn) (s : Step) (c' : Conn) (h : Inv c) (hs : step c s = .ok c') : Inv c' := by
  cases s with
  | event e => exact dispatch_inv h hs
  | other x a =>
    simp only [step, Except.ok.injEq] at hs
    subst hs
    split
    · exact h
    · rename_i hno
      rw [not_or] at hno
      rcases h with hf | ⟨fd, st, hst, hp⟩
      · exact Or.inl hf
      · exact Or.inr ⟨fd, st, hst, phase_other hp hno.1 hno.2⟩

theorem accepted_inv (a : Accepted) : Inv a.conn := by
  have hreg :
      (selectorRegister a.process.sel a.fd (some .client) opRead (some (.session a.memory.session)) true).2 =
        .success ∧
      Entries (selectorRegister a.process.sel a.fd (some .client) opRead (some (.session a.memory.session)) true).1
        a.memory.session a.fd opRead none := by
    have hle : (a.fd : Int).toNat ≤ a.process.sel.fdSize := by
      have := a.fd_lt
      have := a.fdSize_lt
      rw [Int.toNat_natCast]; omega
    obtain ⟨h1, h2, h3⟩ := selectorRegister_free (invalidFd_of_lt a.fd_lt) hle
      (by rw [Int.toNat_natCast]; exact a.unused) Handler.client opRead (some (Ptr.session a.memory.session)) true
    rw [Int.toNat_natCast] at h3
    refine ⟨h1, h2 ▸ a.fdSize_lt, a.fd_lt, by rw [h3, Function.update_self]; rfl, by simp, ?_⟩
    intro n hn hd
    by_cases hnf : n = a.fd
    · exact Or.inl hnf
    · rw [h3, Function.update_of_ne hnf] at hn hd
      exact absurd hd (a.unknown n hn)
  have hfd : ¬ (a.fd : Int) = -1 := by omega
  have hopen : (a.fd : Int) ∈ a.conn.openFds := by
    simp only [Accepted.conn, newConnection, Conn.register, hfd, ite_false]; exact List.mem_cons_self
  refine Or.inr ⟨a.fd, .helloRead, Or.inr ⟨rfl, rfl, rfl⟩, .helloRead ?_ ?_⟩
  · exact ⟨rfl, rfl, hopen, hreg.2, by simp, rfl, a.memory.length_input, a.memory.length_output⟩
  · have hroom : bufferWritePtr (bufferInit a.memory.output) = outputBufferSize := a.memory.length_output
    have hquiet : Quiet a.conn.clientFd a.conn.log := fun _ _ => ⟨rfl, rfl⟩
    have hto : a.conn.toClient = [] := unread_init a.memory.output
    exact ⟨rfl, trivial, unread_init a.memory.input, hto, hroom, hquiet, rfl⟩

theorem run_inv (a : Accepted) {es : List Step} {c : Conn} (hr : run step a.conn es = .ok c) : Inv c :=
  run_invariant step_inv (accepted_inv a) hr

theorem inState_current (h : InState c st) (hne : st ≠ .helloRead) : c.sMachine.current = some st.toNat := by
  rcases h with h | ⟨-, h, -⟩
  · rw [h]
  · exact absurd h hne

theorem inState_of_current {st' : SessionState} (h : InState c st) (hc : c.sMachine.current = some st'.toNat) :
    st = st' := by
  rcases h with h | ⟨h, -, -⟩
  · rw [h] at hc; exact toNat_inj (Option.some.inj hc)
  · rw [h] at hc; cases hc

theorem inv_phase (h : Inv c) (hf : c.freed = false) (hc : c.sMachine.current = some st.toNat) :
    ∃ fd, InState c st ∧ Phase c fd st := by
  rcases h with h | ⟨fd, st', hst, hp⟩
  · rw [hf] at h; cases h
  · obtain rfl := inState_of_current hst hc
    exact ⟨fd, hst, hp⟩

end

end SocksProxy
