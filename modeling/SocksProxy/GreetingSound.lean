import SocksProxy.SessionSound

/-!
# The hello and what follows it

A client that offers the method 02 is sent on to AUTH_READ, which the table of
the session machine does not have (`jumps_iff`). A client that offers neither 02 nor
00 is answered with the byte the session's memory was filled with
(`helloAnswered_iff`).
-/

namespace SocksProxy

open Lib

/-! ## The states returned -/

/-- The callback that runs for the event returns the state `ret`. -/
def Returns (c : Conn) (e : Event) (ret : Nat) : Prop :=
  c.freed = false ∧ Selects c e ∧
    ∃ x, callback sessionStateDef (onReady e.ready) (noHandler e.ready)
      (handleFirst sessionStateDef c.sMachine e.key c).1 e.key (handleFirst sessionStateDef c.sMachine e.key c).2 =
        .ok (x, ret)

/-- Every state returned is one of the machine's that `stm_map` has filled. -/
def JumpsInTable (c : Conn) : Step → Prop
  | .event e => ∀ ret, Returns c e ret → ret ≤ c.sMachine.maxState ∧ (entry sessionStateDef ret).state = ret
  | .other _ _ => True

/-- The client's hello offers a method. -/
def Offers (c : Conn) (m : UInt8) : Prop :=
  ∃ ms h r, IsHello ms h ∧ receivedOn c.clientFd c.log = h ++ r ∧ m ∈ ms

/-- The step does not send the last byte of the answer to a hello that offers 02. -/
def NoAuth (c : Conn) : Step → Prop
  | .event e =>
    c.freed = false → Selects c e → c.sMachine.current = some SessionState.helloWrite.toNat →
      Drains c.output e.sys.send → ¬ Offers c methodUsernamePassword
  | .other _ _ => True

section
variable {c : Conn} {fd : Nat} {st : SessionState} {e : Event}

theorem entry_state {i : Nat} (h : i ≤ SessionState.done.toNat) : (entry sessionStateDef i).state = i := by
  match i, h with
  | 0, _ | 1, _ | 2, _ | 3, _ | 4, _ | 5, _ | 6, _ | 7, _ => rfl
  | i + 8, h => exact absurd h (by simp [SessionState.toNat])

theorem returns_inState (h : InState c st) (hf : c.freed = false) (hs : Selects c e) (ret : Nat) :
    Returns c e ret ↔ ∃ g x, handlerOf st e.ready = some g ∧ g e.key c = .ok (x, ret) := by
  have hh : onReady e.ready (entry sessionStateDef st.toNat) = handlerOf st e.ready := by cases e.ready <;> rfl
  unfold Returns callback
  simp only [handleFirst_inState h, stmState, Option.getD_some, hh, hf, hs, true_and]
  cases handlerOf st e.ready with
  | none => simp
  | some g => simp

theorem maxState_inState (h : InState c st) : c.sMachine.maxState = SessionState.done.toNat := by
  rcases h with h | ⟨h, -, -⟩
  · rw [h]; rfl
  · rw [h]; rfl

theorem offers_helloWriting {ms h : List UInt8} (w : HelloWriting c ms h) (m : UInt8) : Offers c m ↔ m ∈ ms := by
  constructor
  · rintro ⟨ms', h', r, hello, hr, hm⟩
    obtain ⟨rfl, -, -⟩ := isHello_unique w.hello hello (w.received.symm.trans hr)
    exact hm
  · exact fun hm => ⟨ms, h, _, w.hello, w.received, hm⟩

/-- A callback whose result stays in a phase returns a state of the table. -/
theorem jumps_goes {g : Key → Conn → Except Fault (Conn × Nat)} {r : Conn × SessionState} (h : InState c st)
    (hf : c.freed = false) (hs : Selects c e) (hh : handlerOf st e.ready = some g)
    (hg : g e.key c = .ok (r.1, r.2.toNat)) (hgo : Goes e.key fd st r) : JumpsInTable c (.event e) := by
  intro ret hret
  obtain ⟨g', x, hh', hg'⟩ := (returns_inState h hf hs ret).mp hret
  rw [hh, Option.some.injEq] at hh'
  subst hh'
  rw [hg, Except.ok.injEq, Prod.mk.injEq] at hg'
  rw [maxState_inState h, ← hg'.2]
  exact ⟨goes_toNat hgo, entry_state (goes_toNat hgo)⟩

theorem helloWrite_jumps {ms h : List UInt8} (hst : InState c .helloWrite) (live : Live c fd opWrite none)
    (w : HelloWriting c ms h) (hf : c.freed = false) (hs : Selects c e) :
    (JumpsInTable c (.event e) ↔ NoAuth c (.event e)) ∧
      (NoAuth c (.event e) → callbackStep c .helloWrite e ≠ .error .badTransition) := by
  obtain ⟨he, hr⟩ := selects_opWrite live hs
  have hh : handlerOf .helloWrite e.ready = some (returning helloWrite) := by rw [hr]; rfl
  have hno : NoAuth c (.event e) ↔ (helloWrite e.key c).2 ≠ .authRead := by
    rw [Ne, helloWrite_authRead live w (key_client he), not_and]
    constructor
    · exact fun hn hd hm => hn hf hs (inState_current hst (by decide)) hd ((offers_helloWriting w _).mpr hm)
    · exact fun hn _ _ _ hd ho => hn hd ((offers_helloWriting w _).mp ho)
  rw [hno]
  by_cases ha : (helloWrite e.key c).2 = .authRead
  · refine ⟨⟨fun hj => ?_, fun hn => absurd ha hn⟩, fun hn => absurd ha hn⟩
    have := (hj SessionState.authRead.toNat ((returns_inState hst hf hs _).mpr ⟨_, _, hh, by rw [returning, ha]⟩)).1
    rw [maxState_inState hst] at this
    exact absurd this (by decide)
  · have hgo := helloWrite_goes live w (key_client he) ha
    refine ⟨⟨fun _ => ha, fun _ => jumps_goes hst hf hs hh rfl hgo⟩, fun _ => ?_⟩
    rw [callbackStep_ok hh rfl hgo]; simp

theorem event_jumps (h : InState c st) (hp : Phase c fd st) (hf : c.freed = false) (hs : Selects c e) :
    (JumpsInTable c (.event e) ↔ NoAuth c (.event e)) ∧
      (NoAuth c (.event e) → callbackStep c st e ≠ .error .badTransition) := by
  by_cases hst : st = .helloWrite
  · subst hst
    cases hp with
    | helloWrite ms h' live w => exact helloWrite_jumps h live w hf hs
  · have hno : NoAuth c (.event e) := fun _ _ hc => absurd (inState_of_current h hc) hst
    rcases phase_leads hp hs with ⟨g, r, hh, hg, hgo, -⟩ | hnone | ⟨rfl, -, -, -⟩
    · refine ⟨⟨fun _ => hno, fun _ => jumps_goes h hf hs hh hg hgo⟩, fun _ => ?_⟩
      rw [callbackStep_ok hh hg hgo]; simp
    · refine ⟨⟨fun _ => hno, fun _ ret hret => ?_⟩, fun _ => ?_⟩
      · obtain ⟨g, x, hg, -⟩ := (returns_inState h hf hs ret).mp hret
        rw [hnone] at hg; cases hg
      · rw [callbackStep_none hnone]; cases e.ready <;> simp [noHandler]
    · exact absurd rfl hst

theorem step_jumps {s : Step} (h : Inv c) :
    (JumpsInTable c s ↔ NoAuth c s) ∧ (NoAuth c s → step c s ≠ .error .badTransition) := by
  cases s with
  | other x a => exact ⟨Iff.rfl, fun _ => by simp [step]⟩
  | event e =>
    have hlive : c.freed = false → Selects c e →
        (JumpsInTable c (.event e) ↔ NoAuth c (.event e)) ∧
          (NoAuth c (.event e) → step c (.event e) ≠ .error .badTransition) := by
      intro hf hs
      rcases h with h' | ⟨fd, st, hst, hp⟩
      · rw [hf] at h'; cases h'
      · rw [step, dispatch_inState hst hf, if_pos hs]
        exact event_jumps hst hp hf hs
    by_cases hf : c.freed = false
    · by_cases hs : Selects c e
      · exact hlive hf hs
      · refine ⟨⟨fun _ _ hs' => absurd hs' hs, fun _ ret hret => absurd hret.2.1 hs⟩, fun _ => ?_⟩
        rw [step, dispatch, if_neg hs]; simp
    · refine ⟨⟨fun _ hf' => absurd hf' hf, fun _ ret hret => absurd hret.1 hf⟩, fun _ => ?_⟩
      rw [Bool.not_eq_false] at hf
      rcases dispatch_freed hf e with hd | hd <;> rw [step, hd] <;> simp

/-- The states returned along a run are all in the table, and the run does not
stop at a transition out of it, exactly when no hello that offers 02 is
answered in full. -/
theorem jumps_iff (a : Accepted) (es : List Step) :
    (Along step JumpsInTable a.conn es ∧ run step a.conn es ≠ .error .badTransition) ↔
      Along step NoAuth a.conn es := by
  have hiff : Along step JumpsInTable a.conn es ↔ Along step NoAuth a.conn es :=
    along_iff (J := Inv) (fun _ _ h => (step_jumps h).1) (fun c s c' h _ hs => step_inv c s c' h hs) es
      (accepted_inv a)
  constructor
  · exact fun h => hiff.mp h.1
  · intro h
    exact ⟨hiff.mpr h, along_ne_error step_inv (fun c s hi hn => (step_jumps hi).2 hn) (accepted_inv a) h⟩

/-- A client that offers only 02. -/
def authEvents : List Step := [reads 5 [0x05, 1, 0x02] .failed, writes 5 2 .failed]

theorem auth_not_jumps :
    ¬ (Along step JumpsInTable firstAccepted.conn authEvents ∧
      run step firstAccepted.conn authEvents ≠ .error .badTransition) :=
  fun h => h.2 rfl

end

/-! ## The answer to the hello -/

/-- 02 if it is offered, otherwise 00 if it is offered, otherwise FF. -/
def acceptedMethod (ms : List UInt8) : UInt8 :=
  if methodUsernamePassword ∈ ms then methodUsernamePassword
  else if methodNoAuthenticationRequired ∈ ms then methodNoAuthenticationRequired else methodNoAcceptableMethods

/-- The hello an open session has received is answered with the method accepted,
and a session with none to accept does not get to REQUEST_READ. -/
def HelloAnswered (c : Conn) : Prop :=
  c.freed = false → ∀ ms h r, IsHello ms h → receivedOn c.clientFd c.log = h ++ r →
    (∃ t, sentOn c.clientFd c.log ++ c.output.unread = 0x05 :: acceptedMethod ms :: t) ∧
      (acceptedMethod ms = methodNoAcceptableMethods → c.sMachine.current ≠ some SessionState.requestRead.toNat)

/-- The hello an open session has received offers 02 or 00. -/
def HelloAcceptable (c : Conn) : Prop :=
  c.freed = false → ∀ ms h r, IsHello ms h → receivedOn c.clientFd c.log = h ++ r →
    methodUsernamePassword ∈ ms ∨ methodNoAuthenticationRequired ∈ ms

theorem selectedMethod_accepted (ms : List UInt8) :
    selectedMethod ms = acceptedMethod ms ↔ methodUsernamePassword ∈ ms ∨ methodNoAuthenticationRequired ∈ ms := by
  rw [selectedMethod_eq, acceptedMethod]
  by_cases h2 : methodUsernamePassword ∈ ms
  · simp [h2]
  · by_cases h0 : methodNoAuthenticationRequired ∈ ms
    · simp [h2, h0]
    · simp only [h2, h0, ite_false, or_self, iff_false]; decide

theorem acceptedMethod_none {ms : List UInt8}
    (h : methodUsernamePassword ∈ ms ∨ methodNoAuthenticationRequired ∈ ms) :
    acceptedMethod ms ≠ methodNoAcceptableMethods := by
  rw [← (selectedMethod_accepted ms).mpr h]
  exact selectedMethod_acceptable ms

section
variable {c : Conn} {fd : Nat} {st : SessionState}

theorem hello_incomplete {l ms h t : List UInt8}
    (hu : Undone (helloParserFeed (some onHelloMethod)) helloStops (helloParserInit, 5) l) (hello : IsHello ms h) :
    l ≠ h ++ t := by
  rintro rfl
  have hne : h ≠ [] := by obtain ⟨n, -, rfl⟩ := hello; exact List.cons_ne_nil _ _
  have hd := undone_done (undone_append.mp hu).1 hne
  obtain ⟨k, hk⟩ := helloFeed_message onHelloMethod 5 hello
  rw [hk] at hd
  simp [helloStops, helloIsDone] at hd

theorem helloReading_incomplete (r : HelloReading c) {ms h t : List UInt8} (hello : IsHello ms h) :
    c.fromClient ≠ h ++ t :=
  hello_incomplete r.undone hello

/-- Past HELLO_READ a hello has been received and its method is the first thing
to be sent. -/
theorem phase_greeting (hp : Phase c fd st) (hst : st ≠ .helloRead) :
    ∃ ms h r t, IsHello ms h ∧ c.fromClient = h ++ r ∧ c.toClient = 0x05 :: selectedMethod ms :: t := by
  cases hp with
  | helloRead live r => exact absurd rfl hst
  | helloWrite ms h live w => exact ⟨ms, h, _, [], w.hello, w.received, w.sending⟩
  | requestRead ms h u live g r => exact ⟨ms, h, _, [], g.hello, by rw [g.received, List.append_assoc], g.sent⟩
  | connecting ms h q m live g => exact ⟨ms, h, _, [], g.hello, by rw [g.received, List.append_assoc], g.sent⟩
  | stuck ms h q live g => exact ⟨ms, h, _, [], g.hello, by rw [g.received, List.append_assoc], g.sent⟩
  | unsupported ms h q live g => exact ⟨ms, h, _, [], g.hello, by rw [g.received, List.append_assoc], g.sent⟩
  | replying ms h q m j hj live r => exact ⟨ms, h, _, _, r.hello, by rw [r.received, List.append_assoc], r.sending⟩
  | copying ms h q i m j live r =>
    obtain ⟨status, hs⟩ := r.sending
    exact ⟨ms, h, _, _, r.hello, by rw [r.received, List.append_assoc], by rw [hs]; rfl⟩

theorem helloAnswered_state (h : Inv c) : HelloAnswered c ↔ HelloAcceptable c := by
  refine forall_congr' fun hf => ?_
  rcases h with h' | ⟨fd, st, hst, hp⟩
  · rw [hf] at h'; cases h'
  by_cases hs : st = .helloRead
  · subst hs
    cases hp with
    | helloRead live r =>
      exact ⟨fun _ ms h t hello hr => absurd hr (helloReading_incomplete r hello),
        fun _ ms h t hello hr => absurd hr (helloReading_incomplete r hello)⟩
  · obtain ⟨ms, h, r, t, hello, hr, hto⟩ := phase_greeting hp hs
    constructor
    · intro hall ms' h' r' hello' hr'
      obtain ⟨rfl, rfl, rfl⟩ := isHello_unique hello hello' (hr.symm.trans hr')
      obtain ⟨⟨t', ht'⟩, -⟩ := hall ms h r hello hr
      have he := hto.symm.trans ht'
      simp only [List.cons.injEq, true_and] at he
      exact (selectedMethod_accepted ms).mp he.1
    · intro hall ms' h' r' hello' hr'
      have hacc := hall ms' h' r' hello' hr'
      obtain ⟨rfl, rfl, rfl⟩ := isHello_unique hello hello' (hr.symm.trans hr')
      exact ⟨⟨t, by rw [← (selectedMethod_accepted ms).mpr hacc]; exact hto⟩,
        fun hno => absurd hno (acceptedMethod_none hacc)⟩

end

/-- The answers along a run are right exactly when every hello received in full
offers 02 or 00. -/
theorem helloAnswered_iff (a : Accepted) (es : List Step) :
    Always step HelloAnswered a.conn es ↔ Always step HelloAcceptable a.conn es :=
  always_congr step_inv (fun _ h => helloAnswered_state h) es (accepted_inv a)

/-- An empty list of methods is answered with 05. -/
theorem empty_hello_not_answered : ¬ Always step HelloAnswered firstAccepted.conn [reads 5 [0x05, 0] .failed] := by
  intro h
  have hr : run step firstAccepted.conn [reads 5 [0x05, 0] .failed] =
      .ok (final step firstAccepted.conn [reads 5 [0x05, 0] .failed]) := run_final (by decide +kernel)
  obtain ⟨⟨t, ht⟩, -⟩ := always_run h hr (by decide +kernel) [] [0x05, 0] [] ⟨0, rfl, rfl⟩ (by decide +kernel)
  have hout : sentOn (final step firstAccepted.conn [reads 5 [0x05, 0] .failed]).clientFd
      (final step firstAccepted.conn [reads 5 [0x05, 0] .failed]).log ++
      (final step firstAccepted.conn [reads 5 [0x05, 0] .failed]).output.unread = [0x05, 0x05] := by decide +kernel
  rw [hout] at ht
  simp [acceptedMethod, methodNoAcceptableMethods] at ht

end SocksProxy
