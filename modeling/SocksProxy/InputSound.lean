import SocksProxy.PrawtosRun
import SocksProxy.RelayInterest

/-!
# What waits to be parsed

Whenever a message is read its buffer is empty, but for what the event that
sends the answer to the message before has handed over. `readable_iff` and
`prawtosReadable_iff` say so for any property of an empty buffer.
-/

namespace SocksProxy

open Lib

/-- The input buffer of a session that reads its hello or its request. -/
def AtRead (Q : Buffer → Prop) (c : Conn) : Prop :=
  AtState .helloRead (fun c => Q c.input) c ∧ AtState .requestRead (fun c => Q c.input) c

/-- `Q` holds of the input buffer when the answer to the hello has been sent and a
request is awaited. -/
def HandsOver (Q : Buffer → Prop) (c : Conn) (e : Event) : Prop :=
  SendsLast .helloWrite c e → c.hello.method ≠ methodUsernamePassword → Q c.input

/-- The read buffer of a connection that reads its authentication or a command. -/
def PrawtosAtRead (Q : Buffer → Prop) (c : PrawtosConn) : Prop :=
  PrawtosAtState .authRead (fun c => Q c.readBuffer) c ∧ PrawtosAtState .cmdRead (fun c => Q c.readBuffer) c

/-- `Q` holds of the read buffer when an answer has been sent and a command is awaited. -/
def PrawtosHandsOver (Q : Buffer → Prop) (c : PrawtosConn) (e : PrawtosEvent) : Prop :=
  AnswersLast c e → Q c.readBuffer

section
variable {c c' : Conn} {fd : Nat} {st : SessionState} {k : Key} {e : Event} {Q : Buffer → Prop}

theorem requestRead_drained (h : (requestRead k c).2 = .requestRead) : (requestRead k c).1.input.unread = [] := by
  unfold requestRead at h ⊢
  split at h
  · cases h
  · rename_i l b hr
    simp only at h ⊢
    by_cases hl : l = []
    · rw [if_pos hl] at h; cases h
    rw [if_neg hl] at h ⊢
    unfold requestConsumed at h ⊢
    simp only at h ⊢
    have hcases := consume_cases requestParserFeed requestStops b (c.note (.recv k.fd (some l))).request.parser
    change (_ ∧ (requestConsume b _).2 = _ ∧ (requestConsume b _).1.unread = []) ∨
      (∃ u x t, _ ∧ _ ∧ _ ∧ (requestConsume b _).2 = _ ∧ (requestConsume b _).1.unread = t) at hcases
    generalize requestConsume b (c.note (.recv k.fd (some l))).request.parser = r at hcases h ⊢
    by_cases hd : (requestIsDone r.2.state).1 = true
    · -- a message that has ended is processed, and leads away
      rw [if_pos hd] at h
      split at h
      · cases h
      · exact absurd h (requestProcess_leaves k _)
    · rw [if_neg hd]
      rcases hcases with ⟨-, -, hnil⟩ | ⟨u, x, t, -, -, hstop, hp, -⟩
      · exact hnil
      · rw [← hp] at hstop
        exact absurd hstop hd

/-! ## Sessions -/

section
variable (hQ : ∀ b : Buffer, b.unread = [] → bufferCanWrite b = true → Q b)
include hQ

theorem empty_input {i : FdInterest} {o : Option (Nat × FdInterest)} (live : Live c fd i o) (hc : Compacted c)
    (hu : c.input.unread = []) : Q c.input :=
  hQ _ hu (canWrite_of_rewound hc.1 hu (by rw [live.limitInput]; decide))

theorem atHelloRead (h : Sound c) : AtState .helloRead (fun c => Q c.input) c := by
  intro hf hat
  rcases h.inv with hfr | ⟨fd, st, hst, hp⟩
  · rw [hf] at hfr; cases hfr
  · obtain rfl := toNat_inj ((stmState_inState hst).symm.trans hat)
    cases hp with
    | helloRead live r => exact empty_input hQ live h.compacted r.drained

theorem event_readable (h : Sound c) (hst : InState c st) (hp : Phase c fd st) (hs : Selects c e) :
    (∀ c', callbackStep c st e = .ok c' → AtState .requestRead (fun c => Q c.input) c') ↔ HandsOver Q c e := by
  have haway : SessionState.requestRead ∉ nextStates st →
      ∀ c', callbackStep c st e = .ok c' → AtState .requestRead (fun c => Q c.input) c' :=
    fun hno _ => callbackStep_elsewhere hp hs hno
  have hover : st ≠ .helloWrite → HandsOver Q c e := fun hne hlast => absurd (inState_of_current hst hlast.1) hne
  cases hp with
  | helloRead | connecting | stuck | unsupported | replying | copying =>
    exact iff_of_true (haway (by decide)) (hover (by decide))
  | helloWrite ms h' live w =>
    obtain ⟨he, -⟩ := selects_opWrite live hs
    rw [entersRequest_iff hst live w hs]
    refine forall_congr' fun hlast => forall_congr' fun _ => ?_
    rw [requestEntry_input live (key_client he) hlast.2.2]
  | requestRead ms h' u live g r =>
    refine iff_of_true ?_ (hover (by decide))
    obtain ⟨he, hr⟩ := selects_opRead live hs
    have ho := requestRead_outcome live g r (key_client he)
    have hgo := requestRead_goes ho
    have hok := callbackStep_ok (g := returning requestRead) (e := e) (by rw [hr]; rfl) rfl hgo
    refine (callbackStep_forall hok).mpr ?_
    by_cases hret : (requestRead e.key c).2 = .requestRead
    · have hdr := requestRead_drained hret
      have hcompact := compacted_steady h.compacted (requestRead_steady e.key c)
      intro _ _
      rw [hret]
      show Q (requestRead e.key c).1.input
      generalize requestRead e.key c = r' at hret hdr hgo hcompact
      rcases hgo with ⟨h1 | h1, -⟩ | hp
      · rw [hret] at h1; cases h1
      · rw [hret] at h1; cases h1
      · rw [hret] at hp
        obtain ⟨i, o, hl⟩ := phase_live hp
        exact empty_input hQ hl hcompact hdr
    · exact settle_elsewhere (by decide) hgo hret

/-- A property of empty buffers holds whenever a session reads a message exactly
when it holds each time one is handed over to REQUEST_READ. -/
theorem readable_iff (a : Accepted) (es : List Step) :
    Always step (AtRead Q) a.conn es ↔ Along step (OnEvent (HandsOver Q)) a.conn es := by
  refine always_onEvent (fun c hf => ⟨atState_freed hf, atState_freed hf⟩) (fun _ _ _ _ _ _ _ _ _ h => h) ?_ a es
    ⟨atHelloRead hQ (accepted_sound a),
      fun _ h => absurd (show stmState stmCreate = SessionState.requestRead.toNat from h) (by decide)⟩
  intro c fd st e h hst hp hf hs hq
  rw [← event_readable hQ h hst hp hs]
  refine forall_congr' fun c' => forall_congr' fun hc' => and_iff_right (atHelloRead hQ ?_)
  refine step_sound c (.event e) c' h ?_
  rw [step, dispatch_inState hst hf, if_pos hs]
  exact hc'

end

end

/-! ## Management connections -/

section
variable {c d : PrawtosConn} {fd : Nat} {st : PrawtosState} {e : PrawtosEvent} {Q : Buffer → Prop}
variable (hQ : ∀ b : Buffer, b.unread = [] → bufferCanWrite b = true → Q b)
include hQ

theorem empty_readBuffer {i : FdInterest} (live : PrawtosLive c fd i) (hc : Rewound c.readBuffer)
    (hu : c.readBuffer.unread = []) : Q c.readBuffer :=
  hQ _ hu (canWrite_of_rewound hc hu (by rw [live.limitRead]; decide))

theorem atAuthRead (h : PrawtosSound c) : PrawtosAtState .authRead (fun c => Q c.readBuffer) c := by
  intro hf hat
  rcases h.inv with hended | ⟨fd, st, hst, hp⟩
  · exact absurd (hended.freed.symm.trans hf) (by decide)
  · obtain rfl := prawtosState_inj ((prawtosStmState hst).symm.trans hat)
    cases hp with
    | authRead live r => exact empty_readBuffer hQ live h.rewound r.drained

theorem cmdRead_readable {u : List UInt8} (hst : PrawtosInState c .cmdRead) (live : PrawtosLive c fd opRead)
    (r : CmdReading c u) (hr : Rewound c.readBuffer) (hs : PrawtosSelects c e)
    (hd : prawtosCallbackStep c .cmdRead e = .ok d) : PrawtosAtState .cmdRead (fun c => Q c.readBuffer) d := by
  have hrewound : Rewound d.readBuffer := by
    refine (prawtosDispatch_steady (e := e) hst live.alive ?_).1 hr
    rw [prawtosDispatch_inState hst live.alive, if_pos hs, hd]
  rw [callback_cmdRead live hs] at hd
  have hout := cmdRead_outcome (k := e.key) live r (congrArg Nat.cast (prawtosReady_read live hs).1)
  generalize cmdRead e.key c = q at hout hd
  cases hout with
  | failed c' => exact prawtosSettle_elsewhere (r := .error) (by decide) hd
  | reading c' l b _ _ live' _ _ _ _ hdrained =>
    intro _ _
    simp only at hd
    rw [prawtosSettle_to (Or.inr (Or.inr ⟨rfl, Or.inr rfl⟩)), Except.ok.injEq] at hd
    subst hd
    exact empty_readBuffer (c := { c' with stm := _ }) hQ (prawtosLive_stm live' _) hrewound hdrained
  | processed c' =>
    cases hp : cmdProcess e.key.sys.heap c' with
    | error f => rw [hp] at hd; cases hd
    | ok q =>
      rw [hp] at hd
      have hret : cmdReturn c'.cmd.parser q.2 ≠ .cmdRead := by
        unfold cmdReturn
        rcases (cmdProcess_ok hp).2 with h | h <;> rw [h] <;> split <;> decide
      exact prawtosSettle_elsewhere hret hd

theorem prawtosEvent_readable (h : PrawtosSound c) (hst : PrawtosInState c st)
    (hp : PrawtosPhase (fun _ _ => True) c fd st) (hs : PrawtosSelects c e) :
    (∀ d, prawtosCallbackStep c st e = .ok d → PrawtosAtState .cmdRead (fun c => Q c.readBuffer) d) ↔
      PrawtosHandsOver Q c e := by
  have hover : st = .authRead ∨ st = .cmdRead → PrawtosHandsOver Q c e := by
    rintro hread ⟨-, ⟨hcur, -⟩ | ⟨hcur, -⟩⟩
    · obtain rfl := prawtosInState_of_current hst hcur
      exact absurd hread (by decide)
    · obtain rfl := prawtosInState_of_current hst hcur
      exact absurd hread (by decide)
  cases hp with
  | authRead live r calls =>
    refine iff_of_true (fun d hd => ?_) (hover (Or.inl rfl))
    rw [callback_authRead live hs] at hd
    have hout := authPrawtosRead_outcome (k := e.key) live r (congrArg Nat.cast (prawtosReady_read live hs).1)
    refine prawtosSettle_elsewhere (fun hret => ?_) hd
    generalize authPrawtosRead e.key c = q at hout hret
    cases hout <;> cases hret
  | authWrite uname passwd live w calls vouched => exact entersCommand_iff hst (Or.inl rfl) live hs
  | cmdRead u live r vouched =>
    exact iff_of_true (fun d hd => cmdRead_readable hQ hst live r h.rewound hs hd) (hover (Or.inr rfl))
  | cmdWrite live vouched => exact entersCommand_iff hst (Or.inr rfl) live hs

theorem prawtosReadable_iff (a : PrawtosAccepted) (es : List PrawtosStep) :
    Always prawtosStep (PrawtosAtRead Q) a.conn es ↔
      Along prawtosStep (PrawtosOnEvent (PrawtosHandsOver Q)) a.conn es := by
  refine prawtosAlways_onEvent (fun _ _ _ _ h => h) (fun _ _ h => h) ?_ a es
    ⟨atAuthRead hQ (prawtosAccepted_sound a), fun _ h =>
      absurd (show stmState prawtosStm = PrawtosState.cmdRead.toNat from h) (by decide)⟩
  intro c fd st e h hst hp hs hq
  rw [← prawtosEvent_readable hQ h hst hp hs]
  refine forall_congr' fun d => forall_congr' fun hd => and_iff_right (atAuthRead hQ ?_)
  refine prawtosStep_sound c (.event e) d h ?_
  rw [prawtosStep, prawtosDispatch_inState hst (prawtosPhase_alive hp), if_pos hs]
  exact hd

end

end SocksProxy
