import SocksProxy.AdminSound
import SocksProxy.PrawtosSteady

/-!
# Properties of an open management connection along a run

The counterpart of the rules for sessions: `prawtosAlways_onEvent` reduces a
property of every state of a run to what the callbacks do in each phase, and
`entersCommand_iff` says when a command is awaited after an answer.
-/

namespace SocksProxy

open Lib

structure PrawtosSound (c : PrawtosConn) : Prop where
  inv : PrawtosInv (fun _ _ => True) c
  rewound : Rewound c.readBuffer

def PrawtosAtState (st : PrawtosState) (P : PrawtosConn → Prop) (c : PrawtosConn) : Prop :=
  c.freed = false → stmState c.stm = st.toNat → P c

def PrawtosOnEvent (C : PrawtosConn → PrawtosEvent → Prop) (c : PrawtosConn) : PrawtosStep → Prop
  | .event e => c.freed = false → PrawtosSelects c e → C c e
  | .other _ _ => True
  | .users _ => True

/-- The event sends the last byte of an answer after which a command is awaited. -/
def AnswersLast (c : PrawtosConn) (e : PrawtosEvent) : Prop :=
  (∃ l b, sendFrom c.writeBuffer e.sys.send = some (l, b) ∧ l ≠ [] ∧ b.unread = []) ∧
    (c.stm.current = some PrawtosState.authWrite.toNat ∧ c.auth.status = authSuccess ∨
      c.stm.current = some PrawtosState.cmdWrite.toNat ∧ c.cmd.status ≠ .cmdNotSupported ∧ c.cmd.parser.type ≠ 0x03)

section
variable {c d : PrawtosConn} {fd : Nat} {i : FdInterest} {st st' : PrawtosState} {k : PrawtosKey} {e : PrawtosEvent}
  {P Q : PrawtosConn → Prop} {C : PrawtosConn → PrawtosEvent → Prop} {V : Name → Name → Prop}

theorem prawtosStmState (h : PrawtosInState c st) : stmState c.stm = st.toNat := by
  rcases h with h | ⟨h, rfl, -⟩
  · rw [h]; rfl
  · rw [h]; rfl

theorem prawtosAtState_freed (h : c.freed = true) : PrawtosAtState st P c := fun hf => by rw [h] at hf; cases hf

theorem prawtosInState_some (h : PrawtosInState c st) (hne : st ≠ .authRead) : c.stm.current = some st.toNat := by
  rcases h with h | ⟨-, h, -⟩
  · rw [h]
  · exact absurd h hne

/-- Whatever follows a callback, the machine is in the state that it has returned. -/
theorem prawtosSettle_state {ret : Nat} (h : prawtosSettle k st c ret = .ok d) : stmState d.stm = ret := by
  unfold prawtosSettle at h
  simp only at h
  split at h
  · rw [prawtosDone_stm h]; rfl
  · rw [← Except.ok.inj h]; rfl

theorem prawtosSettle_elsewhere {r : PrawtosState} (hne : r ≠ st') (h : prawtosSettle k st c r.toNat = .ok d) :
    PrawtosAtState st' P d :=
  fun _ hat => absurd (prawtosState_inj ((prawtosSettle_state h).symm.trans hat)) hne

/-! ## The rules -/

theorem prawtosStep_sound (c : PrawtosConn) (s : PrawtosStep) (d : PrawtosConn) (h : PrawtosSound c)
    (hd : prawtosStep c s = .ok d) : PrawtosSound d := by
  refine ⟨prawtosStep_inv_true c s d h.inv hd, ?_⟩
  cases s with
  | event e =>
    rcases h.inv with hended | ⟨fd, st, hst, hp⟩
    · rcases prawtosDispatch_freed hended.freed e with hd' | hd'
      · rw [prawtosStep, hd'] at hd; cases hd
      · rw [prawtosStep, hd'] at hd
        exact Except.ok.inj hd ▸ h.rewound
    · exact (prawtosDispatch_steady hst (prawtosPhase_alive hp) hd).1 h.rewound
  | other x a =>
    rw [prawtosStep, Except.ok.injEq] at hd
    subst hd
    split
    · exact h.rewound
    · exact h.rewound
  | users l =>
    rw [prawtosStep, Except.ok.injEq] at hd
    exact hd ▸ h.rewound

theorem prawtosAccepted_sound (a : PrawtosAccepted) : PrawtosSound a.conn :=
  ⟨prawtosAccepted_inv a _, rewound_init _⟩

/-- As `always_onEvent`, for a property that only depends on the connection itself. -/
theorem prawtosAlways_onEvent
    (hother : ∀ c x a, (∀ fd i, PrawtosLive c fd i → PrawtosLive { c with toProcess := c.toProcess.act x a } fd i) →
      Q c → Q { c with toProcess := c.toProcess.act x a })
    (husers : ∀ c l, Q c → Q { c with users := l })
    (hevent : ∀ c fd st e, PrawtosSound c → PrawtosInState c st → PrawtosPhase (fun _ _ => True) c fd st →
      PrawtosSelects c e → Q c → ((∀ d, prawtosCallbackStep c st e = .ok d → Q d) ↔ C c e))
    (a : PrawtosAccepted) (es : List PrawtosStep) (hq : Q a.conn) :
    Always prawtosStep Q a.conn es ↔ Along prawtosStep (PrawtosOnEvent C) a.conn es := by
  refine always_iff (J := PrawtosSound) prawtosStep_sound (fun c s hs hq => ?_) es (prawtosAccepted_sound a) hq
  cases s with
  | users l =>
    refine ⟨fun _ => trivial, fun _ d hd => ?_⟩
    rw [prawtosStep, Except.ok.injEq] at hd
    exact hd ▸ husers c l hq
  | other x b =>
    refine ⟨fun _ => trivial, fun _ d hd => ?_⟩
    rw [prawtosStep, Except.ok.injEq] at hd
    subst hd
    split
    · exact hq
    · rename_i hno
      rw [not_or, not_and] at hno
      refine hother c x b (fun fd i live => ?_) hq
      exact prawtosLive_other live (hno.1 live.alive) hno.2
  | event e =>
    rcases hs.inv with hended | ⟨fd, st, hst, hp⟩
    · refine iff_of_true (fun d hd => ?_) fun hf => absurd (hended.freed.symm.trans hf) (by decide)
      rcases prawtosDispatch_freed hended.freed e with hd' | hd'
      · rw [prawtosStep, hd'] at hd; cases hd
      · rw [prawtosStep, hd'] at hd
        exact Except.ok.inj hd ▸ hq
    · have hf := prawtosPhase_alive hp
      rw [prawtosStep, prawtosDispatch_inState hst hf]
      by_cases hsel : PrawtosSelects c e
      · rw [if_pos hsel, hevent c fd st e hs hst hp hsel hq]
        exact ⟨fun h _ _ => h, fun h => h hf hsel⟩
      · refine iff_of_true (fun d hd => ?_) fun _ h => absurd h hsel
        rw [if_neg hsel] at hd
        exact Except.ok.inj hd ▸ hq

/-! ## The last byte of an answer -/

theorem authPrawtosWrite_answered (live : PrawtosLive c fd opWrite) (hk : k.fd = fd) {l : List UInt8} {b : Buffer}
    (hs : sendFrom c.writeBuffer k.sys.send = some (l, b)) (hl : l ≠ []) (hb : b.unread = [])
    (hst : c.auth.status = authSuccess) :
    ∃ c₁, authPrawtosWrite k c = (c₁, .cmdRead) ∧ c₁.freed = false ∧ c₁.readBuffer = c.readBuffer := by
  have hlive : PrawtosLive { c.note (.send k.fd (some l)) with writeBuffer := b } fd opWrite :=
    ⟨live.alive, live.clientFd, live.entry, live.limitRead, (sendFrom_some hs).2.trans live.limitWrite⟩
  obtain ⟨c', hset, hlive', hc'⟩ := prawtosLive_set hlive opRead
  have hfree : c'.freed = false := hlive'.alive
  have hread : c'.readBuffer = c.readBuffer := by rw [hc']; rfl
  have hstatus : (c.note (.send k.fd (some l))).auth.status = authSuccess := hst
  have hcan : bufferCanRead b = false := (canRead_eq_false b).mpr hb
  rw [← hk] at hset
  refine ⟨c', ?_, hfree, hread⟩
  unfold authPrawtosWrite
  simp only [hs, hstatus, ne_eq, not_true_eq_false, ite_false, hl, hcan, Bool.false_eq_true, hset]

theorem cmdWrite_answered (live : PrawtosLive c fd opWrite) (hk : k.fd = fd) {l : List UInt8} {b : Buffer}
    (hs : sendFrom c.writeBuffer k.sys.send = some (l, b)) (hl : l ≠ []) (hb : b.unread = [])
    (hst : c.cmd.status ≠ .cmdNotSupported) (ht : c.cmd.parser.type ≠ 0x03) :
    ∃ c₁, cmdWrite k c = (c₁, .cmdRead) ∧ c₁.freed = false ∧ c₁.readBuffer = c.readBuffer := by
  have hlive : PrawtosLive { c.note (.send k.fd (some l)) with writeBuffer := b } fd opWrite :=
    ⟨live.alive, live.clientFd, live.entry, live.limitRead, (sendFrom_some hs).2.trans live.limitWrite⟩
  obtain ⟨c', hset, hlive', hc'⟩ := prawtosLive_set hlive opRead
  have hfree : c'.freed = false := hlive'.alive
  have hread : c'.readBuffer = c.readBuffer := by rw [hc']; rfl
  have hstatus : (c.note (.send k.fd (some l))).cmd.status ≠ .cmdNotSupported := hst
  have htype : (c.note (.send k.fd (some l))).cmd.parser.type ≠ 0x03 := ht
  have hcan : bufferCanRead b = false := (canRead_eq_false b).mpr hb
  rw [← hk] at hset
  refine ⟨c', ?_, hfree, hread⟩
  unfold cmdWrite
  simp only [hs, hstatus, htype, ite_false, hl, hcan, Bool.false_eq_true, hset]

/-- A command is only awaited once an answer has been sent. -/
theorem authPrawtosWrite_sent (h : (authPrawtosWrite k c).2 = .cmdRead) :
    (∃ l b, sendFrom c.writeBuffer k.sys.send = some (l, b) ∧ l ≠ [] ∧ b.unread = []) ∧
    c.auth.status = authSuccess := by
  unfold authPrawtosWrite at h
  cases hs : sendFrom c.writeBuffer k.sys.send with
  | none =>
    rw [hs] at h
    simp only at h
    split at h <;> cases h
  | some lb =>
    obtain ⟨l, b⟩ := lb
    rw [hs] at h
    simp only at h
    split at h
    · cases h
    · rename_i hst
      split at h
      · cases h
      · rename_i hl
        split at h
        · cases h
        · rename_i hb
          exact ⟨⟨l, b, rfl, hl, (canRead_eq_false b).mp (Bool.eq_false_iff.mpr hb)⟩, not_not.mp hst⟩

theorem cmdWrite_sent (h : (cmdWrite k c).2 = .cmdRead) :
    (∃ l b, sendFrom c.writeBuffer k.sys.send = some (l, b) ∧ l ≠ [] ∧ b.unread = []) ∧
      c.cmd.status ≠ .cmdNotSupported ∧ c.cmd.parser.type ≠ 0x03 := by
  unfold cmdWrite at h
  cases hs : sendFrom c.writeBuffer k.sys.send with
  | none =>
    rw [hs] at h
    simp only at h
    split at h <;> cases h
  | some lb =>
    obtain ⟨l, b⟩ := lb
    rw [hs] at h
    simp only at h
    split at h
    · cases h
    · rename_i hst
      split at h
      · cases h
      · rename_i hl
        split at h
        · cases h
        · rename_i ht
          split at h
          · cases h
          · rename_i hb
            exact ⟨⟨l, b, rfl, hl, (canRead_eq_false b).mp (Bool.eq_false_iff.mpr hb)⟩, hst, ht⟩

/-- CMD_READ is entered by the events that send the last byte of an answer, with
what is in the read buffer. -/
theorem entersCommand_iff {R : Buffer → Prop} (hst : PrawtosInState c st)
    (hwrite : st = .authWrite ∨ st = .cmdWrite) (live : PrawtosLive c fd opWrite) (hs : PrawtosSelects c e) :
    (∀ d, prawtosCallbackStep c st e = .ok d → PrawtosAtState .cmdRead (fun d => R d.readBuffer) d) ↔
      (AnswersLast c e → R c.readBuffer) := by
  have hk : e.key.fd = fd := congrArg Nat.cast (prawtosReady_write live hs).1
  -- the state that a callback which sends the last byte leads to
  have henters : ∀ c₁ : PrawtosConn, c₁.freed = false → c₁.readBuffer = c.readBuffer → st ≠ .cmdRead →
      ((∀ d, prawtosSettle e.key st c₁ PrawtosState.cmdRead.toNat = .ok d →
        PrawtosAtState .cmdRead (fun d => R d.readBuffer) d) ↔ R c.readBuffer) := by
    intro c₁ hf hb hne
    rw [prawtosSettle_cmdRead hne]
    refine ⟨fun h => ?_, fun h d hd _ _ => ?_⟩
    · have hr := h _ rfl hf rfl
      rw [← hb]; exact hr
    · rw [Except.ok.injEq] at hd
      rw [← hd]
      exact hb.symm ▸ h
  rcases hwrite with rfl | rfl
  · have hcur := prawtosInState_some hst (by decide)
    rw [callback_authWrite live hs]
    by_cases hret : (authPrawtosWrite e.key c).2 = .cmdRead
    · obtain ⟨⟨l, b, hsend, hl, hb⟩, hstatus⟩ := authPrawtosWrite_sent hret
      obtain ⟨c₁, hw, hf₁, hb₁⟩ := authPrawtosWrite_answered live hk hsend hl hb hstatus
      rw [hret, hw, henters c₁ hf₁ hb₁ (by decide)]
      exact ⟨fun h _ => h, fun h => h ⟨⟨l, b, hsend, hl, hb⟩, Or.inl ⟨hcur, hstatus⟩⟩⟩
    · refine iff_of_true (fun d hd => prawtosSettle_elsewhere hret hd) fun hlast => ?_
      obtain ⟨⟨l, b, hsend, hl, hb⟩, ⟨-, hstatus⟩ | ⟨hcur', -⟩⟩ := hlast
      · obtain ⟨c₁, hw, hf₁, hb₁⟩ := authPrawtosWrite_answered live hk hsend hl hb hstatus
        exact absurd (by rw [hw]) hret
      · rw [hcur] at hcur'; cases hcur'
  · have hcur := prawtosInState_some hst (by decide)
    rw [callback_cmdWrite live hs]
    by_cases hret : (cmdWrite e.key c).2 = .cmdRead
    · obtain ⟨⟨l, b, hsend, hl, hb⟩, hstatus, htype⟩ := cmdWrite_sent hret
      obtain ⟨c₁, hw, hf₁, hb₁⟩ := cmdWrite_answered live hk hsend hl hb hstatus htype
      rw [hret, hw, henters c₁ hf₁ hb₁ (by decide)]
      exact ⟨fun h _ => h, fun h => h ⟨⟨l, b, hsend, hl, hb⟩, Or.inr ⟨hcur, hstatus, htype⟩⟩⟩
    · refine iff_of_true (fun d hd => prawtosSettle_elsewhere hret hd) fun hlast => ?_
      obtain ⟨⟨l, b, hsend, hl, hb⟩, ⟨hcur', -⟩ | ⟨-, hstatus, htype⟩⟩ := hlast
      · rw [hcur] at hcur'; cases hcur'
      · obtain ⟨c₁, hw, hf₁, hb₁⟩ := cmdWrite_answered live hk hsend hl hb hstatus htype
        exact absurd (by rw [hw]) hret

end

end SocksProxy
