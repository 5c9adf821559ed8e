import SocksProxy.PrawtosFrame

/-!
# The phases of a management connection

`PrawtosInv` says in every state of the machine what has been read and what is
left to send; its parameter is what is known of a name and a password once they
have been accepted. Every step keeps it (`prawtosStep_inv`).
-/

namespace SocksProxy

open Lib

/-! ## The phases -/

/-- The authentication message received carries a name and a password of which
`V` holds. -/
def Vouched (V : Name → Name → Prop) (c : PrawtosConn) : Prop :=
  ∃ uname passwd r, c.received = authMessage uname passwd ++ r ∧ V uname passwd

inductive PrawtosPhase (V : Name → Name → Prop) (c : PrawtosConn) (fd : Nat) : PrawtosState → Prop
  | authRead (live : PrawtosLive c fd opRead) (r : AuthReading c) (calls : c.calls = []) :
      PrawtosPhase V c fd .authRead
  | authWrite (uname passwd : Name) (live : PrawtosLive c fd opWrite) (w : AuthWriting c uname passwd)
      (calls : c.calls = []) (vouched : c.auth.status = authSuccess → V uname passwd) :
      PrawtosPhase V c fd .authWrite
  | cmdRead (u : List UInt8) (live : PrawtosLive c fd opRead) (r : CmdReading c u) (vouched : Vouched V c) :
      PrawtosPhase V c fd .cmdRead
  | cmdWrite (live : PrawtosLive c fd opWrite) (vouched : Vouched V c) : PrawtosPhase V c fd .cmdWrite

/-- A connection that has ended. -/
structure PrawtosEnded (V : Name → Name → Prop) (c : PrawtosConn) : Prop where
  freed : c.freed = true
  current : c.stm.current = some PrawtosState.error.toNat ∨ c.stm.current = some PrawtosState.done.toNat
  calls : c.calls = [] ∨ Vouched V c

def PrawtosInv (V : Name → Name → Prop) (c : PrawtosConn) : Prop :=
  PrawtosEnded V c ∨ ∃ fd st, PrawtosInState c st ∧ PrawtosPhase V c fd st

/-- The event completes the authentication message. -/
def CompletesAuth (c : PrawtosConn) (e : PrawtosEvent) (uname passwd : Name) : Prop :=
  c.freed = false ∧ PrawtosSelects c e ∧ e.ready = .read ∧
    (∀ uname' passwd' r, c.received ≠ authMessage uname' passwd' ++ r) ∧
    ∃ l b r, recvInto c.readBuffer e.sys.recv = some (l, b) ∧ c.received ++ l = authMessage uname passwd ++ r

theorem authReading_incomplete {c : PrawtosConn} (r : AuthReading c) (uname passwd : Name) (t : List UInt8) :
    c.received ≠ authMessage uname passwd ++ t :=
  fun h => authFeed_message (h ▸ r.undone)

theorem prawtosAccepted_reading (a : PrawtosAccepted) : AuthReading a.conn :=
  ⟨rfl, trivial, unread_init _, rfl, unread_init _, (room_init _).trans List.length_replicate⟩

theorem prawtosAccepted_inv (a : PrawtosAccepted) (V : Name → Name → Prop) : PrawtosInv V a.conn :=
  Or.inr ⟨a.fd, .authRead, Or.inr ⟨rfl, rfl, rfl⟩,
    .authRead (prawtosAccepted_live a) (prawtosAccepted_reading a) rfl⟩

section
variable {V V' : Name → Name → Prop} {c d : PrawtosConn} {fd : Nat} {i : FdInterest} {st ret : PrawtosState}
    {k : PrawtosKey}
  {e : PrawtosEvent}

/-! ## What follows a callback -/

theorem prawtosLive_stm (h : PrawtosLive c fd i) (m : StateMachine) : PrawtosLive { c with stm := m } fd i :=
  ⟨h.alive, h.clientFd, h.entry, h.limitRead, h.limitWrite⟩

/-- A callback that stays in its state, or goes to one without an arrival. -/
theorem prawtosSettle_to (h : ret = .authWrite ∨ ret = .cmdWrite ∨ (ret = st ∧ (st = .authRead ∨ st = .cmdRead))) :
    prawtosSettle k st c ret.toNat = .ok { c with stm := { prawtosStm with current := some ret.toNat } } := by
  rcases h with rfl | rfl | ⟨rfl, rfl | rfl⟩
  · cases st <;> rfl
  · cases st <;> rfl
  · rfl
  · rfl

theorem prawtosSettle_cmdRead (h : st ≠ .cmdRead) : prawtosSettle k st c PrawtosState.cmdRead.toNat =
    .ok { cmdInit k c with stm := { prawtosStm with current := some PrawtosState.cmdRead.toNat } } := by
  cases st <;> first | rfl | exact absurd rfl h

theorem prawtosPhase_arrival (live : PrawtosLive c fd opRead) (vouched : Vouched V c) (m : StateMachine) :
    PrawtosPhase V { cmdInit k c with stm := m } fd .cmdRead :=
  .cmdRead [] ⟨live.alive, live.clientFd, live.entry, live.limitRead, live.limitWrite⟩ ⟨c.cmd.parser, rfl, trivial⟩
    vouched

theorem prawtosSettle_closed (k : PrawtosKey) (st : PrawtosState) (live : PrawtosLive c fd i)
    (h : ret = .error ∨ ret = .done) :
    ∃ d, prawtosSettle k st c ret.toNat = .ok d ∧
      PrawtosClosed { c with stm := { prawtosStm with current := some ret.toNat } } d := by
  obtain ⟨d, hd, hclosed⟩ := prawtosDone_live (prawtosLive_stm live { prawtosStm with current := some ret.toNat })
  refine ⟨d, ?_, hclosed⟩
  rw [← hd]
  rcases h with rfl | rfl <;> cases st <;> rfl

theorem prawtosClosed_ended (hd : PrawtosClosed { c with stm := { prawtosStm with current := some ret.toNat } } d)
    (h : ret = .error ∨ ret = .done) (hV : d.calls = [] ∨ Vouched V d) : PrawtosEnded V d := by
  refine ⟨hd.freed, ?_, hV⟩
  rw [hd.stm]
  rcases h with rfl | rfl
  · exact Or.inl rfl
  · exact Or.inr rfl

theorem prawtosClosed_sent (hd : PrawtosClosed c d) : d.sent = c.sent := by
  simp [PrawtosConn.sent, hd.clientFd, hd.log, Syscall.sentOn]

theorem prawtosCallbackStep_ok {g : PrawtosKey → PrawtosConn → Except Fault (PrawtosConn × Nat)}
    (hh : prawtosHandlerOf st e.ready = some g) {r : PrawtosConn × PrawtosState}
    (hg : g e.key c = .ok (r.1, r.2.toNat)) :
    prawtosCallbackStep c st e = prawtosSettle e.key st r.1 r.2.toNat := by
  have hr : ¬ PrawtosState.error.toNat < r.2.toNat := by cases r.2 <;> decide
  simp only [prawtosCallbackStep, hh, hg, hr, ite_false]

theorem prawtosReady_read (live : PrawtosLive c fd opRead) (hs : PrawtosSelects c e) :
    e.fd = fd ∧ e.ready = .read := by
  obtain ⟨he, hi⟩ := (prawtosSelects_live live e).mp hs
  refine ⟨he, ?_⟩
  cases hr : e.ready with
  | read => rfl
  | write => rw [hr] at hi; exact absurd hi (by decide)

theorem prawtosReady_write (live : PrawtosLive c fd opWrite) (hs : PrawtosSelects c e) :
    e.fd = fd ∧ e.ready = .write := by
  obtain ⟨he, hi⟩ := (prawtosSelects_live live e).mp hs
  refine ⟨he, ?_⟩
  cases hr : e.ready with
  | read => rw [hr] at hi; exact absurd hi (by decide)
  | write => rfl

/-! ## An event in each state -/

theorem callback_authRead (live : PrawtosLive c fd opRead) (hs : PrawtosSelects c e) :
    prawtosCallbackStep c .authRead e =
      prawtosSettle e.key .authRead (authPrawtosRead e.key c).1 (authPrawtosRead e.key c).2.toNat :=
  prawtosCallbackStep_ok (g := prawtosReturning authPrawtosRead) (by rw [(prawtosReady_read live hs).2]; rfl) rfl

theorem callback_authWrite (live : PrawtosLive c fd opWrite) (hs : PrawtosSelects c e) :
    prawtosCallbackStep c .authWrite e =
      prawtosSettle e.key .authWrite (authPrawtosWrite e.key c).1 (authPrawtosWrite e.key c).2.toNat :=
  prawtosCallbackStep_ok (g := prawtosReturning authPrawtosWrite) (by rw [(prawtosReady_write live hs).2]; rfl) rfl

theorem callback_cmdWrite (live : PrawtosLive c fd opWrite) (hs : PrawtosSelects c e) :
    prawtosCallbackStep c .cmdWrite e =
      prawtosSettle e.key .cmdWrite (cmdWrite e.key c).1 (cmdWrite e.key c).2.toNat :=
  prawtosCallbackStep_ok (g := prawtosReturning cmdWrite) (by rw [(prawtosReady_write live hs).2]; rfl) rfl

theorem callback_cmdRead (live : PrawtosLive c fd opRead) (hs : PrawtosSelects c e) :
    prawtosCallbackStep c .cmdRead e =
      match cmdRead e.key c with
      | .error f => .error f
      | .ok r => prawtosSettle e.key .cmdRead r.1 r.2.toNat := by
  have hh : prawtosHandlerOf .cmdRead e.ready = some (prawtosMayFault cmdRead) := by
    rw [(prawtosReady_read live hs).2]; rfl
  cases h : cmdRead e.key c with
  | error f => simp only [prawtosCallbackStep, hh, prawtosMayFault, h, Except.map]
  | ok r => exact prawtosCallbackStep_ok hh (by rw [prawtosMayFault, h]; rfl)

theorem settle_closed_inv (live : PrawtosLive c fd i) (h : ret = .error ∨ ret = .done)
    (hV : c.calls = [] ∨ Vouched V d) (hs : prawtosSettle k st c ret.toNat = .ok d) : PrawtosInv V d := by
  obtain ⟨d', hd, hclosed⟩ := prawtosSettle_closed k st live h
  rw [hd, Except.ok.injEq] at hs
  subst hs
  exact Or.inl (prawtosClosed_ended hclosed h (hV.imp_left fun h' => hclosed.calls.trans h'))

theorem authRead_inv (live : PrawtosLive c fd opRead) (r : AuthReading c) (calls : c.calls = [])
    (hs : PrawtosSelects c e) (hc : ∀ uname passwd, CompletesAuth c e uname passwd →
      credentialsStatus e.sys.heap c.users uname passwd = authSuccess → V' uname passwd)
    (hd : prawtosCallbackStep c .authRead e = .ok d) : PrawtosInv V' d := by
  obtain ⟨hfd, hr⟩ := prawtosReady_read live hs
  rw [callback_authRead live hs] at hd
  have hout := authPrawtosRead_outcome (k := e.key) live r (congrArg Nat.cast hfd)
  generalize authPrawtosRead e.key c = q at hout hd
  cases hout with
  | failed c' i live' same _ _ => exact settle_closed_inv live' (Or.inl rfl) (Or.inl (same.calls.trans calls)) hd
  | reading c' l b live' same _ _ r' =>
    rw [prawtosSettle_to (Or.inr (Or.inr ⟨rfl, Or.inl rfl⟩)), Except.ok.injEq] at hd
    subst hd
    refine Or.inr ⟨fd, .authRead, Or.inl rfl, .authRead (prawtosLive_stm live' _) ?_ (same.calls.trans calls)⟩
    exact ⟨r'.parser, r'.undone, r'.drained, r'.sent, r'.idle, r'.room⟩
  | checked c' uname passwd l b live' same recv received w status =>
    rw [prawtosSettle_to (Or.inl rfl), Except.ok.injEq] at hd
    subst hd
    refine Or.inr ⟨fd, .authWrite, Or.inl rfl, .authWrite uname passwd (prawtosLive_stm live' _)
      ⟨w.received, w.sending, w.pending⟩ (same.calls.trans calls) fun h => ?_⟩
    refine hc uname passwd ⟨live.alive, hs, hr, authReading_incomplete r, l, b, c'.readBuffer.unread, recv, ?_⟩
      (status.symm.trans h)
    exact received.symm.trans w.received

theorem authWrite_inv {uname passwd : Name} (live : PrawtosLive c fd opWrite) (w : AuthWriting c uname passwd)
    (calls : c.calls = []) (vouched : c.auth.status = authSuccess → V uname passwd) (hs : PrawtosSelects c e)
    (hd : prawtosCallbackStep c .authWrite e = .ok d) : PrawtosInv V d := by
  rw [callback_authWrite live hs] at hd
  have hout := authPrawtosWrite_outcome (k := e.key) live w (congrArg Nat.cast (prawtosReady_write live hs).1)
  generalize authPrawtosWrite e.key c = q at hout hd
  cases hout with
  | failed c' i live' same _ _ => exact settle_closed_inv live' (Or.inl rfl) (Or.inl (same.calls.trans calls)) hd
  | writing c' live' same _ kept w' =>
    rw [prawtosSettle_to (Or.inl rfl), Except.ok.injEq] at hd
    subst hd
    exact Or.inr ⟨fd, .authWrite, Or.inl rfl, .authWrite uname passwd (prawtosLive_stm live' _)
      ⟨w'.received, w'.sending, w'.pending⟩ (same.calls.trans calls) fun h => vouched (kept.symm.trans h)⟩
  | answered c' live' same received status _ _ _ =>
    rw [prawtosSettle_cmdRead (by decide), Except.ok.injEq] at hd
    subst hd
    exact Or.inr ⟨fd, .cmdRead, Or.inl rfl,
      prawtosPhase_arrival live' ⟨uname, passwd, _, received, vouched status⟩ _⟩

theorem cmdRead_inv {u : List UInt8} (live : PrawtosLive c fd opRead) (r : CmdReading c u) (vouched : Vouched V d)
    (hs : PrawtosSelects c e) (hd : prawtosCallbackStep c .cmdRead e = .ok d) : PrawtosInv V d := by
  rw [callback_cmdRead live hs] at hd
  have hout := cmdRead_outcome (k := e.key) live r (congrArg Nat.cast (prawtosReady_read live hs).1)
  generalize cmdRead e.key c = q at hout hd
  cases hout with
  | failed c' live' _ _ _ => exact settle_closed_inv live' (Or.inl rfl) (Or.inr vouched) hd
  | reading c' l b _ _ live' _ _ _ _ _ r' =>
    simp only at hd
    rw [prawtosSettle_to (Or.inr (Or.inr ⟨rfl, Or.inr rfl⟩)), Except.ok.injEq] at hd
    subst hd
    exact Or.inr ⟨fd, .cmdRead, Or.inl rfl, .cmdRead _ (prawtosLive_stm live' _) r' vouched⟩
  | processed c' l b v x _ _ _ live' _ _ _ _ fin =>
    cases hp : cmdProcess e.key.sys.heap c' with
    | error f => rw [hp] at hd; cases hd
    | ok q =>
      obtain ⟨c₂, ret⟩ := q
      obtain ⟨hok, hret⟩ := cmdProcess_ok hp
      have live₂ := processed_live hok live'
      rw [hp] at hd
      simp only at hd
      have hret' : cmdReturn c'.cmd.parser ret = .cmdWrite ∨ cmdReturn c'.cmd.parser ret = .error := by
        unfold cmdReturn
        split
        · exact Or.inr rfl
        · exact hret
      rcases hret' with h | h
      · rw [h, prawtosSettle_to (Or.inr (Or.inl rfl)), Except.ok.injEq] at hd
        subst hd
        exact Or.inr ⟨fd, .cmdWrite, Or.inl rfl, .cmdWrite (prawtosLive_stm live₂ _) vouched⟩
      · rw [h] at hd
        exact settle_closed_inv live₂ (Or.inl rfl) (Or.inr vouched) hd

theorem cmdWrite_inv (live : PrawtosLive c fd opWrite) (vouched : Vouched V d) (hs : PrawtosSelects c e)
    (hd : prawtosCallbackStep c .cmdWrite e = .ok d) : PrawtosInv V d := by
  rw [callback_cmdWrite live hs] at hd
  have hout := cmdWrite_outcome (k := e.key) live (congrArg Nat.cast (prawtosReady_write live hs).1)
  generalize cmdWrite e.key c = q at hout hd
  cases hout with
  | failed c' live' _ _ => exact settle_closed_inv live' (Or.inl rfl) (Or.inr vouched) hd
  | finished c' r live' _ _ _ => exact settle_closed_inv live' (Or.inr rfl) (Or.inr vouched) hd
  | writing c' live' _ _ _ _ _ =>
    rw [prawtosSettle_to (Or.inr (Or.inl rfl)), Except.ok.injEq] at hd
    subst hd
    exact Or.inr ⟨fd, .cmdWrite, Or.inl rfl, .cmdWrite (prawtosLive_stm live' _) vouched⟩
  | answered c' live' _ _ _ _ _ _ _ =>
    rw [prawtosSettle_cmdRead (by decide), Except.ok.injEq] at hd
    subst hd
    exact Or.inr ⟨fd, .cmdRead, Or.inl rfl, prawtosPhase_arrival live' vouched _⟩

/-! ## The step -/

theorem vouched_mono (hV : ∀ uname passwd, V uname passwd → V' uname passwd) (h : Vouched V c)
    (hr : c.received <+: d.received) : Vouched V' d := by
  obtain ⟨uname, passwd, r, hc, hv⟩ := h
  obtain ⟨t, ht⟩ := hr
  exact ⟨uname, passwd, r ++ t, by rw [← ht, hc, List.append_assoc], hV uname passwd hv⟩

theorem prawtosPhase_mono (hV : ∀ uname passwd, V uname passwd → V' uname passwd) (h : PrawtosPhase V c fd st) :
    PrawtosPhase V' c fd st := by
  cases h with
  | authRead live r calls => exact .authRead live r calls
  | authWrite uname passwd live w calls vouched =>
    exact .authWrite uname passwd live w calls fun h => hV uname passwd (vouched h)
  | cmdRead u live r vouched => exact .cmdRead u live r (vouched_mono hV vouched (List.prefix_refl _))
  | cmdWrite live vouched => exact .cmdWrite live (vouched_mono hV vouched (List.prefix_refl _))

theorem prawtosPhase_alive (h : PrawtosPhase V c fd st) : c.freed = false := by
  cases h with
  | authRead live | authWrite _ _ live | cmdRead _ live | cmdWrite live => exact live.alive

theorem prawtosPhase_other {x : Int} {a : Action} (h : PrawtosPhase V c fd st) (hx : x ≠ c.clientFd)
    (ha : a.data ≠ some (.prawtos c.self)) : PrawtosPhase V { c with toProcess := c.toProcess.act x a } fd st := by
  cases h with
  | authRead live r calls =>
    exact .authRead (prawtosLive_other live hx ha) ⟨r.parser, r.undone, r.drained, r.sent, r.idle, r.room⟩ calls
  | authWrite uname passwd live w calls vouched =>
    exact .authWrite uname passwd (prawtosLive_other live hx ha) ⟨w.received, w.sending, w.pending⟩ calls vouched
  | cmdRead u live r vouched => exact .cmdRead u (prawtosLive_other live hx ha) r vouched
  | cmdWrite live vouched => exact .cmdWrite (prawtosLive_other live hx ha) vouched

theorem prawtosPhase_users {l : List User} (h : PrawtosPhase V c fd st) :
    PrawtosPhase V { c with users := l } fd st := by
  have hlive : ∀ {i}, PrawtosLive c fd i → PrawtosLive { c with users := l } fd i := fun h =>
    ⟨h.alive, h.clientFd, h.entry, h.limitRead, h.limitWrite⟩
  cases h with
  | authRead live r calls =>
    exact .authRead (hlive live) ⟨r.parser, r.undone, r.drained, r.sent, r.idle, r.room⟩ calls
  | authWrite uname passwd live w calls vouched =>
    exact .authWrite uname passwd (hlive live) ⟨w.received, w.sending, w.pending⟩ calls vouched
  | cmdRead u live r vouched => exact .cmdRead u (hlive live) r vouched
  | cmdWrite live vouched => exact .cmdWrite (hlive live) vouched

theorem prawtosEvent_inv (h : PrawtosInState c st) (hp : PrawtosPhase V c fd st) (hs : PrawtosSelects c e)
    (hV : ∀ uname passwd, V uname passwd → V' uname passwd)
    (hc : ∀ uname passwd, CompletesAuth c e uname passwd →
      credentialsStatus e.sys.heap c.users uname passwd = authSuccess → V' uname passwd)
    (hd : prawtosCallbackStep c st e = .ok d) : PrawtosInv V' d := by
  have hkept : PrawtosKept c d := by
    refine prawtosDispatch_kept (e := e) h (prawtosPhase_alive hp) ?_
    rw [prawtosDispatch_inState h (prawtosPhase_alive hp), if_pos hs, hd]
  have hreceived := prawtosKept_received hkept
  cases prawtosPhase_mono hV hp with
  | authRead live r calls => exact authRead_inv live r calls hs hc hd
  | authWrite uname passwd live w calls vouched => exact authWrite_inv live w calls vouched hs hd
  | cmdRead u live r vouched => exact cmdRead_inv live r (vouched_mono (fun _ _ h => h) vouched hreceived) hs hd
  | cmdWrite live vouched => exact cmdWrite_inv live (vouched_mono (fun _ _ h => h) vouched hreceived) hs hd

/-- Nothing but an event that completes the authentication message makes more
known of the connection. -/
theorem prawtosStep_inv {s : PrawtosStep} (h : PrawtosInv V c)
    (hV : ∀ uname passwd, V uname passwd → V' uname passwd)
    (hc : ∀ e uname passwd, s = .event e → CompletesAuth c e uname passwd →
      credentialsStatus e.sys.heap c.users uname passwd = authSuccess → V' uname passwd)
    (hd : prawtosStep c s = .ok d) : PrawtosInv V' d := by
  rcases h with h | ⟨fd, st, hst, hp⟩
  · -- a connection that has ended only changes with the rest of the process
    have hkeep : d.freed = c.freed ∧ d.stm = c.stm ∧ d.calls = c.calls ∧ d.received = c.received := by
      cases s with
      | event e =>
        rcases prawtosDispatch_freed h.freed e with hd' | hd' <;> rw [prawtosStep, hd'] at hd
        · cases hd
        · rw [← Except.ok.inj hd]; exact ⟨rfl, rfl, rfl, rfl⟩
      | other x a =>
        rw [prawtosStep, Except.ok.injEq] at hd
        rw [← hd]
        split <;> exact ⟨rfl, rfl, rfl, rfl⟩
      | users l =>
        rw [prawtosStep, Except.ok.injEq] at hd
        rw [← hd]; exact ⟨rfl, rfl, rfl, rfl⟩
    obtain ⟨h1, h2, h3, h4⟩ := hkeep
    refine Or.inl ⟨h1.trans h.freed, by rw [h2]; exact h.current, ?_⟩
    rw [h3]
    exact h.calls.imp_right fun hv => vouched_mono hV hv (h4 ▸ List.prefix_refl _)
  · cases s with
    | event e =>
      rw [prawtosStep, prawtosDispatch_inState hst (prawtosPhase_alive hp)] at hd
      by_cases hs : PrawtosSelects c e
      · rw [if_pos hs] at hd
        exact prawtosEvent_inv hst hp hs hV (fun uname passwd => hc e uname passwd rfl) hd
      · rw [if_neg hs, Except.ok.injEq] at hd
        exact Or.inr ⟨fd, st, hd ▸ hst, hd ▸ prawtosPhase_mono hV hp⟩
    | other x a =>
      rw [prawtosStep, Except.ok.injEq] at hd
      split at hd
      · exact Or.inr ⟨fd, st, hd ▸ hst, hd ▸ prawtosPhase_mono hV hp⟩
      · rename_i ho
        subst hd
        rw [not_or, not_and] at ho
        exact Or.inr ⟨fd, st, hst, prawtosPhase_other (prawtosPhase_mono hV hp) (ho.1 (prawtosPhase_alive hp)) ho.2⟩
    | users l =>
      rw [prawtosStep, Except.ok.injEq] at hd
      exact Or.inr ⟨fd, st, hd ▸ hst, hd ▸ prawtosPhase_users (prawtosPhase_mono hV hp)⟩

end

end SocksProxy
