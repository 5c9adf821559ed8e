import SocksProxy.PrawtosCmdSound
import SocksProxy.Steady

/-!
# The frame of the management callbacks

Whatever an event does to a management connection, what it has received only
grows, and the users change only when a handler is called (`PrawtosKept`).
-/

namespace SocksProxy

open Lib

/-! ## What every callback keeps

A relation that holds of the few things that a callback does holds of the
callback (`PrawtosRule`). -/

/-- A change of the parsers, the buffers and the answer of the connection. -/
structure OwnChange (c d : PrawtosConn) : Prop where
  clientFd : d.clientFd = c.clientFd
  self : d.self = c.self
  freed : d.freed = c.freed
  log : d.log = c.log
  calls : d.calls = c.calls
  users : d.users = c.users
  process : d.toProcess = c.toProcess
  readBuffer : Rewound c.readBuffer → Rewound d.readBuffer

structure PrawtosRule (R : PrawtosConn → PrawtosConn → Prop) : Prop where
  trans : ∀ {c d e}, R c d → R d e → R c e
  note : ∀ c s, R c (c.note s)
  setInterest : ∀ c fd i, R c (c.setInterest fd i).1
  own : ∀ {c d}, OwnChange c d → R c d

/-- It has to hold of what is done on the descriptor of the event only. -/
structure PrawtosRuleOn (fd : Int) (R : PrawtosConn → PrawtosConn → Prop) : Prop where
  trans : ∀ {c d e}, R c d → R d e → R c e
  note : ∀ c s, s.on = fd → R c (c.note s)
  setInterest : ∀ c i, R c (c.setInterest fd i).1
  own : ∀ {c d}, OwnChange c d → R c d

theorem prawtosRule_on {R : PrawtosConn → PrawtosConn → Prop} (hR : PrawtosRule R) (fd : Int) :
    PrawtosRuleOn fd R :=
  ⟨hR.trans, fun c s _ => hR.note c s, fun c i => hR.setInterest c fd i, hR.own⟩

theorem ownChange_same {c d : PrawtosConn} (hclient : d.clientFd = c.clientFd) (hself : d.self = c.self)
    (hfreed : d.freed = c.freed) (hlog : d.log = c.log) (hcalls : d.calls = c.calls) (husers : d.users = c.users)
    (hprocess : d.toProcess = c.toProcess) (hbuffer : d.readBuffer = c.readBuffer) : OwnChange c d :=
  ⟨hclient, hself, hfreed, hlog, hcalls, husers, hprocess, fun h => hbuffer ▸ h⟩

theorem prawtosReturning_ok {f : PrawtosKey → PrawtosConn → PrawtosConn × PrawtosState} {k : PrawtosKey}
    {c d : PrawtosConn} {ret : Nat} (h : prawtosReturning f k c = .ok (d, ret)) : d = (f k c).1 := by
  simp only [prawtosReturning, Except.ok.injEq, Prod.mk.injEq] at h
  exact h.1.symm

theorem prawtosMayFault_ok {f : PrawtosKey → PrawtosConn → Except Fault (PrawtosConn × PrawtosState)}
    {k : PrawtosKey} {c d : PrawtosConn} {ret : Nat} (h : prawtosMayFault f k c = .ok (d, ret)) :
    ∃ st, f k c = .ok (d, st) := by
  unfold prawtosMayFault at h
  cases hr : f k c with
  | error e => rw [hr] at h; cases h
  | ok r =>
    rw [hr] at h
    simp only [Except.map, Except.ok.injEq, Prod.mk.injEq] at h
    exact ⟨r.2, by rw [← h.1]⟩

section
variable {R : PrawtosConn → PrawtosConn → Prop} {k : PrawtosKey} (hR : PrawtosRuleOn k.fd R) (c : PrawtosConn)
include hR

theorem prawtosRuleOn_refl : R c c := hR.own (ownChange_same rfl rfl rfl rfl rfl rfl rfl rfl)

theorem authPrawtosConsumed_on : R c (authPrawtosConsumed k c).1 := by
  unfold authPrawtosConsumed
  simp only
  split
  · have hset := hR.setInterest c opWrite
    generalize c.setInterest k.fd opWrite = r at hset
    obtain ⟨c₁, status⟩ := r
    cases status with
    | success => exact hR.trans hset (hR.own (ownChange_same rfl rfl rfl rfl rfl rfl rfl rfl))
    | _ => exact hset
  · exact prawtosRuleOn_refl hR c

theorem authPrawtosRead_on : R c (authPrawtosRead k c).1 := by
  unfold authPrawtosRead
  split
  · exact hR.note c _ rfl
  · rename_i l b hr
    simp only
    split
    · exact hR.note c _ rfl
    · refine hR.trans (hR.trans (hR.note c (.recv k.fd (some l)) rfl) (hR.own ?_)) (authPrawtosConsumed_on hR _)
      exact ⟨rfl, rfl, rfl, rfl, rfl, rfl, rfl, fun h => consume_rewound _ _ _ (recvInto_rewound hr h)⟩

theorem sent_on (l : List UInt8) (b : Buffer) : R c { c.note (.send k.fd (some l)) with writeBuffer := b } :=
  hR.trans (hR.note c _ rfl) (hR.own (ownChange_same rfl rfl rfl rfl rfl rfl rfl rfl))

/-- The interest is set once the answer has been sent. -/
theorem sendThenRead_on {l : List UInt8} {b : Buffer} {d : PrawtosConn} {status : SelectorStatus}
    (h : PrawtosConn.setInterest { c.note (.send k.fd (some l)) with writeBuffer := b } k.fd opRead = (d, status)) :
    R c d := by
  have hset := hR.trans (sent_on hR c l b) (hR.setInterest _ opRead)
  rwa [h] at hset

theorem authPrawtosWrite_on : R c (authPrawtosWrite k c).1 := by
  unfold authPrawtosWrite
  split
  · exact hR.note c _ rfl
  · rename_i l b _
    simp only
    split
    · exact hR.note c _ rfl
    · split
      · exact hR.note c _ rfl
      · split
        · exact sent_on hR c l b
        · split <;> exact sendThenRead_on hR c (by assumption)

theorem cmdWrite_on : R c (cmdWrite k c).1 := by
  unfold cmdWrite
  split
  · exact hR.note c _ rfl
  · rename_i l b _
    simp only
    split
    · exact hR.note c _ rfl
    · split
      · exact hR.note c _ rfl
      · split
        · exact hR.note c _ rfl
        · split
          · exact sent_on hR c l b
          · split <;> exact sendThenRead_on hR c (by assumption)

variable {c} {d : PrawtosConn} {ret : PrawtosState}
  (hprocess : ∀ {heap c d ret}, cmdProcess heap c = .ok (d, ret) → R c d)
include hprocess

theorem cmdConsumed_on (h : cmdConsumed k c = .ok (d, ret)) : R c d := by
  unfold cmdConsumed at h
  simp only at h
  split at h
  · have hset := hR.setInterest c opWrite
    generalize c.setInterest k.fd opWrite = r at hset h
    obtain ⟨c₁, status⟩ := r
    cases status with
    | success =>
      simp only at h
      split at h
      · cases h
      · rename_i c₂ ret' hp
        simp only [Except.ok.injEq, Prod.mk.injEq] at h
        exact h.1 ▸ hR.trans hset (hprocess hp)
    | _ =>
      simp only [Except.ok.injEq, Prod.mk.injEq] at h
      exact h.1 ▸ hset
  · simp only [Except.ok.injEq, Prod.mk.injEq] at h
    exact h.1 ▸ prawtosRuleOn_refl hR c

theorem cmdRead_on (h : cmdRead k c = .ok (d, ret)) : R c d := by
  unfold cmdRead at h
  split at h
  · simp only [Except.ok.injEq, Prod.mk.injEq] at h
    exact h.1 ▸ hR.note c _ rfl
  · rename_i l b hr
    simp only at h
    split at h
    · simp only [Except.ok.injEq, Prod.mk.injEq] at h
      exact h.1 ▸ hR.note c _ rfl
    · refine hR.trans (hR.trans (hR.note c (.recv k.fd (some l)) rfl) (hR.own ?_)) (cmdConsumed_on hR hprocess h)
      exact ⟨rfl, rfl, rfl, rfl, rfl, rfl, rfl, fun h => consume_rewound _ _ _ (recvInto_rewound hr h)⟩

theorem prawtosHandlerOf_on {st : PrawtosState} {r : Readiness} {n : Nat}
    {g : PrawtosKey → PrawtosConn → Except Fault (PrawtosConn × Nat)} (hh : prawtosHandlerOf st r = some g)
    (hg : g k c = .ok (d, n)) : R c d := by
  match r, st with
  | .read, .authRead => cases hh; exact prawtosReturning_ok hg ▸ authPrawtosRead_on hR c
  | .write, .authWrite => cases hh; exact prawtosReturning_ok hg ▸ authPrawtosWrite_on hR c
  | .read, .cmdRead =>
    cases hh
    obtain ⟨st, hst⟩ := prawtosMayFault_ok hg
    exact cmdRead_on hR hprocess hst
  | .write, .cmdWrite => cases hh; exact prawtosReturning_ok hg ▸ cmdWrite_on hR c
  | .write, .authRead | .read, .authWrite | .write, .cmdRead | .read, .cmdWrite => cases hh
  | .read, .done | .write, .done | .read, .error | .write, .error => cases hh

omit hprocess in
theorem prawtosArrive_on (n : Nat) : R c (arrive prawtosInitStates n k c) := by
  match n with
  | 0 | 1 | 2 | 3 | 4 | 5 => exact hR.own (ownChange_same rfl rfl rfl rfl rfl rfl rfl rfl)
  | n + 6 => exact prawtosRuleOn_refl hR c

end

/-! The same for what holds on every descriptor. -/

section
variable {R : PrawtosConn → PrawtosConn → Prop} (hR : PrawtosRule R) (k : PrawtosKey) (c : PrawtosConn)
include hR

theorem prawtosRule_refl : R c c := hR.own (ownChange_same rfl rfl rfl rfl rfl rfl rfl rfl)

theorem authPrawtosRead_rel : R c (authPrawtosRead k c).1 := authPrawtosRead_on (prawtosRule_on hR k.fd) c

theorem authPrawtosWrite_rel : R c (authPrawtosWrite k c).1 := authPrawtosWrite_on (prawtosRule_on hR k.fd) c

theorem cmdWrite_rel : R c (cmdWrite k c).1 := cmdWrite_on (prawtosRule_on hR k.fd) c

variable {k c} {d : PrawtosConn}

theorem prawtosHandlerOf_rel (hprocess : ∀ {heap c d ret}, cmdProcess heap c = .ok (d, ret) → R c d)
    {st : PrawtosState} {r : Readiness} {n : Nat} {g : PrawtosKey → PrawtosConn → Except Fault (PrawtosConn × Nat)}
    (hh : prawtosHandlerOf st r = some g) (hg : g k c = .ok (d, n)) : R c d :=
  prawtosHandlerOf_on (prawtosRule_on hR k.fd) hprocess hh hg

theorem prawtosArrive_rel (n : Nat) : R c (arrive prawtosInitStates n k c) :=
  prawtosArrive_on (prawtosRule_on hR k.fd) n

end

/-! ## What is received, and who the users are -/

structure PrawtosKept (c d : PrawtosConn) : Prop where
  clientFd : d.clientFd = c.clientFd
  self : d.self = c.self
  log : c.log <+: d.log
  calls : c.calls <+: d.calls
  users : d.calls = c.calls → d.users = c.users

theorem prawtosKept_trans {c d e : PrawtosConn} (h : PrawtosKept c d) (h' : PrawtosKept d e) : PrawtosKept c e where
  clientFd := h'.clientFd.trans h.clientFd
  self := h'.self.trans h.self
  log := h.log.trans h'.log
  calls := h.calls.trans h'.calls
  users := fun he => by
    have hd : d.calls = c.calls := (h.calls.eq_of_length_le (he ▸ h'.calls.length_le)).symm
    exact (h'.users (he.trans hd.symm)).trans (h.users hd)

section
variable (c : PrawtosConn)

theorem prawtosKept_same {d : PrawtosConn} (hclient : d.clientFd = c.clientFd) (hself : d.self = c.self)
    (hlog : d.log = c.log) (hcalls : d.calls = c.calls) (husers : d.users = c.users) : PrawtosKept c d :=
  ⟨hclient, hself, hlog ▸ List.prefix_refl _, hcalls ▸ List.prefix_refl _, fun _ => husers⟩

theorem prawtosKept_refl : PrawtosKept c c := prawtosKept_same c rfl rfl rfl rfl rfl

theorem prawtosKept_note (s : Syscall) : PrawtosKept c (c.note s) :=
  ⟨rfl, rfl, List.prefix_append _ _, List.prefix_refl _, fun _ => rfl⟩

theorem prawtosKept_setInterest (fd : Int) (i : FdInterest) : PrawtosKept c (c.setInterest fd i).1 :=
  prawtosKept_same c rfl rfl rfl rfl rfl

theorem prawtosKept_called {d : PrawtosConn} {entry : HandlerEntry} (hclient : d.clientFd = c.clientFd)
    (hself : d.self = c.self) (hlog : d.log = c.log) (hcalls : d.calls = c.calls ++ [entry]) : PrawtosKept c d :=
  ⟨hclient, hself, hlog ▸ List.prefix_refl _, hcalls ▸ List.prefix_append _ _,
    fun h => by rw [hcalls] at h; simp at h⟩

end

theorem prawtosKept_received {c d : PrawtosConn} (h : PrawtosKept c d) : c.received <+: d.received := by
  obtain ⟨l, hl⟩ := h.log
  unfold PrawtosConn.received
  rw [h.clientFd, ← hl, receivedOn_append]
  exact List.prefix_append _ _

section
variable {k : PrawtosKey} {c d : PrawtosConn} {ret : PrawtosState}

theorem prawtosKept_rule : PrawtosRule PrawtosKept where
  trans := prawtosKept_trans
  note := prawtosKept_note
  setInterest := prawtosKept_setInterest
  own := fun h => prawtosKept_same _ h.clientFd h.self h.log h.calls h.users

theorem cmdProcess_kept {heap : Heap} (h : cmdProcess heap c = .ok (d, ret)) : PrawtosKept c d := by
  obtain ⟨hok, -⟩ := cmdProcess_ok h
  by_cases ht : c.cmd.parser.type = 0x00 ∨ c.cmd.parser.type = 0x01
  · obtain ⟨entry, hcalls⟩ := cmdProcess_calls ht h
    exact prawtosKept_called c hok.clientFd hok.self hok.log hcalls
  · rw [not_or] at ht
    obtain ⟨husers, hcalls⟩ := cmdProcess_outside ht.1 ht.2 h
    exact prawtosKept_same c hok.clientFd hok.self hok.log hcalls husers

/-! ## An event -/

theorem prawtosDone_kept (h : prawtosDone c = .ok d) : PrawtosKept c d := by
  unfold prawtosDone at h
  simp only at h
  split at h
  · split at h
    · rw [← Except.ok.inj h]
      exact ⟨rfl, rfl, List.prefix_append _ _, List.prefix_refl _, fun _ => rfl⟩
    · cases h
  · rw [← Except.ok.inj h]; exact prawtosKept_refl c

theorem prawtosDone_stm (h : prawtosDone c = .ok d) : d.stm = c.stm := by
  unfold prawtosDone at h
  simp only at h
  split at h
  · split at h
    · rw [← Except.ok.inj h]; rfl
    · cases h
  · rw [← Except.ok.inj h]

theorem prawtosSettle_kept {st : PrawtosState} {n : Nat} (h : prawtosSettle k st c n = .ok d) :
    PrawtosKept c d := by
  have harrive : PrawtosKept c { (if n = st.toNat then c else arrive prawtosInitStates n k c) with
      stm := { prawtosStm with current := some n } } := by
    split
    · exact prawtosKept_same c rfl rfl rfl rfl rfl
    · exact prawtosKept_trans (prawtosArrive_rel prawtosKept_rule n) (prawtosKept_same _ rfl rfl rfl rfl rfl)
  unfold prawtosSettle at h
  simp only at h
  split at h
  · exact prawtosKept_trans harrive (prawtosDone_kept h)
  · rw [← Except.ok.inj h]; exact harrive

theorem prawtosDispatch_kept {st : PrawtosState} {e : PrawtosEvent} (hst : PrawtosInState c st)
    (hf : c.freed = false) (h : prawtosDispatch c e = .ok d) : PrawtosKept c d := by
  rw [prawtosDispatch_inState hst hf] at h
  split at h
  · unfold prawtosCallbackStep at h
    split at h
    · cases h
    · rename_i g hg
      split at h
      · cases h
      · rename_i c' ret hc'
        split at h
        · cases h
        · exact prawtosKept_trans (prawtosHandlerOf_rel prawtosKept_rule cmdProcess_kept hg hc')
            (prawtosSettle_kept h)
  · rw [← Except.ok.inj h]; exact prawtosKept_refl c

end

end SocksProxy
