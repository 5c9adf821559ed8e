import SocksProxy.SessionRun

/-!
# The last byte of an answer

HELLO_WRITE and REQUEST_WRITE are left by the event that sends the last byte of
the answer. The session enters REQUEST_READ or COPY with whatever its input
buffer holds.
-/

namespace SocksProxy

open Lib

/-- The event sends the last byte of the answer of the state `st`. -/
def SendsLast (st : SessionState) (c : Conn) (e : Event) : Prop :=
  c.sMachine.current = some st.toNat ∧ e.ready = .write ∧ Drains c.output e.sys.send

/-- The session that has sent its reply and enters COPY. -/
def copyEntry (k : Key) (c : Conn) : Conn :=
  { copyArrival k (requestWrite k c).1 with sMachine := { stmCreate with current := some SessionState.copy.toNat } }

/-- The session that has answered its hello and enters REQUEST_READ. -/
def requestEntry (k : Key) (c : Conn) : Conn :=
  { requestArrival k (helloWrite k c).1 with
    sMachine := { stmCreate with current := some SessionState.requestRead.toNat } }

section
variable {c : Conn} {fd : Nat} {i : FdInterest} {o : Option (Nat × FdInterest)} {k : Key} {e : Event}
  {P : Conn → Prop}

theorem not_canRead_of_drains {b b' : Buffer} {a : SendAnswer} {l : List UInt8} (h : sendFrom b a = some (l, b')) :
    bufferCanRead b' = false ↔ Drains b a := by
  rw [canRead_eq_false]
  constructor
  · exact fun hb => ⟨l, b', h, hb⟩
  · rintro ⟨l', b'', h', hb⟩
    obtain ⟨-, rfl⟩ := Prod.mk.inj (Option.some.inj (h.symm.trans h'))
    exact hb

/-! ## REQUEST_WRITE -/

theorem requestWrite_drained (live : Live c fd i o) (hk : k.fd = fd) {l : List UInt8} {b : Buffer}
    (hs : sendFrom c.output k.sys.send = some (l, b)) (hb : b.unread = []) :
    ∃ sel, requestWrite k c = ({ c.note (.send k.fd (some l)) with output := b, sel := sel }, .copy) ∧
      Live { c.note (.send k.fd (some l)) with output := b, sel := sel } fd opRead o := by
  have hlive : Live { c.note (.send k.fd (some l)) with output := b } fd i o :=
    ⟨live.alive, live.clientFd, live.isOpen, live.entries, live.serverFd, live.sniff, live.limitInput,
      (sendFrom_some hs).2.trans live.limitOutput⟩
  obtain ⟨sel, hset, hlive'⟩ := live_setClient hlive hk opRead
  refine ⟨sel, ?_, hlive'⟩
  unfold requestWrite
  simp only [hs, (canRead_eq_false b).mpr hb, Bool.false_eq_true, ite_false, hset]

theorem requestWrite_pending (hd : ¬ Drains c.output k.sys.send) : (requestWrite k c).2 ≠ .copy := by
  unfold requestWrite
  cases hs : sendFrom c.output k.sys.send with
  | none => simp
  | some lb =>
    obtain ⟨l, b⟩ := lb
    have hc : bufferCanRead b = true := by
      rw [← Bool.not_eq_false]
      exact fun h => hd ((not_canRead_of_drains hs).mp h)
    simp [hc]

theorem copyEntry_live (live : Live c fd i o) (hk : k.fd = fd) (hd : Drains c.output k.sys.send) :
    Live (copyEntry k c) fd opRead o ∧ (copyEntry k c).input = c.input ∧ (copyEntry k c).output.unread = [] ∧
      (copyEntry k c).server = c.server ∧ (copyEntry k c).clientFd = c.clientFd ∧
      (∃ l b, sendFrom c.output k.sys.send = some (l, b) ∧ b.unread = [] ∧
        (copyEntry k c).log = c.log ++ [.send k.fd (some l)]) ∧
      ∀ s, (copyEntry k c).duplex s = opReadWrite := by
  obtain ⟨l, b, hs, hb⟩ := hd
  obtain ⟨sel, hw, hlive⟩ := requestWrite_drained live hk hs hb
  unfold copyEntry
  rw [hw]
  refine ⟨?_, rfl, hb, rfl, rfl, ⟨l, b, hs, hb, rfl⟩, fun s => ?_⟩
  · exact ⟨hlive.alive, hlive.clientFd, hlive.isOpen, hlive.entries, hlive.serverFd, hlive.sniff, hlive.limitInput,
      hlive.limitOutput⟩
  · cases s <;> rfl

/-- The origin does not wait to be written to while the reply is being sent. -/
theorem reply_client {m : Nat} {j : FdInterest} (hj : j = opNoop ∨ j = opRead)
    (live : Live c fd opWrite (some (m, j))) (hs : Selects c e) (hw : e.ready = .write) : e.key.fd = fd := by
  rcases selects_live live hs with ⟨he, -⟩ | ⟨j', hj', hr⟩
  · exact key_client he
  · obtain ⟨-, rfl⟩ := Prod.mk.inj (Option.some.inj hj')
    rw [hw] at hr
    rcases hj with rfl | rfl
    · rw [has_opNoop] at hr; cases hr
    · cases hr

/-- COPY is entered from REQUEST_WRITE by the event that sends the last byte of the reply. -/
theorem entersCopy_iff {ms h q : List UInt8} {m : Nat} {j : FdInterest} (hst : InState c .requestWrite)
    (hj : j = opNoop ∨ j = opRead) (live : Live c fd opWrite (some (m, j))) (r : Replying c ms h q)
    (hs : Selects c e) :
    (∀ c', callbackStep c .requestWrite e = .ok c' → AtState .copy P c') ↔
      (SendsLast .requestWrite c e → P (copyEntry e.key c)) := by
  have hcur := inState_current hst (by decide)
  rcases selects_live live hs with ⟨he, hr⟩ | ⟨j', hj', hr⟩
  · have hw := (has_opWrite _).mp hr
    have ho := requestWrite_outcome live r (key_client he)
    have hgo := requestWrite_goes hj ho
    rw [callbackStep_forall (callbackStep_ok (g := returning requestWrite) (by rw [hw]; rfl) rfl hgo)]
    by_cases hd : Drains c.output e.sys.send
    · obtain ⟨l, b, hsend, hb⟩ := hd
      obtain ⟨sel, hreq, -⟩ := requestWrite_drained live (key_client he) hsend hb
      have hcopy : (requestWrite e.key c).2 = .copy := by rw [hreq]
      have hset : settle e.key .requestWrite (requestWrite e.key c).1 (requestWrite e.key c).2.toNat =
          copyEntry e.key c := by rw [hcopy]; rfl
      have hstate := settle_atState (P := P) hgo (by rw [hcopy]; decide)
      rw [hcopy] at hstate hset
      rw [hcopy, hstate, hset]
      exact ⟨fun hp _ => hp, fun hp => hp ⟨hcur, hw, l, b, hsend, hb⟩⟩
    · exact iff_of_true (settle_elsewhere (by decide) hgo (requestWrite_pending hd))
        fun hlast => absurd hlast.2.2 hd
  · obtain ⟨-, rfl⟩ := Prod.mk.inj (Option.some.inj hj')
    have hread : e.ready = .read := by
      rcases hj with rfl | rfl
      · rw [has_opNoop] at hr; cases hr
      · exact (has_opRead _).mp hr
    refine iff_of_true ?_ fun hlast => absurd (hread.symm.trans hlast.2.1) (by decide)
    rw [callbackStep_none (by rw [hread]; rfl)]
    simp

/-! ## HELLO_WRITE -/

theorem helloWrite_drained (live : Live c fd i o) (hk : k.fd = fd) {l : List UInt8} {b : Buffer}
    (hs : sendFrom c.output k.sys.send = some (l, b)) (hb : b.unread = []) :
    ∃ sel, helloWrite k c = ({ c.note (.send k.fd (some l)) with output := b, sel := sel },
        if c.hello.method = methodUsernamePassword then .authRead else .requestRead) ∧
      Live { c.note (.send k.fd (some l)) with output := b, sel := sel } fd opRead o := by
  have hlive : Live { c.note (.send k.fd (some l)) with output := b } fd i o :=
    ⟨live.alive, live.clientFd, live.isOpen, live.entries, live.serverFd, live.sniff, live.limitInput,
      (sendFrom_some hs).2.trans live.limitOutput⟩
  obtain ⟨sel, hset, hlive'⟩ := live_setClient hlive hk opRead
  refine ⟨sel, ?_, hlive'⟩
  unfold helloWrite
  simp only [hs, (canRead_eq_false b).mpr hb, Bool.false_eq_true, ite_false, hset]
  rfl

theorem helloWrite_pending (hd : ¬ Drains c.output k.sys.send) : (helloWrite k c).2 ≠ .requestRead := by
  unfold helloWrite
  cases hs : sendFrom c.output k.sys.send with
  | none => simp
  | some lb =>
    obtain ⟨l, b⟩ := lb
    have hc : bufferCanRead b = true := by
      rw [← Bool.not_eq_false]
      exact fun h => hd ((not_canRead_of_drains hs).mp h)
    simp [hc]

theorem requestEntry_input (live : Live c fd i o) (hk : k.fd = fd) (hd : Drains c.output k.sys.send) :
    (requestEntry k c).input = c.input := by
  obtain ⟨l, b, hs, hb⟩ := hd
  obtain ⟨sel, hw, -⟩ := helloWrite_drained live hk hs hb
  unfold requestEntry
  rw [hw]
  rfl

/-- REQUEST_READ is entered by the event that sends the last byte of the answer
to the hello, unless it has selected the method 02. -/
theorem entersRequest_iff {ms h : List UInt8} (hst : InState c .helloWrite) (live : Live c fd opWrite none)
    (w : HelloWriting c ms h) (hs : Selects c e) :
    (∀ c', callbackStep c .helloWrite e = .ok c' → AtState .requestRead P c') ↔
      (SendsLast .helloWrite c e → c.hello.method ≠ methodUsernamePassword → P (requestEntry e.key c)) := by
  have hcur := inState_current hst (by decide)
  obtain ⟨he, hr⟩ := selects_opWrite live hs
  have hh : handlerOf .helloWrite e.ready = some (returning helloWrite) := by rw [hr]; rfl
  by_cases hd : Drains c.output e.sys.send
  · obtain ⟨l, b, hsend, hb⟩ := hd
    obtain ⟨sel, hreq, -⟩ := helloWrite_drained live (key_client he) hsend hb
    by_cases hm : c.hello.method = methodUsernamePassword
    · have ha : (helloWrite e.key c).2 = .authRead := by rw [hreq, if_pos hm]
      rw [callbackStep_authRead hh ha]
      exact iff_of_true (by simp) fun _ hne => absurd hm hne
    · have hread : (helloWrite e.key c).2 = .requestRead := by rw [hreq, if_neg hm]
      have hgo := helloWrite_goes live w (key_client he) (by rw [hread]; decide)
      have hset : settle e.key .helloWrite (helloWrite e.key c).1 (helloWrite e.key c).2.toNat =
          requestEntry e.key c := by rw [hread]; rfl
      have hstate := settle_atState (P := P) hgo (by rw [hread]; decide)
      rw [callbackStep_forall (callbackStep_ok hh rfl hgo)]
      rw [hread] at hstate hset
      rw [hread, hstate, hset]
      exact ⟨fun hp _ _ => hp, fun hp => hp ⟨hcur, hr, l, b, hsend, hb⟩ hm⟩
  · have ha : (helloWrite e.key c).2 ≠ .authRead :=
      fun ha => hd ((helloWrite_authRead live w (key_client he)).mp ha).1
    have hgo := helloWrite_goes live w (key_client he) ha
    rw [callbackStep_forall (callbackStep_ok hh rfl hgo)]
    exact iff_of_true (settle_elsewhere (by decide) hgo (helloWrite_pending hd)) fun hlast => absurd hlast.2.2 hd

end

end SocksProxy
