import SocksProxy.PrawtosSteady
import SocksProxy.Server
import SocksProxy.Verdict

/-!
# The counter of the bytes relayed

Until it would reach its last value the counter is the number of bytes that
`copy_write` has sent so far, over all sessions. `Counts` is what a callback
does to the counters, and `bytesSent_run` follows from it over a run.
-/

namespace SocksProxy

open Lib

/-! ## The counters -/

/-- `n` more bytes are counted, if the counter stays below its last value. -/
def Counts (n : Nat) (s t : Stadistics) : Prop :=
  (getBytesSent s).toNat + n < 0xFFFFFFFF → (getBytesSent t).toNat = (getBytesSent s).toNat + n

section
variable {s t u : Stadistics} {m n : Nat}

theorem counts_same (h : getBytesSent t = getBytesSent s) : Counts 0 s t := fun _ => by rw [h, Nat.add_zero]

theorem counts_trans (h : Counts m s t) (h' : Counts n t u) : Counts (m + n) s u := by
  intro hlt
  have hm := h (by omega)
  rw [h' (by omega), hm, Nat.add_assoc]

theorem counts_increase (s : Stadistics) (n : Nat) :
    Counts n s (stadisticsIncreaseBytesSent s (UInt64.ofNat n)) := by
  intro hlt
  have hs := s.bytesSent.toNat_lt
  have hn : n < 2 ^ 32 := by omega
  have hsum : s.bytesSent.toUInt64 + UInt64.ofNat n < 0xFFFFFFFF := by
    rw [UInt64.lt_iff_toNat_lt, UInt64.toNat_add, UInt32.toNat_toUInt64, UInt64.toNat_ofNat']
    simp only [getBytesSent] at hlt
    rw [Nat.mod_eq_of_lt (show n < 2 ^ 64 by omega), Nat.mod_eq_of_lt (by omega)]
    exact hlt
  simp only [getBytesSent] at hlt ⊢
  simp only [stadisticsIncreaseBytesSent, if_pos hsum, UInt32.toNat_add, UInt64.toNat_toUInt32, UInt64.toNat_ofNat']
  omega

theorem prawtosDecrease_bytes (s : Stadistics) : getBytesSent (prawtosDecrease s) = getBytesSent s := by
  unfold prawtosDecrease
  split <;> rfl

end

/-! ## The log -/

theorem bytesIn_append (l l' : List Syscall) : bytesIn (l ++ l') = bytesIn l + bytesIn l' := by
  simp only [bytesIn, List.map_append, List.sum_append]

/-- The bytes that have been sent are counted. -/
def Counted (c d : Conn) : Prop := ∃ l, d.log = c.log ++ l ∧ Counts (bytesIn l) c.stats d.stats

section
variable {k : Key} {c d x : Conn} {st : SessionState}

theorem counted_trans (h : Counted c d) (h' : Counted d x) : Counted c x := by
  obtain ⟨l, hl, hc⟩ := h
  obtain ⟨l', hl', hc'⟩ := h'
  refine ⟨l ++ l', by rw [hl', hl, List.append_assoc], ?_⟩
  rw [bytesIn_append]
  exact counts_trans hc hc'

theorem counted_same (hlog : d.log = c.log) (h : getBytesSent d.stats = getBytesSent c.stats) : Counted c d :=
  ⟨[], by rw [hlog, List.append_nil], counts_same h⟩

theorem counted_call {s : Syscall} (hs : s.bytesSent = 0) (hlog : d.log = c.log ++ [s]) (h : d.stats = c.stats) :
    Counted c d := by
  refine ⟨[s], hlog, ?_⟩
  have hb : bytesIn [s] = 0 := by rw [bytesIn, List.map_singleton, List.sum_singleton, hs]
  rw [hb, h]
  exact counts_same rfl

theorem setDuplex_stats (s : Side) (i : FdInterest) : (c.setDuplex s i).stats = c.stats := by cases s <;> rfl

theorem setReadBuff_stats (s : Side) (b : Buffer) : (c.setReadBuff s b).stats = c.stats := by cases s <;> rfl

theorem shutdownWrite_counted (c : Conn) (s : Side) : Counted c (shutdownWrite c s) := by
  have hself : Counted c ((c.note (.shutdown (c.copyFd s) .wr)).setDuplex s { c.duplex s with write := false }) :=
    counted_call (s := .shutdown (c.copyFd s) .wr) rfl (by rw [setDuplex_log, note_log])
      (by rw [setDuplex_stats]; rfl)
  unfold shutdownWrite
  simp only
  split
  · refine counted_trans hself (counted_call (s := .shutdown (c.copyFd s.other) .rd) rfl ?_ ?_)
    · rw [setDuplex_log, note_log, setDuplex_copyFd, note_copyFd]
    · rw [setDuplex_stats]; rfl
  · exact hself

theorem copyFinish_counted {s : Side} (h : copyFinish c s = .ok (d, st)) : Counted c d :=
  counted_same (copyFinish_log h) (by rw [(copyFinish_steady h).stats])

theorem copyWrite_counted (h : copyWrite k c = .ok (d, st)) : Counted c d := by
  unfold copyWrite at h
  simp only at h
  split at h
  · cases h
  · split at h
    · have hnote : Counted c (c.note (.send k.fd none)) := counted_call (s := .send k.fd none) rfl rfl rfl
      exact counted_trans (counted_trans hnote (shutdownWrite_counted _ _)) (copyFinish_counted h)
    · rename_i l b hs
      split at h
      · cases h
      · rename_i c₁ h₁
        -- what `send` has taken is what is added
        have hsent : Counted c c₁ := by
          refine ⟨[.send k.fd (some l)], by rw [sniffOrigin_same h₁]; rfl, ?_⟩
          rw [sniffOrigin_same h₁]
          have hb : bytesIn [.send k.fd (some l)] = l.length := Nat.add_zero _
          rw [hb]
          exact counts_increase c.stats l.length
        refine counted_trans hsent (counted_trans (counted_same ?_ ?_) (copyFinish_counted h))
        · rw [Conn.setWriteBuff, setReadBuff_log]
        · rw [Conn.setWriteBuff, setReadBuff_stats]

theorem arrive_counted (i : Nat) (k : Key) (c : Conn) : Counted c (arrive sessionStateDef i k c) := by
  match i with
  | 0 | 1 | 2 | 3 | 4 | 5 | 6 | 7 => exact counted_same rfl rfl
  | i + 8 => exact counted_same rfl rfl

theorem closeSession_counted (c : Conn) : Counted c (closeSession c) := by
  have hclose : bytesIn [.close c.clientFd] = 0 := rfl
  have htwice : bytesIn [.close c.clientFd, .close c.clientFd] = 0 := rfl
  unfold closeSession
  simp only
  split
  · refine ⟨[.close c.clientFd, .close c.clientFd], by split <;> simp [clientClose, Conn.close, Conn.note], ?_⟩
    rw [htwice]
    split <;> exact counts_same rfl
  · refine ⟨[.close c.clientFd], by split <;> simp [Conn.close, Conn.note], ?_⟩
    rw [hclose]
    split <;> exact counts_same rfl

/-! ## An event -/

theorem dispatch_counts {e : Event} (h : dispatch c e = .ok d) : Counts (c.copied e) c.stats d.stats := by
  unfold Conn.copied
  by_cases hw : CopyWrites c e
  · obtain ⟨hs, hst, hready⟩ := hw
    rw [if_pos ⟨hs, hst, hready⟩, h]
    have hcounted : Counted c d := by
      refine dispatch_rel (fun _ => counted_same rfl rfl) counted_trans (fun i c => arrive_counted i e.key c)
        (fun g x y ret hg hr => ?_) (fun _ _ => counted_same rfl rfl) closeSession_counted h
      rw [hst, hready] at hg
      obtain ⟨st, hcopy⟩ := callback_copyWrite hg hr
      exact copyWrite_counted hcopy
    -- what the callback has counted is what the log has grown by
    obtain ⟨l, hl, hc⟩ := hcounted
    simp only [hl, List.drop_left]
    exact hc
  · rw [if_neg hw]
    by_cases hs : Selects c e
    · have hno : ¬ (stmState c.sMachine = SessionState.copy.toNat ∧ e.ready = .write) := fun hr => hw ⟨hs, hr⟩
      refine counts_same (dispatch_rel (R := fun c d : Conn => getBytesSent d.stats = getBytesSent c.stats)
        (fun _ => rfl) (fun h h' => h'.trans h) (fun i c => ?_) (fun g x y ret hg hr => ?_) (fun _ _ => rfl)
        (fun c => ?_) h)
      · match i with
        | 0 | 1 | 2 | 3 | 4 | 5 | 6 | 7 => rfl
        | i + 8 => rfl
      · rw [(callback_steady hno hg hr).stats]
      · unfold closeSession
        simp only
        split <;> split <;> rfl
    · rw [dispatch, if_neg hs, Except.ok.injEq] at h
      exact h ▸ counts_same rfl

end

section
variable {c d : PrawtosConn} {e : PrawtosEvent}

theorem prawtosDispatch_bytes (h : prawtosDispatch c e = .ok d) : getBytesSent d.stats = getBytesSent c.stats := by
  rcases prawtosDispatch_ok h with rfl | ⟨st, g, x, y, z, ret, hg, hx, hcall, hz, m, -, hd⟩
  · rfl
  have hxs : x.stats = c.stats := by
    rcases hx with rfl | ⟨i, rfl⟩
    · rfl
    · exact (prawtosArrive_steady i).stats
  have hzs : z.stats = c.stats := by
    rw [← hxs, ← (prawtosHandlerOf_steady hg hcall).stats]
    rcases hz with rfl | ⟨i, rfl⟩
    · rfl
    · exact (prawtosArrive_steady i).stats
  split at hd
  · rcases (prawtosDone_steady hd).2 with h' | h'
    · rw [h']; exact congrArg getBytesSent hzs
    · rw [h', prawtosDecrease_bytes]; exact congrArg getBytesSent hzs
  · rw [hd]; exact congrArg getBytesSent hzs

end

/-! ## A run of the server -/

section
variable {w w' : Server}

theorem put_stats (w : Proxy) (c : Conn) : (w.put c).process.stats = c.stats := by
  unfold Proxy.put
  simp only
  split <;> rfl

theorem prawtosPut_stats (w : Server) (c : PrawtosConn) : (w.prawtosPut c).process.stats = c.stats := by
  unfold Server.prawtosPut
  simp only
  split <;> rfl

theorem accept_bytes (w : Proxy) (fd : Option Nat) (memory : Option Allocation) :
    getBytesSent (w.accept fd memory).process.stats = getBytesSent w.process.stats := by
  unfold Proxy.accept
  cases memory with
  | none => rfl
  | some a =>
    simp only
    split
    · rfl
    · split <;> rw [put_stats] <;> rfl

theorem prawtosAccept_bytes (w : Server) (fd : Option Nat) (nio : Bool) (memory : Option Nat) :
    getBytesSent (w.prawtosAccept fd nio memory).process.stats = getBytesSent w.process.stats := by
  unfold Server.prawtosAccept prawtosPassiveAccept
  simp only
  generalize (fd.filter fun n => decide ((n : Int) ∉ w.process.openFds)) = fd
  generalize (memory.filter fun a => (w.prawtosFind a).isNone) = memory
  split
  · rename_i hp
    split at hp
    · split at hp
      · cases hp
      · cases hp; exact prawtosDecrease_bytes _
    · cases hp; exact prawtosDecrease_bytes _
  · rename_i hp
    split at hp
    · split at hp
      · cases hp; rw [prawtosPut_stats]; rfl
      · cases hp
    · cases hp

/-- The event calls no session, or goes to the one it calls. -/
theorem serverEvent_ok {e : Event} (h : serverStep w (.event e) = .ok w') :
    (w.called e = none ∧ w' = w) ∨
      ∃ a r d, w.called e = some a ∧ w.find a = some r ∧ dispatch (w.conn r) e = .ok d ∧
        w' = { w with toProxy := w.put d } := by
  simp only [serverStep, proxyStep] at h
  cases ha : w.called e with
  | none =>
    rw [ha, Except.map, Except.ok.injEq] at h
    exact Or.inl ⟨rfl, h.symm⟩
  | some a =>
    rw [ha] at h
    simp only at h
    cases hr : w.find a with
    | none => rw [hr] at h; cases h
    | some r =>
      rw [hr] at h
      simp only at h
      cases hd : dispatch (w.conn r) e with
      | error f => rw [hd] at h; cases h
      | ok d =>
        rw [hd, Except.map, Except.map, Except.ok.injEq] at h
        exact Or.inr ⟨a, r, d, rfl, hr, hd, h.symm⟩

theorem serverPrawtosEvent_ok {e : PrawtosEvent} (h : serverStep w (.prawtosEvent e) = .ok w') :
    w' = w ∨ ∃ a r d, w.prawtosFind a = some r ∧ prawtosDispatch (w.prawtosConn r) e = .ok d ∧
      w' = w.prawtosPut d := by
  simp only [serverStep] at h
  split at h
  · exact Or.inl (Except.ok.inj h).symm
  · rename_i a _
    split at h
    · cases h
    · rename_i r hr
      cases hd : prawtosDispatch (w.prawtosConn r) e with
      | error f => rw [hd] at h; cases h
      | ok d =>
        rw [hd, Except.map, Except.ok.injEq] at h
        exact Or.inr ⟨a, r, d, hr, hd, h.symm⟩

theorem serverStep_counts (s : ServerStep) (h : serverStep w s = .ok w') :
    Counts (w.copied s) w.process.stats w'.process.stats := by
  cases s with
  | accept fd memory =>
    rw [serverStep, proxyStep, Except.map, Except.ok.injEq] at h
    exact h ▸ counts_same (accept_bytes w.toProxy fd memory)
  | prawtosAccept fd nio memory =>
    rw [serverStep, Except.ok.injEq] at h
    exact h ▸ counts_same (prawtosAccept_bytes w fd nio memory)
  | event e =>
    rcases serverEvent_ok h with ⟨ha, rfl⟩ | ⟨a, r, d, ha, hr, hd, rfl⟩
    · simp only [Server.copied, ha, Option.bind_none]
      exact counts_same rfl
    · simp only [Server.copied, ha, Option.bind_some, hr]
      show Counts _ _ (w.toProxy.put d).process.stats
      rw [put_stats]
      exact dispatch_counts hd
  | prawtosEvent e =>
    refine counts_same ?_
    rcases serverPrawtosEvent_ok h with rfl | ⟨a, r, d, -, hd, rfl⟩
    · rfl
    · rw [prawtosPut_stats]
      exact prawtosDispatch_bytes hd

/-- Below its last value the counter is what `copy_write` has sent in the run. -/
theorem bytesSent_run (b : Booted) {es : List ServerStep} (hr : run serverStep b.server es = .ok w)
    (hT : tally Server.copied serverStep b.server es < 0xFFFFFFFF) :
    (getBytesSent w.process.stats).toNat = tally Server.copied serverStep b.server es := by
  have hinit : (getBytesSent b.server.process.stats).toNat = 0 := by
    show (getBytesSent b.process.stats).toNat = 0
    rw [b.stats_init]
    rfl
  have hrun := run_tally (m := Server.copied)
    (I := fun n w => n < 0xFFFFFFFF → (getBytesSent w.process.stats).toNat = n) (fun n u s v hn hs hlt => ?_)
    (fun _ => hinit) hr
  · rw [Nat.zero_add] at hrun
    exact hrun hT
  · have hu := hn (by omega)
    rw [serverStep_counts s hs (by rw [hu]; exact hlt), hu]

end

end SocksProxy
