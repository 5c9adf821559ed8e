import SocksProxy.SessionRun

/-!
# What the system says of the connection to the origin

`verdicts` reads off the log whether the connection has been made: by `connect`,
or by `getsockopt` once the attempt has ended. Only `request_connect` and
`request_connecting` ask; the other callbacks make calls that say nothing of it
(`Calls`).
-/

namespace SocksProxy

/-- The descriptor, and whether it has been connected. -/
def Syscall.verdict : Syscall → Option (Int × Bool)
  | .connect fd _ _ none => some (fd, true)
  | .connect fd _ _ (some errno) => if errno = EINPROGRESS then none else some (fd, false)
  | .getsockopt fd (some error) => some (fd, decide (error = 0))
  | _ => none

def verdicts (log : List Syscall) : List (Int × Bool) := log.filterMap Syscall.verdict

/-- The system has said that the origin's descriptor is connected. -/
def Connected (c : Conn) : Prop := (c.server.fd, true) ∈ verdicts c.log

/-- A connection attempt has failed. -/
def ConnectFailed (c : Conn) : Prop := ∃ fd, (fd, false) ∈ verdicts c.log

@[simp] theorem verdicts_append (l l' : List Syscall) : verdicts (l ++ l') = verdicts l ++ verdicts l' :=
  List.filterMap_append

theorem verdicts_singleton (s : Syscall) : verdicts [s] = s.verdict.toList := by
  cases h : s.verdict <;> simp [verdicts, h]

/-- The calls made say nothing of the connection. -/
def Calls (c c' : Conn) : Prop := ∃ s, c'.log = c.log ++ s ∧ verdicts s = []

section
variable {c c' d : Conn}

theorem calls_same (h : c'.log = c.log) : Calls c c' := ⟨[], by rw [h, List.append_nil], rfl⟩

theorem calls_trans (h : Calls c c') (h' : Calls c' d) : Calls c d := by
  obtain ⟨l, hl, hv⟩ := h
  obtain ⟨l', hl', hv'⟩ := h'
  exact ⟨l ++ l', by rw [hl', hl, List.append_assoc], by rw [verdicts_append, hv, hv']; rfl⟩

theorem calls_note {x : Syscall} (hx : x.verdict = none) (h : c'.log = c.log ++ [x]) : Calls c c' :=
  ⟨[x], h, by rw [verdicts_singleton, hx]; rfl⟩

theorem calls_verdicts (h : Calls c c') : verdicts c'.log = verdicts c.log := by
  obtain ⟨l, hl, hv⟩ := h
  rw [hl, verdicts_append, hv, List.append_nil]

theorem calls_sent (h : Calls c c') (fd : Int) : sentOn fd c.log <+: sentOn fd c'.log := by
  obtain ⟨l, hl, -⟩ := h
  rw [hl, sentOn_append]
  exact List.prefix_append _ _

end

section
variable (k : Key) (c : Conn)

theorem setInterest_log (fd : Int) (i : FdInterest) : (c.setInterest fd i).1.log = c.log := rfl

/-! ## The callbacks that do not ask -/

theorem helloConsumed_log : (helloConsumed k c).1.log = c.log := by
  have hprocess : ∀ d : Conn, (helloProcess d).1.log = d.log := fun _ => rfl
  unfold helloConsumed
  grind [setInterest_log]

theorem helloRead_calls : Calls c (helloRead k c).1 := by
  unfold helloRead
  split
  · exact calls_note rfl rfl
  · rename_i l b _
    refine calls_note (x := .recv k.fd (some l)) rfl ?_
    grind [helloConsumed_log, Conn.note]

theorem helloWrite_calls : Calls c (helloWrite k c).1 := by
  unfold helloWrite
  split
  · exact calls_note rfl rfl
  · rename_i l b _
    refine calls_note (x := .send k.fd (some l)) rfl ?_
    grind [setInterest_log, Conn.note]

theorem requestWrite_calls : Calls c (requestWrite k c).1 := by
  unfold requestWrite
  split
  · exact calls_note rfl rfl
  · rename_i l b _
    refine calls_note (x := .send k.fd (some l)) rfl ?_
    grind [setInterest_log, Conn.note]

theorem shutdownRead_calls (s : Side) : Calls c (shutdownRead c s) := by
  have hself : Calls c ((c.note (.shutdown (c.copyFd s) .rd)).setDuplex s { c.duplex s with read := false }) :=
    calls_note (x := .shutdown (c.copyFd s) .rd) rfl (by rw [setDuplex_log, note_log])
  unfold shutdownRead
  simp only
  split
  · refine calls_trans hself (calls_note (x := .shutdown (c.copyFd s.other) .wr) rfl ?_)
    rw [setDuplex_log, note_log, setDuplex_copyFd, note_copyFd]
  · exact hself

theorem shutdownWrite_calls (s : Side) : Calls c (shutdownWrite c s) := by
  have hself : Calls c ((c.note (.shutdown (c.copyFd s) .wr)).setDuplex s { c.duplex s with write := false }) :=
    calls_note (x := .shutdown (c.copyFd s) .wr) rfl (by rw [setDuplex_log, note_log])
  unfold shutdownWrite
  simp only
  split
  · refine calls_trans hself (calls_note (x := .shutdown (c.copyFd s.other) .rd) rfl ?_)
    rw [setDuplex_log, note_log, setDuplex_copyFd, note_copyFd]
  · exact hself

variable {k c} {c' : Conn} {st : SessionState}

theorem checkInterest_log {s : Side} (h : checkInterest c s = .ok c') : c'.log = c.log := by
  unfold checkInterest at h
  grind [setInterest_log]

theorem copyFinish_log {s : Side} (h : copyFinish c s = .ok (c', st)) : c'.log = c.log := by
  unfold copyFinish at h
  split at h
  · cases h
  · rename_i c₁ h₁
    split at h
    · cases h
    · rename_i c₂ h₂
      simp only [Except.ok.injEq, Prod.mk.injEq] at h
      rw [← h.1, checkInterest_log h₂, checkInterest_log h₁]

theorem copyRead_calls (h : copyRead k c = .ok (c', st)) : Calls c c' := by
  unfold copyRead at h
  simp only at h
  split at h
  · cases h
  · split at h
    · refine calls_trans (calls_trans ?_ (shutdownRead_calls _ _)) (calls_same (copyFinish_log h))
      exact calls_note (x := .recv k.fd none) rfl rfl
    · rename_i l b hr
      have hnote : Calls c (c.note (.recv k.fd (some l))) := calls_note rfl rfl
      split at h
      · exact calls_trans (calls_trans hnote (shutdownRead_calls _ _)) (calls_same (copyFinish_log h))
      · split at h
        · cases h
        · rename_i c₁ h₁
          refine calls_trans hnote (calls_same ?_)
          rw [copyFinish_log h, setReadBuff_log, sniffOrigin_same h₁]

theorem copyWrite_calls (h : copyWrite k c = .ok (c', st)) : Calls c c' := by
  unfold copyWrite at h
  simp only at h
  split at h
  · cases h
  · split at h
    · refine calls_trans (calls_trans ?_ (shutdownWrite_calls _ _)) (calls_same (copyFinish_log h))
      exact calls_note (x := .send k.fd none) rfl rfl
    · rename_i l b hr
      have hnote : Calls c (c.note (.send k.fd (some l))) := calls_note rfl rfl
      split at h
      · cases h
      · rename_i c₁ h₁
        refine calls_trans hnote (calls_same ?_)
        rw [copyFinish_log h, Conn.setWriteBuff, setReadBuff_log, sniffOrigin_same h₁]

/-! ## The callbacks that ask -/

/-- The callback has not asked, and has no answer for the client, or it has asked last. -/
def Tries (k : Key) (c : Conn) (r : Conn × SessionState) : Prop :=
  (Calls c r.1 ∧ (r.2 = .requestWrite → r.1.output = c.output)) ∨
    (r.2 ≠ .requestRead ∧ ∃ d a n, Calls c d ∧ r.1.log = d.log ++ [.connect r.1.server.fd a n k.sys.connect])

theorem tries_trans {r : Conn × SessionState} (h : Calls c c') (ho : c'.output = c.output) (h' : Tries k c' r) :
    Tries k c r := by
  rcases h' with ⟨hc, hout⟩ | ⟨hne, d, a, n, hc, hlog⟩
  · exact Or.inl ⟨calls_trans h hc, fun hr => (hout hr).trans ho⟩
  · exact Or.inr ⟨hne, d, a, n, calls_trans h hc, hlog⟩

theorem connectOrigin_tries (g : Bool) : Tries k c (connectOrigin k g c) := by
  refine Or.inr ⟨connectOrigin_leaves k g c, c, c.server.address, c.server.addressLen, calls_same rfl, ?_⟩
  have hfd : (connectOrigin k g c).1.server.fd = c.server.fd := by
    unfold connectOrigin
    grind [Conn.note, Conn.setInterest, Conn.register, queueReply]
  rw [hfd]
  unfold connectOrigin
  grind [Conn.note, Conn.setInterest, Conn.register, queueReply]

theorem socket_calls (domain : Nat) (answer : Option Nat) : Calls c (c.socket domain answer).1 := by
  unfold Conn.socket
  split
  · exact calls_note (x := .socket domain _) rfl rfl
  · exact calls_note (x := .socket domain (-1)) rfl rfl

theorem requestConnect_tries (hs : c.request.serverFd = -1) : Tries k c (requestConnect k c) := by
  have hout : ∀ domain, (c.socket domain k.sys.socket).1.output = c.output := by
    intro domain
    unfold Conn.socket
    split <;> rfl
  unfold requestConnect
  simp only [hs, ne_eq, not_true_eq_false, decide_false, Bool.false_eq_true, ite_false, Bool.not_true]
  split
  · exact Or.inl ⟨socket_calls _ _, by simp⟩
  · split
    · exact Or.inl ⟨socket_calls _ _, by simp⟩
    · exact tries_trans (socket_calls _ _) (hout _) (connectOrigin_tries _)

theorem requestProcess_tries (hs : c.request.serverFd = -1) : Tries k c (requestProcess k c) := by
  unfold requestProcess
  simp only
  split
  · split
    · exact tries_trans (calls_same rfl) rfl (requestConnect_tries hs)
    · split
      · exact tries_trans (calls_same rfl) rfl (requestConnect_tries hs)
      · split <;> exact Or.inl ⟨calls_same rfl, fun _ => rfl⟩
  · exact Or.inl ⟨calls_same rfl, fun _ => rfl⟩

theorem requestConsumed_tries (hs : c.request.serverFd = -1) : Tries k c (requestConsumed k c) := by
  have hret : ∀ (b : Bool) (st st' : SessionState), st' ≠ .error →
      (if b = true then SessionState.error else st) = st' → st = st' := by
    intro b st st' hne h
    split at h
    · exact absurd h.symm hne
    · exact h
  unfold requestConsumed
  simp only
  split
  · rcases requestProcess_tries (k := k) hs with ⟨hc, hout⟩ | ⟨hne, hasked⟩
    · exact Or.inl ⟨hc, fun h => hout (hret _ _ _ (by decide) h)⟩
    · exact Or.inr ⟨fun h => hne (hret _ _ _ (by decide) h), hasked⟩
  · exact Or.inl ⟨calls_same rfl, fun _ => rfl⟩

theorem requestRead_tries (hs : c.request.serverFd = -1) : Tries k c (requestRead k c) := by
  unfold requestRead
  split
  · exact Or.inl ⟨calls_note (x := .recv k.fd none) rfl rfl, by simp⟩
  · rename_i l b _
    have hnote : Calls c (c.note (.recv k.fd (some l))) := calls_note rfl rfl
    simp only
    split
    · exact Or.inl ⟨hnote, by simp⟩
    · exact tries_trans (calls_trans hnote (calls_same rfl)) rfl (requestConsumed_tries hs)

theorem requestConnecting_asks :
    (requestConnecting k c).1.log = c.log ++ [.getsockopt c.server.fd k.sys.getsockopt] ∧
    (requestConnecting k c).1.server.fd = c.server.fd := by
  unfold requestConnecting
  grind [Conn.note, Conn.setInterest, queueReply]

end

end SocksProxy
