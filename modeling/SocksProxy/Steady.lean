import SocksProxy.SessionFrame

/-!
# What the callbacks keep of the buffers and the counters

Whatever state a session is in, a callback leaves its buffers rewound when they
are empty, and no callback but `copy_write` counts bytes (`Steady`).
-/

namespace SocksProxy

/-! ## Steady changes -/

structure Steady (c c' : Conn) : Prop where
  input : Rewound c.input → Rewound c'.input
  output : Rewound c.output → Rewound c'.output
  stats : c'.stats = c.stats

theorem steady_trans {c c' c'' : Conn} (h : Steady c c') (h' : Steady c' c'') : Steady c c'' :=
  ⟨fun hr => h'.input (h.input hr), fun hr => h'.output (h.output hr), h'.stats.trans h.stats⟩

theorem steady_same {c c' : Conn} (hinput : c'.input = c.input) (houtput : c'.output = c.output)
    (hstats : c'.stats = c.stats) : Steady c c' :=
  ⟨fun hr => hinput ▸ hr, fun hr => houtput ▸ hr, hstats⟩

theorem steady_refl (c : Conn) : Steady c c := steady_same rfl rfl rfl

theorem steady_note (c : Conn) (s : Syscall) : Steady c (c.note s) := steady_same rfl rfl rfl

theorem recvInto_rewound {b b' : Buffer} {a : RecvAnswer} {l : List UInt8} (h : recvInto b a = some (l, b'))
    (hb : Rewound b) : Rewound b' := by
  cases a with
  | error => simp [recvInto] at h
  | data d =>
    simp only [recvInto, Option.some.injEq, Prod.mk.injEq] at h
    exact h.2 ▸ rewound_fill hb _

theorem sendFrom_rewound {b b' : Buffer} {a : SendAnswer} {l : List UInt8} (h : sendFrom b a = some (l, b')) :
    Rewound b' := by
  cases a with
  | error => simp [sendFrom] at h
  | accepted n =>
    simp only [sendFrom, Option.some.injEq, Prod.mk.injEq] at h
    exact h.2 ▸ rewound_readAdv _ _ _

section
variable (k : Key) (c : Conn)

theorem socket_steady (domain : Nat) (answer : Option Nat) : Steady c (c.socket domain answer).1 := by
  unfold Conn.socket
  split <;> exact steady_same rfl rfl rfl

theorem queueReply_steady : Steady c (queueReply c).1 :=
  ⟨fun hr => hr, fun hr => rewound_marshal hr _, rfl⟩

/-! ## The callbacks -/

theorem helloConsumed_steady : Steady c (helloConsumed k c).1 := by
  unfold helloConsumed
  simp only
  split
  · generalize hset : c.setInterest k.fd opWrite = r
    obtain ⟨c₁, status⟩ := r
    have h₁ : Steady c c₁ := by
      rw [← show (c.setInterest k.fd opWrite).1 = c₁ by rw [hset]]
      exact steady_same rfl rfl rfl
    cases status with
    | success => exact steady_trans h₁ ⟨fun hr => hr, fun hr => rewound_marshal hr _, rfl⟩
    | _ => exact h₁
  · exact steady_refl c

theorem helloRead_steady : Steady c (helloRead k c).1 := by
  unfold helloRead
  split
  · exact steady_same rfl rfl rfl
  · rename_i l b hr
    simp only
    split
    · exact steady_same rfl rfl rfl
    · refine steady_trans ?_ (helloConsumed_steady k _)
      exact ⟨fun h => consume_rewound _ _ _ (recvInto_rewound hr h), fun h => h, rfl⟩

theorem sent_steady {l : List UInt8} {b : Buffer} {a : SendAnswer} (h : sendFrom c.output a = some (l, b))
    (s : Syscall) :
    Steady c { c.note s with output := b } :=
  ⟨fun hr => hr, fun _ => sendFrom_rewound h, rfl⟩

theorem helloWrite_steady : Steady c (helloWrite k c).1 := by
  unfold helloWrite
  split
  · exact steady_same rfl rfl rfl
  · rename_i l b hs
    have hsent := sent_steady c hs (.send k.fd (some l))
    simp only
    split
    · exact hsent
    · have hset : Steady c (Conn.setInterest { c.note (.send k.fd (some l)) with output := b } k.fd opRead).1 :=
        steady_trans hsent (steady_same rfl rfl rfl)
      generalize Conn.setInterest { c.note (.send k.fd (some l)) with output := b } k.fd opRead = r at hset
      obtain ⟨c₁, status⟩ := r
      cases status <;> exact hset

theorem requestWrite_steady : Steady c (requestWrite k c).1 := by
  unfold requestWrite
  split
  · exact steady_same rfl rfl rfl
  · rename_i l b hs
    have hsent := sent_steady c hs (.send k.fd (some l))
    simp only
    split
    · exact hsent
    · have hset : Steady c (Conn.setInterest { c.note (.send k.fd (some l)) with output := b } k.fd opRead).1 :=
        steady_trans hsent (steady_same rfl rfl rfl)
      generalize Conn.setInterest { c.note (.send k.fd (some l)) with output := b } k.fd opRead = r at hset
      obtain ⟨c₁, status⟩ := r
      cases status <;> exact hset

theorem connectOrigin_steady (fdRegistered : Bool) : Steady c (connectOrigin k fdRegistered c).1 := by
  unfold connectOrigin
  simp only
  split
  · exact steady_same rfl rfl rfl
  · rename_i errno _
    split
    · split
      · rename_i c₁ hset
        have h₁ : Steady c c₁ := by
          rw [← show (Conn.setInterest _ k.fd opNoop).1 = c₁ by rw [hset]]
          exact steady_same rfl rfl rfl
        cases fdRegistered <;> exact steady_trans h₁ (steady_same rfl rfl rfl)
      · rename_i c₁ _ _ hset
        rw [← show (Conn.setInterest _ k.fd opNoop).1 = c₁ by rw [hset]]
        exact steady_same rfl rfl rfl
    · have hreply : Steady c (queueReply { c.note (.connect c.server.fd c.server.address c.server.addressLen
          k.sys.connect) with request.status := errnoToSocks errno }).1 := by
        refine steady_trans ?_ (queueReply_steady _)
        exact steady_same rfl rfl rfl
      split
      · exact hreply
      · exact steady_trans hreply (steady_same rfl rfl rfl)

theorem requestConnect_steady : Steady c (requestConnect k c).1 := by
  unfold requestConnect
  simp only
  have hclosed :
      Steady c (if decide (c.request.serverFd ≠ -1) = true then c.close c.request.serverFd else (c, true)).1 := by
    split
    · exact steady_same rfl rfl rfl
    · exact steady_refl c
  generalize (if decide (c.request.serverFd ≠ -1) = true then c.close c.request.serverFd else (c, true)) =
      r at hclosed
  split
  · exact hclosed
  · have hsocket : ∀ domain, Steady c (r.1.socket domain k.sys.socket).1 := fun domain =>
      steady_trans hclosed (socket_steady r.1 domain k.sys.socket)
    split
    · exact steady_trans (hsocket _) (steady_same rfl rfl rfl)
    · split
      · exact steady_trans (hsocket _) (steady_same rfl rfl rfl)
      · refine steady_trans ?_ (connectOrigin_steady k _ _)
        exact steady_trans (hsocket _) (steady_same rfl rfl rfl)

theorem requestProcess_steady : Steady c (requestProcess k c).1 := by
  unfold requestProcess
  simp only
  split
  · split
    · refine steady_trans ?_ (requestConnect_steady k _)
      exact steady_same rfl rfl rfl
    · split
      · refine steady_trans ?_ (requestConnect_steady k _)
        exact steady_same rfl rfl rfl
      · split <;> exact steady_same rfl rfl rfl
  · exact steady_same rfl rfl rfl

theorem requestConsumed_steady : Steady c (requestConsumed k c).1 := by
  unfold requestConsumed
  simp only
  split
  · exact requestProcess_steady k c
  · exact steady_refl c

theorem requestRead_steady : Steady c (requestRead k c).1 := by
  unfold requestRead
  split
  · exact steady_same rfl rfl rfl
  · rename_i l b hr
    simp only
    split
    · exact steady_same rfl rfl rfl
    · refine steady_trans ?_ (requestConsumed_steady k _)
      exact ⟨fun h => consume_rewound _ _ _ (recvInto_rewound hr h), fun h => h, rfl⟩

theorem requestConnecting_steady : Steady c (requestConnecting k c).1 := by
  unfold requestConnecting
  simp only
  split
  · exact steady_same rfl rfl rfl
  · rename_i error _
    have hset : Steady c (Conn.setInterest (c.note (.getsockopt c.server.fd k.sys.getsockopt))
        (c.note (.getsockopt c.server.fd k.sys.getsockopt)).clientFd opWrite).1 := steady_same rfl rfl rfl
    generalize (Conn.setInterest (c.note (.getsockopt c.server.fd k.sys.getsockopt))
      (c.note (.getsockopt c.server.fd k.sys.getsockopt)).clientFd opWrite).1 = c₁ at hset
    have hstatus : Steady c (if error = 0 then { c₁ with request.status := .succeeded } else c₁) := by
      split
      · exact steady_trans hset (steady_same rfl rfl rfl)
      · exact hset
    generalize (if error = 0 then { c₁ with request.status := .succeeded } else c₁ : Conn) = c₂ at hstatus
    have hreply := steady_trans hstatus (queueReply_steady c₂)
    split
    · exact hreply
    · exact steady_trans hreply (steady_same rfl rfl rfl)

theorem setDuplex_steady (s : Side) (i : FdInterest) : Steady c (c.setDuplex s i) := by
  cases s <;> exact steady_same rfl rfl rfl

theorem setReadBuff_steady {s : Side} {b : Buffer} (h : Rewound (c.readBuff s) → Rewound b) :
    Steady c (c.setReadBuff s b) := by
  cases s with
  | client => exact ⟨h, fun hr => hr, rfl⟩
  | server => exact ⟨fun hr => hr, h, rfl⟩

theorem shutdownRead_steady (s : Side) : Steady c (shutdownRead c s) := by
  have hself : Steady c ((c.note (.shutdown (c.copyFd s) .rd)).setDuplex s { c.duplex s with read := false }) :=
    steady_trans (steady_note c _) (setDuplex_steady _ _ _)
  unfold shutdownRead
  simp only
  split
  · exact steady_trans hself (steady_trans (steady_note _ _) (setDuplex_steady _ _ _))
  · exact hself

theorem shutdownWrite_steady (s : Side) : Steady c (shutdownWrite c s) := by
  have hself : Steady c ((c.note (.shutdown (c.copyFd s) .wr)).setDuplex s { c.duplex s with write := false }) :=
    steady_trans (steady_note c _) (setDuplex_steady _ _ _)
  unfold shutdownWrite
  simp only
  split
  · exact steady_trans hself (steady_trans (steady_note _ _) (setDuplex_steady _ _ _))
  · exact hself

variable {k c} {c' : Conn} {st : SessionState}

theorem sniffOrigin_same {l : List UInt8} (h : sniffOrigin k c l = .ok c') : c' = { c with sniff := c'.sniff } := by
  unfold sniffOrigin at h
  split at h
  · split at h
    · rw [Except.ok.injEq] at h; rw [← h]
    · cases h
  · rw [Except.ok.injEq] at h; rw [← h]

theorem checkInterest_steady {s : Side} (h : checkInterest c s = .ok c') : Steady c c' := by
  unfold checkInterest at h
  split at h
  · split at h
    · rename_i c₁ hset
      rw [Except.ok.injEq] at h
      rw [← h, ← show (c.setInterest (c.copyFd s) (copyInterest c s)).1 = c₁ by rw [hset]]
      exact steady_same rfl rfl rfl
    · cases h
  · rw [Except.ok.injEq] at h; exact h ▸ steady_refl c

theorem copyFinish_steady {s : Side} (h : copyFinish c s = .ok (c', st)) : Steady c c' := by
  unfold copyFinish at h
  split at h
  · cases h
  · rename_i c₁ h₁
    split at h
    · cases h
    · rename_i c₂ h₂
      simp only [Except.ok.injEq, Prod.mk.injEq] at h
      exact h.1 ▸ steady_trans (checkInterest_steady h₁) (checkInterest_steady h₂)

theorem copyRead_steady (h : copyRead k c = .ok (c', st)) : Steady c c' := by
  unfold copyRead at h
  simp only at h
  split at h
  · cases h
  · split at h
    · refine steady_trans (steady_trans ?_ (shutdownRead_steady _ _)) (copyFinish_steady h)
      exact steady_same rfl rfl rfl
    · rename_i l b hr
      split at h
      · refine steady_trans (steady_trans ?_ (shutdownRead_steady _ _)) (copyFinish_steady h)
        exact steady_same rfl rfl rfl
      · split at h
        · cases h
        · rename_i c₁ h₁
          have hsniff : Steady c c₁ := by
            rw [sniffOrigin_same h₁]; exact steady_same rfl rfl rfl
          refine steady_trans hsniff (steady_trans (setReadBuff_steady _ fun hb => ?_) (copyFinish_steady h))
          have hbuff : c₁.readBuff (copyPtr k c) = c.readBuff (copyPtr k c) := by
            rw [sniffOrigin_same h₁]; cases copyPtr k c <;> rfl
          exact recvInto_rewound hr (hbuff ▸ hb)

/-- The counters after a write event of the relay. -/
def relayStats (k : Key) (c : Conn) : Stadistics :=
  match sendFrom (c.writeBuff (copyPtr k c)) k.sys.send with
  | some (l, _) => stadisticsIncreaseBytesSent c.stats (UInt64.ofNat l.length)
  | none => c.stats

theorem copyWrite_steady (h : copyWrite k c = .ok (c', st)) : Steady { c with stats := relayStats k c } c' := by
  unfold copyWrite at h
  unfold relayStats
  simp only at h
  split at h
  · cases h
  · split at h
    · rename_i hs
      rw [hs]
      refine steady_trans (steady_trans ?_ (shutdownWrite_steady _ _)) (copyFinish_steady h)
      exact steady_same rfl rfl rfl
    · rename_i l b hs
      rw [hs]
      split at h
      · cases h
      · rename_i c₁ h₁
        have hsniff :
            Steady { c with stats := stadisticsIncreaseBytesSent c.stats (UInt64.ofNat l.length) } c₁ := by
          rw [sniffOrigin_same h₁]; exact steady_same rfl rfl rfl
        exact steady_trans hsniff
          (steady_trans (setReadBuff_steady _ fun _ => sendFrom_rewound hs) (copyFinish_steady h))

end

end SocksProxy
