import SocksProxy.SessionStep

/-!
# The frame of the callbacks

A callback keeps the session at its address and only adds to what the selector
carries of it (`Kept`), whatever state the session is in.
-/

namespace SocksProxy

/-! ## What every callback keeps -/

structure Kept (c c' : Conn) : Prop where
  self : c'.self = c.self
  clientFd : c'.clientFd = c.clientFd
  freed : c'.freed = c.freed
  log : ∀ s ∈ c.log, s ∈ c'.log
  sel : fdSetsize < c.sel.fdSize → OnlyAdds (some (.session c.self)) c.sel c'.sel

theorem kept_trans {c c' c'' : Conn} (h : Kept c c') (h' : Kept c' c'') : Kept c c'' where
  self := h'.self.trans h.self
  clientFd := h'.clientFd.trans h.clientFd
  freed := h'.freed.trans h.freed
  log := fun s hs => h'.log s (h.log s hs)
  sel := fun hs => onlyAdds_trans (h.sel hs) (h.self ▸ h'.sel ((h.sel hs).fdSize ▸ hs))

section
variable (c : Conn)

theorem kept_same {c' : Conn} (hself : c'.self = c.self) (hclient : c'.clientFd = c.clientFd)
    (hfreed : c'.freed = c.freed) (hlog : c'.log = c.log) (hsel : c'.sel = c.sel) : Kept c c' :=
  ⟨hself, hclient, hfreed, fun _ hs => hlog ▸ hs, fun _ => hsel ▸ onlyAdds_refl _ _⟩

theorem kept_refl : Kept c c := kept_same c rfl rfl rfl rfl rfl

theorem kept_note (s : Syscall) : Kept c (c.note s) :=
  ⟨rfl, rfl, rfl, fun _ hs => List.mem_append_left _ hs, fun _ => onlyAdds_refl _ _⟩

theorem kept_setInterest (fd : Int) (i : FdInterest) : Kept c (c.setInterest fd i).1 :=
  ⟨rfl, rfl, rfl, fun _ hs => hs, fun _ => onlyAdds_setInterest _ _ _ _⟩

theorem kept_register (fd : Int) (i : FdInterest) : Kept c (c.register fd .client i).1 :=
  ⟨rfl, rfl, rfl, fun _ hs => hs, fun h => onlyAdds_register h _ _ _ _ _⟩

theorem kept_close (fd : Int) : Kept c (c.close fd).1 :=
  ⟨rfl, rfl, rfl, fun _ hs => List.mem_append_left _ hs, fun _ => onlyAdds_refl _ _⟩

theorem kept_socket (domain : Nat) (answer : Option Nat) : Kept c (c.socket domain answer).1 := by
  unfold Conn.socket
  split
  · exact ⟨rfl, rfl, rfl, fun _ hs => List.mem_append_left _ hs, fun _ => onlyAdds_refl _ _⟩
  · exact kept_note c _

theorem kept_ite {p : Prop} [Decidable p] {a b : Conn} (ha : Kept c a) (hb : Kept c b) :
    Kept c (if p then a else b) := by
  split
  · exact ha
  · exact hb

end

/-! ## The callbacks -/

section
variable (k : Key) (c : Conn)

theorem helloConsumed_kept : Kept c (helloConsumed k c).1 := by
  unfold helloConsumed
  simp only
  split
  · have hset := kept_setInterest c k.fd opWrite
    generalize c.setInterest k.fd opWrite = r at hset
    obtain ⟨c₁, status⟩ := r
    cases status with
    | success => exact kept_trans hset (kept_same _ rfl rfl rfl rfl rfl)
    | _ => exact hset
  · exact kept_refl c

theorem helloRead_kept : Kept c (helloRead k c).1 := by
  unfold helloRead
  split
  · exact kept_note c _
  · rename_i l b _
    simp only
    split
    · exact kept_note c _
    · refine kept_trans ?_ (helloConsumed_kept k _)
      exact kept_trans (kept_note c (.recv k.fd (some l))) (kept_same _ rfl rfl rfl rfl rfl)

theorem helloWrite_kept : Kept c (helloWrite k c).1 := by
  unfold helloWrite
  split
  · exact kept_note c _
  · rename_i l b _
    have hsent : Kept c { c.note (.send k.fd (some l)) with output := b } :=
      kept_trans (kept_note c (.send k.fd (some l))) (kept_same _ rfl rfl rfl rfl rfl)
    simp only
    split
    · exact hsent
    · have hset := kept_trans hsent (kept_setInterest _ k.fd opRead)
      generalize Conn.setInterest { c.note (.send k.fd (some l)) with output := b } k.fd opRead = r at hset
      obtain ⟨c₁, status⟩ := r
      cases status <;> exact hset

theorem requestWrite_kept : Kept c (requestWrite k c).1 := by
  unfold requestWrite
  split
  · exact kept_note c _
  · rename_i l b _
    have hsent : Kept c { c.note (.send k.fd (some l)) with output := b } :=
      kept_trans (kept_note c (.send k.fd (some l))) (kept_same _ rfl rfl rfl rfl rfl)
    simp only
    split
    · exact hsent
    · have hset := kept_trans hsent (kept_setInterest _ k.fd opRead)
      generalize Conn.setInterest { c.note (.send k.fd (some l)) with output := b } k.fd opRead = r at hset
      obtain ⟨c₁, status⟩ := r
      cases status <;> exact hset

theorem queueReply_kept : Kept c (queueReply c).1 := kept_same c rfl rfl rfl rfl rfl

theorem connectOrigin_kept (fdRegistered : Bool) : Kept c (connectOrigin k fdRegistered c).1 := by
  unfold connectOrigin
  have hnote := kept_note c (.connect c.server.fd c.server.address c.server.addressLen k.sys.connect)
  simp only
  generalize c.note (.connect c.server.fd c.server.address c.server.addressLen k.sys.connect) = c₁ at hnote ⊢
  split
  · exact hnote
  · rename_i errno _
    split
    · have hset := kept_trans hnote (kept_setInterest c₁ k.fd opNoop)
      generalize c₁.setInterest k.fd opNoop = r at hset ⊢
      obtain ⟨c₂, status⟩ := r
      cases status with
      | success =>
        refine kept_trans hset ?_
        cases fdRegistered with
        | true => exact kept_setInterest c₂ _ _
        | false => exact kept_register c₂ _ _
      | _ => exact hset
    · have hreply : Kept c (queueReply { c₁ with request.status := errnoToSocks errno }).1 := by
        refine kept_trans (kept_trans hnote ?_) (queueReply_kept _)
        exact kept_same c₁ rfl rfl rfl rfl rfl
      split
      · exact hreply
      · exact kept_trans hreply (kept_trans (kept_setInterest _ _ _) (kept_register _ _ _))

theorem requestConnect_kept : Kept c (requestConnect k c).1 := by
  unfold requestConnect
  have hclose : Kept c (if decide (c.request.serverFd ≠ -1) then c.close c.request.serverFd else (c, true)).1 := by
    split
    · exact kept_close c _
    · exact kept_refl c
  simp only
  generalize (if decide (c.request.serverFd ≠ -1) = true then c.close c.request.serverFd else (c, true)) =
      r at hclose ⊢
  obtain ⟨c₁, b⟩ := r
  cases b with
  | false => exact hclose
  | true =>
    have hsocket := kept_trans hclose (kept_socket c₁ c.server.domain k.sys.socket)
    simp only [Bool.not_true, Bool.false_eq_true, ite_false]
    generalize c₁.socket c.server.domain k.sys.socket = r at hsocket ⊢
    split
    · exact kept_trans hsocket (kept_same _ rfl rfl rfl rfl rfl)
    · split
      · exact kept_trans hsocket (kept_same _ rfl rfl rfl rfl rfl)
      · refine kept_trans ?_ (connectOrigin_kept k _ _)
        exact kept_trans hsocket (kept_same _ rfl rfl rfl rfl rfl)

theorem requestProcess_kept : Kept c (requestProcess k c).1 := by
  unfold requestProcess
  simp only
  split
  · split
    · refine kept_trans ?_ (requestConnect_kept k _)
      exact kept_same c rfl rfl rfl rfl rfl
    · split
      · refine kept_trans ?_ (requestConnect_kept k _)
        exact kept_same c rfl rfl rfl rfl rfl
      · split
        · exact kept_refl c
        · refine kept_trans ?_ (kept_setInterest _ _ _)
          exact kept_same c rfl rfl rfl rfl rfl
  · exact kept_same c rfl rfl rfl rfl rfl

theorem requestConsumed_kept : Kept c (requestConsumed k c).1 := by
  unfold requestConsumed
  simp only
  split
  · exact requestProcess_kept k c
  · exact kept_refl c

theorem requestRead_kept : Kept c (requestRead k c).1 := by
  unfold requestRead
  split
  · exact kept_note c _
  · rename_i l b _
    simp only
    split
    · exact kept_note c _
    · refine kept_trans ?_ (requestConsumed_kept k _)
      exact kept_trans (kept_note c (.recv k.fd (some l))) (kept_same _ rfl rfl rfl rfl rfl)

theorem requestConnecting_kept : Kept c (requestConnecting k c).1 := by
  unfold requestConnecting
  have hnote := kept_note c (.getsockopt c.server.fd k.sys.getsockopt)
  generalize c.note (.getsockopt c.server.fd k.sys.getsockopt) = c₁ at hnote
  simp only
  split
  · exact hnote
  · rename_i error _
    have hset := kept_trans hnote (kept_setInterest c₁ c₁.clientFd opWrite)
    generalize (c₁.setInterest c₁.clientFd opWrite).1 = c₂ at hset
    have hstatus : Kept c (if error = 0 then { c₂ with request.status := .succeeded } else c₂) :=
      kept_trans hset (kept_ite c₂ (kept_same _ rfl rfl rfl rfl rfl) (kept_refl c₂))
    generalize (if error = 0 then { c₂ with request.status := .succeeded } else c₂ : Conn) = c₃ at hstatus
    have hreply := kept_trans hstatus (queueReply_kept c₃)
    split
    · exact hreply
    · exact kept_trans hreply (kept_setInterest _ _ _)

theorem setDuplex_kept (s : Side) (i : FdInterest) : Kept c (c.setDuplex s i) := by
  cases s <;> exact kept_same c rfl rfl rfl rfl rfl

theorem setReadBuff_kept (s : Side) (b : Buffer) : Kept c (c.setReadBuff s b) := by
  cases s <;> exact kept_same c rfl rfl rfl rfl rfl

theorem shutdownRead_kept (s : Side) : Kept c (shutdownRead c s) := by
  unfold shutdownRead
  have hself := kept_trans (kept_note c (.shutdown (c.copyFd s) .rd))
    (setDuplex_kept (c.note (.shutdown (c.copyFd s) .rd)) s { c.duplex s with read := false })
  exact kept_ite c (kept_trans hself (kept_trans (kept_note _ _) (setDuplex_kept _ _ _))) hself

theorem shutdownWrite_kept (s : Side) : Kept c (shutdownWrite c s) := by
  unfold shutdownWrite
  have hself := kept_trans (kept_note c (.shutdown (c.copyFd s) .wr))
    (setDuplex_kept (c.note (.shutdown (c.copyFd s) .wr)) s { c.duplex s with write := false })
  exact kept_ite c (kept_trans hself (kept_trans (kept_note _ _) (setDuplex_kept _ _ _))) hself

variable {k c} {c' : Conn}

theorem sniffOrigin_kept {l : List UInt8} (h : sniffOrigin k c l = .ok c') : Kept c c' := by
  unfold sniffOrigin at h
  split at h
  · split at h
    · rw [Except.ok.injEq] at h; subst h; exact kept_same c rfl rfl rfl rfl rfl
    · cases h
  · rw [Except.ok.injEq] at h; subst h; exact kept_refl c

theorem checkInterest_kept {s : Side} (h : checkInterest c s = .ok c') : Kept c c' := by
  unfold checkInterest at h
  split at h
  · have hset := kept_setInterest c (c.copyFd s) (copyInterest c s)
    generalize c.setInterest (c.copyFd s) (copyInterest c s) = r at h hset
    obtain ⟨c₁, status⟩ := r
    cases status with
    | success => simp only [Except.ok.injEq] at h; exact h ▸ hset
    | _ => cases h
  · rw [Except.ok.injEq] at h; subst h; exact kept_refl c

theorem copyFinish_kept {s : Side} {st : SessionState} (h : copyFinish c s = .ok (c', st)) : Kept c c' := by
  unfold copyFinish at h
  split at h
  · cases h
  · rename_i c₁ h₁
    split at h
    · cases h
    · rename_i c₂ h₂
      simp only [Except.ok.injEq, Prod.mk.injEq] at h
      exact h.1 ▸ kept_trans (checkInterest_kept h₁) (checkInterest_kept h₂)

theorem copyRead_kept {st : SessionState} (h : copyRead k c = .ok (c', st)) : Kept c c' := by
  unfold copyRead at h
  simp only at h
  split at h
  · cases h
  · split at h
    · exact kept_trans (kept_trans (kept_note c _) (shutdownRead_kept _ _)) (copyFinish_kept h)
    · split at h
      · exact kept_trans (kept_trans (kept_note c _) (shutdownRead_kept _ _)) (copyFinish_kept h)
      · split at h
        · cases h
        · rename_i c₁ h₁
          exact kept_trans (kept_trans (kept_note c _) (sniffOrigin_kept h₁))
            (kept_trans (setReadBuff_kept _ _ _) (copyFinish_kept h))

theorem copyWrite_kept {st : SessionState} (h : copyWrite k c = .ok (c', st)) : Kept c c' := by
  unfold copyWrite at h
  simp only at h
  split at h
  · cases h
  · split at h
    · exact kept_trans (kept_trans (kept_note c _) (shutdownWrite_kept _ _)) (copyFinish_kept h)
    · rename_i l b _
      split at h
      · cases h
      · rename_i c₁ h₁
        refine kept_trans ?_ (kept_trans (setReadBuff_kept _ _ _) (copyFinish_kept h))
        refine kept_trans ?_ (sniffOrigin_kept h₁)
        exact kept_trans (kept_note c (.send k.fd (some l))) (kept_same _ rfl rfl rfl rfl rfl)

end

/-! ## The engine -/

section
variable {k : Key} {c c' : Conn}

theorem returning_kept {f : Key → Conn → Conn × SessionState} (hf : ∀ c, Kept c (f k c).1) {ret : Nat}
    (h : returning f k c = .ok (c', ret)) : Kept c c' := by
  simp only [returning, Except.ok.injEq, Prod.mk.injEq] at h
  exact h.1 ▸ hf c

theorem mayFault_kept {f : Key → Conn → Except Fault (Conn × SessionState)}
    (hf : ∀ c c' st, f k c = .ok (c', st) → Kept c c') {ret : Nat} (h : mayFault f k c = .ok (c', ret)) :
    Kept c c' := by
  unfold mayFault at h
  cases hr : f k c with
  | error e => rw [hr] at h; cases h
  | ok r =>
    rw [hr] at h
    simp only [Except.map, Except.ok.injEq, Prod.mk.injEq] at h
    exact h.1 ▸ hf c r.1 r.2 hr

theorem arrive_kept (i : Nat) (k : Key) (c : Conn) : Kept c (arrive sessionStateDef i k c) := by
  match i with
  | 0 | 2 | 5 => exact kept_same c rfl rfl rfl rfl rfl
  | 1 | 3 | 4 | 6 | 7 => exact kept_refl c
  | i + 8 => exact kept_refl c

theorem callback_kept {r : Readiness} {i : Nat} {g : Key → Conn → Except Fault (Conn × Nat)} {ret : Nat}
    (hg : onReady r (entry sessionStateDef i) = some g) (h : g k c = .ok (c', ret)) : Kept c c' := by
  match r, i with
  | .read, 0 => cases hg; exact returning_kept (helloRead_kept k) h
  | .write, 1 => cases hg; exact returning_kept (helloWrite_kept k) h
  | .read, 2 => cases hg; exact returning_kept (requestRead_kept k) h
  | .write, 3 => cases hg; exact returning_kept (requestConnecting_kept k) h
  | .write, 4 => cases hg; exact returning_kept (requestWrite_kept k) h
  | .read, 5 => cases hg; exact mayFault_kept (fun _ _ _ => copyRead_kept) h
  | .write, 5 => cases hg; exact mayFault_kept (fun _ _ _ => copyWrite_kept) h
  | .write, 0 | .read, 1 | .write, 2 | .read, 3 | .read, 4 => cases hg
  | .read, 6 | .write, 6 | .read, 7 | .write, 7 => cases hg
  | .read, i + 8 | .write, i + 8 => cases hg

/-- The handler of the machine for an event. -/
def sessionHandler (c : Conn) (e : Event) : Except Fault (StateMachine × Conn × Nat) :=
  stmHandler sessionStateDef (onReady e.ready) (noHandler e.ready) c.sMachine e.key c

theorem sessionHandler_kept {e : Event} {m : StateMachine} {ret : Nat} (h : sessionHandler c e = .ok (m, c', ret)) :
    Kept c c' :=
  stmHandler_rel kept_refl kept_trans (fun i c => arrive_kept i e.key c)
    (fun i c => (depart_session i e.key c).symm ▸ kept_refl c) (fun _ _ _ _ hg hr => callback_kept hg hr) h

/-! ## How a callback can fail -/

theorem pop3Consume_fault {s : Pop3Sniff} {f : Fault} (h : pop3Consume s = .error f) : f = .wildPointer := by
  unfold pop3Consume at h
  generalize (if pop3Done s then s else _ : Pop3Sniff) = t at h
  simp only at h
  split at h
  · exact (Except.error.inj h).symm
  · cases h

theorem pop3sniff_fault {s : Pop3Sniff} {l : List UInt8} {f : Fault} (h : pop3sniff s l = .error f) :
    f = .wildPointer := by
  have hconsume : ∀ t u : Pop3Sniff, (if pop3Done t then .ok t else pop3Consume u) = .error f →
      f = .wildPointer := by
    intro t u h
    split at h
    · cases h
    · exact pop3Consume_fault h
  exact hconsume _ _ h

theorem copyFinish_fault {s : Side} {f : Fault} (h : copyFinish c s = .error f) : f = .interestRefused := by
  have hcheck : ∀ {c : Conn} {s : Side}, checkInterest c s = .error f → f = .interestRefused := by
    intro c s h
    unfold checkInterest at h
    split at h
    · split at h
      · cases h
      · exact (Except.error.inj h).symm
    · cases h
  unfold copyFinish at h
  split at h
  · rename_i h₁; rw [Except.error.injEq] at h; exact hcheck (h ▸ h₁)
  · split at h
    · rename_i h₁; rw [Except.error.injEq] at h; exact hcheck (h ▸ h₁)
    · cases h

theorem sniffOrigin_fault {l : List UInt8} {f : Fault} (h : sniffOrigin k c l = .error f) : f = .wildPointer := by
  unfold sniffOrigin at h
  split at h
  · split at h
    · cases h
    · rename_i h₁; rw [Except.error.injEq] at h; exact pop3sniff_fault (h ▸ h₁)
  · cases h

theorem copyRead_fault {f : Fault} (h : copyRead k c = .error f) :
    f = .assertion ∨ f = .interestRefused ∨ f = .wildPointer := by
  unfold copyRead at h
  simp only at h
  split at h
  · exact Or.inl (Except.error.inj h).symm
  · split at h
    · exact Or.inr (Or.inl (copyFinish_fault h))
    · split at h
      · exact Or.inr (Or.inl (copyFinish_fault h))
      · split at h
        · rename_i h₁; rw [Except.error.injEq] at h; exact Or.inr (Or.inr (sniffOrigin_fault (h ▸ h₁)))
        · exact Or.inr (Or.inl (copyFinish_fault h))

theorem copyWrite_fault {f : Fault} (h : copyWrite k c = .error f) :
    f = .assertion ∨ f = .interestRefused ∨ f = .wildPointer := by
  unfold copyWrite at h
  simp only at h
  split at h
  · exact Or.inl (Except.error.inj h).symm
  · split at h
    · exact Or.inr (Or.inl (copyFinish_fault h))
    · split at h
      · rename_i h₁; rw [Except.error.injEq] at h; exact Or.inr (Or.inr (sniffOrigin_fault (h ▸ h₁)))
      · exact Or.inr (Or.inl (copyFinish_fault h))

theorem mayFault_fault {f : Key → Conn → Except Fault (Conn × SessionState)} {e : Fault}
    (h : mayFault f k c = .error e) : f k c = .error e := by
  unfold mayFault at h
  cases hr : f k c with
  | error e' => rw [hr] at h; exact congrArg _ (Except.error.inj h)
  | ok r => rw [hr] at h; cases h

theorem callback_valid {r : Readiness} {i : Nat} {g : Key → Conn → Except Fault (Conn × Nat)}
    (hg : onReady r (entry sessionStateDef i) = some g) : g k c ≠ .error .useAfterFree := by
  match r, i with
  | .read, 0 | .write, 1 | .read, 2 | .write, 3 | .write, 4 => cases hg; simp [returning]
  | .read, 5 => cases hg; exact fun h => by simpa using copyRead_fault (mayFault_fault h)
  | .write, 5 => cases hg; exact fun h => by simpa using copyWrite_fault (mayFault_fault h)
  | .write, 0 | .read, 1 | .write, 2 | .read, 3 | .read, 4 => cases hg
  | .read, 6 | .write, 6 | .read, 7 | .write, 7 => cases hg
  | .read, i + 8 | .write, i + 8 => cases hg

theorem sessionHandler_valid (c : Conn) (e : Event) : sessionHandler c e ≠ .error .useAfterFree := by
  unfold sessionHandler stmHandler
  simp only [callback]
  generalize handleFirst sessionStateDef c.sMachine e.key c = f
  cases hg : onReady e.ready (entry sessionStateDef (stmState f.1)) with
  | none => cases e.ready <;> simp [noHandler]
  | some g =>
    have hv := callback_valid (k := e.key) (c := f.2) hg
    simp only
    cases hr : g e.key f.2 with
    | error f => exact fun h => hv (hr.trans (by simpa using h))
    | ok r =>
      simp only [jump]
      split
      · rename_i h₁
        split at h₁
        · rw [Except.error.injEq] at h₁; simp [← h₁]
        · split at h₁ <;> cases h₁
      · simp

theorem dispatch_eq (c : Conn) (e : Event) :
    dispatch c e =
      if Selects c e then if c.freed then .error .useAfterFree else afterHandler (sessionHandler c e)
        else .ok c := by
  unfold dispatch sessionHandler
  cases e.ready <;> rfl

end

end SocksProxy
