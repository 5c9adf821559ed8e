import SocksProxy.Socks5

/-!
# One step of a session

`dispatch_inState` says what an event does in terms of the callback of the
state the session is in. `Entries` is what the selector holds of a session,
and `Live` what every state of a session before `close_session` has in common.
-/

namespace SocksProxy

/-! ## The engine on the session table -/

/-- The session is in state `st`; a session that has not had an event yet is
in HELLO_READ. -/
def InState (c : Conn) (st : SessionState) : Prop :=
  c.sMachine = { stmCreate with current := some st.toNat } ∨
    (c.sMachine = stmCreate ∧ st = .helloRead ∧ c.hello.parser = helloParserInit)

def handlerOf (st : SessionState) : Readiness → Option (Key → Conn → Except Fault (Conn × Nat))
  | .read => (entry sessionStateDef st.toNat).onReadReady
  | .write => (entry sessionStateDef st.toNat).onWriteReady

def onReady : Readiness → StateDefinition Conn Key → Option (Key → Conn → Except Fault (Conn × Nat))
  | .read => (·.onReadReady)
  | .write => (·.onWriteReady)

def noHandler : Readiness → Fault
  | .read => .noReadHandler
  | .write => .noWriteHandler

/-- What follows a callback of state `st` that has returned `ret`: the arrival
in another state, and `close_session` if the state is a final one. -/
def settle (k : Key) (st : SessionState) (c : Conn) (ret : Nat) : Conn :=
  let c : Conn :=
    { (if ret = st.toNat then c else arrive sessionStateDef ret k c) with
      sMachine := { stmCreate with current := some ret } }
  if ret = SessionState.error.toNat ∨ ret = SessionState.done.toNat then closeSession c else c

/-- The callback of state `st`, with what the machine makes of its result. -/
def callbackStep (c : Conn) (st : SessionState) (e : Event) : Except Fault Conn :=
  match handlerOf st e.ready with
  | none => .error (noHandler e.ready)
  | some g =>
    match g e.key c with
    | .error f => .error f
    | .ok (c', ret) =>
      if SessionState.done.toNat < ret then .error .badTransition else .ok (settle e.key st c' ret)

theorem entry_onDeparture (i : Nat) : (entry sessionStateDef i).onDeparture = none := by
  match i with
  | 0 | 1 | 2 | 3 | 4 | 5 | 6 | 7 => rfl
  | i + 8 => rfl

theorem depart_session (i : Option Nat) (k : Key) (c : Conn) : depart sessionStateDef i k c = c := by
  cases i with
  | none => rfl
  | some i => simp only [depart, Option.bind_some, entry_onDeparture]

section
variable {c : Conn} {st : SessionState}

theorem handleFirst_inState (h : InState c st) (k : Key) :
    handleFirst sessionStateDef c.sMachine k c = ({ stmCreate with current := some st.toNat }, c) := by
  rcases h with h | ⟨h, rfl, hp⟩
  · rw [h]; rfl
  · have harr : arrive sessionStateDef SessionState.helloRead.toNat k c = c := by
      have : arrive sessionStateDef SessionState.helloRead.toNat k c = { c with hello.parser := helloParserInit } :=
        rfl
      rw [this, ← hp]
    rw [h]
    simp only [handleFirst, stmCreate, harr]

theorem afterHandler_inState (h : InState c st)
    (on : StateDefinition Conn Key → Option (Key → Conn → Except Fault (Conn × Nat))) (f : Fault) (k : Key) :
    afterHandler (stmHandler sessionStateDef on f c.sMachine k c) =
      match on (entry sessionStateDef st.toNat) with
      | none => .error f
      | some g =>
        match g k c with
        | .error f => .error f
        | .ok (c', ret) =>
          if SessionState.done.toNat < ret then .error .badTransition else .ok (settle k st c' ret) := by
  unfold stmHandler
  simp only [handleFirst_inState h, callback, stmState, Option.getD_some]
  cases on (entry sessionStateDef st.toNat) with
  | none => rfl
  | some g =>
    simp only
    cases g k c with
    | error f => rfl
    | ok r =>
      by_cases hm : SessionState.done.toNat < r.2
      · simp only [jump_past (m := { stmCreate with current := some st.toNat }) hm, if_pos hm]; rfl
      · have hle : r.2 ≤ SessionState.done.toNat := Nat.le_of_not_lt hm
        simp only [if_neg hm]
        by_cases he : r.2 = st.toNat
        · simp only [jump_same (m := { stmCreate with current := some st.toNat }) hle (by rw [he]), settle,
            if_pos he]
          rw [he]; rfl
        · simp only [jump_to (m := { stmCreate with current := some st.toNat }) hle rfl (Ne.symm he)
            (entry_onDeparture _), settle, if_neg he]
          rfl

theorem dispatch_inState (h : InState c st) (hf : c.freed = false) (e : Event) :
    dispatch c e = if Selects c e then callbackStep c st e else .ok c := by
  unfold dispatch callbackStep
  by_cases hs : Selects c e
  · simp only [hs, ite_true, hf, Bool.false_eq_true, ite_false]
    cases hr : e.ready with
    | read => exact afterHandler_inState h _ _ e.key
    | write => exact afterHandler_inState h _ _ e.key
  · simp only [hs, ite_false]

theorem dispatch_freed (hf : c.freed = true) (e : Event) :
    dispatch c e = .error .useAfterFree ∨ dispatch c e = .ok c := by
  unfold dispatch
  by_cases hs : Selects c e
  · simp [hs, hf]
  · simp [hs]

end

/-! ## The entries of a session -/

def ownItem (addr fd : Nat) (i : FdInterest) : Item Handler Ptr := ⟨fd, i, some .client, some (.session addr)⟩

@[simp] theorem ownItem_used (addr fd : Nat) (i : FdInterest) : (ownItem addr fd i).used = true := used_of_fd rfl

theorem selects_ownItem (addr fd : Nat) (i : FdInterest) (r : Readiness) :
    ((ownItem addr fd i).used = true ∧ (ownItem addr fd i).data = some (.session addr) ∧
      (ownItem addr fd i).handler = some .client ∧ (ownItem addr fd i).interest.has r = true) ↔ i.has r = true :=
  ⟨fun h => h.2.2.2, fun h => ⟨ownItem_used _ _ _, rfl, rfl, h⟩⟩

theorem invalidFd_of_lt {n : Nat} (h : n < fdSetsize) : invalidFd (n : Int) = false := by
  unfold invalidFd
  rw [decide_eq_false_iff_not]; omega

/-- The entries that carry the session: the client's with interest `i`, and
the origin's if `o` gives one. -/
structure Entries (sel : Selector Handler Ptr) (addr fd : Nat) (i : FdInterest) (o : Option (Nat × FdInterest)) :
    Prop where
  fdSize : fdSetsize < sel.fdSize
  fd_lt : fd < fdSetsize
  client : sel.fds fd = ownItem addr fd i
  origin : ∀ m j, o = some (m, j) → m ≠ fd ∧ m < fdSetsize ∧ sel.fds m = ownItem addr m j
  only : ∀ n, (sel.fds n).used = true → (sel.fds n).data = some (.session addr) → n = fd ∨ ∃ j, o = some (n, j)

section
variable {sel : Selector Handler Ptr} {addr fd : Nat} {i : FdInterest} {o : Option (Nat × FdInterest)}

theorem entries_setClient (h : Entries sel addr fd i o) (i' : FdInterest) :
    (selectorSetInterest sel fd i').2 = .success ∧ Entries (selectorSetInterest sel fd i').1 addr fd i' o := by
  have hu : (sel.fds (fd : Int).toNat).used = true := by rw [Int.toNat_natCast, h.client, ownItem_used]
  obtain ⟨h1, h2, h3⟩ := selectorSetInterest_used (invalidFd_of_lt h.fd_lt) hu i'
  rw [Int.toNat_natCast, h.client] at h3
  refine ⟨h1, h2 ▸ h.fdSize, h.fd_lt, by rw [h3, Function.update_self]; rfl, ?_, ?_⟩
  · intro m j hm
    obtain ⟨hne, hlt, hi⟩ := h.origin m j hm
    exact ⟨hne, hlt, by rw [h3, Function.update_of_ne hne]; exact hi⟩
  · intro n hn hd
    by_cases hnf : n = fd
    · exact Or.inl hnf
    · rw [h3, Function.update_of_ne hnf] at hn hd
      exact h.only n hn hd

theorem entries_setOrigin {m : Nat} {j : FdInterest} (h : Entries sel addr fd i (some (m, j))) (j' : FdInterest) :
    (selectorSetInterest sel m j').2 = .success ∧
      Entries (selectorSetInterest sel m j').1 addr fd i (some (m, j')) := by
  obtain ⟨hne, hlt, hi⟩ := h.origin m j rfl
  have hu : (sel.fds (m : Int).toNat).used = true := by rw [Int.toNat_natCast, hi, ownItem_used]
  obtain ⟨h1, h2, h3⟩ := selectorSetInterest_used (invalidFd_of_lt hlt) hu j'
  rw [Int.toNat_natCast, hi] at h3
  refine ⟨h1, h2 ▸ h.fdSize, h.fd_lt, by rw [h3, Function.update_of_ne hne.symm]; exact h.client, ?_, ?_⟩
  · intro m' j'' hm
    obtain ⟨rfl, rfl⟩ := Prod.mk.inj (Option.some.inj hm)
    exact ⟨hne, hlt, by rw [h3, Function.update_self]; rfl⟩
  · intro n hn hd
    by_cases hnm : n = m
    · exact Or.inr ⟨j', by rw [hnm]⟩
    · rw [h3, Function.update_of_ne hnm] at hn hd
      rcases h.only n hn hd with h' | ⟨j'', h'⟩
      · exact Or.inl h'
      · exact absurd (Prod.mk.inj (Option.some.inj h')).1.symm hnm

/-- A registration of the origin that succeeds is of a descriptor the selector
did not know; one that fails changes nothing. -/
theorem entries_register (h : Entries sel addr fd i none) (m : Nat) (j : FdInterest) :
    ((selectorRegister sel m (some .client) j (some (.session addr)) true).2 = .success ∧
        Entries (selectorRegister sel m (some .client) j (some (.session addr)) true).1 addr fd i (some (m, j))) ∨
      ((selectorRegister sel m (some .client) j (some (.session addr)) true).2 ≠ .success ∧
        (selectorRegister sel m (some .client) j (some (.session addr)) true).1 = sel) := by
  by_cases hr : (selectorRegister sel m (some .client) j (some (.session addr)) true).2 = .success
  · refine Or.inl ⟨hr, ?_⟩
    obtain ⟨hv, hu⟩ := selectorRegister_success h.fdSize hr
    have hlt : m < fdSetsize := by
      simp only [invalidFd, decide_eq_false_iff_not] at hv; omega
    have hs : (m : Int).toNat ≤ sel.fdSize := by have := h.fdSize; rw [Int.toNat_natCast]; omega
    obtain ⟨-, h2, h3⟩ := selectorRegister_free hv hs hu Handler.client j (some (Ptr.session addr)) true
    rw [Int.toNat_natCast] at hu h3
    have hne : m ≠ fd := by rintro rfl; rw [h.client, ownItem_used] at hu; exact absurd hu (by decide)
    refine ⟨h2 ▸ h.fdSize, h.fd_lt, by rw [h3, Function.update_of_ne hne.symm]; exact h.client, ?_, ?_⟩
    · intro m' j' hm
      obtain ⟨rfl, rfl⟩ := Prod.mk.inj (Option.some.inj hm)
      exact ⟨hne, hlt, by rw [h3, Function.update_self]; rfl⟩
    · intro n hn hd
      by_cases hnm : n = m
      · exact Or.inr ⟨j, by rw [hnm]⟩
      · rw [h3, Function.update_of_ne hnm] at hn hd
        rcases h.only n hn hd with h' | ⟨_, h'⟩
        · exact Or.inl h'
        · cases h'
  · exact Or.inr ⟨hr, selectorRegister_refused h.fdSize _ _ _ _ hr⟩

/-- The rest of the process can change nothing in the entries of a session. -/
theorem entries_changedAt (h : Entries sel addr fd i o) {sel' : Selector Handler Ptr} {x : Int} {d : Option Ptr}
    (hc : ChangedAt x d sel sel') (hx : x ≠ fd) (ho : ∀ m j, o = some (m, j) → x ≠ m)
    (hd : d ≠ some (.session addr)) : Entries sel' addr fd i o := by
  obtain ⟨hs, hc⟩ := hc
  have hkeep : ∀ n : Nat, x ≠ n → sel'.fds n = sel.fds n := by
    intro n hn
    rcases hc n with h' | ⟨h', -⟩
    · exact h'
    · exact absurd h'.symm hn
  refine ⟨hs ▸ h.fdSize, h.fd_lt, by rw [hkeep fd hx]; exact h.client, ?_, ?_⟩
  · intro m j hm
    obtain ⟨hne, hlt, hi⟩ := h.origin m j hm
    exact ⟨hne, hlt, by rw [hkeep m (ho m j hm)]; exact hi⟩
  · intro n hn hd'
    rcases hc n with h' | ⟨-, h'⟩
    · rw [h'] at hn hd'; exact h.only n hn hd'
    · rcases h' hn with h' | ⟨hu, h'⟩
      · exact absurd (h'.symm.trans hd') hd
      · exact h.only n hu (h'.symm.trans hd')

end

/-! ## Live sessions -/

/-- What holds of every session that has not been closed: the client's
descriptor is `fd`, registered with interest `i`, and `o` is the registration
of the origin's. -/
structure Live (c : Conn) (fd : Nat) (i : FdInterest) (o : Option (Nat × FdInterest)) : Prop where
  alive : c.freed = false
  clientFd : c.clientFd = fd
  isOpen : (fd : Int) ∈ c.openFds
  entries : Entries c.sel c.self fd i o
  serverFd : ∀ m j, o = some (m, j) → c.server.fd = m
  sniff : c.sniff = Pop3Sniff.fill
  limitInput : c.input.limit = inputBufferSize
  limitOutput : c.output.limit = outputBufferSize

section
variable {c : Conn} {fd : Nat} {i : FdInterest} {o : Option (Nat × FdInterest)}

theorem selects_live (h : Live c fd i o) {e : Event} (hs : Selects c e) :
    (e.fd = fd ∧ i.has e.ready = true) ∨ ∃ j, o = some (e.fd, j) ∧ j.has e.ready = true := by
  obtain ⟨hu, hd, -, hi⟩ := hs
  rcases h.entries.only e.fd hu hd with he | ⟨j, he⟩
  · rw [he, h.entries.client] at hi
    exact Or.inl ⟨he, hi⟩
  · rw [(h.entries.origin _ _ he).2.2] at hi
    exact Or.inr ⟨j, he, hi⟩

theorem selects_client (h : Live c fd i o) {e : Event} (he : e.fd = fd) : Selects c e ↔ i.has e.ready = true := by
  unfold Selects
  rw [he, h.entries.client]
  exact selects_ownItem _ _ _ _

theorem selects_origin {m : Nat} {j : FdInterest} (h : Live c fd i (some (m, j))) {e : Event} (he : e.fd = m) :
    Selects c e ↔ j.has e.ready = true := by
  unfold Selects
  rw [he, (h.entries.origin _ _ rfl).2.2]
  exact selects_ownItem _ _ _ _

theorem act_changedAt {p : Process} (h : fdSetsize < p.sel.fdSize) (x : Int) (a : Action) :
    ChangedAt x a.data p.sel (p.act x a).sel := by
  cases a with
  | opened =>
    simp only [Process.act]
    split
    · exact changedAt_refl _ _ _
    · exact changedAt_refl _ _ _
  | register g j d => exact changedAt_register h x g j _ true
  | setInterest j => exact changedAt_setInterest _ x j _
  | unregister => exact changedAt_unregister _ x _
  | _ => exact changedAt_refl _ _ _

theorem live_other (h : Live c fd i o) {x : Int} {a : Action} (ho : ¬ c.Owns x)
    (hd : a.data ≠ some (.session c.self)) : Live { c with toProcess := c.toProcess.act x a } fd i o := by
  have hx : x ≠ fd := by
    intro hx
    exact ho (Or.inl ⟨h.alive, hx.trans h.clientFd.symm⟩)
  have hm : ∀ m j, o = some (m, j) → x ≠ m := by
    intro m j hm hx
    exact ho (Or.inr (hx.trans (h.serverFd m j hm).symm))
  have hopen : (fd : Int) ∈ (c.toProcess.act x a).openFds := by
    cases a with
    | opened =>
      simp only [Process.act]
      split
      · exact h.isOpen
      · exact List.mem_cons_of_mem _ h.isOpen
    | closed => exact (List.mem_erase_of_ne (Ne.symm hx)).mpr h.isOpen
    | _ => exact h.isOpen
  have hentries : Entries (c.toProcess.act x a).sel c.self fd i o :=
    entries_changedAt h.entries (act_changedAt h.entries.fdSize x a) hx hm hd
  exact ⟨h.alive, h.clientFd, hopen, hentries, h.serverFd, h.sniff, h.limitInput, h.limitOutput⟩

/-- The client's descriptor is registered, and its entry carries the session. -/
def ClientCarried (sel : Selector Handler Ptr) (r : Record) : Prop :=
  invalidFd r.clientFd = false ∧ (sel.fds r.clientFd.toNat).used = true ∧
    (sel.fds r.clientFd.toNat).data = some (.session r.self)

theorem clientCarried_live (h : Live c fd i o) : ClientCarried c.sel c.toRecord := by
  unfold ClientCarried
  rw [h.clientFd, Int.toNat_natCast, h.entries.client]
  exact ⟨invalidFd_of_lt h.entries.fd_lt, ownItem_used _ _ _, rfl⟩

/-- `close_session` frees the session, clears the client's entry, and closes
its descriptor twice. -/
theorem closeSession_carried (h : ClientCarried c.sel c.toRecord) :
    (closeSession c).freed = true ∧ (closeSession c).clientFd = c.clientFd ∧ (closeSession c).server = c.server ∧
      (closeSession c).log = c.log ++ [.close c.clientFd, .close c.clientFd] ∧ (closeSession c).self = c.self ∧
      (closeSession c).sel = (selectorUnregisterFd c.sel c.clientFd).1 := by
  obtain ⟨hv, hu, hd⟩ := h
  obtain ⟨h1, -, -⟩ := selectorUnregisterFd_used hv hu
  have hi : ((selectorUnregisterFd c.sel c.clientFd).2.2.bind (·.data)) = some (.session c.self) := by
    rw [h1]; exact hd
  unfold closeSession
  simp only [hi, ite_true]
  split
  · simp [clientClose, Conn.close, Conn.note]
  · simp [clientClose, Conn.close, Conn.note]

theorem closeSession_live (h : Live c fd i o) :
    (closeSession c).freed = true ∧ (closeSession c).clientFd = c.clientFd ∧ (closeSession c).server = c.server ∧
      (closeSession c).log = c.log ++ [.close c.clientFd, .close c.clientFd] := by
  obtain ⟨h1, h2, h3, h4, -⟩ := closeSession_carried (clientCarried_live h)
  exact ⟨h1, h2, h3, h4⟩

end

end SocksProxy
