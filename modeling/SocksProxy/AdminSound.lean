import SocksProxy.PrawtosSound

/-!
# Who may give commands

`commands_authorised`: a connection gets to the commands only by the name and
the password of an administrator, and one whose name and password are not those
of an administrator is told so and closed.
-/

namespace SocksProxy

open Lib

/-! ## The check of the credentials -/

/-- A user marked as an administrator has this name and this password, as strings. -/
def AdminMatch (h : Heap) (users : List User) (uname passwd : List UInt8) : Prop :=
  ∃ i u, users[i]? = some u ∧ u.isAdmin = true ∧ cString uname = cString (u.username ++ h.afterUsername i) ∧
    cString passwd = cString (u.password ++ h.afterPassword i)

theorem userCheckCredentials_iff (h : Heap) (users : List User) (uname passwd : List UInt8) :
    userCheckCredentials h users uname passwd = 0 ↔ AdminMatch h users uname passwd := by
  induction users generalizing h with
  | nil => simp [userCheckCredentials, AdminMatch]
  | cons current next ih =>
    unfold userCheckCredentials
    by_cases hm : current.Matches h uname passwd
    · rw [if_pos hm]
      exact iff_of_true rfl ⟨0, current, rfl, hm.2.2, hm.1, hm.2.1⟩
    · rw [if_neg hm, ih]
      constructor
      · rintro ⟨i, u, hu, hadmin, hname, hpass⟩
        exact ⟨i + 1, u, hu, hadmin, hname, hpass⟩
      · rintro ⟨i, u, hu, hadmin, hname, hpass⟩
        cases i with
        | zero =>
          obtain rfl := Option.some.inj hu
          exact absurd ⟨hname, hpass, hadmin⟩ hm
        | succ i => exact ⟨i, u, hu, hadmin, hname, hpass⟩

/-- A name that ends before its array does is compared as the string it is. -/
theorem credentialsStatus_iff {h : Heap} {users : List User} {uname passwd : Name} (hlen : uname.1.length ≤ 254) :
    credentialsStatus h users uname passwd = authSuccess ↔ AdminMatch h users uname.1 passwd.1 := by
  have hname : cString (credentialsOf uname passwd).unamePtr = cString uname.1 :=
    cString_nameField (by unfold maxLen; omega) _
  have hpass : cString (credentialsOf uname passwd).passwdPtr = cString passwd.1 := cString_passwd passwd.2.2
  have hmatch : AdminMatch h users (credentialsOf uname passwd).unamePtr (credentialsOf uname passwd).passwdPtr ↔
      AdminMatch h users uname.1 passwd.1 := by
    unfold AdminMatch
    rw [hname, hpass]
  rw [← hmatch, ← userCheckCredentials_iff]
  unfold credentialsStatus
  by_cases hc : userCheckCredentials h users (credentialsOf uname passwd).unamePtr
      (credentialsOf uname passwd).passwdPtr = 0
  · simp [hc]
  · simp [hc, authSuccess, authBadCredentials]

theorem credentialsStatus_ne {h : Heap} {users : List User} {uname passwd : Name}
    (hs : credentialsStatus h users uname passwd ≠ authSuccess) :
    credentialsStatus h users uname passwd = authBadCredentials := by
  unfold credentialsStatus at hs ⊢
  by_cases hc : userCheckCredentials h users (credentialsOf uname passwd).unamePtr
      (credentialsOf uname passwd).passwdPtr = 0
  · simp [hc] at hs
  · simp [hc]

/-! ## Runs -/

section
variable {V : Name → Name → Prop} {c d : PrawtosConn} {s : PrawtosStep} {e : PrawtosEvent} {uname passwd : Name}

theorem prawtosStep_kept (h : PrawtosInv V c) (hd : prawtosStep c s = .ok d) :
    c.received <+: d.received ∧ c.calls <+: d.calls ∧
      (∀ e, s = .event e → d.calls = c.calls → d.users = c.users) := by
  have hrefl : c.received <+: c.received ∧ c.calls <+: c.calls := ⟨List.prefix_refl _, List.prefix_refl _⟩
  cases s with
  | event e =>
    have hkept : PrawtosKept c d := by
      rcases h with h | ⟨fd, st, hst, hp⟩
      · rcases prawtosDispatch_freed h.freed e with hd' | hd' <;> rw [prawtosStep, hd'] at hd
        · cases hd
        · exact Except.ok.inj hd ▸ prawtosKept_refl c
      · exact prawtosDispatch_kept hst (prawtosPhase_alive hp) hd
    exact ⟨prawtosKept_received hkept, hkept.calls, fun _ _ => hkept.users⟩
  | other x a =>
    rw [prawtosStep, Except.ok.injEq] at hd
    subst hd
    split <;> exact ⟨hrefl.1, hrefl.2, fun _ h => by cases h⟩
  | users l =>
    rw [prawtosStep, Except.ok.injEq] at hd
    exact hd ▸ ⟨hrefl.1, hrefl.2, fun _ h => by cases h⟩

theorem prawtosStep_inv_true (c : PrawtosConn) (s : PrawtosStep) (d : PrawtosConn)
    (h : PrawtosInv (fun _ _ => True) c) (hd : prawtosStep c s = .ok d) : PrawtosInv (fun _ _ => True) d :=
  prawtosStep_inv h (fun _ _ h => h) (fun _ _ _ _ _ _ => trivial) hd

theorem prawtosRun_kept {es : List PrawtosStep} (h : PrawtosInv (fun _ _ => True) c)
    (hr : run prawtosStep c es = .ok d) : c.received <+: d.received ∧ c.calls <+: d.calls := by
  have hinv : PrawtosInv (fun _ _ => True) d ∧ c.received <+: d.received ∧ c.calls <+: d.calls := by
    refine run_invariant
      (I := fun d => PrawtosInv (fun _ _ => True) d ∧ c.received <+: d.received ∧ c.calls <+: d.calls)
      ?_ ⟨h, List.prefix_refl _, List.prefix_refl _⟩ hr
    rintro d s d' ⟨hd, h1, h2⟩ hs
    obtain ⟨h1', h2', -⟩ := prawtosStep_kept hd hs
    exact ⟨prawtosStep_inv_true d s d' hd hs, h1.trans h1', h2.trans h2'⟩
  exact hinv.2

/-- An event does not change the users. -/
def KeepsUsers (c : PrawtosConn) : PrawtosStep → Prop
  | .event e => ∀ d, prawtosStep c (.event e) = .ok d → d.users = c.users
  | .other _ _ => True
  | .users _ => True

theorem keepsUsers_of_calls {es : List PrawtosStep} (h : PrawtosInv (fun _ _ => True) c)
    (hr : run prawtosStep c es = .ok d) (hd : d.calls = []) : Along prawtosStep KeepsUsers c es := by
  induction es generalizing c with
  | nil => trivial
  | cons s es ih =>
    obtain ⟨c', hc', hr⟩ := run_cons_ok.mp hr
    have hinv := prawtosStep_inv_true c s c' h hc'
    have hnil : c'.calls = [] := List.prefix_nil.mp (hd ▸ (prawtosRun_kept hinv hr).2)
    obtain ⟨-, hcalls, husers⟩ := prawtosStep_kept h hc'
    refine ⟨?_, fun c'' hc'' => ?_⟩
    · cases s with
      | event e =>
        intro c'' hc''
        obtain rfl : c' = c'' := Except.ok.inj (hc'.symm.trans hc'')
        exact husers e rfl (hnil.trans (List.prefix_nil.mp (hnil ▸ hcalls)).symm)
      | other x a => trivial
      | users l => trivial
    · obtain rfl : c' = c'' := Except.ok.inj (hc'.symm.trans hc'')
      exact ih hinv hr

/-! ## Accepted and refused -/

/-- The event `e`, in the state `d`, has completed the authentication message. -/
def AuthenticatedIn (a : PrawtosAccepted) (es : List PrawtosStep) (e : PrawtosEvent) (d : PrawtosConn)
    (uname passwd : Name) : Prop :=
  ∃ es₁ es₂, es = es₁ ++ .event e :: es₂ ∧ run prawtosStep a.conn es₁ = .ok d ∧ CompletesAuth d e uname passwd

def AcceptedIn (a : PrawtosAccepted) (es : List PrawtosStep) (uname passwd : Name) : Prop :=
  ∃ e d, AuthenticatedIn a es e d uname passwd ∧ credentialsStatus e.sys.heap d.users uname passwd = authSuccess

theorem prawtosRun_accepted {a : PrawtosAccepted} {es : List PrawtosStep} (hr : run prawtosStep a.conn es = .ok c) :
    PrawtosInv (AcceptedIn a es) c := by
  refine run_history (H := fun es c => PrawtosInv (AcceptedIn a es) c) (prawtosAccepted_inv a _) ?_ hr
  intro es c s d hc h hd
  refine prawtosStep_inv h ?_ ?_ hd
  · rintro uname passwd ⟨e, d, ⟨es₁, es₂, rfl, hr₁, he⟩, hstatus⟩
    exact ⟨e, d, ⟨es₁, es₂ ++ [s], by simp, hr₁, he⟩, hstatus⟩
  · rintro e uname passwd rfl he hstatus
    exact ⟨e, c, ⟨es, [], rfl, hc, he⟩, hstatus⟩

/-- A connection whose name and password have been refused. -/
inductive Refused (c : PrawtosConn) : Prop
  | answering (fd : Nat) (uname passwd : Name) (hst : PrawtosInState c .authWrite) (live : PrawtosLive c fd opWrite)
      (w : AuthWriting c uname passwd) (status : c.auth.status = authBadCredentials) (calls : c.calls = []) :
      Refused c
  | ended (freed : c.freed = true) (current : c.stm.current = some PrawtosState.error.toNat) (calls : c.calls = [])
      (sent : c.sent <+: [0x01, authBadCredentials]) : Refused c

theorem refused_step (h : Refused c) (hd : prawtosStep c s = .ok d) : Refused d := by
  cases h with
  | ended freed current calls sent =>
    cases s with
    | event e =>
      rcases prawtosDispatch_freed freed e with hd' | hd' <;> rw [prawtosStep, hd'] at hd
      · cases hd
      · exact Except.ok.inj hd ▸ .ended freed current calls sent
    | other x a =>
      rw [prawtosStep, Except.ok.injEq] at hd
      subst hd
      split <;> exact .ended freed current calls sent
    | users l =>
      rw [prawtosStep, Except.ok.injEq] at hd
      exact hd ▸ .ended freed current calls sent
  | answering fd uname passwd hst live w status calls =>
    cases s with
    | event e =>
      rw [prawtosStep, prawtosDispatch_inState hst live.alive] at hd
      by_cases hs : PrawtosSelects c e
      · rw [if_pos hs, callback_authWrite live hs] at hd
        have hout := authPrawtosWrite_outcome (k := e.key) live w (congrArg Nat.cast (prawtosReady_write live hs).1)
        generalize authPrawtosWrite e.key c = q at hout hd
        cases hout with
        | failed c' i live' same _ hsent =>
          obtain ⟨d', hd', hclosed⟩ := prawtosSettle_closed e.key .authWrite live' (Or.inl rfl)
          rw [hd', Except.ok.injEq] at hd
          subst hd
          refine .ended hclosed.freed (by rw [hclosed.stm]) (hclosed.calls.trans (same.calls.trans calls)) ?_
          obtain ⟨r, hr⟩ := hsent
          rw [prawtosClosed_sent hclosed, ← status, ← hr]
          exact List.prefix_append _ _
        | writing c' live' same _ kept w' =>
          rw [prawtosSettle_to (Or.inl rfl), Except.ok.injEq] at hd
          subst hd
          exact .answering fd uname passwd (Or.inl rfl) (prawtosLive_stm live' _)
            ⟨w'.received, w'.sending, w'.pending⟩ (kept.trans status) (same.calls.trans calls)
        -- only a login that is granted goes on to commands
        | answered c' _ _ _ hstatus => rw [status] at hstatus; exact absurd hstatus (by decide)
      · rw [if_neg hs, Except.ok.injEq] at hd
        exact hd ▸ .answering fd uname passwd hst live w status calls
    | other x a =>
      rw [prawtosStep, Except.ok.injEq] at hd
      split at hd
      · -- an action on its own descriptor is left out of the run
        exact hd ▸ .answering fd uname passwd hst live w status calls
      · rename_i ho
        subst hd
        rw [not_or, not_and] at ho
        exact .answering fd uname passwd hst (prawtosLive_other live (ho.1 live.alive) ho.2)
          ⟨w.received, w.sending, w.pending⟩ status calls
    | users l =>
      rw [prawtosStep, Except.ok.injEq] at hd
      subst hd
      exact .answering fd uname passwd hst ⟨live.alive, live.clientFd, live.entry, live.limitRead, live.limitWrite⟩
        ⟨w.received, w.sending, w.pending⟩ status calls

theorem completesAuth_step (h : PrawtosInv V c) (he : CompletesAuth c e uname passwd)
    (hd : prawtosStep c (.event e) = .ok d) :
    ∃ fd, PrawtosInState d .authWrite ∧ PrawtosLive d fd opWrite ∧ AuthWriting d uname passwd ∧
      d.auth.status = credentialsStatus e.sys.heap c.users uname passwd ∧ d.calls = [] := by
  obtain ⟨hf, hs, hread, hincomplete, l, b, r, hrecv, hl⟩ := he
  rcases h with h | ⟨fd, st, hst, hp⟩
  · exact absurd (h.freed.symm.trans hf) (by decide)
  rw [prawtosStep, prawtosDispatch_inState hst hf, if_pos hs] at hd
  cases hp with
  | authWrite uname' passwd' live w => exact absurd w.received (hincomplete _ _ _)
  | cmdRead u live _ vouched =>
    obtain ⟨uname', passwd', r', hr, -⟩ := vouched
    exact absurd hr (hincomplete _ _ _)
  | cmdWrite live vouched =>
    obtain ⟨uname', passwd', r', hr, -⟩ := vouched
    exact absurd hr (hincomplete _ _ _)
  | authRead live ar calls =>
    rw [callback_authRead live hs] at hd
    have hout := authPrawtosRead_outcome (k := e.key) live ar (congrArg Nat.cast (prawtosReady_read live hs).1)
    generalize authPrawtosRead e.key c = q at hout hd
    cases hout with
    | failed c' i _ _ _ short => exact absurd hl (short l b hrecv uname passwd r)
    | reading c' l' b' _ _ hrecv' hrec r' =>
      obtain ⟨rfl, rfl⟩ : l = l' ∧ b = b' := by simpa using hrecv.symm.trans hrecv'
      exact absurd (hrec.trans hl) (authReading_incomplete r' _ _ _)
    | checked c' uname' passwd' l' b' live' same hrecv' hrec w status =>
      obtain ⟨rfl, rfl⟩ : l = l' ∧ b = b' := by simpa using hrecv.symm.trans hrecv'
      obtain ⟨rfl, rfl, -⟩ := authMessage_unique (w.received.symm.trans (hrec.trans hl))
      rw [prawtosSettle_to (Or.inl rfl), Except.ok.injEq] at hd
      subst hd
      exact ⟨fd, Or.inl rfl, prawtosLive_stm live' _, ⟨w.received, w.sending, w.pending⟩, status,
        same.calls.trans calls⟩

theorem refused_quiet (h : Refused c) : c.calls = [] ∧
    (c.stm.current = some PrawtosState.authWrite.toNat ∨ c.stm.current = some PrawtosState.error.toNat) ∧
      c.sent <+: [0x01, authBadCredentials] := by
  cases h with
  | ended freed current calls sent => exact ⟨calls, Or.inr current, sent⟩
  | answering fd uname passwd hst live w status calls =>
    refine ⟨calls, Or.inl ?_, ?_⟩
    · rcases hst with hst | ⟨-, hst, -⟩
      · rw [hst]
      · cases hst
    · rw [← status, ← w.sending]; exact List.prefix_append _ _

end

/-! ## Commands -/

section
variable {a : PrawtosAccepted} {es : List PrawtosStep} {c d : PrawtosConn} {e : PrawtosEvent} {uname passwd : Name}

/-- Handlers are called, and commands read, only once the credentials have been accepted. -/
theorem prawtosRun_commands (hr : run prawtosStep a.conn es = .ok c)
    (h : c.calls ≠ [] ∨ c.stm.current = some PrawtosState.cmdRead.toNat ∨
      c.stm.current = some PrawtosState.cmdWrite.toNat) : Vouched (AcceptedIn a es) c := by
  have hcommands : ∀ st, PrawtosInState c st → c.calls = [] → st = .cmdRead ∨ st = .cmdWrite := by
    rintro st hst hcalls
    rcases h with h | h | h
    · exact absurd hcalls h
    · exact Or.inl (prawtosInState_of_current hst h)
    · exact Or.inr (prawtosInState_of_current hst h)
  rcases prawtosRun_accepted hr with hended | ⟨fd, st, hst, hp⟩
  · refine hended.calls.resolve_left fun hcalls => ?_
    rcases hended.current with hc | hc <;> rw [hc, hcalls] at h <;> exact absurd h (by decide)
  · cases hp with
    | authRead _ _ calls => exact absurd (hcommands _ hst calls) (by decide)
    | authWrite _ _ _ _ calls _ => exact absurd (hcommands _ hst calls) (by decide)
    | cmdRead _ _ _ vouched => exact vouched
    | cmdWrite _ vouched => exact vouched

theorem refused_run (h : Refused c) (hr : run prawtosStep c es = .ok d) : Refused d :=
  run_invariant (fun _ _ _ h hd => refused_step h hd) h hr

/-- A connection whose message is complete but refused. -/
theorem prawtosRun_refused (hr : run prawtosStep a.conn es = .ok c) (he : AuthenticatedIn a es e d uname passwd)
    (hshort : ∀ uname passwd r, c.received = authMessage uname passwd ++ r → uname.1.length ≤ 254)
    (hno : ¬ AdminMatch e.sys.heap d.users uname.1 passwd.1) : Refused c := by
  obtain ⟨es₁, es₂, rfl, hr₁, he⟩ := he
  obtain ⟨d', hd', hr₂⟩ := run_append.mp hr
  obtain rfl : d = d' := Except.ok.inj (hr₁.symm.trans hd')
  obtain ⟨d₁, hd₁, hr₂⟩ := run_cons_ok.mp hr₂
  have hinv := run_invariant prawtosStep_inv_true (prawtosAccepted_inv a _) hr₁
  obtain ⟨fd, hst, hlive, w, hstatus, hcalls⟩ := completesAuth_step hinv he hd₁
  -- the message is the one that the connection's bytes begin with
  obtain ⟨t, ht⟩ := (prawtosRun_kept (prawtosStep_inv_true d _ d₁ hinv hd₁) hr₂).1
  have hlen := hshort uname passwd (d₁.readBuffer.unread ++ t) (by rw [← ht, w.received, List.append_assoc])
  have hbad : credentialsStatus e.sys.heap d.users uname passwd = authBadCredentials :=
    credentialsStatus_ne fun hs => hno ((credentialsStatus_iff hlen).mp hs)
  exact refused_run (.answering fd uname passwd hst hlive w (hstatus.trans hbad) hcalls) hr₂

/-- In every run a handler is called, and the machine reads a command or answers
it, only if an authentication message has been completed before with the name and
the password of an administrator. A connection whose message has been completed
with others only gets the answer that says so: it calls no handler, leaves the
users alone and ends in ERROR. -/
theorem commands_authorised (hr : run prawtosStep a.conn es = .ok c)
    (hshort : ∀ uname passwd r, c.received = authMessage uname passwd ++ r →
      uname.1.length ≤ 254 ∧ passwd.1.length ≤ 254) :
    (c.calls ≠ [] ∨ c.stm.current = some PrawtosState.cmdRead.toNat ∨
        c.stm.current = some PrawtosState.cmdWrite.toNat →
      ∃ e d uname passwd, AuthenticatedIn a es e d uname passwd ∧
        AdminMatch e.sys.heap d.users uname.1 passwd.1) ∧
    ∀ e d uname passwd, AuthenticatedIn a es e d uname passwd → ¬ AdminMatch e.sys.heap d.users uname.1 passwd.1 →
      c.calls = [] ∧
        (c.stm.current = some PrawtosState.authWrite.toNat ∨ c.stm.current = some PrawtosState.error.toNat) ∧
        c.sent <+: [0x01, authBadCredentials] ∧ Along prawtosStep KeepsUsers a.conn es := by
  constructor
  · intro h
    obtain ⟨uname, passwd, r, hrec, e, d, he, hstatus⟩ := prawtosRun_commands hr h
    exact ⟨e, d, uname, passwd, he, (credentialsStatus_iff (hshort uname passwd r hrec).1).mp hstatus⟩
  · intro e d uname passwd he hno
    have hrefused := prawtosRun_refused hr he (fun uname passwd r h => (hshort uname passwd r h).1) hno
    obtain ⟨hcalls, hcurrent, hsent⟩ := refused_quiet hrefused
    exact ⟨hcalls, hcurrent, hsent, keepsUsers_of_calls (prawtosAccepted_inv a _) hr hcalls⟩

/-- The client gets the count of connections. -/
theorem commands_authorised_get :
    (final prawtosStep firstPrawtosAccepted.conn (adminEvents ++ [.event (prawtosReads 5 [0x00, 0x01])])).calls =
        [.get 1] ∧
      ∃ e d uname passwd,
        AuthenticatedIn firstPrawtosAccepted (adminEvents ++ [.event (prawtosReads 5 [0x00, 0x01])])
            e d uname passwd ∧
          AdminMatch e.sys.heap d.users uname.1 passwd.1 := by
  have hr : run prawtosStep firstPrawtosAccepted.conn (adminEvents ++ [.event (prawtosReads 5 [0x00, 0x01])]) =
      .ok (final prawtosStep firstPrawtosAccepted.conn (adminEvents ++ [.event (prawtosReads 5 [0x00, 0x01])])) :=
    run_final (by decide +kernel)
  obtain ⟨hreceived, hcalls⟩ : (final prawtosStep firstPrawtosAccepted.conn
        (adminEvents ++ [.event (prawtosReads 5 [0x00, 0x01])])).received =
          authMessage admin2 alggo2 ++ [0x00, 0x01] ∧
      (final prawtosStep firstPrawtosAccepted.conn
        (adminEvents ++ [.event (prawtosReads 5 [0x00, 0x01])])).calls = [.get 1] := by
    decide +kernel
  refine ⟨hcalls, (commands_authorised hr fun uname passwd r h => ?_).1 (Or.inl (by rw [hcalls]; decide))⟩
  obtain ⟨rfl, rfl, -⟩ := authMessage_unique (hreceived.symm.trans h)
  decide

end

end SocksProxy
