import SocksProxy.AdminSound
import SocksProxy.ApartSound

/-!
# Who may change the users

A property of a management connection that its own events keep, and that the
rest of the process cannot break, holds of all connections of the server
(`run_follows`). With it a change of the list of users is traced back to the
event of the run in which the connection has given the name and the password
of an administrator (`users_guarded`).
-/

namespace SocksProxy

open Lib

/-! ## The turns of a management connection -/

section
variable {w w' : Server} {p : Ptr} {q : Process}

theorem surroundings_foreign (h : Partitioned w) (ha : Acts (w.Grasps p) p w.process q) {r : PrawtosRecord}
    (hr : r ∈ w.prawtos) (hne : Ptr.prawtos r.self ≠ p) (users : List User) :
    Relation.ReflTransGen Surroundings (w.prawtosConn r)
      { toPrawtosRecord := r, toProcess := q, users := users } := by
  refine surroundings_acts hne (fun x hx he => ?_) ha users
  exact grasps_foreign h hne hx ⟨r, hr, rfl, grasps_nonneg hx, he⟩

/-- How a management connection has come through a step of the server. -/
inductive Turned (w w' : Server) (s : ServerStep) (r : PrawtosRecord) : Prop
  | waited (old : r ∈ w.prawtos) (rest : Relation.ReflTransGen Surroundings (w.prawtosConn r) (w'.prawtosConn r)) :
      Turned w w' s r
  | arrived (a : PrawtosAccepted) (new : w'.prawtosConn r = a.conn) : Turned w w' s r
  | acted (e : PrawtosEvent) (r₀ : PrawtosRecord) (event : s = .prawtosEvent e) (old : r₀ ∈ w.prawtos)
      (called : w.prawtosCalled e = some r₀.self)
      (dispatched : prawtosDispatch (w.prawtosConn r₀) e = .ok (w'.prawtosConn r)) : Turned w w' s r

theorem prawtosEvent_called {e : PrawtosEvent} (h : serverStep w (.prawtosEvent e) = .ok w') :
    (w' = w ∧ w.prawtosCalled e = none) ∨
      ∃ r d, r ∈ w.prawtos ∧ w.prawtosCalled e = some r.self ∧ w.prawtosFind r.self = some r ∧
        prawtosDispatch (w.prawtosConn r) e = .ok d ∧ w' = w.prawtosPut d := by
  simp only [serverStep] at h
  split at h
  · rename_i ha
    exact Or.inl ⟨(Except.ok.inj h).symm, ha⟩
  · rename_i a ha
    split at h
    · cases h
    · rename_i r hr
      have hself : r.self = a := by simpa using List.find?_some hr
      subst hself
      cases hd : prawtosDispatch (w.prawtosConn r) e with
      | error f => rw [hd] at h; cases h
      | ok d =>
        rw [hd, Except.map, Except.ok.injEq] at h
        exact Or.inr ⟨r, d, List.mem_of_find?_eq_some hr, ha, hr, hd, h.symm⟩

/-- What an `accept` for a client does is done by its session. -/
theorem accept_acts {fd : Option Nat} {memory : Option Allocation} :
    ∃ a, Acts (w.Grasps (.session a)) (.session a) w.process (w.accept fd memory).process := by
  cases memory with
  | none => exact ⟨0, Relation.ReflTransGen.refl⟩
  | some a =>
    refine ⟨a.session, ?_⟩
    by_cases hused : (w.find a.session).isSome = true
    · rw [Proxy.accept, if_pos hused]
      exact Relation.ReflTransGen.refl
    · rw [accept_new (Bool.not_eq_true _ ▸ hused)]
      have hput : ∀ c : Conn, (w.put c).process = c.toProcess := fun c => by rw [put_eq]
      cases hfd : w.newFd fd with
      | none =>
        have hprocess : (newConnection w.process a (-1)).toProcess =
            { w.process with stats := stadisticsIncreaseConcurrent w.process.stats } := rfl
        rw [hput]
        exact hprocess ▸ acts_count _
      | some n =>
        have hn : (n : Int) ∉ w.process.openFds := of_decide_eq_true (Option.filter_eq_some_iff.mp hfd).2
        rw [hput]
        exact newConnection_acts w.process a hn (Or.inr ⟨Int.natCast_nonneg n, hn⟩)

/-- What the event of a session does is done by that session. -/
theorem event_acts (h : Partitioned w) {e : Event} (hs : serverStep w (.event e) = .ok w') :
    w'.prawtos = w.prawtos ∧ w'.users = w.users ∧
      ∃ a, Acts (w.Grasps (.session a)) (.session a) w.process w'.process := by
  rcases serverEvent_ok hs with ⟨-, rfl⟩ | ⟨a, r, d, ha, hr, hd, rfl⟩
  · exact ⟨rfl, rfl, 0, Relation.ReflTransGen.refl⟩
  · obtain ⟨hmem, -, hruns⟩ := called_runs h ha hr
    have hmoved := dispatch_moved (runsIn_inv hruns) (h.alive r hmem) hd
    refine ⟨rfl, rfl, r.self, ?_⟩
    rw [put_eq]
    exact acts_mono hmoved.acts fun x hx => grasps_session hmem hx

theorem prawtosPut_turned {s : ServerStep} {c : PrawtosConn} (h : Partitioned w)
    (hacts : Acts (w.Grasps (.prawtos c.self)) (.prawtos c.self) w.process c.toProcess)
    (hnew : ∀ w' : Server, w'.prawtosConn c.toPrawtosRecord = c → Turned w w' s c.toPrawtosRecord) :
    ∀ r ∈ (w.prawtosPut c).prawtos, Turned w (w.prawtosPut c) s r := by
  rw [prawtosPut_eq]
  intro r hr
  rcases mem_put (k := prawtosParty) hr with ⟨rfl, -⟩ | ⟨hr, hne⟩
  · exact hnew _ rfl
  · exact .waited hr (surroundings_foreign h hacts hr (fun he => hne (Ptr.prawtos.inj he)) c.users)

theorem serverStep_turned {s : ServerStep} (h : Partitioned w) (hfresh : w.Fresh s) (hs : serverStep w s = .ok w') :
    ∀ r ∈ w'.prawtos, Turned w w' s r := by
  have hsession : ∀ {a}, Acts (w.Grasps (.session a)) (.session a) w.process w'.process → w'.prawtos = w.prawtos →
      ∀ r ∈ w'.prawtos, Turned w w' s r := by
    intro a hacts heq r hr
    rw [heq] at hr
    exact .waited hr (surroundings_foreign h hacts hr Ptr.noConfusion w'.users)
  cases s with
  | accept fd memory =>
    rw [serverStep, proxyStep, Except.map, Except.ok.injEq] at hs
    subst hs
    obtain ⟨a, hacts⟩ : ∃ a, Acts (w.Grasps (.session a)) (.session a) w.process (w.accept fd memory).process :=
      accept_acts
    exact hsession hacts rfl
  | event e =>
    obtain ⟨heq, -, a, hacts⟩ := event_acts h hs
    exact hsession hacts heq
  | prawtosAccept fd nio memory =>
    rw [serverStep, Except.ok.injEq] at hs
    subst hs
    rcases prawtosAccept_fresh h hfresh with ⟨s, heq⟩ | ⟨a, hprocess, husers, heq⟩
    · have hacts : Acts (w.Grasps (.session 0)) (.session 0) w.process { w.process with stats := s } := acts_count s
      exact hsession (by rw [heq]; exact hacts) (by rw [heq])
    · have hn : (a.fd : Int) ∉ w.process.openFds := hprocess ▸ a.fd_new
      rw [heq]
      refine prawtosPut_turned h ?_ fun w' hw => .arrived a hw
      exact hprocess ▸ prawtosAccepted_acts a (Or.inr ⟨Int.natCast_nonneg _, hn⟩)
  | prawtosEvent e =>
    rcases prawtosEvent_called hs with ⟨rfl, -⟩ | ⟨r, d, hmem, hcalled, -, hd, rfl⟩
    · exact fun r hr => .waited hr Relation.ReflTransGen.refl
    · obtain ⟨hheld, hmoves⟩ := prawtos_moved h hmem
      have hmoved := hmoves e d hd
      have hself : d.self = r.self := hmoved.self
      refine prawtosPut_turned h ?_ fun w' hw => .acted e r rfl hmem hcalled (hw.symm ▸ hd)
      rw [hself]
      exact acts_mono hmoved.acts fun x hx => Or.inl (by rw [show x = r.clientFd from hx]; exact hheld)

end

/-! ## What holds of every management connection -/

/-- A property of a management connection and of the steps of the server so
far that is its own affair. -/
structure Follows (b : Booted) (K : List ServerStep → PrawtosConn → Prop) : Prop where
  accepted : ∀ es (a : PrawtosAccepted), K es a.conn
  later : ∀ es s c, K es c → K (es ++ [s]) c
  surroundings : ∀ es c d, K es c → Surroundings c d → K es d
  event : ∀ es e w r d, run serverStep b.server es = .ok w → r ∈ w.prawtos → w.prawtosCalled e = some r.self →
    K es (w.prawtosConn r) → prawtosDispatch (w.prawtosConn r) e = .ok d → K (es ++ [.prawtosEvent e]) d

theorem run_follows {b : Booted} {K : List ServerStep → PrawtosConn → Prop} (hK : Follows b K)
    {es : List ServerStep} {w : Server} (hr : run serverStep b.server es = .ok w)
    (hf : Along serverStep Server.Fresh b.server es) :
    Partitioned w ∧ ∀ r ∈ w.prawtos, K es (w.prawtosConn r) := by
  refine history_along (H := fun es w => Partitioned w ∧ ∀ r ∈ w.prawtos, K es (w.prawtosConn r))
    ⟨partitioned_booted b, fun _ hr => absurd hr List.not_mem_nil⟩ ?_ hf hr
  rintro es w s w' hrun ⟨hp, hall⟩ hfresh hs
  refine ⟨serverStep_partitioned hp hfresh hs, fun r hr => ?_⟩
  cases serverStep_turned hp hfresh hs r hr with
  | waited old rest =>
    have hrest : ∀ c, Relation.ReflTransGen Surroundings (w.prawtosConn r) c → K es c := by
      intro c hc
      induction hc with
      | refl => exact hall r old
      | tail _ hc ih => exact hK.surroundings es _ _ ih hc
    exact hK.later es s _ (hrest _ rest)
  | arrived a new => exact new ▸ hK.accepted _ a
  | acted e r₀ event old called dispatched =>
    subst event
    exact hK.event es e w r₀ _ hrun old called (hall r₀ old) dispatched

/-! ## The name and the password of an administrator -/

/-- In the run `es` of the server the connection `c` has completed its
authentication message with a name and a password that were accepted, those of
an administrator of the server then. -/
def Authorised (b : Booted) (es : List ServerStep) (c : PrawtosConn) (uname passwd : Name) : Prop :=
  ∃ es₁ e es₂ v r, es = es₁ ++ .prawtosEvent e :: es₂ ∧ run serverStep b.server es₁ = .ok v ∧ r ∈ v.prawtos ∧
    v.prawtosCalled e = some r.self ∧ CompletesAuth (v.prawtosConn r) e uname passwd ∧
    credentialsStatus e.sys.heap v.users uname passwd = authSuccess ∧
    (uname.1.length ≤ 254 → AdminMatch e.sys.heap v.users uname.1 passwd.1) ∧
    Reaches prawtosStep (v.prawtosConn r) c

section
variable {b : Booted} {es : List ServerStep} {c d : PrawtosConn} {uname passwd : Name}

theorem authorised_later (h : Authorised b es c uname passwd) (s : ServerStep) :
    Authorised b (es ++ [s]) c uname passwd := by
  obtain ⟨es₁, e, es₂, v, r, rfl, h⟩ := h
  exact ⟨es₁, e, es₂ ++ [s], v, r, by simp, h⟩

theorem authorised_step {s : PrawtosStep} (h : Authorised b es c uname passwd) (hs : prawtosStep c s = .ok d) :
    Authorised b es d uname passwd := by
  obtain ⟨es₁, e, es₂, v, r, hes, hv, hr, hcalled, he, hstatus, hadmin, hreach⟩ := h
  exact ⟨es₁, e, es₂, v, r, hes, hv, hr, hcalled, he, hstatus, hadmin, reaches_step hreach hs⟩

theorem authorised_now {w : Server} {e : PrawtosEvent} {r : PrawtosRecord} (hr : run serverStep b.server es = .ok w)
    (hmem : r ∈ w.prawtos) (hcalled : w.prawtosCalled e = some r.self)
    (he : CompletesAuth (w.prawtosConn r) e uname passwd)
    (hstatus : credentialsStatus e.sys.heap w.users uname passwd = authSuccess)
    (hd : prawtosDispatch (w.prawtosConn r) e = .ok d) : Authorised b (es ++ [.prawtosEvent e]) d uname passwd :=
  ⟨es, e, [], w, r, rfl, hr, hmem, hcalled, he, hstatus, fun hlen => (credentialsStatus_iff hlen).mp hstatus,
    reaches_step (e := .event e) (reaches_refl _) hd⟩

theorem authorised_follows (b : Booted) : Follows b fun es c => PrawtosInv (Authorised b es c) c where
  accepted := fun _ a => prawtosAccepted_inv a _
  later := fun es s c h => by
    -- the connection waits: no more is known of it than before
    refine prawtosStep_inv (s := .users c.users) h (fun _ _ hV => authorised_later hV s) ?_ rfl
    rintro e _ _ he
    cases he
  surroundings := fun es c d h hs => by
    obtain ⟨s, hno, hs⟩ := hs
    refine prawtosStep_inv h (fun _ _ hV => authorised_step hV hs) ?_ hs
    rintro e _ _ he
    exact absurd he (hno e)
  event := fun es e w r d hr hmem hcalled h hd => by
    refine prawtosStep_inv (s := .event e) h ?_ ?_ hd
    · exact fun _ _ hV => authorised_later (authorised_step (s := .event e) hV hd) _
    · rintro e' uname passwd he hcomplete hstatus
      obtain rfl := PrawtosStep.event.inj he
      exact authorised_now hr hmem hcalled hcomplete hstatus hd

/-- Handlers have been called: the name and the password have been accepted. -/
theorem vouched_of_calls {V : Name → Name → Prop} (h : PrawtosInv V c) (hcalls : c.calls ≠ []) : Vouched V c := by
  rcases h with hended | ⟨fd, st, -, hp⟩
  · exact hended.calls.resolve_left hcalls
  · cases hp with
    | authRead _ _ calls => exact absurd calls hcalls
    | authWrite _ _ _ _ calls _ => exact absurd calls hcalls
    | cmdRead _ _ _ vouched => exact vouched
    | cmdWrite _ vouched => exact vouched

/-- A list of users that an event of the connection has changed. -/
theorem changes_authorised {V : Name → Name → Prop} {e : PrawtosEvent} (h : PrawtosInv V c)
    (hd : prawtosDispatch c e = .ok d) (hchange : d.users ≠ c.users) : ∃ uname passwd, V uname passwd := by
  have hstep : prawtosStep c (.event e) = .ok d := hd
  obtain ⟨-, hprefix, hkept⟩ := prawtosStep_kept h hstep
  have hcalls : d.calls ≠ [] := by
    intro hnil
    refine hchange (hkept e rfl ?_)
    rw [hnil] at hprefix ⊢
    exact (List.prefix_nil.mp hprefix).symm
  have hinv : PrawtosInv (fun uname passwd => V uname passwd ∨ CompletesAuth c e uname passwd) d := by
    refine prawtosStep_inv h (fun _ _ hV => Or.inl hV) ?_ hstep
    rintro e' uname passwd he hcomplete -
    obtain rfl := PrawtosStep.event.inj he
    exact Or.inr hcomplete
  obtain ⟨uname, passwd, -, -, hV | hcomplete⟩ := vouched_of_calls hinv hcalls
  · exact ⟨uname, passwd, hV⟩
  · -- the event that completes the message calls no handler
    obtain ⟨-, -, -, -, -, hnil⟩ := completesAuth_step h hcomplete hstep
    exact absurd hnil hcalls

end

theorem prawtosAccept_users (w : Server) (fd : Option Nat) (nio : Bool) (memory : Option Nat) :
    (w.prawtosAccept fd nio memory).users = w.users := by
  unfold Server.prawtosAccept prawtosPassiveAccept
  split
  · rfl
  · rename_i c hc
    rw [prawtosPut_eq]
    grind

section
variable {b : Booted} {es : List ServerStep} {w w' : Server} {s : ServerStep}

/-- However the connections of the server take turns, a step that changes the
list of users is the event of a management connection that earlier in the run
has given the name and the password of one who was an administrator then. -/
theorem users_guarded (hr : run serverStep b.server es = .ok w) (hf : Along serverStep Server.Fresh b.server es)
    (hs : serverStep w s = .ok w') (hchange : w'.users ≠ w.users) :
    ∃ e r uname passwd, s = .prawtosEvent e ∧ r ∈ w.prawtos ∧ w.prawtosCalled e = some r.self ∧
      Authorised b es (w.prawtosConn r) uname passwd := by
  obtain ⟨hp, hall⟩ := run_follows (authorised_follows b) hr hf
  cases s with
  | accept fd memory =>
    rw [serverStep, proxyStep, Except.map, Except.ok.injEq] at hs
    exact absurd (hs ▸ rfl) hchange
  | event e => exact absurd (event_acts hp hs).2.1 hchange
  | prawtosAccept fd nio memory =>
    rw [serverStep, Except.ok.injEq] at hs
    exact absurd (hs ▸ prawtosAccept_users w fd nio memory) hchange
  | prawtosEvent e =>
    rcases prawtosEvent_called hs with ⟨rfl, -⟩ | ⟨r, d, hmem, hcalled, -, hd, rfl⟩
    · exact absurd rfl hchange
    · have husers : d.users ≠ (w.prawtosConn r).users := by
        rw [prawtosPut_eq] at hchange
        exact hchange
      obtain ⟨uname, passwd, hauth⟩ := changes_authorised (hall r hmem) hd husers
      exact ⟨e, r, uname, passwd, rfl, hmem, hcalled, hauth⟩

/-- An administrator signs in. -/
def signedInSteps : List ServerStep :=
  [.prawtosAccept (some 6) true (some 0), .prawtosEvent (prawtosReads 6 (authMessage admin2 alggo2)),
    .prawtosEvent (prawtosWrites 6 2)]

theorem signedInSteps_fresh : Along serverStep Server.Fresh firstBooted.server signedInSteps :=
  ⟨firstBooted_fresh _, fun _ _ => fresh_events rfl⟩

def nameAb : Name := ⟨[97, 98, 0], by decide⟩

/-- The user `ab` with the password `cd`. -/
def createsAb : ServerStep :=
  .prawtosEvent (prawtosReads 6 (Command.create false nameAb ⟨[99, 100, 0], by decide⟩).encode)

theorem users_guarded_create :
    ∃ e r uname passwd, createsAb = .prawtosEvent e ∧
      r ∈ (final serverStep firstBooted.server signedInSteps).prawtos ∧
      (final serverStep firstBooted.server signedInSteps).prawtosCalled e = some r.self ∧
      Authorised firstBooted signedInSteps ((final serverStep firstBooted.server signedInSteps).prawtosConn r)
        uname passwd := by
  have hr : run serverStep firstBooted.server signedInSteps =
      .ok (final serverStep firstBooted.server signedInSteps) := run_final (by decide +kernel)
  have hs : run serverStep (final serverStep firstBooted.server signedInSteps) [createsAb] =
      .ok (final serverStep (final serverStep firstBooted.server signedInSteps) [createsAb]) :=
    run_final (by decide +kernel)
  obtain ⟨w', hw', he⟩ := run_cons_ok.mp hs
  rw [run_nil, Except.ok.injEq] at he
  refine users_guarded hr signedInSteps_fresh hw' fun heq => ?_
  rw [he] at heq
  exact absurd (congrArg List.length heq) (by decide +kernel)

end

end SocksProxy
