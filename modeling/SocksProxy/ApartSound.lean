import SocksProxy.Apart

/-!
# Every step keeps the connections apart
-/

namespace SocksProxy

open Lib

/-! ## One connection has had its turn -/

section
variable {α : Type} {k : Party α} {r x : α} {l : List α}

theorem mem_put (hr : r ∈ k.put x l) : (r = x ∧ k.freed x = false) ∨ (r ∈ l ∧ k.self r ≠ k.self x) := by
  unfold Party.put at hr
  cases hf : k.freed x with
  | true =>
    rw [hf, if_pos rfl] at hr
    exact Or.inr (mem_without.mp hr)
  | false =>
    rw [hf, if_neg Bool.false_ne_true] at hr
    exact (List.mem_cons.mp hr).imp (fun he => ⟨he, rfl⟩) mem_without.mp

theorem distinctKeys_put (h : DistinctKeys k.self l) (x : α) : DistinctKeys k.self (k.put x l) := by
  unfold Party.put
  split
  · exact distinctKeys_without h _
  · exact distinctKeys_replace h x

end

section
variable {w : Server}

theorem put_members {c : Conn} {r : Record} (hr : r ∈ (w.put c).sessions) :
    (r = c.toRecord ∧ c.freed = false) ∨ (r ∈ w.sessions ∧ r.self ≠ c.self) := by
  rw [put_eq] at hr
  exact mem_put (k := sessionParty) hr

/-- The session may have let go of descriptors, or taken one that was closed;
the others hold what they held. -/
theorem put_turn {c : Conn}
    (hown : c.freed = false → ∀ x, c.Holds x → w.Grasps (.session c.self) x ∧ x ∈ c.openFds)
    (hkept : ∀ x ∈ w.process.openFds, ¬ w.Holds (.session c.self) x → x ∈ c.openFds) :
    TookTurn (.session c.self) w.Holds ({ w with toProxy := w.put c } : Server).Holds
      (· ∈ w.process.openFds) (· ∈ (w.put c).process.openFds) := by
  have hprocess : (w.put c).process = c.toProcess := by rw [put_eq]
  refine ⟨?_, ?_, ?_⟩
  · rintro x ⟨r, hr, hself, hx⟩
    rcases put_members hr with ⟨rfl, hf⟩ | ⟨-, hne⟩
    · obtain ⟨hgrasp, hopen⟩ := hown hf x hx
      exact ⟨hgrasp.imp_right And.right, by rw [hprocess]; exact hopen⟩
    · exact absurd hself hne
  · rintro q x hq hx
    cases q with
    | session a =>
      obtain ⟨r, hr, rfl, hx⟩ := hx
      rcases put_members hr with ⟨rfl, -⟩ | ⟨hr, -⟩
      · exact absurd rfl hq
      · exact ⟨r, hr, rfl, hx⟩
    | prawtos a => exact hx
  · intro x hx hno
    rw [hprocess]
    exact hkept x hx hno

/-- A session is put back, or has been freed. -/
theorem put_advances (h : Partitioned w) {c : Conn}
    (hacts : Acts (w.Grasps (.session c.self)) (.session c.self) w.process c.toProcess)
    (hown : c.freed = false → ∀ x, c.Holds x → w.Grasps (.session c.self) x ∧ x ∈ c.openFds)
    (hkept : ∀ x ∈ w.process.openFds, ¬ w.Holds (.session c.self) x → x ∈ c.openFds)
    (hruns : RunsIn c.toProcess c.toRecord ∨ (c.freed = false ∧ Unknown c.sel (.session c.self))) :
    Advances w { w with toProxy := w.put c } := by
  have hput := put_eq w.toProxy c
  have hprocess : (w.put c).process = c.toProcess := by rw [hput]
  have hforeign : ∀ r : Record, r.self ≠ c.self → Ptr.session r.self ≠ .session c.self :=
    fun r hne he => hne (Ptr.session.inj he)
  have hturn := put_turn hown hkept
  refine ⟨⟨?_, leased_turn h.leased hturn, ?_, h.prawtosDistinct, ?_, h.prawtosAlive, ?_, ?_, ?_, h.prawtosClosed⟩,
    .session c.self, hprocess ▸ hacts, hturn⟩
  · exact hprocess ▸ acts_fdSize hacts h.fdSize
  · rw [hput]
    exact distinctKeys_put (k := sessionParty) h.distinct c.toRecord
  · intro r hr
    rcases put_members hr with ⟨rfl, hf⟩ | ⟨hr, -⟩
    · exact hf
    · exact h.alive r hr
  · intro r hr
    rw [hprocess]
    rcases put_members hr with ⟨rfl, hf⟩ | ⟨hr, hne⟩
    · exact hruns.imp_right And.right
    · exact foreign_session h hacts hr (hforeign r hne)
  · intro r hr
    rw [hprocess]
    exact foreign_prawtos h hacts hr Ptr.noConfusion w.users
  · intro r hr
    rw [hput] at hr
    simp only at hr
    split at hr
    · -- a freed session joins those that are closed, with the run that ended it
      rename_i hf
      rcases List.mem_cons.mp hr with rfl | hr
      · refine hruns.elim (fun hr => ⟨_, hr⟩) fun hno => ?_
        exact absurd (hno.1.symm.trans hf) Bool.false_ne_true
      · exact h.closed r hr
    · exact h.closed r hr

theorem prawtosPut_members {c : PrawtosConn} {r : PrawtosRecord} (hr : r ∈ (w.prawtosPut c).prawtos) :
    (r = c.toPrawtosRecord ∧ c.freed = false) ∨ (r ∈ w.prawtos ∧ r.self ≠ c.self) := by
  rw [prawtosPut_eq] at hr
  exact mem_put (k := prawtosParty) hr

theorem prawtosPut_turn {c : PrawtosConn}
    (hown : c.freed = false → w.Grasps (.prawtos c.self) c.clientFd ∧ c.clientFd ∈ c.openFds)
    (hkept : ∀ x ∈ w.process.openFds, ¬ w.Holds (.prawtos c.self) x → x ∈ c.openFds) :
    TookTurn (.prawtos c.self) w.Holds (w.prawtosPut c).Holds (· ∈ w.process.openFds)
      (· ∈ (w.prawtosPut c).process.openFds) := by
  have hprocess : (w.prawtosPut c).process = c.toProcess := by rw [prawtosPut_eq]
  refine ⟨?_, ?_, ?_⟩
  · rintro x ⟨r, hr, hself, hpos, rfl⟩
    rcases prawtosPut_members hr with ⟨rfl, hf⟩ | ⟨-, hne⟩
    · obtain ⟨hgrasp, hopen⟩ := hown hf
      exact ⟨hgrasp.imp_right And.right, by rw [hprocess]; exact hopen⟩
    · exact absurd hself hne
  · rintro q x hq hx
    cases q with
    | session a =>
      rw [prawtosPut_eq] at hx
      exact hx
    | prawtos a =>
      obtain ⟨r, hr, rfl, hx⟩ := hx
      rcases prawtosPut_members hr with ⟨rfl, -⟩ | ⟨hr, -⟩
      · exact absurd rfl hq
      · exact ⟨r, hr, rfl, hx⟩
  · intro x hx hno
    rw [hprocess]
    exact hkept x hx hno

theorem prawtosPut_advances (h : Partitioned w) {c : PrawtosConn}
    (hacts : Acts (w.Grasps (.prawtos c.self)) (.prawtos c.self) w.process c.toProcess)
    (hown : c.freed = false → w.Grasps (.prawtos c.self) c.clientFd ∧ c.clientFd ∈ c.openFds)
    (hkept : ∀ x ∈ w.process.openFds, ¬ w.Holds (.prawtos c.self) x → x ∈ c.openFds)
    (hruns : PrawtosRunsIn c.toProcess c.users c.toPrawtosRecord) : Advances w (w.prawtosPut c) := by
  have hmem : ∀ r ∈ prawtosParty.put c.toPrawtosRecord w.prawtos,
      (r = c.toPrawtosRecord ∧ c.freed = false) ∨ (r ∈ w.prawtos ∧ r.self ≠ c.self) :=
    fun r hr => mem_put (k := prawtosParty) hr
  have hforeign : ∀ r : PrawtosRecord, r.self ≠ c.self → Ptr.prawtos r.self ≠ .prawtos c.self :=
    fun r hne he => hne (Ptr.prawtos.inj he)
  have hturn := prawtosPut_turn hown hkept
  rw [prawtosPut_eq] at hturn ⊢
  refine ⟨⟨acts_fdSize hacts h.fdSize, leased_turn h.leased hturn, h.distinct, ?_, h.alive, ?_, ?_, ?_, h.closed,
    ?_⟩, .prawtos c.self, hacts, hturn⟩
  · exact distinctKeys_put (k := prawtosParty) h.prawtosDistinct c.toPrawtosRecord
  · intro r hr
    rcases hmem r hr with ⟨rfl, hf⟩ | ⟨hr, -⟩
    · exact hf
    · exact h.prawtosAlive r hr
  · intro r hr
    exact foreign_session h hacts hr Ptr.noConfusion
  · intro r hr
    rcases hmem r hr with ⟨rfl, -⟩ | ⟨hr, hne⟩
    · exact hruns
    · exact foreign_prawtos h hacts hr (hforeign r hne) c.users
  · intro r hr
    simp only at hr
    split at hr
    · rcases List.mem_cons.mp hr with rfl | hr
      · exact ⟨_, _, hruns⟩
      · exact h.prawtosClosed r hr
    · exact h.prawtosClosed r hr

end

/-! ## Events -/

theorem runsIn_inv {p : Process} {r : Record} (h : RunsIn p r) : Inv { toRecord := r, toProcess := p } := by
  obtain ⟨a, hr⟩ := h
  exact reaches_invariant step_inv (accepted_inv a) hr

theorem prawtosRunsIn_inv {p : Process} {users : List User} {r : PrawtosRecord} (h : PrawtosRunsIn p users r) :
    PrawtosInv (fun _ _ => True) { toPrawtosRecord := r, toProcess := p, users := users } := by
  obtain ⟨a, hr⟩ := h
  exact reaches_invariant prawtosStep_inv_true (prawtosAccepted_inv a _) hr

theorem inv_client {c : Conn} (h : Inv c) (hf : c.freed = false) : 0 ≤ c.clientFd ∧ c.clientFd ∈ c.openFds := by
  rcases h with hfreed | ⟨fd, st, -, hp⟩
  · exact absurd (hf.symm.trans hfreed) Bool.false_ne_true
  · obtain ⟨i, o, hl⟩ := phase_live hp
    rw [hl.clientFd]
    exact ⟨Int.natCast_nonneg fd, hl.isOpen⟩

section
variable {w w' : Server}

theorem called_of_item {e : Event} {a : Nat} {i : FdInterest}
    (h : w.process.sel.fds e.fd = ⟨e.fd, i, some .client, some (.session a)⟩) (hi : i.has e.ready = true) :
    w.called e = some a := by
  unfold Proxy.called
  simp only [h]
  rw [if_pos ⟨used_of_fd rfl, trivial, hi⟩]

theorem prawtosCalled_of_item {e : PrawtosEvent} {a : Nat} {i : FdInterest}
    (h : w.process.sel.fds e.fd = ⟨e.fd, i, some .prawtos, some (.prawtos a)⟩) (hi : i.has e.ready = true) :
    w.prawtosCalled e = some a := by
  unfold Server.prawtosCalled
  simp only [h]
  rw [if_pos ⟨used_of_fd rfl, trivial, hi⟩]

theorem called_runs (h : Partitioned w) {e : Event} {a : Nat} {r : Record} (ha : w.called e = some a)
    (hr : w.find a = some r) : r ∈ w.sessions ∧ r.self = a ∧ RunsIn w.process r := by
  obtain ⟨hmem, hself⟩ := find_some hr
  obtain ⟨hu, hd, -⟩ := called_some ha
  refine ⟨hmem, hself, (h.runs r hmem).resolve_right fun hidle => ?_⟩
  exact hidle e.fd hu (hself ▸ hd)

theorem grasps_session {r : Record} (hr : r ∈ w.sessions) {x : Int} (hx : (w.conn r).Grasps x) :
    w.Grasps (.session r.self) x :=
  hx.imp_left fun hh => ⟨r, hr, rfl, hh⟩

theorem event_advances {e : Event} (h : Partitioned w) (hs : serverStep w (.event e) = .ok w') : Advances w w' := by
  rcases serverEvent_ok hs with ⟨-, rfl⟩ | ⟨a, r, d, ha, hr, hd, rfl⟩
  · exact advances_refl h
  obtain ⟨hmem, -, hruns⟩ := called_runs h ha hr
  have hinv : Inv (w.conn r) := runsIn_inv hruns
  have hf := h.alive r hmem
  have hmoved := dispatch_moved hinv hf hd
  have hself : d.self = r.self := hmoved.self
  obtain ⟨hpos, hopen⟩ := inv_client hinv hf
  have hclient : w.Holds (.session r.self) r.clientFd := ⟨r, hmem, rfl, hpos, Or.inl rfl⟩
  refine put_advances h ?_ (fun hfreed x hx => ?_) (fun x hx hno => ?_) (Or.inl ?_)
  · rw [hself]
    exact acts_mono hmoved.acts fun x hx => grasps_session hmem hx
  · have hkept : ∀ x ∈ w.process.openFds, x ∈ d.openFds := fun x hx =>
      moved_opens hmoved hx fun hno => absurd (hfreed.symm.trans hno) Bool.false_ne_true
    rw [hself]
    rcases hx.2 with rfl | rfl
    · rw [show d.clientFd = r.clientFd from hmoved.clientFd]
      exact ⟨Or.inl hclient, hkept _ hopen⟩
    · -- the only descriptor that can be new is the origin's socket
      obtain ⟨l, hl, hopens⟩ := hmoved.origin
      rw [if_neg (hfreed ▸ Bool.false_ne_true)] at hopens
      rcases originMoves_cases hl with ho | ho | ⟨hnew, ho⟩
      · have hheld : w.Holds (.session r.self) d.server.fd := ⟨r, hmem, rfl, hx.1, Or.inr ho⟩
        exact ⟨Or.inl hheld, hkept _ (h.leased.taken _ _ hheld)⟩
      · exact absurd hx.1 (Int.not_le.mpr ho)
      · exact ⟨Or.inr ⟨hx.1, hnew⟩, hopens ▸ ho⟩
  · rw [hself] at hno
    refine moved_opens hmoved hx fun _ he => hno ?_
    rw [show x = r.clientFd from he]
    exact hclient
  · obtain ⟨a, hr⟩ := hruns
    exact ⟨a, reaches_step (e := .event e) hr hd⟩

/-- A management connection is live, and registered for the client's descriptor. -/
theorem prawtos_live (h : Partitioned w) {r : PrawtosRecord} (hmem : r ∈ w.prawtos) :
    ∃ fd i, PrawtosLive (w.prawtosConn r) fd i := by
  rcases prawtosRunsIn_inv (h.prawtosRuns r hmem) with hended | ⟨fd, st, -, hp⟩
  · exact absurd ((h.prawtosAlive r hmem).symm.trans hended.freed) Bool.false_ne_true
  · cases hp with
    | authRead live | authWrite _ _ live | cmdRead _ live | cmdWrite live => exact ⟨_, _, live⟩

theorem prawtos_carried (h : Partitioned w) {r : PrawtosRecord} (hmem : r ∈ w.prawtos) :
    Carried w.process.sel r.clientFd (.prawtos r.self) := by
  obtain ⟨fd, i, hlive⟩ := prawtos_live h hmem
  have hfd : r.clientFd = fd := hlive.clientFd
  have hitem : w.process.sel.fds fd = ⟨fd, i, some .prawtos, some (.prawtos r.self)⟩ := hlive.entry.item
  unfold Carried
  rw [hfd, Int.toNat_natCast, hitem]
  exact ⟨invalidFd_of_lt hlive.entry.fd_lt, used_of_fd rfl, rfl⟩

/-- It holds this descriptor, and is called for it alone. -/
theorem prawtos_moved (h : Partitioned w) {r : PrawtosRecord} (hmem : r ∈ w.prawtos) :
    w.Holds (.prawtos r.self) r.clientFd ∧
      ∀ e d, prawtosDispatch (w.prawtosConn r) e = .ok d → PrawtosMoved (w.prawtosConn r) d := by
  obtain ⟨fd, i, hlive⟩ := prawtos_live h hmem
  have hfd : r.clientFd = fd := hlive.clientFd
  refine ⟨⟨r, hmem, rfl, hfd ▸ Int.natCast_nonneg fd, rfl⟩, fun e d hd => ?_⟩
  refine prawtosDispatch_moved (h.prawtosAlive r hmem) (prawtos_carried h hmem) (fun hsel => ?_) hd
  rw [((prawtosSelects_live hlive e).mp hsel).1]
  exact hfd.symm

theorem prawtosEvent_advances {e : PrawtosEvent} (h : Partitioned w)
    (hs : serverStep w (.prawtosEvent e) = .ok w') :
    Advances w w' := by
  rcases serverPrawtosEvent_ok hs with rfl | ⟨a, r, d, hr, hd, rfl⟩
  · exact advances_refl h
  have hmem : r ∈ w.prawtos := List.mem_of_find?_eq_some hr
  obtain ⟨hheld, hmoves⟩ := prawtos_moved h hmem
  have hmoved := hmoves e d hd
  have hself : d.self = r.self := hmoved.self
  have hclient : d.clientFd = r.clientFd := hmoved.clientFd
  refine prawtosPut_advances h ?_ (fun hfreed => ?_) (fun x hx hno => ?_) ?_
  · rw [hself]
    exact acts_mono hmoved.acts fun x hx => Or.inl (by rw [show x = r.clientFd from hx]; exact hheld)
  · rw [hself, hclient]
    refine ⟨Or.inl hheld, prawtosMoved_opens hmoved (h.leased.taken _ _ hheld) fun hno => ?_⟩
    exact absurd (hfreed.symm.trans hno) Bool.false_ne_true
  · rw [hself] at hno
    refine prawtosMoved_opens hmoved hx fun _ he => hno ?_
    rw [show x = r.clientFd from he]
    exact hheld
  · obtain ⟨a, hr⟩ := h.prawtosRuns r hmem
    exact ⟨a, reaches_step (e := .event e) hr hd⟩

/-! ## New connections -/

theorem newConnection_acts {own : Int → Prop} (p : Process) (a : Allocation) {n : Nat} (hn : (n : Int) ∉ p.openFds)
    (hown : own n) : Acts own (.session a.session) p (newConnection p a n).toProcess := by
  have hopened : p.act n .opened = { p with openFds := (n : Int) :: p.openFds } := by rw [Process.act, if_neg hn]
  have hne : ¬ (n : Int) = -1 := by omega
  have hprocess : (newConnection p a n).toProcess =
      { ((p.act n .opened).act n (.register .client opRead (.session a.session))) with
        stats := stadisticsIncreaseConcurrent p.stats } := by
    rw [hopened]
    simp only [newConnection, Conn.register, if_neg hne, Process.act]
  rw [hprocess]
  refine (acts_once (a := .opened) hown trivial).trans ?_
  exact (acts_once (a := .register .client opRead (.session a.session)) hown ⟨rfl, rfl⟩).trans (acts_count _)

/-- The session is registered, or nothing will ever call it. -/
theorem newConnection_runs (h : Partitioned w) {a : Allocation}
    (hfresh : Unknown w.process.sel (.session a.session)) {n : Nat} (hn : (n : Int) ∉ w.process.openFds) :
    RunsIn (newConnection w.process a n).toProcess (newConnection w.process a n).toRecord ∨
      Unknown (newConnection w.process a n).sel (.session a.session) := by
  have hsel : (newConnection w.process a n).sel =
      (selectorRegister w.process.sel n (some .client) opRead (some (.session a.session)) true).1 := rfl
  by_cases hok :
      (selectorRegister w.process.sel n (some Handler.client) opRead (some (.session a.session)) true).2 = .success
  · obtain ⟨hv, hu⟩ := selectorRegister_success h.fdSize hok
    have hlt : n < fdSetsize := by
      simp only [invalidFd, decide_eq_false_iff_not] at hv
      omega
    exact Or.inl ⟨⟨w.process, a, n, hlt, hn, h.fdSize, hu, hfresh⟩, reaches_refl _⟩
  · refine Or.inr ?_
    rw [hsel, selectorRegister_refused h.fdSize _ _ _ _ hok]
    exact hfresh

theorem accept_advances {fd : Option Nat} {memory : Option Allocation} (h : Partitioned w)
    (hfresh : w.Fresh (.accept fd memory)) : Advances w { w with toProxy := w.accept fd memory } := by
  cases memory with
  | none => exact advances_refl h
  | some a =>
    by_cases hused : (w.find a.session).isSome = true
    · rw [Proxy.accept, if_pos hused]
      exact advances_refl h
    have hnew : (w.find a.session).isSome = false := Bool.not_eq_true _ ▸ hused
    rw [accept_new hnew]
    cases hfd : w.newFd fd with
    | none =>
      -- the session of an `accept` that has failed holds nothing, and is registered nowhere
      have hprocess : (newConnection w.process a (-1)).toProcess =
          { w.process with stats := stadisticsIncreaseConcurrent w.process.stats } := rfl
      refine put_advances h ?_ (fun _ x hx => ?_) (fun x hx _ => hx) (Or.inr ⟨rfl, hfresh⟩)
      · exact hprocess ▸ acts_count _
      · obtain ⟨hpos, hx⟩ := hx
        rcases hx with rfl | rfl <;> exact absurd hpos (Int.not_le.mpr (Int.negSucc_lt_zero 0))
    | some n =>
      have hn : (n : Int) ∉ w.process.openFds := of_decide_eq_true (Option.filter_eq_some_iff.mp hfd).2
      have hgrasp : w.Grasps (.session a.session) (n : Int) := Or.inr ⟨Int.natCast_nonneg n, hn⟩
      have hopens : (newConnection w.process a n).openFds = (n : Int) :: w.process.openFds := by
        have hne : ¬ (n : Int) = -1 := by omega
        simp only [newConnection, Conn.register, if_neg hne]
      refine put_advances (c := newConnection w.process a n) h ?_ (fun _ x hx => ?_) (fun x hx _ => ?_) ?_
      · exact newConnection_acts w.process a hn hgrasp
      · obtain ⟨hpos, hx⟩ := hx
        rcases hx with rfl | rfl
        · exact ⟨hgrasp, hopens ▸ List.mem_cons_self⟩
        · exact absurd hpos (Int.not_le.mpr (Int.negSucc_lt_zero 0))
      · exact hopens ▸ List.mem_cons_of_mem _ hx
      · exact (newConnection_runs h hfresh hn).imp_right fun hidle => ⟨rfl, hidle⟩

theorem prawtosAccept_fresh {fd : Option Nat} {nio : Bool} {memory : Option Nat} (h : Partitioned w)
    (hfresh : w.Fresh (.prawtosAccept fd nio memory)) :
    (∃ s, w.prawtosAccept fd nio memory = { w with process := { w.process with stats := s } }) ∨
      ∃ a : PrawtosAccepted, a.process = w.process ∧ a.users = w.users ∧
        w.prawtosAccept fd nio memory = w.prawtosPut a.conn := by
  have hnew : (fd.filter fun n : Nat => decide ((n : Int) ∉ w.process.openFds)) = w.newFd fd := rfl
  unfold Server.prawtosAccept
  rw [hnew]
  generalize hmem : (memory.filter fun a => (w.prawtosFind a).isNone) = memory'
  cases hfd : w.newFd fd with
  | none => exact Or.inl ⟨_, rfl⟩
  | some n =>
    cases nio with
    | false => exact Or.inl ⟨_, rfl⟩
    | true =>
      cases memory' with
      | none => exact Or.inl ⟨_, rfl⟩
      | some self =>
        have hn : (n : Int) ∉ w.process.openFds := of_decide_eq_true (Option.filter_eq_some_iff.mp hfd).2
        have hself : Unknown w.process.sel (.prawtos self) := by
          rw [(Option.filter_eq_some_iff.mp hmem).1] at hfresh
          exact hfresh
        by_cases hok :
            (selectorRegister w.process.sel n (some Handler.prawtos) opRead (some (.prawtos self)) true).2 =
              SelectorStatus.success
        · obtain ⟨hv, hu⟩ := selectorRegister_success h.fdSize hok
          have hlt : n < fdSetsize := by
            simp only [invalidFd, decide_eq_false_iff_not] at hv
            omega
          refine Or.inr ⟨⟨w.process, w.users, self, n, hlt, hn, h.fdSize, hu, hself⟩, rfl, rfl, ?_⟩
          simp only [prawtosPassiveAccept, if_pos hok]
          rfl
        · refine Or.inl ⟨prawtosDecrease w.process.stats, ?_⟩
          simp only [prawtosPassiveAccept, if_neg hok]
          rw [selectorRegister_refused h.fdSize _ _ _ _ hok]

theorem prawtosAccepted_acts {own : Int → Prop} (a : PrawtosAccepted) (hown : own a.fd) :
    Acts own (.prawtos a.self) a.process a.conn.toProcess := by
  have hopened : a.process.act a.fd .opened = { a.process with openFds := (a.fd : Int) :: a.process.openFds } := by
    rw [Process.act, if_neg a.fd_new]
  have hprocess : a.conn.toProcess =
      { ((a.process.act a.fd .opened).act a.fd (.register .prawtos opRead (.prawtos a.self))) with
        stats := stadisticsIncreaseConcurrent a.process.stats } := by
    rw [hopened]
    rfl
  rw [hprocess]
  refine (acts_once (a := .opened) hown trivial).trans ?_
  exact (acts_once (a := .register .prawtos opRead (.prawtos a.self)) hown ⟨rfl, rfl⟩).trans (acts_count _)

theorem prawtosAccept_advances {fd : Option Nat} {nio : Bool} {memory : Option Nat} (h : Partitioned w)
    (hfresh : w.Fresh (.prawtosAccept fd nio memory)) : Advances w (w.prawtosAccept fd nio memory) := by
  rcases prawtosAccept_fresh h hfresh with ⟨s, heq⟩ | ⟨a, hprocess, husers, heq⟩
  · -- nothing but the counters has changed: as if a connection that holds nothing had acted
    rw [heq]
    have hacts : ∀ p, Acts (w.Grasps p) p w.process { w.process with stats := s } := fun p => acts_count s
    refine advances_count h ⟨h.fdSize, h.leased, h.distinct, h.prawtosDistinct, h.alive, h.prawtosAlive,
      fun r hr => ?_, fun r hr => ?_, h.closed, h.prawtosClosed⟩ rfl rfl
    · exact foreign_session h (hacts (.prawtos 0)) hr Ptr.noConfusion
    · exact foreign_prawtos h (hacts (.session 0)) hr Ptr.noConfusion w.users
  · have hn : (a.fd : Int) ∉ w.process.openFds := hprocess ▸ a.fd_new
    have hgrasp : w.Grasps (.prawtos a.self) (a.fd : Int) := Or.inr ⟨Int.natCast_nonneg _, hn⟩
    rw [heq]
    refine prawtosPut_advances (c := a.conn) h ?_ (fun _ => ?_) (fun x hx _ => ?_) ⟨a, reaches_refl _⟩
    · exact hprocess ▸ prawtosAccepted_acts a hgrasp
    · exact ⟨hgrasp, List.mem_cons_self⟩
    · exact List.mem_cons_of_mem _ (hprocess ▸ hx)

/-! ## A run -/

theorem partitioned_booted (b : Booted) : Partitioned b.server where
  fdSize := b.fdSize_lt
  leased := by
    constructor
    · intro p x hx
      cases p <;> exact absurd hx.choose_spec.1 List.not_mem_nil
    · intro p q x hx _
      cases p <;> exact absurd hx.choose_spec.1 List.not_mem_nil
  distinct := List.nodup_nil
  prawtosDistinct := List.nodup_nil
  alive := fun _ hr => absurd hr List.not_mem_nil
  prawtosAlive := fun _ hr => absurd hr List.not_mem_nil
  runs := fun _ hr => absurd hr List.not_mem_nil
  prawtosRuns := fun _ hr => absurd hr List.not_mem_nil
  closed := fun _ hr => absurd hr List.not_mem_nil
  prawtosClosed := fun _ hr => absurd hr List.not_mem_nil

theorem serverStep_advances {s : ServerStep} (h : Partitioned w) (hfresh : w.Fresh s)
    (hs : serverStep w s = .ok w') : Advances w w' := by
  cases s with
  | accept fd memory =>
    rw [serverStep, proxyStep, Except.map, Except.ok.injEq] at hs
    exact hs ▸ accept_advances h hfresh
  | event e => exact event_advances h hs
  | prawtosAccept fd nio memory =>
    rw [serverStep, Except.ok.injEq] at hs
    exact hs ▸ prawtosAccept_advances h hfresh
  | prawtosEvent e => exact prawtosEvent_advances h hs

theorem serverStep_partitioned {s : ServerStep} (h : Partitioned w) (hfresh : w.Fresh s)
    (hs : serverStep w s = .ok w') : Partitioned w' :=
  (serverStep_advances h hfresh hs).partitioned

theorem run_partitioned (b : Booted) {es : List ServerStep} (hr : run serverStep b.server es = .ok w)
    (hf : Along serverStep Server.Fresh b.server es) : Partitioned w :=
  run_along (fun _ _ _ h hfresh hs => serverStep_partitioned h hfresh hs) (partitioned_booted b) hf hr

def ServerStep.isEvent : ServerStep → Bool
  | .event _ | .prawtosEvent _ => true
  | .accept _ _ | .prawtosAccept _ _ _ => false

/-- Events take no memory for a connection. -/
theorem fresh_events {es : List ServerStep} (h : es.all ServerStep.isEvent = true) :
    Along serverStep Server.Fresh w es := by
  induction es generalizing w with
  | nil => trivial
  | cons s es ih =>
    rw [List.all_cons, Bool.and_eq_true] at h
    refine ⟨?_, fun w' _ => ih h.2⟩
    cases s with
    | event e => trivial
    | prawtosEvent e => trivial
    | accept fd memory => exact absurd h.1 Bool.false_ne_true
    | prawtosAccept fd nio memory => exact absurd h.1 Bool.false_ne_true

/-- Before the first connection every address is fresh. -/
theorem fresh_unknown (hu : ∀ p, Unknown w.process.sel p) (s : ServerStep) : w.Fresh s := by
  cases s with
  | event e | prawtosEvent e => trivial
  | accept fd memory =>
    cases memory with
    | none => trivial
    | some a => exact hu _
  | prawtosAccept fd nio memory =>
    cases memory with
    | none => trivial
    | some a => exact hu _

theorem fresh_first (hu : ∀ p, Unknown w.process.sel p) {es : List ServerStep}
    (h : es.tail.all ServerStep.isEvent = true) : Along serverStep Server.Fresh w es := by
  cases es with
  | nil => trivial
  | cons s es => exact ⟨fresh_unknown hu s, fun w' _ => fresh_events h⟩

theorem firstBooted_fresh (s : ServerStep) : firstBooted.server.Fresh s := by
  have hblank : ∀ p, Unknown firstBooted.process.sel p := fun _ _ hn => absurd hn Bool.false_ne_true
  exact fresh_unknown hblank s

/-- A session and a connection of the service, each of which has an event. -/
def twoParties : List ServerStep :=
  [.accept (some 5) (some firstAccepted.memory), .prawtosAccept (some 6) true (some 0),
    .event ⟨5, .read, { Answers.failed with recv := .data [0x05, 1, 0x00] }⟩,
    .prawtosEvent (prawtosReads 6 (authMessage admin2 alggo2))]

theorem twoParties_fresh : Along serverStep Server.Fresh firstBooted.server twoParties := by
  refine ⟨firstBooted_fresh _, fun w hw => ⟨?_, fun w' _ => fresh_events rfl⟩⟩
  have hsel : w.process.sel = (selectorRegister firstBooted.process.sel 5 (some .client) opRead
      (some (.session firstAccepted.memory.session)) true).1 := by
    rw [← Except.ok.inj hw]
    rfl
  have hunknown : Unknown w.process.sel (.prawtos 0) := by
    rw [hsel]
    exact unknown_register firstBooted.fdSize_lt (firstBooted_fresh (.prawtosAccept none true (some 0)))
      Ptr.noConfusion
  exact hunknown

theorem twoParties_run : run serverStep firstBooted.server twoParties =
    .ok (final serverStep firstBooted.server twoParties) :=
  run_final (by decide +kernel)

/-- However the connections of the server take turns, each of its sessions is
where a run of a single session leads to, the others' events being actions of
the rest of the process; a session that was never registered has no events.
What has become of the sessions that ended is the end of such a run. -/
theorem sessions_project (b : Booted) {es : List ServerStep} (hr : run serverStep b.server es = .ok w)
    (hf : Along serverStep Server.Fresh b.server es) :
    (∀ r ∈ w.sessions, (∃ a : Accepted, Reaches step a.conn (w.conn r)) ∨
        ∀ n, (w.process.sel.fds n).used = true → (w.process.sel.fds n).data ≠ some (.session r.self)) ∧
      ∀ r ∈ w.closed, ∃ (p : Process) (a : Accepted), Reaches step a.conn { toRecord := r, toProcess := p } :=
  ⟨(run_partitioned b hr hf).runs, (run_partitioned b hr hf).closed⟩

theorem sessions_project_two :
    (final serverStep firstBooted.server twoParties).sessions.length = 1 ∧
      ((∀ r ∈ (final serverStep firstBooted.server twoParties).sessions,
          (∃ a : Accepted, Reaches step a.conn ((final serverStep firstBooted.server twoParties).conn r)) ∨
            ∀ n, ((final serverStep firstBooted.server twoParties).process.sel.fds n).used = true →
              ((final serverStep firstBooted.server twoParties).process.sel.fds n).data ≠ some (.session r.self)) ∧
        ∀ r ∈ (final serverStep firstBooted.server twoParties).closed,
          ∃ (p : Process) (a : Accepted), Reaches step a.conn { toRecord := r, toProcess := p }) :=
  ⟨by decide +kernel, sessions_project firstBooted twoParties_run twoParties_fresh⟩

/-- The same of the connections of the service, which are all registered. -/
theorem prawtos_project (b : Booted) {es : List ServerStep} (hr : run serverStep b.server es = .ok w)
    (hf : Along serverStep Server.Fresh b.server es) :
    (∀ r ∈ w.prawtos, ∃ a : PrawtosAccepted, Reaches prawtosStep a.conn (w.prawtosConn r)) ∧
      ∀ r ∈ w.prawtosClosed, ∃ (p : Process) (users : List User) (a : PrawtosAccepted),
        Reaches prawtosStep a.conn { toPrawtosRecord := r, toProcess := p, users := users } :=
  ⟨(run_partitioned b hr hf).prawtosRuns, (run_partitioned b hr hf).prawtosClosed⟩

theorem prawtos_project_two :
    (final serverStep firstBooted.server twoParties).prawtos.length = 1 ∧
      ((∀ r ∈ (final serverStep firstBooted.server twoParties).prawtos,
          ∃ a : PrawtosAccepted,
            Reaches prawtosStep a.conn ((final serverStep firstBooted.server twoParties).prawtosConn r)) ∧
        ∀ r ∈ (final serverStep firstBooted.server twoParties).prawtosClosed,
          ∃ (p : Process) (users : List User) (a : PrawtosAccepted),
            Reaches prawtosStep a.conn { toPrawtosRecord := r, toProcess := p, users := users }) :=
  ⟨by decide +kernel, prawtos_project firstBooted twoParties_run twoParties_fresh⟩

/-- No two connections of the server ever hold one descriptor, what they hold is
open, and the calls that an event makes are on no descriptor that another
connection holds. -/
theorem descriptors_apart (b : Booted) {es : List ServerStep} (hr : run serverStep b.server es = .ok w)
    (hf : Along serverStep Server.Fresh b.server es) :
    (∀ p q x, w.Holds p x → w.Holds q x → p = q) ∧ (∀ p x, w.Holds p x → x ∈ w.process.openFds) ∧
      (∀ e a r d, w.called e = some a → w.find a = some r → dispatch (w.conn r) e = .ok d →
        ∃ l, d.log = r.log ++ l ∧ ∀ s ∈ l, ∀ q, q ≠ .session a → ¬ w.Holds q s.on) ∧
      ∀ e a r d, w.prawtosFind a = some r → prawtosDispatch (w.prawtosConn r) e = .ok d →
        ∃ l, d.log = r.log ++ l ∧ ∀ s ∈ l, ∀ q, q ≠ .prawtos a → ¬ w.Holds q s.on := by
  have h := run_partitioned b hr hf
  refine ⟨h.leased.sole, h.leased.taken, fun e a r d ha hr hd => ?_, fun e a r d hr hd => ?_⟩
  · obtain ⟨hmem, rfl, hruns⟩ := called_runs h ha hr
    obtain ⟨l, hl, hon⟩ := (dispatch_moved (runsIn_inv hruns) (h.alive r hmem) hd).log
    refine ⟨l, hl, fun s hs q hq hheld => ?_⟩
    exact grasps_foreign h hq (grasps_session hmem (hon s hs (grasps_nonneg (Or.inl hheld)))) hheld
  · have hmem : r ∈ w.prawtos := List.mem_of_find?_eq_some hr
    have hself : r.self = a := by simpa using List.find?_some hr
    obtain ⟨hheld, hmoves⟩ := prawtos_moved h hmem
    obtain ⟨l, hl, hon⟩ := (hmoves e d hd).log
    refine ⟨l, hl, fun s hs q hq hqs => hq ?_⟩
    rw [hon s hs] at hqs
    rw [h.leased.sole _ _ _ hqs hheld, hself]

/-- The session holds descriptor 5, and the connection of the service 6. -/
theorem descriptors_apart_two :
    (final serverStep firstBooted.server twoParties).Holds (.session 0) 5 ∧
      (final serverStep firstBooted.server twoParties).Holds (.prawtos 0) 6 ∧
      ¬ (final serverStep firstBooted.server twoParties).Holds (.prawtos 0) 5 := by
  have hsession : (final serverStep firstBooted.server twoParties).Holds (.session 0) 5 := by
    unfold Server.Holds Record.Holds
    decide +kernel
  have hprawtos : (final serverStep firstBooted.server twoParties).Holds (.prawtos 0) 6 := by
    unfold Server.Holds PrawtosRecord.Holds
    decide +kernel
  refine ⟨hsession, hprawtos, fun hno => ?_⟩
  cases (descriptors_apart firstBooted twoParties_run twoParties_fresh).1 _ _ 5 hsession hno

end

end SocksProxy
