import SocksProxy.SessionSound
import SocksProxy.Steady

/-!
# Properties of an open session along a run

`always_onEvent` reduces a property of every state of a run to what the
callbacks do in each phase; `Sound` is what the callbacks may rely on.

A run begins at an `Accepted`, so its events are those of the session's own
client and origin. A session at the address of an earlier one whose origin is
still registered gets that origin's events as well, and none of this holds of
it.
-/

namespace SocksProxy

open Lib

/-! ## What the buffers keep -/

/-- Both buffers have their whole block free when they are empty. -/
def Compacted (c : Conn) : Prop := Rewound c.input ∧ Rewound c.output

structure Sound (c : Conn) : Prop where
  inv : Inv c
  compacted : Compacted c

section
variable {c c' : Conn} {k : Key}

theorem compacted_steady (hc : Compacted c) (h : Steady c c') : Compacted c' := ⟨h.input hc.1, h.output hc.2⟩

theorem returning_ok {f : Key → Conn → Conn × SessionState} {ret : Nat} (h : returning f k c = .ok (c', ret)) :
    c' = (f k c).1 ∧ ret = (f k c).2.toNat := by
  simp only [returning, Except.ok.injEq, Prod.mk.injEq] at h
  exact ⟨h.1.symm, h.2.symm⟩

theorem mayFault_ok {f : Key → Conn → Except Fault (Conn × SessionState)} {ret : Nat}
    (h : mayFault f k c = .ok (c', ret)) : ∃ st, f k c = .ok (c', st) ∧ ret = st.toNat := by
  unfold mayFault at h
  cases hr : f k c with
  | error e => rw [hr] at h; cases h
  | ok r =>
    rw [hr] at h
    simp only [Except.map, Except.ok.injEq, Prod.mk.injEq] at h
    exact ⟨r.2, by rw [← h.1], h.2.symm⟩

theorem callback_copyWrite {g : Key → Conn → Except Fault (Conn × Nat)} {ret : Nat}
    (hg : onReady .write (entry sessionStateDef SessionState.copy.toNat) = some g) (h : g k c = .ok (c', ret)) :
    ∃ st, copyWrite k c = .ok (c', st) := by
  cases hg
  obtain ⟨st, hst, -⟩ := mayFault_ok h
  exact ⟨st, hst⟩

/-- Every callback but `copy_write` is steady. -/
theorem callback_steady {r : Readiness} {i : Nat} {g : Key → Conn → Except Fault (Conn × Nat)} {ret : Nat}
    (hno : ¬ (i = SessionState.copy.toNat ∧ r = .write)) (hg : onReady r (entry sessionStateDef i) = some g)
    (h : g k c = .ok (c', ret)) : Steady c c' := by
  match r, i with
  | .read, 0 => cases hg; exact (returning_ok h).1 ▸ helloRead_steady k c
  | .write, 1 => cases hg; exact (returning_ok h).1 ▸ helloWrite_steady k c
  | .read, 2 => cases hg; exact (returning_ok h).1 ▸ requestRead_steady k c
  | .write, 3 => cases hg; exact (returning_ok h).1 ▸ requestConnecting_steady k c
  | .write, 4 => cases hg; exact (returning_ok h).1 ▸ requestWrite_steady k c
  | .read, 5 =>
    cases hg
    obtain ⟨st, hst, -⟩ := mayFault_ok h
    exact copyRead_steady hst
  | .write, 5 => exact absurd ⟨rfl, rfl⟩ hno
  | .write, 0 | .read, 1 | .write, 2 | .read, 3 | .read, 4 => cases hg
  | .read, 6 | .write, 6 | .read, 7 | .write, 7 => cases hg
  | .read, i + 8 | .write, i + 8 => cases hg

theorem callback_compacted {r : Readiness} {i : Nat} {g : Key → Conn → Except Fault (Conn × Nat)} {ret : Nat}
    (hg : onReady r (entry sessionStateDef i) = some g) (h : g k c = .ok (c', ret)) (hc : Compacted c) :
    Compacted c' := by
  by_cases hwrite : i = SessionState.copy.toNat ∧ r = .write
  · obtain ⟨rfl, rfl⟩ := hwrite
    obtain ⟨st, hst⟩ := callback_copyWrite hg h
    have hstats : Compacted { c with stats := relayStats k c } := hc
    exact compacted_steady hstats (copyWrite_steady hst)
  · exact compacted_steady hc (callback_steady hwrite hg h)

theorem arrive_compacted (i : Nat) (k : Key) (hc : Compacted c) : Compacted (arrive sessionStateDef i k c) := by
  match i with
  | 0 | 1 | 2 | 3 | 4 | 5 | 6 | 7 => exact hc
  | i + 8 => exact hc

theorem closeSession_buffers (c : Conn) :
    (closeSession c).input = c.input ∧ (closeSession c).output = c.output ∧ (closeSession c).sMachine = c.sMachine ∧
      (closeSession c).clientCopy = c.clientCopy ∧ (closeSession c).serverCopy = c.serverCopy := by
  unfold closeSession
  simp only
  split <;> split <;> exact ⟨rfl, rfl, rfl, rfl, rfl⟩

/-- What the machine, its callback and `close_session` keep, an event keeps. -/
theorem dispatch_rel {R : Conn → Conn → Prop} {e : Event} (hrefl : ∀ c, R c c)
    (htrans : ∀ {c d x}, R c d → R d x → R c x) (harrive : ∀ i c, R c (arrive sessionStateDef i e.key c))
    (hcall : ∀ g x y ret, onReady e.ready (entry sessionStateDef (stmState c.sMachine)) = some g →
      g e.key x = .ok (y, ret) → R x y)
    (hmachine : ∀ (x : Conn) m, R x { x with sMachine := m }) (hclose : ∀ x, R x (closeSession x))
    (h : dispatch c e = .ok c') : R c c' := by
  rw [dispatch_eq] at h
  split at h
  · split at h
    · cases h
    · cases hr : sessionHandler c e with
      | error f => rw [hr] at h; cases h
      | ok q =>
        obtain ⟨m, d, ret⟩ := q
        have hd : R c d := stmHandler_rel hrefl htrans harrive
          (fun i x => (depart_session i e.key x).symm ▸ hrefl x) hcall hr
        have hset : R c { d with sMachine := m } := htrans hd (hmachine d m)
        rw [hr] at h
        simp only [afterHandler, Except.ok.injEq] at h
        subst h
        split
        · exact htrans hset (hclose _)
        · exact hset
  · rw [Except.ok.injEq] at h
    exact h ▸ hrefl c

theorem dispatch_compacted {e : Event} (hc : Compacted c) (h : dispatch c e = .ok c') : Compacted c' := by
  have hrel :=
    dispatch_rel (R := fun c c' : Conn => Compacted c → Compacted c') (fun _ hc => hc) (fun h h' hc => h' (h hc))
    (fun i c hc => arrive_compacted i e.key hc) (fun g c c' ret hg hr hc => callback_compacted hg hr hc)
    (fun _ _ hc => hc) (fun c hc => ?_) h
  · exact hrel hc
  · obtain ⟨h1, h2, -⟩ := closeSession_buffers c
    exact ⟨by rw [h1]; exact hc.1, by rw [h2]; exact hc.2⟩

theorem step_sound (c : Conn) (s : Step) (c' : Conn) (h : Sound c) (hs : step c s = .ok c') : Sound c' := by
  refine ⟨step_inv c s c' h.inv hs, ?_⟩
  cases s with
  | event e => exact dispatch_compacted h.compacted hs
  | other x a =>
    simp only [step, Except.ok.injEq] at hs
    subst hs
    split
    · exact h.compacted
    · exact h.compacted

theorem accepted_sound (a : Accepted) : Sound a.conn :=
  ⟨accepted_inv a, rewound_init _, rewound_init _⟩

theorem run_sound (a : Accepted) {es : List Step} (hr : run step a.conn es = .ok c) : Sound c :=
  run_invariant step_sound (accepted_sound a) hr

end

/-! ## States and events -/

/-- `P` holds whenever the session is open and in the state `st`. -/
def AtState (st : SessionState) (P : Conn → Prop) (c : Conn) : Prop :=
  c.freed = false → stmState c.sMachine = st.toNat → P c

/-- A condition on the events that an open session is called for. -/
def OnEvent (C : Conn → Event → Prop) (c : Conn) : Step → Prop
  | .event e => c.freed = false → Selects c e → C c e
  | .other _ _ => True

section
variable {c : Conn} {fd : Nat} {st st' : SessionState} {P Q : Conn → Prop} {C : Conn → Event → Prop} {e : Event}
    {k : Key}

theorem atState_freed (h : c.freed = true) : AtState st P c := fun hf => by rw [h] at hf; cases hf

theorem atState_inState (h : InState c st') (hf : c.freed = false) : AtState st P c ↔ (st' = st → P c) := by
  unfold AtState
  rw [stmState_inState h]
  exact ⟨fun hp he => hp hf (by rw [he]), fun hp _ he => hp (toNat_inj he)⟩

theorem atState_other (h : InState c st') {x : Int} {a : Action}
    (hkeep : st' = st → c.freed = false → P c → P { c with toProcess := c.toProcess.act x a })
    (hp : AtState st P c) :
    AtState st P { c with toProcess := c.toProcess.act x a } :=
  fun hf hst => hkeep (toNat_inj ((stmState_inState h).symm.trans hst)) hf (hp hf hst)

theorem atState_elsewhere (h : InState c st') (hne : st' ≠ st) : AtState st P c :=
  fun _ he => absurd (toNat_inj ((stmState_inState h).symm.trans he)) hne

theorem callbackStep_forall {c₁ : Conn} (h : callbackStep c st e = .ok c₁) :
    (∀ c', callbackStep c st e = .ok c' → Q c') ↔ Q c₁ := by
  rw [h]
  simp only [Except.ok.injEq, forall_eq']

theorem settle_elsewhere {r : Conn × SessionState} (hst : st ≠ .error ∧ st ≠ .done) (hg : Goes k fd st r)
    (hne : r.2 ≠ st') : AtState st' P (settle k st r.1 r.2.toNat) := by
  rcases settle_goes hst hg with hf | ⟨hs, -⟩
  · exact atState_freed hf
  · exact atState_elsewhere hs hne

theorem callbackStep_elsewhere {c' : Conn} (hp : Phase c fd st) (hs : Selects c e) (hno : st' ∉ nextStates st)
    (h : callbackStep c st e = .ok c') : AtState st' P c' := by
  rcases phase_leads hp hs with ⟨g, r, hh, hg, hgo, hr⟩ | hnone | ⟨rfl, -, hready, ha⟩
  · rw [callbackStep_ok hh hg hgo, Except.ok.injEq] at h
    exact h ▸ settle_elsewhere (phase_not_final hp) hgo fun he => hno (he ▸ hr)
  · rw [callbackStep_none hnone] at h; cases h
  · rw [callbackStep_authRead (by rw [hready]; rfl) ha] at h; cases h

theorem settle_atState {r : Conn × SessionState} (hg : Goes k fd st r) (hr : r.2 ≠ .error ∧ r.2 ≠ .done) :
    AtState r.2 P (settle k st r.1 r.2.toNat) ↔ P (settle k st r.1 r.2.toNat) := by
  have hfinal : ¬ (r.2.toNat = SessionState.error.toNat ∨ r.2.toNat = SessionState.done.toNat) := by
    rintro (h | h)
    · exact hr.1 (toNat_inj h)
    · exact hr.2 (toNat_inj h)
  have hinv : InState (settle k st r.1 r.2.toNat) r.2 ∧ (settle k st r.1 r.2.toNat).freed = false := by
    rcases hg with ⟨h | h, -⟩ | hp
    · exact absurd h hr.1
    · exact absurd h hr.2
    · obtain ⟨i, o, live⟩ := phase_live hp
      simp only [settle, hfinal, ite_false]
      exact ⟨Or.inl rfl, live.alive⟩
  rw [atState_inState hinv.1 hinv.2]
  exact ⟨fun h => h rfl, fun h _ => h⟩

/-- An event that an open session is not called for changes nothing. -/
theorem dispatch_unselected {c' : Conn} (hno : ¬ (c.freed = false ∧ Selects c e)) (h : dispatch c e = .ok c') :
    c' = c := by
  rw [dispatch_eq] at h
  by_cases hsel : Selects c e
  · have hf : c.freed = true := by
      rw [← Bool.not_eq_false]; exact fun hf => hno ⟨hf, hsel⟩
    rw [if_pos hsel, if_pos hf] at h; cases h
  · rw [if_neg hsel, Except.ok.injEq] at h
    exact h.symm

theorem along_onEvent (h : ∀ c e, C c e) (c : Conn) (es : List Step) : Along step (OnEvent C) c es := by
  induction es generalizing c with
  | nil => trivial
  | cons s es ih =>
    refine ⟨?_, fun c' _ => ih c'⟩
    cases s with
    | event e => exact fun _ _ => h c e
    | other => trivial

/-- A property of every state of a run is a condition on the events if it is one
in each phase, and the rest of the process cannot change it. -/
theorem always_onEvent
    (hfreed : ∀ c, c.freed = true → Q c)
    (hother : ∀ c fd st x a, InState c st → Phase c fd st → ¬ c.Owns x → a.data ≠ some (.session c.self) → Q c →
      Q { c with toProcess := c.toProcess.act x a })
    (hevent : ∀ c fd st e, Sound c → InState c st → Phase c fd st → c.freed = false → Selects c e → Q c →
      ((∀ c', callbackStep c st e = .ok c' → Q c') ↔ C c e))
    (a : Accepted) (es : List Step) (hq : Q a.conn) :
    Always step Q a.conn es ↔ Along step (OnEvent C) a.conn es := by
  refine always_iff (J := Sound) step_sound (fun c s hs hq => ?_) es (accepted_sound a) hq
  cases s with
  | other x b =>
    refine ⟨fun _ => trivial, fun _ c' hc' => ?_⟩
    simp only [step, Except.ok.injEq] at hc'
    subst hc'
    split
    · -- an action on one of its own descriptors is no step of the rest of the process
      exact hq
    · rename_i hno
      rw [not_or] at hno
      rcases hs.inv with hf | ⟨fd, st, hst, hp⟩
      · exact hfreed _ hf
      · exact hother c fd st x b hst hp hno.1 hno.2 hq
  | event e =>
    by_cases hlive : c.freed = false ∧ Selects c e
    · obtain ⟨hf, hsel⟩ := hlive
      rcases hs.inv with h | ⟨fd, st, hst, hp⟩
      · rw [hf] at h; cases h
      · rw [step, dispatch_inState hst hf, if_pos hsel, hevent c fd st e hs hst hp hf hsel hq]
        exact ⟨fun h _ _ => h, fun h => h hf hsel⟩
    · refine iff_of_true (fun c' hc' => ?_) fun hf hsel => absurd ⟨hf, hsel⟩ hlive
      exact dispatch_unselected hlive hc' ▸ hq

end

end SocksProxy
