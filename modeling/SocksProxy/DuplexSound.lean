import SocksProxy.Handover
import SocksProxy.RelaySound

/-!
# The two directions of the relay

In COPY a side is open for reading when the other one is open for writing
(`Symmetric`), so that `duplex` being OP_NOOP on one side means that both
directions have ended.
-/

namespace SocksProxy

open Lib

/-- The client reads if the origin writes, and the other way round. -/
def Symmetric (c : Conn) : Prop := ∀ s, (c.duplex s).read = (c.duplex s.other).write

/-- Both directions have ended. -/
def AllClosed (c : Conn) : Prop := ∀ s, c.duplex s = opNoop

/-- What is closed in `c` is closed in `c'`. -/
def Narrows (c c' : Conn) : Prop :=
  ∀ s, ((c'.duplex s).read = true → (c.duplex s).read = true) ∧
    ((c'.duplex s).write = true → (c.duplex s).write = true)

/-- The duplex of a session in COPY. -/
def Relayable (c : Conn) : Prop := Symmetric c ∧ ¬ AllClosed c

section
variable {c c' d : Conn} {fd m : Nat} {i j : FdInterest} {s : Side} {k : Key} {e : Event} {st : SessionState}

theorem narrows_refl (c : Conn) : Narrows c c := fun _ => ⟨fun h => h, fun h => h⟩

theorem narrows_trans {c'' : Conn} (h : Narrows c c') (h' : Narrows c' c'') : Narrows c c'' :=
  fun s => ⟨fun hr => (h s).1 ((h' s).1 hr), fun hw => (h s).2 ((h' s).2 hw)⟩

theorem narrows_same (h : ∀ s, c'.duplex s = c.duplex s) :
    Narrows c c' := fun s => by rw [h s]; exact narrows_refl c s

theorem symmetric_same (h : ∀ s, c'.duplex s = c.duplex s) (hc : Symmetric c) : Symmetric c' := by
  intro s
  rw [h, h]
  exact hc s

theorem noop_iff (i : FdInterest) : i = opNoop ↔ i.read = false ∧ i.write = false := by
  obtain ⟨r, w⟩ := i
  exact FdInterest.mk.injEq _ _ _ _ ▸ Iff.rfl

/-- The mask of one side tells whether both directions have ended. -/
theorem allClosed_iff (hc : Symmetric c) (s : Side) : c.duplex s = opNoop ↔ AllClosed c := by
  refine ⟨fun h => ?_, fun h => h s⟩
  have hother : c.duplex s.other = opNoop := by
    have h1 := hc s
    have h2 := hc s.other
    rw [other_other] at h2
    rw [noop_iff] at h ⊢
    exact ⟨h2.trans h.2, h1.symm.trans h.1⟩
  intro t
  by_cases ht : t = s
  · rw [ht]; exact h
  · have : t = s.other := by cases t <;> cases s <;> first | rfl | exact absurd rfl ht
    rw [this]; exact hother

/-! ## What the callbacks do -/

theorem relaying_symmetric (h : Relaying c d fd m) (hc : Symmetric c) : Symmetric d := by
  rcases h.duplex with hd | ⟨s, hs⟩
  · exact symmetric_same hd hc
  · intro t
    have hcase : t = s ∨ t = s.other := by cases t <;> cases s <;> simp [Side.other]
    rcases hcase with rfl | rfl
    · rw [hs.source, hs.sink]
    · rw [other_other, hs.source, hs.sink]
      exact (hc s.other).trans (by rw [other_other])

theorem relaying_narrows (h : Relaying c d fd m) : Narrows c d := by
  rcases h.duplex with hd | ⟨s, hs⟩
  · exact narrows_same hd
  · intro t
    have hcase : t = s ∨ t = s.other := by cases t <;> cases s <;> simp [Side.other]
    rcases hcase with rfl | rfl
    · rw [hs.source]
      exact ⟨fun h => absurd h Bool.false_ne_true, fun h => h⟩
    · rw [hs.sink]
      exact ⟨fun h => h, fun h => absurd h Bool.false_ne_true⟩

/-- Both callbacks end with DONE exactly when both directions have ended. -/
theorem copyFinish_done {r : Conn × SessionState} (live : Live d fd i (some (m, j))) (hd : Symmetric d)
    (h : copyFinish d s = .ok r) : (∀ t, r.1.duplex t = d.duplex t) ∧ (r.2 = .done ↔ AllClosed r.1) := by
  obtain ⟨sel, hf, -⟩ := copyFinish_live live s
  have hr := Except.ok.inj (hf.symm.trans h)
  have hsame : ∀ t, r.1.duplex t = d.duplex t := by
    intro t
    rw [← hr]
    cases t <;> rfl
  refine ⟨hsame, ?_⟩
  have hall : AllClosed r.1 ↔ d.duplex s = opNoop := by
    rw [← allClosed_iff (symmetric_same hsame hd) s, hsame]
  rw [hall, ← hr]
  by_cases hn : d.duplex s = opNoop
  · simp [hn]
  · simp [hn]

/-- Copying and closing: what an event in COPY leads to. -/
theorem settle_duplex (k : Key) {r : Conn × SessionState} (hr : r.2 = .copy ∨ r.2 = .done) (t : Side) :
    (settle k .copy r.1 r.2.toNat).duplex t = r.1.duplex t := by
  rcases hr with hr | hr
  · rw [hr]; cases t <;> rfl
  · have hs : settle k .copy r.1 r.2.toNat =
        closeSession { r.1 with sMachine := { stmCreate with current := some r.2.toNat } } := by rw [hr]; rfl
    obtain ⟨-, -, -, h4, h5⟩ :=
      closeSession_buffers { r.1 with sMachine := { stmCreate with current := some r.2.toNat } }
    rw [hs]
    cases t with
    | client => exact h4
    | server => exact h5

theorem settle_ended {r : Conn × SessionState} (hgo : Goes k fd .copy r) (hr : r.2 = .copy ∨ r.2 = .done) :
    ((settle k .copy r.1 r.2.toNat).freed = true ↔ r.2 = .done) ∧
      ((settle k .copy r.1 r.2.toNat).freed = false → InState (settle k .copy r.1 r.2.toNat) .copy) := by
  rcases settle_goes (by decide) hgo with hfr | ⟨hin, hp⟩
  · refine ⟨iff_of_true hfr (hr.resolve_left fun hcopy => ?_), fun hf => ?_⟩
    · rcases hgo with ⟨h | h, -⟩ | hp
      · rw [hcopy] at h; cases h
      · rw [hcopy] at h; cases h
      · -- nothing frees a session that stays in COPY
        obtain ⟨i, o, live⟩ := phase_live hp
        rw [hcopy] at hfr live
        have halive : r.1.freed = false := live.alive
        exact absurd (hfr.symm.trans halive) (by decide)
    · rw [hfr] at hf; cases hf
  · rcases hr with hr | hr
    · rw [hr] at hin hp ⊢
      obtain ⟨i, o, live⟩ := phase_live hp
      exact ⟨iff_of_false (by rw [live.alive]; decide) (by decide), fun _ => hin⟩
    · rw [hr] at hp; cases hp

/-- An event in COPY closes the session exactly when it ends the second direction. -/
theorem copy_step (hst : InState c .copy) (hp : Phase c fd .copy) (hf : c.freed = false) (hc : Symmetric c)
    (hs : Selects c e) (hd : dispatch c e = .ok c') :
    Symmetric c' ∧ Narrows c c' ∧ (c'.freed = true ↔ AllClosed c') ∧ (c'.freed = false → InState c' .copy) := by
  cases hp with
  | copying ms h q i m j live r =>
    obtain ⟨g, s, d, r', hh, hk, hrel, hfin, hg, hgo, hr⟩ := copy_event live r hs
    rw [dispatch_inState hst hf, if_pos hs, callbackStep_ok hh hg hgo, Except.ok.injEq] at hd
    subst hd
    obtain ⟨hsame, hdone⟩ := copyFinish_done (hrel.live i j live) (relaying_symmetric hrel hc) hfin
    obtain ⟨hfreed, hin⟩ := settle_ended hgo hr
    have hdup : ∀ t, (settle e.key .copy r'.1 r'.2.toNat).duplex t = d.duplex t := fun t =>
      (settle_duplex e.key hr t).trans (hsame t)
    have hclosed : AllClosed (settle e.key .copy r'.1 r'.2.toNat) ↔ AllClosed r'.1 := by
      refine forall_congr' fun t => ?_
      rw [settle_duplex e.key hr t]
    refine ⟨symmetric_same hdup (relaying_symmetric hrel hc),
      narrows_trans (relaying_narrows hrel) (narrows_same hdup), ?_, hin⟩
    rw [hfreed, hclosed, hdone]

/-! ## Runs -/

theorem event_relayable (hst : InState c st) (hp : Phase c fd st) (hf : c.freed = false) (hs : Selects c e)
    (hq : AtState .copy Relayable c) : ∀ c', callbackStep c st e = .ok c' → AtState .copy Relayable c' := by
  have haway : SessionState.copy ∉ nextStates st → ∀ c', callbackStep c st e = .ok c' →
      AtState .copy Relayable c' :=
    fun hno _ => callbackStep_elsewhere hp hs hno
  have hstep : ∀ c', callbackStep c st e = .ok c' → dispatch c e = .ok c' := fun c' h => by
    rw [dispatch_inState hst hf, if_pos hs]; exact h
  cases hp with
  | helloRead | helloWrite | requestRead | connecting | stuck => exact haway (by decide)
  | unsupported ms h q live g request =>
    obtain ⟨-, hr⟩ := selects_opRead live hs
    intro c' hc'
    rw [callbackStep_none (by rw [hr]; rfl)] at hc'; cases hc'
  | replying ms h q m j hj live r =>
    refine (entersCopy_iff hst hj live r hs).mpr fun hlast => ?_
    obtain ⟨-, -, -, -, -, -, hdup⟩ := copyEntry_live live (reply_client hj live hs hlast.2.1) hlast.2.2
    refine ⟨fun s => by rw [hdup, hdup]; rfl, fun hall => ?_⟩
    have hno := hall .client
    rw [hdup] at hno
    exact absurd hno (by decide)
  | copying ms h q i m j live r =>
    intro c' hc' hf' _
    obtain ⟨hsym, -⟩ := (atState_inState hst hf).mp hq rfl
    obtain ⟨h1, -, h3, -⟩ := copy_step hst (.copying ms h q i m j live r) hf hsym hs (hstep c' hc')
    refine ⟨h1, fun hall => ?_⟩
    rw [h3.mpr hall] at hf'; cases hf'

theorem relayable_run (a : Accepted) {es : List Step} (hr : run step a.conn es = .ok c) :
    AtState .copy Relayable c := by
  have hother : ∀ c fd st x b, InState c st → Phase c fd st → ¬ c.Owns x → b.data ≠ some (.session c.self) →
      AtState .copy Relayable c → AtState .copy Relayable { c with toProcess := c.toProcess.act x b } :=
    fun _ _ _ _ _ _ _ _ _ h => h
  have hinit : AtState .copy Relayable a.conn := fun _ h =>
    absurd (show stmState stmCreate = SessionState.copy.toNat from h) (by decide)
  refine always_run ((always_onEvent (C := fun _ _ => True) (fun _ => atState_freed) hother ?_ a es hinit).mpr ?_)
    hr
  · exact fun _ _ _ _ _ hst hp hf hs hq => iff_of_true (event_relayable hst hp hf hs hq) trivial
  · exact along_onEvent (fun _ _ => trivial) _ _

/-- What a session that was in COPY as `c` can be later on. -/
structure Onward (c c' : Conn) : Prop where
  narrows : Narrows c c'
  copying : c'.freed = false → InState c' .copy ∧ Symmetric c'

theorem step_onward {u v : Conn} {s : Step} (hu : Sound u) (h : Onward c u) (hs : step u s = .ok v) :
    Onward c v := by
  cases s with
  | other x a =>
    simp only [step, Except.ok.injEq] at hs
    subst hs
    split
    · exact h
    · exact ⟨h.narrows, h.copying⟩
  | event e =>
    by_cases hsel : u.freed = false ∧ Selects u e
    · obtain ⟨hf, hsel⟩ := hsel
      obtain ⟨hst, hsym⟩ := h.copying hf
      obtain ⟨fd, -, hp⟩ := inv_phase hu.inv hf (inState_current hst (by decide))
      obtain ⟨h1, h2, -, h4⟩ := copy_step hst hp hf hsym hsel hs
      exact ⟨narrows_trans h.narrows h2, fun hf' => ⟨h4 hf', h1⟩⟩
    · exact dispatch_unselected hsel hs ▸ h

theorem run_onward {u v : Conn} {es : List Step} (hu : Sound u) (h : Onward c u) (hr : run step u es = .ok v) :
    Onward c v :=
  (run_invariant (I := fun u => Sound u ∧ Onward c u)
    (fun u s v h hs => ⟨step_sound u s v h.1 hs, step_onward h.1 h.2 hs⟩) ⟨hu, h⟩ hr).2

/-- In COPY the two directions are open or closed on both sides at once, what is
closed stays closed, both callbacks return DONE exactly when all has been closed,
and so does the session end. -/
theorem duplex_symmetric (a : Accepted) {es : List Step} (hr : run step a.conn es = .ok c) (hf : c.freed = false)
    (hcur : c.sMachine.current = some SessionState.copy.toNat) :
    Symmetric c ∧ ¬ AllClosed c ∧ (∀ es' c', run step c es' = .ok c' → Narrows c c') ∧
      (∀ k s r, k.fd = c.copyFd s → (copyRead k c = .ok r ∨ copyWrite k c = .ok r) →
        (r.2 = .done ↔ AllClosed r.1)) ∧
      ∀ e c', Selects c e → dispatch c e = .ok c' → (c'.freed = true ↔ AllClosed c') := by
  have hsound := run_sound a hr
  obtain ⟨fd, hst, hp⟩ : ∃ fd, InState c .copy ∧ Phase c fd .copy := inv_phase hsound.inv hf hcur
  obtain ⟨hsym, hopen⟩ := (atState_inState hst hf).mp (relayable_run a hr) rfl
  refine ⟨hsym, hopen, fun es' c' hr' => ?_, fun k s r hk hcall => ?_, fun e c' hs hd => ?_⟩
  · exact (run_onward hsound ⟨narrows_refl c, fun _ => ⟨hst, hsym⟩⟩ hr').narrows
  · cases hp with
    | copying ms h q i m j live =>
      have hend : ∀ d, Relaying c d fd m → copyFinish d s = .ok r → (r.2 = .done ↔ AllClosed r.1) := fun d hd h =>
        (copyFinish_done (hd.live i j live) (relaying_symmetric hd hsym) h).2
      rcases hcall with hcall | hcall
      · obtain ⟨d, hread, hd⟩ := copyRead_relaying live hk
        exact hend d hd (hread.symm.trans hcall)
      · obtain ⟨d, hwrite, hd⟩ := copyWrite_relaying live hk
        exact hend d hd (hwrite.symm.trans hcall)
  · exact (copy_step hst hp hf hsym hs hd).2.2.1

end

theorem duplex_symmetric_relay : Symmetric relayEnd ∧ ¬ AllClosed relayEnd ∧
    (∀ es' c', run step relayEnd es' = .ok c' → Narrows relayEnd c') ∧
      (∀ k s r, k.fd = relayEnd.copyFd s → (copyRead k relayEnd = .ok r ∨ copyWrite k relayEnd = .ok r) →
        (r.2 = .done ↔ AllClosed r.1)) ∧
          ∀ e c', Selects relayEnd e → dispatch relayEnd e = .ok c' → (c'.freed = true ↔ AllClosed c') := by
  have hr : run step firstAccepted.conn relayEvents = .ok relayEnd := run_final (by decide +kernel)
  exact duplex_symmetric firstAccepted hr (by decide +kernel) (by decide +kernel)

end SocksProxy
