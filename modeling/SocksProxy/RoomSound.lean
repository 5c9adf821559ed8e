import SocksProxy.InputSound

/-!
# Room to receive

`recv` gives nothing at the end of the stream, and into a buffer without room.
`roomy_iff` says in which runs a descriptor that waits for its peer always has
room in the buffer it fills, so that only the peer ends its stream.
-/

namespace SocksProxy

open Lib

/-- The buffer has room, and so nothing is received only at the end of the stream. -/
structure CanReceive (b : Buffer) : Prop where
  room : bufferCanWrite b = true
  ended : ∀ l b', recvInto b (.data l) = some ([], b') → l = []

theorem canReceive_iff {b : Buffer} : CanReceive b ↔ bufferCanWrite b = true := by
  refine ⟨fun h => h.room, fun h => ⟨h, fun l b' hr => ?_⟩⟩
  simp only [recvInto, Option.some.injEq, Prod.mk.injEq] at hr
  have hroom := (canWrite_iff b).mp h
  rcases List.take_eq_nil_iff.mp hr.1 with h0 | hl
  · omega
  · exact hl

/-- The buffer that the read callback of the state receives into. -/
def recvBuffer (k : Key) (c : Conn) : Option Buffer :=
  let st := stmState c.sMachine
  if st = SessionState.helloRead.toNat ∨ st = SessionState.requestRead.toNat then some c.input
  else if st = SessionState.copy.toNat then some (c.readBuff (copyPtr k c))
  else none

/-- Every descriptor of the session that waits to be read has room for what it gets. -/
def Roomy (c : Conn) : Prop :=
  c.freed = false → ∀ e, Selects c e → e.ready = .read → ∀ b, recvBuffer e.key c = some b → CanReceive b

def prawtosRecvBuffer (c : PrawtosConn) : Option Buffer :=
  let st := stmState c.stm
  if st = PrawtosState.authRead.toNat ∨ st = PrawtosState.cmdRead.toNat then some c.readBuffer else none

def PrawtosRoomy (c : PrawtosConn) : Prop :=
  c.freed = false → ∀ e, PrawtosSelects c e → e.ready = .read → ∀ b, prawtosRecvBuffer c = some b → CanReceive b

/-- Each side of the relay that waits to be read has room. -/
def RelayRoomy (c : Conn) : Prop := ∀ s, (c.interest s).read = true → CanReceive (c.readBuff s)

/-- There is room in the input buffer when the last byte of a reply is sent. -/
def EntersRoomy (c : Conn) (e : Event) : Prop := SendsLast .requestWrite c e → bufferCanWrite c.input = true

/-- There is room in the input buffer when an answer of the session has been
sent and the client is waited for again. -/
def LeavesRoom (c : Conn) (e : Event) : Prop := HandsOver (fun b => bufferCanWrite b = true) c e ∧ EntersRoomy c e

/-! ## Sessions -/

section
variable {c c' : Conn} {fd m : Nat} {i j : FdInterest} {o : Option (Nat × FdInterest)} {st : SessionState}
  {e : Event}

theorem recvBuffer_copy (h : InState c .copy) (k : Key) : recvBuffer k c = some (c.readBuff (copyPtr k c)) := by
  unfold recvBuffer
  rw [stmState_inState h]
  rfl

theorem has_read {i : FdInterest} : i.has .read = i.read := rfl

/-- A descriptor that waits to be read is one of the relay's sides. -/
theorem relayRoomy_iff (hst : InState c .copy) (live : Live c fd i (some (m, j))) : Roomy c ↔ RelayRoomy c := by
  obtain ⟨hi, hj⟩ := interest_live live
  constructor
  · intro h s hread
    obtain ⟨n, hn, hs⟩ : ∃ n : Nat, c.copyFd s = n ∧ Selects c ⟨n, .read, .failed⟩ := by
      cases s with
      | client => exact ⟨fd, live.clientFd, (selects_client live rfl).mpr (hi ▸ hread)⟩
      | server => exact ⟨m, live.serverFd m j rfl, (selects_origin live rfl).mpr (hj ▸ hread)⟩
    refine h live.alive ⟨n, .read, .failed⟩ hs rfl _ ?_
    rw [recvBuffer_copy hst, copyPtr_eq live hn.symm]
  · intro h _ e hs hr b hb
    obtain ⟨s, hk, hread⟩ : ∃ s, e.key.fd = c.copyFd s ∧ (c.interest s).read = true := by
      rcases selects_live live hs with ⟨he, hread⟩ | ⟨j', hj', hread⟩
      · refine ⟨.client, (key_client he).trans live.clientFd.symm, ?_⟩
        rw [hi, ← has_read, ← hr]; exact hread
      · obtain ⟨he, rfl⟩ := Prod.mk.inj (Option.some.inj hj')
        refine ⟨.server, (key_client he.symm).trans (live.serverFd m j rfl).symm, ?_⟩
        rw [hj, ← has_read, ← hr]; exact hread
    rw [recvBuffer_copy hst, copyPtr_eq live hk, Option.some.injEq] at hb
    exact hb ▸ h s hread

/-- The client is the only one waited for while a message is read. -/
theorem readRoomy_iff (hst : InState c st) (hread : st = .helloRead ∨ st = .requestRead)
    (live : Live c fd opRead none) :
    Roomy c ↔ CanReceive c.input := by
  have hb : ∀ k, recvBuffer k c = some c.input := by
    intro k
    unfold recvBuffer
    rw [stmState_inState hst]
    rcases hread with rfl | rfl <;> rfl
  constructor
  · intro h
    exact h live.alive ⟨fd, .read, .failed⟩ ((selects_client live rfl).mpr rfl) rfl _ (hb _)
  · intro h _ e _ _ b hb'
    rw [hb, Option.some.injEq] at hb'
    exact hb' ▸ h

theorem roomy_elsewhere (hst : InState c st) (hhello : st ≠ .helloRead) (hread : st ≠ .requestRead)
    (hcopy : st ≠ .copy) :
    Roomy c := by
  intro _ e _ _ b hb
  unfold recvBuffer at hb
  rw [stmState_inState hst] at hb
  have hne : ¬ (st.toNat = SessionState.helloRead.toNat ∨ st.toNat = SessionState.requestRead.toNat) :=
    not_or.mpr ⟨fun h => hhello (toNat_inj h), fun h => hread (toNat_inj h)⟩
  rw [if_neg hne, if_neg fun h => hcopy (toNat_inj h)] at hb
  cases hb

theorem roomy_sound (h : Sound c) : Roomy c ↔ AtRead CanReceive c ∧ AtState .copy RelayRoomy c := by
  by_cases hf : c.freed = false
  · obtain ⟨fd, st, hst, hp⟩ := h.inv.resolve_left (by rw [hf]; decide)
    rw [AtRead, atState_inState hst hf, atState_inState hst hf, atState_inState hst hf]
    cases hp with
    | helloRead live r => simp [readRoomy_iff hst (Or.inl rfl) live]
    | requestRead ms h u live g r => simp [readRoomy_iff hst (Or.inr rfl) live]
    | copying ms h q i m j live r => simp [relayRoomy_iff hst live]
    | helloWrite | connecting | stuck | unsupported | replying =>
      simp [roomy_elsewhere hst (by decide) (by decide) (by decide)]
  · rw [Bool.not_eq_false] at hf
    refine iff_of_true (fun h => ?_) ⟨⟨atState_freed hf, atState_freed hf⟩, atState_freed hf⟩
    rw [hf] at h; cases h

theorem relayRoomy_other (hst : InState c st) (hp : Phase c fd st) {x : Int} {a : Action} (hx : ¬ c.Owns x)
    (ha : a.data ≠ some (.session c.self)) (hq : AtState .copy RelayRoomy c) :
    AtState .copy RelayRoomy { c with toProcess := c.toProcess.act x a } := by
  refine atState_other hst (fun hc _ hq s hread => ?_) hq
  subst hc
  cases hp with
  | copying ms h q i m j live =>
    rw [interest_other live hx ha] at hread
    exact hq s hread

/-- The relay starts by waiting for the client, whatever its buffer holds. -/
theorem relayRoomy_entered (live : Live c fd opRead (some (m, j))) (hc : Compacted c)
    (hout : c.output.unread = []) : RelayRoomy c ↔ bufferCanWrite c.input = true := by
  obtain ⟨hclient, hserver⟩ := interest_live live
  have hwrite : bufferCanWrite c.output = true := canWrite_of_rewound hc.2 hout (by rw [live.limitOutput]; decide)
  constructor
  · intro h
    exact (h .client (by rw [hclient]; rfl)).room
  · intro h s _
    cases s with
    | client => exact canReceive_iff.mpr h
    | server => exact canReceive_iff.mpr hwrite

theorem event_relayRoomy (h : Sound c) (hst : InState c st) (hp : Phase c fd st) (hs : Selects c e) :
    (∀ c', callbackStep c st e = .ok c' → AtState .copy RelayRoomy c') ↔ EntersRoomy c e := by
  have haway : SessionState.copy ∉ nextStates st → ∀ c', callbackStep c st e = .ok c' →
      AtState .copy RelayRoomy c' :=
    fun hno _ => callbackStep_elsewhere hp hs hno
  have hroomy : st ≠ .requestWrite → EntersRoomy c e := fun hne hlast => absurd (inState_of_current hst hlast.1) hne
  cases hp with
  | helloRead | helloWrite | requestRead | connecting | stuck =>
    exact iff_of_true (haway (by decide)) (hroomy (by decide))
  | unsupported ms h' q live g request =>
    obtain ⟨-, hr⟩ := selects_opRead live hs
    refine iff_of_true ?_ fun hlast => absurd (hr.symm.trans hlast.2.1) (by decide)
    rw [callbackStep_none (by rw [hr]; rfl)]
    simp
  | replying ms h' q m j hj live r =>
    rw [entersCopy_iff hst hj live r hs]
    refine forall_congr' fun hlast => ?_
    have hk := reply_client hj live hs hlast.2.1
    obtain ⟨hlive, hin, hout, -⟩ := copyEntry_live live hk hlast.2.2
    have hcompact : Compacted (copyEntry e.key c) := by
      have hstep := requestWrite_steady e.key c
      exact ⟨hstep.input h.compacted.1, hstep.output h.compacted.2⟩
    rw [relayRoomy_entered hlive hcompact hout, hin]
  | copying ms h' q i m j live r =>
    refine iff_of_true (fun c' hc' hf' hat s hread => ?_) (hroomy (by decide))
    rw [(copy_interested hst live r h.compacted hs c' hc' hf' hat).exact, copyInterest] at hread
    exact canReceive_iff.mpr (Bool.and_eq_true_iff.mp hread).2

end

/-! ## Management connections -/

section
variable {c : PrawtosConn}

theorem prawtosRoomy_sound (h : PrawtosSound c) : PrawtosRoomy c ↔ PrawtosAtRead CanReceive c := by
  rcases h.inv with hended | ⟨fd, st, hst, hp⟩
  · refine iff_of_true (fun hf => ?_) ⟨prawtosAtState_freed hended.freed, prawtosAtState_freed hended.freed⟩
    exact absurd (hended.freed.symm.trans hf) (by decide)
  have hat := prawtosStmState hst
  have hlive : st = .authRead ∨ st = .cmdRead → PrawtosLive c fd opRead := by
    intro hread
    cases hp with
    | authRead live | cmdRead u live => exact live
    | authWrite | cmdWrite => exact absurd hread (by decide)
  constructor
  · intro hroom
    have hat' : ∀ st', (st' = .authRead ∨ st' = .cmdRead) →
        PrawtosAtState st' (fun c => CanReceive c.readBuffer) c := by
      intro st' hread hf hst'
      obtain rfl := prawtosState_inj (hat.symm.trans hst')
      refine hroom hf (prawtosReads fd []) ((prawtosSelects_live (hlive hread) _).mpr ⟨rfl, rfl⟩) rfl _ ?_
      unfold prawtosRecvBuffer
      rw [hat]
      rcases hread with rfl | rfl <;> rfl
    exact ⟨hat' _ (Or.inl rfl), hat' _ (Or.inr rfl)⟩
  · rintro ⟨h1, h2⟩ hf e _ _ b hb
    unfold prawtosRecvBuffer at hb
    simp only at hb
    split at hb
    · rename_i hread
      obtain rfl := Option.some.inj hb
      rcases hread with hread | hread
      · exact h1 hf hread
      · exact h2 hf hread
    · cases hb

end

/-! ## Runs -/

/-- In a run of a session from a new connection there is room for whatever is
waited for exactly when no step sends the last byte of the answer to the hello,
with a method other than 02, or of a reply, while the input buffer is full; in a
run of a management connection exactly when no step sends the last byte of an
answer after which a command is awaited, while the read buffer is full. -/
theorem roomy_iff (a : Accepted) (es : List Step) (pa : PrawtosAccepted) (pes : List PrawtosStep) :
    (Always step Roomy a.conn es ↔ Along step (OnEvent LeavesRoom) a.conn es) ∧
    (Always prawtosStep PrawtosRoomy pa.conn pes ↔
      Along prawtosStep (PrawtosOnEvent (PrawtosHandsOver fun b => bufferCanWrite b = true)) pa.conn pes) := by
  have hfree : ∀ b : Buffer, b.unread = [] → bufferCanWrite b = true → CanReceive b := fun _ _ => canReceive_iff.mpr
  constructor
  · have hrelay : Always step (AtState .copy RelayRoomy) a.conn es ↔ Along step (OnEvent EntersRoomy) a.conn es :=
      always_onEvent (fun _ => atState_freed) (fun _ _ _ _ _ hst hp => relayRoomy_other hst hp)
        (fun _ _ _ _ h hst hp _ hs _ => event_relayRoomy h hst hp hs) a es
        fun _ h => absurd (show stmState stmCreate = SessionState.copy.toNat from h) (by decide)
    have hsplit : Along step (OnEvent LeavesRoom) a.conn es ↔
        Along step (OnEvent (HandsOver CanReceive)) a.conn es ∧ Along step (OnEvent EntersRoomy) a.conn es := by
      rw [← along_and]
      refine along_iff (J := fun _ => True) (fun c s _ => ?_) (fun _ _ _ _ _ _ => trivial) es trivial
      cases s with
      | event e =>
        simp only [OnEvent, LeavesRoom, HandsOver, canReceive_iff, ← forall_and]
      | other => simp [OnEvent]
    rw [hsplit, ← readable_iff hfree, ← hrelay, ← always_and]
    exact always_congr step_sound (fun _ => roomy_sound) es (accepted_sound a)
  · have hcond : PrawtosHandsOver CanReceive = PrawtosHandsOver fun b => bufferCanWrite b = true := by
      funext c e
      simp only [PrawtosHandsOver, canReceive_iff]
    rw [← hcond, ← prawtosReadable_iff hfree]
    exact always_congr prawtosStep_sound (fun _ => prawtosRoomy_sound) pes (prawtosAccepted_sound pa)

/-- A client that fills the input buffer while it greets. -/
def floodEvents : List Step :=
  [reads 5 ([0x05, 1, 0x00] ++ List.replicate 97 0x05) .failed, writes 5 2 .failed]

theorem flood_not_roomy : ¬ Always step Roomy firstAccepted.conn floodEvents := by
  intro h
  have hr : run step firstAccepted.conn floodEvents = .ok (final step firstAccepted.conn floodEvents) :=
    run_final (by decide +kernel)
  have hroom := always_run h hr (by decide +kernel) ⟨5, .read, .failed⟩ (by decide +kernel) rfl
    (final step firstAccepted.conn floodEvents).input (by decide +kernel)
  exact absurd hroom.room (by decide +kernel)

end SocksProxy
