import SocksProxy.DuplexSound

/-!
# The interests of the relay

After every event in COPY the two descriptors have the interests that
`check_interest` defines. Nothing calls it when the state is entered: the
descriptors keep the interests that REQUEST_WRITE has left them.
-/

namespace SocksProxy

open Lib

/-- The interest of the descriptor of a side. -/
def Conn.interest (c : Conn) (s : Side) : FdInterest := (c.sel.fds (c.copyFd s).toNat).interest

/-- Both interests are those of `check_interest`; so an open direction waits for
its source or for its sink, and for its sink if there is something to deliver. -/
structure Interested (c : Conn) : Prop where
  exact : ∀ s, c.interest s = copyInterest c s
  awaited : ∀ s, (c.duplex s).read = true → (c.duplex s.other).write = true →
    (c.interest s).read = true ∨ (c.interest s.other).write = true
  delivered : ∀ s, (c.duplex s).write = true → (c.writeBuff s).unread ≠ [] → (c.interest s).write = true

/-- The reply is the last of what the client has sent so far, and the origin is
waited for. -/
def EntersIdle (c : Conn) (e : Event) : Prop :=
  SendsLast .requestWrite c e → c.input.unread = [] ∧ c.interest .server = opRead

section
variable {c d : Conn} {fd m : Nat} {i j : FdInterest} {st : SessionState} {e : Event}

theorem interest_live (live : Live c fd i (some (m, j))) : c.interest .client = i ∧ c.interest .server = j := by
  unfold Conn.interest
  rw [copyFd_client live, copyFd_server live, Int.toNat_natCast, Int.toNat_natCast, live.entries.client,
    (live.entries.origin m j rfl).2.2]
  exact ⟨rfl, rfl⟩

theorem interest_other (live : Live c fd i (some (m, j))) {x : Int} {a : Action} (hx : ¬ c.Owns x)
    (ha : a.data ≠ some (.session c.self)) (s : Side) :
    ({ c with toProcess := c.toProcess.act x a } : Conn).interest s = c.interest s := by
  obtain ⟨h1, h2⟩ := interest_live live
  obtain ⟨h3, h4⟩ := interest_live (live_other live hx ha)
  cases s with
  | client => rw [h1, h3]
  | server => rw [h2, h4]

/-- A buffer of the relay can be filled or has bytes. -/
theorem readBuff_usable (live : Live c fd i (some (m, j))) (hc : Compacted c) (s : Side) :
    bufferCanWrite (c.readBuff s) = true ∨ bufferCanRead (c.readBuff s) = true := by
  by_cases hu : (c.readBuff s).unread = []
  · left
    cases s with
    | client => exact canWrite_of_rewound hc.1 hu (live.limitInput ▸ (by decide : 0 < inputBufferSize))
    | server => exact canWrite_of_rewound hc.2 hu (live.limitOutput ▸ (by decide : 0 < outputBufferSize))
  · exact Or.inr ((canRead_iff _).mpr hu)

theorem interested_of_exact (live : Live c fd i (some (m, j))) (hc : Compacted c)
    (h : ∀ s, c.interest s = copyInterest c s) : Interested c := by
  refine ⟨h, fun s hread hwrite => ?_, fun s hwrite hu => ?_⟩
  · rw [h, h]
    rcases readBuff_usable live hc s with hb | hb
    · left
      simp only [copyInterest, hread, hb, Bool.and_self]
    · right
      simp only [copyInterest, Conn.writeBuff, other_other, hwrite, hb, Bool.and_self]
  · rw [h]
    simp only [copyInterest, hwrite, (canRead_iff _).mpr hu, Bool.and_self]

theorem copyInterest_entered (hdup : ∀ s, c.duplex s = opReadWrite) (hout : c.output.unread = []) :
    copyInterest c .client = ⟨bufferCanWrite c.input, false⟩ ∧
      copyInterest c .server = ⟨bufferCanWrite c.output, bufferCanRead c.input⟩ := by
  have hempty : bufferCanRead c.output = false := (canRead_eq_false _).mpr hout
  refine ⟨?_, ?_⟩
  · simp only [copyInterest, hdup, opReadWrite, Conn.readBuff, Conn.writeBuff, Side.other, hempty, Bool.true_and,
      Bool.and_false]
  · simp only [copyInterest, hdup, opReadWrite, Conn.readBuff, Conn.writeBuff, Side.other, Bool.true_and]

/-- COPY is entered with the interests of `check_interest` if the client has sent
nothing yet and the origin is waited for. -/
theorem interested_entered (hj : j = opNoop ∨ j = opRead) (live : Live c fd opRead (some (m, j))) (hc : Compacted c)
    (hdup : ∀ s, c.duplex s = opReadWrite) (hout : c.output.unread = []) :
    Interested c ↔ c.input.unread = [] ∧ j = opRead := by
  obtain ⟨hclient, hserver⟩ := copyInterest_entered hdup hout
  obtain ⟨hi, hs⟩ := interest_live live
  have hwrite : bufferCanWrite c.output = true := canWrite_of_rewound hc.2 hout (by rw [live.limitOutput]; decide)
  constructor
  · intro h
    have h1 := h.exact .server
    rw [hs, hserver, hwrite] at h1
    have hread : bufferCanRead c.input = false := by
      rcases hj with rfl | rfl
      · exact (congrArg FdInterest.write h1).symm
      · exact (congrArg FdInterest.write h1).symm
    refine ⟨(canRead_eq_false _).mp hread, ?_⟩
    rcases hj with rfl | rfl
    · exact absurd (congrArg FdInterest.read h1) Bool.false_ne_true
    · rfl
  · rintro ⟨hin, rfl⟩
    refine interested_of_exact live hc fun s => ?_
    cases s with
    | client =>
      rw [hi, hclient, canWrite_of_rewound hc.1 hin (by rw [live.limitInput]; decide)]
      rfl
    | server =>
      rw [hs, hserver, hwrite, (canRead_eq_false _).mpr hin]
      rfl

/-- Every event in COPY ends with both interests set. -/
theorem copy_interested {ms h q : List UInt8} (hst : InState c .copy) (live : Live c fd i (some (m, j)))
    (r : Copying c ms h q) (hc : Compacted c) (hs : Selects c e) :
    ∀ c', callbackStep c .copy e = .ok c' → AtState .copy Interested c' := by
  intro c' hc' hf' hat
  have hcompact : Compacted c' := by
    refine dispatch_compacted (e := e) hc ?_
    rw [dispatch_inState hst live.alive, if_pos hs]
    exact hc'
  obtain ⟨g, s, d, r', hh, -, hrel, hfin, hg, hgo, hr⟩ := copy_event live r hs
  rw [callbackStep_ok hh hg hgo, Except.ok.injEq] at hc'
  obtain ⟨sel, hend, hlive⟩ := copyFinish_live (hrel.live i j live) s
  obtain ⟨hfreed, -⟩ := settle_ended (k := e.key) hgo hr
  have hcopy : r'.2 = .copy := by
    refine hr.resolve_right fun hdone => ?_
    rw [← hc', hfreed.mpr hdone] at hf'
    cases hf'
  have hr' := Except.ok.inj (hfin.symm.trans hend)
  have hset : c' =
      { d with sel := sel, sMachine := { stmCreate with current := some SessionState.copy.toNat } } := by
    rw [← hc', hcopy, hr']
    rfl
  have hlive' := live_machine hlive { stmCreate with current := some SessionState.copy.toNat }
  rw [← hset] at hlive'
  refine interested_of_exact hlive' hcompact fun t => ?_
  obtain ⟨h1, h2⟩ := interest_live hlive'
  have hsame : copyInterest c' t = copyInterest d t := by
    rw [hset]
    cases t <;> rfl
  cases t with
  | client => rw [h1, hsame]
  | server => rw [h2, hsame]

theorem event_interested (h : Sound c) (hst : InState c st) (hp : Phase c fd st) (hs : Selects c e) :
    (∀ c', callbackStep c st e = .ok c' → AtState .copy Interested c') ↔ EntersIdle c e := by
  have haway : SessionState.copy ∉ nextStates st → ∀ c', callbackStep c st e = .ok c' →
      AtState .copy Interested c' :=
    fun hno _ => callbackStep_elsewhere hp hs hno
  have hidle : st ≠ .requestWrite → EntersIdle c e := fun hne hlast => absurd (inState_of_current hst hlast.1) hne
  cases hp with
  | helloRead | helloWrite | requestRead | connecting | stuck =>
    exact iff_of_true (haway (by decide)) (hidle (by decide))
  | unsupported ms h' q live g request =>
    obtain ⟨-, hr⟩ := selects_opRead live hs
    refine iff_of_true ?_ fun hlast => absurd (hr.symm.trans hlast.2.1) (by decide)
    rw [callbackStep_none (by rw [hr]; rfl)]
    simp
  | replying ms h' q m j hj live r =>
    rw [entersCopy_iff hst hj live r hs]
    refine forall_congr' fun hlast => ?_
    have hk := reply_client hj live hs hlast.2.1
    obtain ⟨hlive, hin, hout, -, -, -, hdup⟩ := copyEntry_live live hk hlast.2.2
    have hcompact : Compacted (copyEntry e.key c) := by
      have hstep := requestWrite_steady e.key c
      exact ⟨hstep.input h.compacted.1, hstep.output h.compacted.2⟩
    rw [interested_entered hj hlive hcompact hdup hout, hin, (interest_live live).2]
  | copying ms h' q i m j live r =>
    exact iff_of_true (copy_interested hst live r h.compacted hs) (hidle (by decide))

theorem interested_other (hst : InState c st) (hp : Phase c fd st) {x : Int} {a : Action} (hx : ¬ c.Owns x)
    (ha : a.data ≠ some (.session c.self)) (hq : AtState .copy Interested c) :
    AtState .copy Interested { c with toProcess := c.toProcess.act x a } := by
  refine atState_other hst (fun hc _ hq => ?_) hq
  subst hc
  cases hp with
  | copying ms h q i m j live =>
    have hsame := interest_other live hx ha
    refine ⟨fun s => ?_, fun s hr hw => ?_, fun s hw hu => ?_⟩
    · rw [hsame]; exact hq.exact s
    · rw [hsame, hsame]; exact hq.awaited s hr hw
    · rw [hsame]; exact hq.delivered s hw hu

/-- In a run from a new connection, the session has the interests of
`check_interest` in every state in COPY exactly when no step sends the last byte
of a reply while bytes of the client wait in the input buffer, or the origin's
descriptor has no interest. -/
theorem interested_iff (a : Accepted) (es : List Step) :
    Always step (AtState .copy Interested) a.conn es ↔ Along step (OnEvent EntersIdle) a.conn es :=
  always_onEvent (fun _ => atState_freed) (fun _ _ _ _ _ hst hp => interested_other hst hp)
    (fun _ _ _ _ h hst hp _ hs _ => event_interested h hst hp hs) a es
    fun _ h => absurd (show stmState stmCreate = SessionState.copy.toNat from h) (by decide)

end

/-- A client that sends its first byte with the request. -/
def eagerEvents : List Step :=
  [reads 5 [0x05, 1, 0x00] .failed, writes 5 2 .failed,
    reads 5 [0x05, 0x01, 0x00, 0x01, 127, 0, 0, 1, 0, 80, 65] (connectAnswers 0),
    .event ⟨8, .write, connectAnswers 0⟩, writes 5 10 .failed]

theorem eager_not_interested : ¬ Always step (AtState .copy Interested) firstAccepted.conn eagerEvents := by
  intro h
  have hr : run step firstAccepted.conn eagerEvents = .ok (final step firstAccepted.conn eagerEvents) :=
    run_final (by decide +kernel)
  have hwrite := (always_run h hr (by decide +kernel) (by decide +kernel)).delivered .server (by decide +kernel)
    (by decide +kernel)
  exact absurd hwrite (by decide +kernel)

end SocksProxy
