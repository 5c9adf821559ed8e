import SocksProxy.Stm
import SocksProxy.Lib.Run
import SocksProxy.Lib.Brackets

/-!
# The calls of the state machine engine

Every arrival of a machine is closed by one departure before the next, along
the states it visits. The calls are read off a log that every callback of the
table writes (`logged`); the log does not disturb the machine (`logged_run`).
-/

namespace SocksProxy

open Lib

inductive StmEvent where
  | read
  | write
  | block
  deriving DecidableEq, Repr

inductive StmCall where
  | arrival (state : Nat)
  | departure (state : Nat)
  | callback (state ret : Nat)
  deriving DecidableEq, Repr

def StmCall.isTransition : StmCall → Bool
  | .arrival _ => true
  | .departure _ => true
  | .callback _ _ => false

def StmCall.value : StmCall → Option Nat
  | .callback _ ret => some ret
  | _ => none

section
variable {κ ι : Type}

def StmEvent.ready : StmEvent → StateDefinition κ ι → Option (ι → κ → Except Fault (κ × Nat))
  | .read => (·.onReadReady)
  | .write => (·.onWriteReady)
  | .block => (·.onBlockReady)

def StmEvent.missing : StmEvent → Fault
  | .read => .noReadHandler
  | .write => .noWriteHandler
  | .block => .noBlockHandler

/-- The handler of an event, without the value it returns. -/
def stmDispatch (states : List (StateDefinition κ ι)) (s : StateMachine × κ) (e : StmEvent × ι) :
    Except Fault (StateMachine × κ) :=
  match stmHandler states e.1.ready e.1.missing s.1 e.2 s.2 with
  | .ok (m, x, _) => .ok (m, x)
  | .error f => .error f

/-! ## The log -/

def logCallback (state : Nat) (f : ι → κ → Except Fault (κ × Nat)) (k : ι) (x : κ × List StmCall) :
    Except Fault ((κ × List StmCall) × Nat) :=
  match f k x.1 with
  | .ok (y, ret) => .ok ((y, x.2 ++ [.callback state ret]), ret)
  | .error e => .error e

/-- The same state, its callbacks noting that they were called. -/
def StateDefinition.logged (d : StateDefinition κ ι) : StateDefinition (κ × List StmCall) ι where
  state := d.state
  onArrival := d.onArrival.map fun f k x => (f k x.1, x.2 ++ [.arrival d.state])
  onDeparture := d.onDeparture.map fun f k x => (f k x.1, x.2 ++ [.departure d.state])
  onReadReady := d.onReadReady.map (logCallback d.state)
  onWriteReady := d.onWriteReady.map (logCallback d.state)
  onBlockReady := d.onBlockReady.map (logCallback d.state)

def logged (states : List (StateDefinition κ ι)) : List (StateDefinition (κ × List StmCall) ι) :=
  states.map StateDefinition.logged

/-- The arrivals and the departures among the calls. -/
def transitions (log : List StmCall) : List StmCall := log.filter StmCall.isTransition

/-- What the event callbacks returned. -/
def returned (log : List StmCall) : List Nat := log.filterMap StmCall.value

/-- The calls that find a callback in the table. -/
def present (states : List (StateDefinition κ ι)) : StmCall → Bool
  | .arrival s => (entry states s).onArrival.isSome
  | .departure s => (entry states s).onDeparture.isSome
  | .callback _ _ => true

/-- The states a machine has been in, each stay once. -/
def visited (initial : Nat) (log : List StmCall) : List Nat := stays (initial :: returned log)

/-- The arrival and the departure of one stay after the other. -/
def visitCalls (initial : Nat) (log : List StmCall) : List StmCall :=
  brackets .arrival .departure (visited initial log)

theorem transitions_append (log log' : List StmCall) :
    transitions (log ++ log') = transitions log ++ transitions log' := List.filter_append ..

theorem returned_append (log log' : List StmCall) : returned (log ++ log') = returned log ++ returned log' :=
  List.filterMap_append ..

/-! ## The machine on the logged table -/

variable {states : List (StateDefinition κ ι)}

theorem entry_logged (i : Nat) : entry (logged states) i = (entry states i).logged := by
  simp only [entry, logged, List.getD_eq_getElem?_getD, List.getElem?_map]
  cases states[i]? <;> rfl

theorem ready_logged (e : StmEvent) (d : StateDefinition κ ι) :
    e.ready d.logged = (e.ready d).map (logCallback d.state) := by
  cases e <;> rfl

theorem arrive_logged {i : Nat} (hi : (entry states i).state = i) (k : ι) (x : κ) (log : List StmCall) :
    arrive (logged states) i k (x, log) = (arrive states i k x, log ++ [.arrival i].filter (present states)) := by
  simp only [arrive, entry_logged, StateDefinition.logged]
  cases h : (entry states i).onArrival with
  | none => simp [present, h]
  | some f => simp [present, h, hi]

theorem depart_logged {i : Nat} (hi : (entry states i).state = i) (k : ι) (x : κ) (log : List StmCall) :
    depart (logged states) (some i) k (x, log) =
      (depart states (some i) k x, log ++ [.departure i].filter (present states)) := by
  simp only [depart, Option.bind_some, entry_logged, StateDefinition.logged]
  cases h : (entry states i).onDeparture with
  | none => simp [present, h]
  | some f => simp [present, h, hi]

theorem stmInit_some {initial maxState : Nat} {m : StateMachine} (h : stmInit states initial maxState = some m) :
    (∀ i ≤ maxState, (entry states i).state = i) ∧ m = ⟨initial, maxState, none⟩ ∧ initial < maxState := by
  unfold stmInit at h
  split at h
  · rename_i hc
    rw [Bool.and_eq_true, List.all_eq_true, decide_eq_true_eq] at hc
    refine ⟨?_, (Option.some.inj h).symm, hc.2⟩
    intro i hi
    have hs := hc.1 i (List.mem_range.mpr (Nat.lt_succ_of_le hi))
    simp only [entry, List.getD_eq_getElem?_getD]
    cases hx : states[i]? with
    | none => simp [hx] at hs
    | some d => simpa [hx] using hs
  · cases h

/-! ## What a run has called -/

/-- The calls of a machine that is in state `i` after it started in `initial`. -/
structure Bracketed (states : List (StateDefinition κ ι)) (initial i : Nat) (log : List StmCall) : Prop where
  state : (returned log).getLastD initial = i
  calls : transitions log = (visitCalls initial log).filter (present states)
  first : [.arrival initial].filter (present states) <+: log

theorem transitions_present (log : List StmCall) :
    transitions (log.filter (present states)) = (transitions log).filter (present states) := List.filter_comm ..

theorem returned_present {log : List StmCall} (h : ∀ c ∈ log, c.value = none) :
    returned (log.filter (present states)) = [] :=
  List.filterMap_eq_nil_iff.mpr fun c hc => h c (List.mem_filter.mp hc).1

theorem bracketed_first (initial : Nat) :
    Bracketed states initial initial ([.arrival initial].filter (present states)) := by
  have hr : returned ([.arrival initial].filter (present states)) = [] :=
    returned_present (by simp [StmCall.value])
  constructor
  · rw [hr]
    rfl
  · rw [transitions_present, visitCalls, visited, hr]
    rfl
  · exact List.prefix_rfl

/-- The calls of one event in state `i` whose callback returns `ret`. -/
def eventCalls (states : List (StateDefinition κ ι)) (i ret : Nat) : List StmCall :=
  .callback i ret :: if ret = i then [] else [.departure i, .arrival ret].filter (present states)

theorem returned_eventCalls (i ret : Nat) : returned (eventCalls states i ret) = [ret] := by
  have hr : returned ([.departure i, .arrival ret].filter (present states)) = [] :=
    returned_present (by simp [StmCall.value])
  unfold eventCalls
  split
  · rfl
  · exact congrArg (ret :: ·) hr

theorem bracketed_event {initial i : Nat} {log : List StmCall} (h : Bracketed states initial i log) (ret : Nat) :
    Bracketed states initial ret (log ++ eventCalls states i ret) := by
  have hr : returned (log ++ eventCalls states i ret) = returned log ++ [ret] := by
    rw [returned_append, returned_eventCalls]
  constructor
  · rw [hr, List.getLastD_concat]
  · rw [visitCalls, visited, hr, brackets_stays_snoc, h.state, transitions_append, h.calls, ← visited, ← visitCalls]
    by_cases hi : i = ret
    · subst hi
      simp [eventCalls, transitions, StmCall.isTransition]
    · rw [if_neg hi, List.filter_append]
      congr 1
      rw [eventCalls, if_neg (Ne.symm hi)]
      exact transitions_present [.departure i, .arrival ret]
  · exact h.first.trans (List.prefix_append _ _)

theorem stmHandler_logged {m : StateMachine} {i ret : Nat} {e : StmEvent} {k : ι} {x y : κ} (log : List StmCall)
    {f : ι → κ → Except Fault (κ × Nat)} (hcheck : ∀ i ≤ m.maxState, (entry states i).state = i)
    (hm : m.current = some i) (hi : i ≤ m.maxState) (hf : e.ready (entry states i) = some f)
    (hy : f k x = .ok (y, ret)) (hret : ret ≤ m.maxState) :
    ∃ z, stmHandler (logged states) e.ready e.missing m k (x, log) =
      .ok ({ m with current := some ret }, (z, log ++ eventCalls states i ret), ret) := by
  unfold stmHandler
  simp only [handleFirst_some hm, callback, stmState_some hm, entry_logged, ready_logged, hf, Option.map_some,
    logCallback, hy, hcheck i hi]
  by_cases hnew : ret = i
  · subst hnew
    have hsame : ({ m with current := some ret } : StateMachine) = m := by rw [← hm]
    refine ⟨y, ?_⟩
    simp only [jump_same hret hm, hsame, eventCalls, ite_true]
  · refine ⟨arrive states ret k (depart states (some i) k y), ?_⟩
    have hne : m.current ≠ some ret := by
      rw [hm]
      intro h
      exact hnew (Option.some.inj h).symm
    simp only [jump, if_neg (Nat.not_lt.mpr hret), if_pos hne]
    rw [hm, depart_logged (hcheck i hi), arrive_logged (hcheck ret hret)]
    simp [eventCalls, if_neg hnew, ← List.filter_append]

/-! ## The log changes nothing -/

theorem arrive_logged_fst (i : Nat) (k : ι) (x : κ × List StmCall) :
    (arrive (logged states) i k x).1 = arrive states i k x.1 := by
  simp only [arrive, entry_logged, StateDefinition.logged]
  cases (entry states i).onArrival <;> rfl

theorem depart_logged_fst (i : Option Nat) (k : ι) (x : κ × List StmCall) :
    (depart (logged states) i k x).1 = depart states i k x.1 := by
  cases i with
  | none => rfl
  | some i =>
    simp only [depart, Option.bind_some, entry_logged, StateDefinition.logged]
    cases (entry states i).onDeparture <;> rfl

theorem logged_dispatch (s : StateMachine × κ × List StmCall) (e : StmEvent × ι) :
    (stmDispatch (logged states) s e).map (fun s => (s.1, s.2.1)) = stmDispatch states (s.1, s.2.1) e := by
  obtain ⟨m, x, log⟩ := s
  have hfirst : (handleFirst (logged states) m e.2 (x, log)).1 = (handleFirst states m e.2 x).1 ∧
      (handleFirst (logged states) m e.2 (x, log)).2.1 = (handleFirst states m e.2 x).2 := by
    unfold handleFirst
    cases m.current with
    | none => exact ⟨rfl, arrive_logged_fst _ _ _⟩
    | some i => exact ⟨rfl, rfl⟩
  simp only [stmDispatch, stmHandler]
  generalize handleFirst (logged states) m e.2 (x, log) = r at hfirst
  obtain ⟨m₁, x₁, log₁⟩ := r
  generalize handleFirst states m e.2 x = q at hfirst
  obtain ⟨m₂, x₂⟩ := q
  obtain ⟨hm, hx⟩ := hfirst
  subst hm
  subst hx
  simp only [callback, entry_logged, ready_logged]
  cases e.1.ready (entry states (stmState m₁)) with
  | none => rfl
  | some f =>
    simp only [Option.map_some, logCallback]
    cases f e.2 x₁ with
    | error err => rfl
    | ok r =>
      simp only [jump]
      by_cases hpast : m₁.maxState < r.2
      · simp only [if_pos hpast]
        rfl
      · simp only [if_neg hpast]
        by_cases hnew : m₁.current ≠ some r.2
        · simp only [if_pos hnew, Except.map, arrive_logged_fst, depart_logged_fst]
        · simp only [if_neg hnew, Except.map]

theorem logged_run (m : StateMachine) (x : κ) (log : List StmCall) (events : List (StmEvent × ι)) :
    (run (stmDispatch (logged states)) (m, (x, log)) events).map (fun s => (s.1, s.2.1)) =
      run (stmDispatch states) (m, x) events :=
  run_map (fun s => (s.1, s.2.1)) logged_dispatch (m, (x, log)) events

/-! ## Whole histories -/

/-- The machine after `events`. -/
structure Followed (states : List (StateDefinition κ ι)) (initial maxState : Nat) (events : List (StmEvent × ι))
    (s : StateMachine × κ × List StmCall) : Prop where
  start : s.1.initial = initial
  bound : s.1.maxState = maxState
  count : (returned s.2.2).length = events.length
  calls : (events = [] ∧ s.1.current = none ∧ s.2.2 = []) ∨
    (events ≠ [] ∧ ∃ i ≤ maxState, s.1.current = some i ∧ Bracketed states initial i s.2.2)

section
variable {initial maxState : Nat} (hcheck : ∀ i ≤ maxState, (entry states i).state = i) (hle : initial ≤ maxState)
  (hcall : ∀ i ≤ maxState, ∀ (e : StmEvent) (f : ι → κ → Except Fault (κ × Nat)),
    e.ready (entry states i) = some f → ∀ k x, ∃ y ret, f k x = .ok (y, ret) ∧ ret ≤ maxState)

include hcheck hle hcall in
theorem followed_step {events : List (StmEvent × ι)} {s : StateMachine × κ × List StmCall} {e : StmEvent × ι}
    (h : Followed states initial maxState events s) (he : (e.1.ready (entry states (stmState s.1))).isSome) :
    ∃ t, stmDispatch (logged states) s e = .ok t ∧ Followed states initial maxState (events ++ [e]) t := by
  obtain ⟨m, x, log⟩ := s
  have hmi : m.initial = initial := h.start
  have hmm : m.maxState = maxState := h.bound
  -- Once in a state, the callback of the event decides where the machine goes.
  have hgo : ∀ (m : StateMachine) (x : κ) (log : List StmCall) (i : Nat),
      m.initial = initial → m.maxState = maxState → m.current = some i → i ≤ maxState →
      (e.1.ready (entry states i)).isSome → Bracketed states initial i log →
      (returned log).length = events.length → ∃ m' y ret,
        stmHandler (logged states) e.1.ready e.1.missing m e.2 (x, log) =
          .ok (m', (y, log ++ eventCalls states i ret), ret) ∧
        Followed states initial maxState (events ++ [e]) (m', (y, log ++ eventCalls states i ret)) := by
    intro m x log i hmi hmm hm hi hsome hb hcount
    obtain ⟨f, hf⟩ := Option.isSome_iff_exists.mp hsome
    obtain ⟨y, ret, hy, hret⟩ := hcall i hi e.1 f hf e.2 x
    rw [← hmm] at hcheck hi hret
    obtain ⟨z, hz⟩ := stmHandler_logged log hcheck hm hi hf hy hret
    refine ⟨_, z, ret, hz, hmi, hmm, ?_, Or.inr ⟨by simp, ret, hmm ▸ hret, rfl, bracketed_event hb ret⟩⟩
    rw [returned_append, returned_eventCalls, List.length_append, List.length_append, hcount]
    rfl
  rcases h.calls with ⟨hnil, hnone, hlog⟩ | ⟨-, i, hi, hsome, hb⟩
  · simp only at hnone hlog
    subst hlog
    have hstate : stmState m = initial := by rw [stmState, hnone, Option.getD_none, hmi]
    simp only [hstate] at he
    have hstay : (returned ([.arrival initial].filter (present states))).length = events.length := by
      rw [returned_present (by simp [StmCall.value]), hnil]
      rfl
    obtain ⟨m', y, ret, hz, hf⟩ :=
      hgo { m with current := some m.initial } (arrive states initial e.2 x) _ initial hmi hmm
      (by rw [hmi]) hle he (bracketed_first initial) hstay
    refine ⟨_, ?_, hf⟩
    rw [hmi] at hz
    simp only [stmDispatch]
    rw [stmHandler_first hnone, hmi, arrive_logged (hcheck initial hle), List.nil_append, hz]
  · have hst : stmState m = i := stmState_some hsome
    simp only [hst] at he
    obtain ⟨m', y, ret, hz, hf⟩ := hgo m x log i hmi hmm hsome hi he hb h.count
    exact ⟨_, by simp only [stmDispatch, hz], hf⟩

end

theorem bracketed_close {initial i : Nat} {log : List StmCall} (h : Bracketed states initial i log)
    {m : StateMachine} (hm : m.current = some i) (hi : (entry states i).state = i) (k : ι) (y : κ) :
    transitions (stmHandlerClose (logged states) m k (y, log)).2 =
      (visitCalls initial log ++ [StmCall.departure i]).filter (present states) := by
  simp only [stmHandlerClose, hm, depart_logged hi, transitions_append, transitions_present, h.calls,
    List.filter_append]
  rfl

/-- Every machine that `stm_init` accepts brackets the states it visits, and is in the one
that the last callback returned. -/
theorem stm_brackets {initial maxState : Nat} {m : StateMachine} (hinit : stmInit states initial maxState = some m)
    (hcall : ∀ i ≤ maxState, ∀ (e : StmEvent) (f : ι → κ → Except Fault (κ × Nat)),
      e.ready (entry states i) = some f → ∀ k x, ∃ y ret, f k x = .ok (y, ret) ∧ ret ≤ maxState)
    (x : κ) {events : List (StmEvent × ι)}
    (hexist : Along (stmDispatch states) (fun s e => (e.1.ready (entry states (stmState s.1))).isSome) (m, x)
      events) :
    ∃ m' y log, run (stmDispatch (logged states)) (m, (x, [])) events = .ok (m', (y, log)) ∧
      (returned log).length = events.length ∧ stmState m' = (returned log).getLastD initial ∧
      (events = [] → log = [] ∧ ∀ k, (stmHandlerClose (logged states) m' k (y, log)).2 = []) ∧
      (events ≠ [] → [.arrival initial].filter (present states) <+: log ∧
        transitions log = (visitCalls initial log).filter (present states) ∧
        ∀ k, transitions (stmHandlerClose (logged states) m' k (y, log)).2 =
          (visitCalls initial log ++ [StmCall.departure (stmState m')]).filter (present states)) := by
  obtain ⟨hcheck, hm, hlt⟩ := stmInit_some hinit
  subst hm
  -- the events are taken from the last, for each is judged by the run before it
  have hall : ∃ s, run (stmDispatch (logged states)) (⟨initial, maxState, none⟩, (x, [])) events = .ok s ∧
      Followed states initial maxState events s := by
    induction events using List.reverseRecOn with
    | nil => exact ⟨_, rfl, rfl, rfl, rfl, Or.inl ⟨rfl, rfl, rfl⟩⟩
    | append_singleton events e ih =>
      obtain ⟨halong, hlast⟩ := along_append hexist
      obtain ⟨s, hs, hf⟩ := ih halong
      have hplain := @logged_run κ ι states ⟨initial, maxState, none⟩ x [] events
      rw [hs] at hplain
      obtain ⟨t, ht, hft⟩ := followed_step hcheck (Nat.le_of_lt hlt) hcall hf (hlast _ hplain.symm).1
      exact ⟨t, run_snoc.mpr ⟨s, hs, ht⟩, hft⟩
  obtain ⟨⟨m', y, log⟩, hrun, hf⟩ := hall
  refine ⟨m', y, log, hrun, hf.count, ?_⟩
  -- without an event nothing has been called, not even the first arrival
  rcases hf.calls with ⟨hnil, hnone, hlog⟩ | ⟨hne, i, hi, hsome, hb⟩
  · simp only at hnone hlog
    subst hlog
    refine ⟨?_, ?_, ?_⟩
    · rw [stmState, hnone]
      exact hf.start
    · intro _
      refine ⟨rfl, ?_⟩
      intro k
      simp [stmHandlerClose, hnone, depart]
    · intro hne
      exact absurd hnil hne
  · have hstate : stmState m' = i := stmState_some hsome
    refine ⟨hstate.trans hb.state.symm, ?_, ?_⟩
    · intro hnil
      exact absurd hnil hne
    · intro _
      refine ⟨hb.first, hb.calls, ?_⟩
      intro k
      rw [hstate]
      exact bracketed_close hb hsome (hcheck i hi) k y

end

/-- The callback of `stm_test.c`: on to the next state, up to the last. -/
def testReady (_ : Unit) (i : Nat) : Except Fault (Nat × Nat) :=
  if i < 2 then .ok (i + 1, i + 1) else .ok (i, 2)

def testState (i : Nat) : StateDefinition Nat Unit where
  state := i
  onArrival := some fun _ x => x
  onDeparture := some fun _ x => x
  onReadReady := some testReady
  onWriteReady := some testReady

theorem testState_ready {i : Nat} (hi : i ≤ 2) (e : StmEvent) (f : Unit → Nat → Except Fault (Nat × Nat))
    (h : e.ready (entry [testState 0, testState 1, testState 2] i) = some f) (k : Unit) (x : Nat) :
    ∃ y ret, f k x = .ok (y, ret) ∧ ret ≤ 2 := by
  have hf : f = testReady := by
    have hcases : i = 0 ∨ i = 1 ∨ i = 2 := by omega
    rcases hcases with h0 | h1 | h2
    · subst h0
      cases e <;> simp_all [StmEvent.ready, entry, testState]
    · subst h1
      cases e <;> simp_all [StmEvent.ready, entry, testState]
    · subst h2
      cases e <;> simp_all [StmEvent.ready, entry, testState]
  subst hf
  unfold testReady
  split
  · exact ⟨x + 1, x + 1, rfl, by omega⟩
  · exact ⟨x, 2, rfl, by omega⟩

theorem stm_brackets_test :
    ∃ m' y log, run (stmDispatch (logged [testState 0, testState 1, testState 2])) (⟨0, 2, none⟩, (0, []))
        [(.read, ()), (.write, ()), (.read, ())] = .ok (m', (y, log)) ∧
      (returned log).length = 3 ∧ stmState m' = (returned log).getLastD 0 := by
  obtain ⟨m', y, log, hrun, hcount, hstate, -⟩ :=
    @stm_brackets Nat Unit [testState 0, testState 1, testState 2] 0 2 ⟨0, 2, none⟩ (by decide)
      (fun _ hi => testState_ready hi) 0 [(.read, ()), (.write, ()), (.read, ())] (by decide)
  exact ⟨m', y, log, hrun, hcount, hstate⟩

end SocksProxy
