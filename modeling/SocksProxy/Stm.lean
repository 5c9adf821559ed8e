import Mathlib.Data.List.Basic
import Mathlib.Tactic.Common

/-!
# The state machine engine (`stm.c`)

The callbacks work on a context `κ` (the connection and the globals it
reaches) and get the selector key `ι` of the event. A call through a null
callback, and a jump to a state past `max_state`, end the process.
-/

namespace SocksProxy

/-- How a callback can end the process: the `abort()` calls and assertions of
the source, and accesses outside what is allocated. -/
inductive Fault where
  | noReadHandler
  | noWriteHandler
  | noBlockHandler
  | badTransition
  | assertion
  | interestRefused
  | unregisterRefused
  | useAfterFree
  | wildPointer
  | tableOverrun
  | bufferOverflow
  deriving DecidableEq, Repr

structure StateDefinition (κ ι : Type) where
  state : Nat
  onArrival : Option (ι → κ → κ) := none
  onDeparture : Option (ι → κ → κ) := none
  onReadReady : Option (ι → κ → Except Fault (κ × Nat)) := none
  onWriteReady : Option (ι → κ → Except Fault (κ × Nat)) := none
  onBlockReady : Option (ι → κ → Except Fault (κ × Nat)) := none

structure StateMachine where
  initial : Nat
  maxState : Nat
  current : Option Nat
  deriving DecidableEq, Repr

section
variable {κ ι : Type} (states : List (StateDefinition κ ι))

/-- The checks of `stm_init`; it aborts if one fails. -/
def stmInit (initial maxState : Nat) : Option StateMachine :=
  if ((List.range (maxState + 1)).all fun i => (states[i]?.map (·.state)) == some i) &&
      decide (initial < maxState) then
    some ⟨initial, maxState, none⟩
  else none

/-- An entry that was never filled is zeroed memory. -/
def entry (i : Nat) : StateDefinition κ ι := states.getD i { state := 0 }

def arrive (i : Nat) (k : ι) (x : κ) : κ :=
  match (entry states i).onArrival with
  | some f => f k x
  | none => x

def depart (i : Option Nat) (k : ι) (x : κ) : κ :=
  match i.bind fun i => (entry states i).onDeparture with
  | some f => f k x
  | none => x

def handleFirst (m : StateMachine) (k : ι) (x : κ) : StateMachine × κ :=
  match m.current with
  | none => ({ m with current := some m.initial }, arrive states m.initial k x)
  | some _ => (m, x)

def jump (m : StateMachine) (next : Nat) (k : ι) (x : κ) : Except Fault (StateMachine × κ) :=
  if m.maxState < next then .error .badTransition
  else if m.current ≠ some next then
    .ok ({ m with current := some next }, arrive states next k (depart states m.current k x))
  else .ok (m, x)

def stmState (m : StateMachine) : Nat := m.current.getD m.initial

/-- The callback of the state the machine is in, the missing one being `f`. -/
def callback (on : StateDefinition κ ι → Option (ι → κ → Except Fault (κ × Nat))) (f : Fault) (m : StateMachine)
    (k : ι) (x : κ) : Except Fault (κ × Nat) :=
  match on (entry states (stmState m)) with
  | none => .error f
  | some g => g k x

def stmHandler (on : StateDefinition κ ι → Option (ι → κ → Except Fault (κ × Nat))) (f : Fault) (m : StateMachine)
    (k : ι) (x : κ) : Except Fault (StateMachine × κ × Nat) :=
  let (m, x) := handleFirst states m k x
  match callback states on f m k x with
  | .error e => .error e
  | .ok (x, ret) =>
    match jump states m ret k x with
    | .error e => .error e
    | .ok (m, x) => .ok (m, x, ret)

def stmHandlerRead (m : StateMachine) (k : ι) (x : κ) : Except Fault (StateMachine × κ × Nat) :=
  stmHandler states (·.onReadReady) .noReadHandler m k x

def stmHandlerWrite (m : StateMachine) (k : ι) (x : κ) : Except Fault (StateMachine × κ × Nat) :=
  stmHandler states (·.onWriteReady) .noWriteHandler m k x

def stmHandlerBlock (m : StateMachine) (k : ι) (x : κ) : Except Fault (StateMachine × κ × Nat) :=
  stmHandler states (·.onBlockReady) .noBlockHandler m k x

def stmHandlerClose (m : StateMachine) (k : ι) (x : κ) : κ := depart states m.current k x

/-! ## The engine's steps -/

variable {states}

@[simp] theorem handleFirst_some {m : StateMachine} {i : Nat} (h : m.current = some i) (k : ι) (x : κ) :
    handleFirst states m k x = (m, x) := by
  simp only [handleFirst, h]

theorem stmState_some {m : StateMachine} {i : Nat} (h : m.current = some i) : stmState m = i := by
  simp only [stmState, h, Option.getD_some]

@[simp] theorem handleFirst_current (m : StateMachine) (k : ι) (x : κ) :
    (handleFirst states m k x).1.current = some (stmState m) := by
  unfold handleFirst stmState
  split <;> rename_i h <;> simp [h]

theorem jump_past {m : StateMachine} {next : Nat} (h : m.maxState < next) (k : ι) (x : κ) :
    jump states m next k x = .error .badTransition := by
  simp only [jump, h, ite_true]

theorem jump_same {m : StateMachine} {next : Nat} (h : next ≤ m.maxState) (hc : m.current = some next) (k : ι)
    (x : κ) :
    jump states m next k x = .ok (m, x) := by
  simp [jump, Nat.not_lt.mpr h, hc]

theorem jump_to {m : StateMachine} {i next : Nat} (h : next ≤ m.maxState) (hc : m.current = some i) (hne : i ≠ next)
    (hd : (entry states i).onDeparture = none) (k : ι) (x : κ) :
    jump states m next k x = .ok ({ m with current := some next }, arrive states next k x) := by
  simp [jump, Nat.not_lt.mpr h, hc, hne, depart, hd]

/-- What a handler has done: perhaps the first arrival, then the callback of the
state, and perhaps the way to another state. -/
theorem stmHandler_ok {m m' : StateMachine} {k : ι}
    {on : StateDefinition κ ι → Option (ι → κ → Except Fault (κ × Nat))} {f : Fault} {x y : κ} {ret : Nat}
    (h : stmHandler states on f m k x = .ok (m', y, ret)) :
    ∃ g x₁ y₁, on (entry states (stmState m)) = some g ∧ (x₁ = x ∨ x₁ = arrive states m.initial k x) ∧
      g k x₁ = .ok (y₁, ret) ∧ m'.current = some ret ∧
      (y = y₁ ∨ ∃ i, y = arrive states ret k (depart states i k y₁)) := by
  have hfirst : (handleFirst states m k x).2 = x ∨ (handleFirst states m k x).2 = arrive states m.initial k x := by
    unfold handleFirst
    split
    · exact Or.inr rfl
    · exact Or.inl rfl
  have hstate : stmState (handleFirst states m k x).1 = stmState m := stmState_some (handleFirst_current m k x)
  unfold stmHandler at h
  generalize handleFirst states m k x = r at h hfirst hstate
  obtain ⟨m₁, x₁⟩ := r
  simp only [callback] at h hstate
  rw [hstate] at h
  cases hg : on (entry states (stmState m)) with
  | none => rw [hg] at h; cases h
  | some g =>
    rw [hg] at h
    simp only at h
    cases hr : g k x₁ with
    | error e => rw [hr] at h; cases h
    | ok q =>
      obtain ⟨y₁, ret₁⟩ := q
      rw [hr] at h
      simp only [jump] at h
      by_cases hpast : m₁.maxState < ret₁
      · rw [if_pos hpast] at h; cases h
      · rw [if_neg hpast] at h
        by_cases hnew : m₁.current ≠ some ret₁
        · rw [if_pos hnew] at h
          simp only [Except.ok.injEq, Prod.mk.injEq] at h
          obtain ⟨rfl, rfl, rfl⟩ := h
          exact ⟨g, x₁, y₁, rfl, hfirst, hr, rfl, Or.inr ⟨_, rfl⟩⟩
        · rw [if_neg hnew] at h
          simp only [Except.ok.injEq, Prod.mk.injEq] at h
          obtain ⟨rfl, rfl, rfl⟩ := h
          exact ⟨g, x₁, y₁, rfl, hfirst, hr, not_not.mp hnew, Or.inl rfl⟩

/-- What the arrivals, the departures and the callback of the state keep, a handler keeps. -/
theorem stmHandler_rel {R : κ → κ → Prop} (hrefl : ∀ x, R x x) (htrans : ∀ {x y z}, R x y → R y z → R x z)
    {m m' : StateMachine} {k : ι} (harrive : ∀ i x, R x (arrive states i k x))
    (hdepart : ∀ i x, R x (depart states i k x))
    {on : StateDefinition κ ι → Option (ι → κ → Except Fault (κ × Nat))}
    (hcall : ∀ g x y ret, on (entry states (stmState m)) = some g → g k x = .ok (y, ret) → R x y) {f : Fault}
    {x y : κ} {ret : Nat} (h : stmHandler states on f m k x = .ok (m', y, ret)) : R x y := by
  obtain ⟨g, x₁, y₁, hg, hfirst, hr, -, hlast⟩ := stmHandler_ok h
  have h₁ : R x x₁ := by
    rcases hfirst with rfl | rfl
    · exact hrefl _
    · exact harrive _ _
  have hq : R x y₁ := htrans h₁ (hcall g x₁ y₁ ret hg hr)
  rcases hlast with rfl | ⟨i, rfl⟩
  · exact hq
  · exact htrans hq (htrans (hdepart _ _) (harrive _ _))

/-- A handler in state `i`: the callback, and then the arrival in another state. -/
theorem stmHandler_current {m : StateMachine} {i : Nat} (hm : m.current = some i)
    (hd : (entry states i).onDeparture = none) (on : StateDefinition κ ι → Option (ι → κ → Except Fault (κ × Nat)))
    (f : Fault) (k : ι) (x : κ) :
    stmHandler states on f m k x =
      match on (entry states i) with
      | none => .error f
      | some g =>
        match g k x with
        | .error e => .error e
        | .ok (y, ret) =>
          if m.maxState < ret then .error .badTransition
          else .ok ({ m with current := some ret }, if ret = i then y else arrive states ret k y, ret) := by
  unfold stmHandler
  simp only [handleFirst_some hm, callback, stmState_some hm]
  cases on (entry states i) with
  | none => rfl
  | some g =>
    simp only
    cases g k x with
    | error e => rfl
    | ok r =>
      by_cases hlt : m.maxState < r.2
      · simp only [jump_past hlt, if_pos hlt]
      · have hle : r.2 ≤ m.maxState := Nat.le_of_not_lt hlt
        by_cases he : r.2 = i
        · have hc : m.current = some r.2 := by rw [he]; exact hm
          have hsame : ({ m with current := some r.2 } : StateMachine) = m := by rw [← hc]
          simp only [jump_same hle hc, if_neg hlt, if_pos he, hsame]
        · simp only [jump_to hle hm (Ne.symm he) hd, if_neg hlt, if_neg he]

/-- The first handler of a machine arrives in its initial state before it calls back. -/
theorem stmHandler_first {m : StateMachine} (hm : m.current = none)
    (on : StateDefinition κ ι → Option (ι → κ → Except Fault (κ × Nat))) (f : Fault) (k : ι) (x : κ) :
    stmHandler states on f m k x =
      stmHandler states on f { m with current := some m.initial } k (arrive states m.initial k x) := by
  have hfirst : handleFirst states m k x = ({ m with current := some m.initial }, arrive states m.initial k x) := by
    simp only [handleFirst, hm]
  unfold stmHandler
  rw [hfirst, handleFirst_some (m := { m with current := some m.initial }) rfl]

end

end SocksProxy
