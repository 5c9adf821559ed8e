import Mathlib.Data.List.Basic
import Mathlib.Tactic.Common

/-!
# A bounded queue

A queue of at most `n` items that takes `room` more before it has to be settled.
An empty queue has all its room.
-/

namespace Lib

@[ext] structure Fifo (α : Type*) (n : Nat) where
  items : List α
  room : Nat
  le : items.length + room ≤ n
  free : items = [] → room = n

namespace Fifo
variable {α : Type*} {n : Nat}

def empty (α : Type*) (n : Nat) : Fifo α n := ⟨[], n, by simp, fun _ => rfl⟩

/-- Items go in at the end; those that find no room are dropped. -/
def append (q : Fifo α n) (l : List α) : Fifo α n where
  items := q.items ++ l.take q.room
  room := q.room - l.length
  le := by
    have := q.le
    simp only [List.length_append, List.length_take]
    omega
  free := by
    intro h
    obtain ⟨hq, hl⟩ := List.append_eq_nil_iff.mp h
    have hroom := q.free hq
    rcases List.take_eq_nil_iff.mp hl with hz | hnil
    · omega
    · rw [hnil, List.length_nil, hroom, Nat.sub_zero]

/-- Items go out at the front. -/
def drop (q : Fifo α n) (k : Nat) : Fifo α n where
  items := q.items.drop k
  room := if q.items.length ≤ k then n else q.room
  le := by
    have := q.le
    rw [List.length_drop]
    split
    · omega
    · omega
  free := by
    intro h
    rw [if_pos (List.drop_eq_nil_iff.mp h)]

/-- The room of the items that have gone out is room again. -/
def settle (q : Fifo α n) : Fifo α n where
  items := q.items
  room := n - q.items.length
  le := by
    have := q.le
    omega
  free := by
    intro h
    rw [h, List.length_nil, Nat.sub_zero]

@[simp] theorem drop_zero (q : Fifo α n) : q.drop 0 = q := by
  apply Fifo.ext
  · rfl
  · change (if q.items.length ≤ 0 then n else q.room) = q.room
    split
    · rename_i h
      exact (q.free (List.length_eq_zero_iff.mp (Nat.le_zero.mp h))).symm
    · rfl

theorem append_full {q : Fifo α n} (h : q.room = 0) (l : List α) : q.append l = q := by
  apply Fifo.ext
  · simp [append, h]
  · simp [append, h]

theorem drop_empty {q : Fifo α n} (h : q.items = []) (k : Nat) : q.drop k = q := by
  apply Fifo.ext
  · simp [drop, h]
  · simp [drop, h, q.free h]

/-- A queue of some capacity that has no room is not empty. -/
theorem ne_nil_of_full (hn : 0 < n) {q : Fifo α n} (h : q.room = 0) : q.items ≠ [] := by
  intro hq
  have := q.free hq
  omega

end Fifo

end Lib
