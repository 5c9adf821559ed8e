import Mathlib.Data.List.Basic
import Mathlib.Tactic.Common

/-!
# Blocks of memory

A memory maps addresses to cells. `block` is what it holds from an address on,
and `store` writes a list there; `block_store` says what a block holds after a
store within it, so that a move inside a block needs no reasoning on cells.
-/

namespace Lib

section
variable {α : Type*}

/-- The `k` cells from the address `a` on. -/
def block (mem : Nat → α) (a k : Nat) : List α := (List.range k).map fun i => mem (a + i)

def store (mem : Nat → α) (a : Nat) (l : List α) : Nat → α := fun x =>
  if h : a ≤ x ∧ x - a < l.length then l[x - a] else mem x

/-- `memmove`: the source is read before the destination is written. -/
def move (mem : Nat → α) (dst src n : Nat) : Nat → α := store mem dst (block mem src n)

@[simp] theorem length_block (mem : Nat → α) (a k : Nat) : (block mem a k).length = k := by simp [block]

@[simp] theorem getElem_block (mem : Nat → α) (a k i : Nat) (h : i < (block mem a k).length) :
    (block mem a k)[i] = mem (a + i) := by
  simp [block]

theorem take_block (mem : Nat → α) (a : Nat) {j k : Nat} (h : j ≤ k) : (block mem a k).take j = block mem a j := by
  apply List.ext_getElem
  · simp [h]
  · intro i _ _
    simp

theorem drop_block (mem : Nat → α) (a j k : Nat) : (block mem a k).drop j = block mem (a + j) (k - j) := by
  apply List.ext_getElem
  · simp
  · intro i _ _
    simp [Nat.add_assoc]

theorem block_cons {mem : Nat → α} {a k : Nat} {x : α} {l : List α} (h : block mem a k = x :: l) : mem a = x := by
  have hpos : 0 < (block mem a k).length := by
    rw [h]
    exact Nat.succ_pos _
  have hfirst : (block mem a k)[0] = mem (a + 0) := getElem_block mem a k 0 hpos
  simp only [h, List.getElem_cons_zero, Nat.add_zero] at hfirst
  exact hfirst.symm

theorem block_store (mem : Nat → α) (a w k : Nat) (l : List α) (h : w + l.length ≤ k) :
    block (store mem (a + w) l) a k = (block mem a k).take w ++ l ++ (block mem a k).drop (w + l.length) := by
  rw [take_block mem a (by omega), drop_block]
  apply List.ext_getElem
  · simp only [length_block, List.length_append]
    omega
  · intro i hi _
    rw [getElem_block, store]
    by_cases hlow : i < w
    · rw [dif_neg (by omega), List.getElem_append_left (by simp; omega),
        List.getElem_append_left (by simpa using hlow), getElem_block]
    · by_cases hin : i < w + l.length
      · have hoff : a + i - (a + w) = i - w := by omega
        rw [dif_pos (by omega), List.getElem_append_left (by simpa using hin),
          List.getElem_append_right (by simpa using hlow)]
        simp [hoff]
      · rw [dif_neg (by omega), List.getElem_append_right (by simpa using hin), getElem_block]
        congr 1
        simp only [List.length_append, length_block]
        omega

end

end Lib
