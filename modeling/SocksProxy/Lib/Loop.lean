import Mathlib.Data.List.Range
import Mathlib.Tactic.Common

/-!
# Counted loops

A loop that establishes one fact at each pass and disturbs none of the earlier
passes has established all of them at its end (`loop_establishes`).
-/

namespace Lib

section
variable {σ : Type*} (body : σ → Nat → σ)

/-- `for (i = 0; i < n; i++) s = body(s, i);` -/
def loop (s : σ) (n : Nat) : σ := (List.range n).foldl body s

@[simp] theorem loop_zero (s : σ) : loop body s 0 = s := rfl

@[simp] theorem loop_succ (s : σ) (n : Nat) : loop body s (n + 1) = body (loop body s n) n := by
  simp [loop, List.range_succ]

variable {body}

theorem loop_keeps {I : σ → Prop} {s : σ} {n : Nat} (hs : I s) (hI : ∀ t i, i < n → I t → I (body t i)) :
    I (loop body s n) := by
  induction n with
  | zero => exact hs
  | succ n ih =>
    rw [loop_succ]
    exact hI _ n (Nat.lt_succ_self n) (ih fun t i hi => hI t i (Nat.lt_succ_of_lt hi))

theorem loop_establishes {I : σ → Prop} {P : Nat → σ → Prop} {s : σ} {n : Nat} (hs : I s)
    (hI : ∀ t i, i < n → I t → I (body t i)) (hest : ∀ t i, i < n → I t → P i (body t i))
    (hkeep : ∀ t i j, i < n → j < i → P j t → P j (body t i)) : ∀ j < n, P j (loop body s n) := by
  induction n with
  | zero =>
    intro j hj
    exact absurd hj (Nat.not_lt_zero j)
  | succ n ih =>
    have hn : n < n + 1 := Nat.lt_succ_self n
    have hI' : ∀ t i, i < n → I t → I (body t i) := fun t i hi => hI t i (Nat.lt_succ_of_lt hi)
    intro j hj
    rw [loop_succ]
    rcases Nat.lt_succ_iff_lt_or_eq.mp hj with hlt | heq
    · apply hkeep _ n j hn hlt
      exact ih hI' (fun t i hi => hest t i (Nat.lt_succ_of_lt hi))
        (fun t i j hi => hkeep t i j (Nat.lt_succ_of_lt hi)) j hlt
    · rw [heq]
      exact hest _ n hn (loop_keeps hs hI')

end

end Lib
