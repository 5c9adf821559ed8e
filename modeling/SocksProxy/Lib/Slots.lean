import Mathlib.Data.List.Range
import Mathlib.Data.List.Perm.Basic
import Mathlib.Logic.Function.Basic

/-!
# Tables indexed by small numbers

A partial map from numbers, its largest key, and what is listed of its entries
in order. A scan up to a bound finds the largest key (`largestKey_scan`); a
change at one key changes the list at one place (`listed_update`).
-/

namespace Lib

section
variable {α β : Type*}

/-- `k` is the largest key of `m`, and 0 when there is none. -/
structure LargestKey (m : Nat → Option α) (k : Nat) : Prop where
  bound : ∀ n, (m n).isSome → n ≤ k
  attained : k = 0 ∨ (m k).isSome

def scanMax (m : Nat → Option α) (k : Nat) : Nat :=
  (List.range (k + 1)).foldl (fun max i => if (m i).isSome ∧ max < i then i else max) 0

theorem largestKey_empty : LargestKey (fun _ => (none : Option α)) 0 :=
  ⟨fun _ h => absurd h Bool.false_ne_true, Or.inl rfl⟩

theorem largestKey_insert {m : Nat → Option α} {k : Nat} (h : LargestKey m k) (n : Nat) (a : α) :
    LargestKey (Function.update m n (some a)) (max k n) := by
  constructor
  · intro i hi
    by_cases hne : i = n
    · rw [hne]
      exact Nat.le_max_right _ _
    · rw [Function.update_of_ne hne] at hi
      exact Nat.le_trans (h.bound i hi) (Nat.le_max_left _ _)
  · by_cases hle : k ≤ n
    · rw [Nat.max_eq_right hle, Function.update_self]
      exact Or.inr rfl
    · rw [Nat.max_eq_left (by omega)]
      rcases h.attained with hz | hs
      · exact Or.inl hz
      · rw [Function.update_of_ne (by omega)]
        exact Or.inr hs

theorem scanMax_spec (m : Nat → Option α) (k : Nat) :
    (∀ n ≤ k, (m n).isSome → n ≤ scanMax m k) ∧ (scanMax m k = 0 ∨ (m (scanMax m k)).isSome) := by
  have hall : ∀ j, (∀ n < j, (m n).isSome →
      n ≤ (List.range j).foldl (fun max i => if (m i).isSome ∧ max < i then i else max) 0) ∧
      ((List.range j).foldl (fun max i => if (m i).isSome ∧ max < i then i else max) 0 = 0 ∨
        (m ((List.range j).foldl (fun max i => if (m i).isSome ∧ max < i then i else max) 0)).isSome) := by
    intro j
    induction j with
    | zero => exact ⟨fun n hn => absurd hn (Nat.not_lt_zero n), Or.inl rfl⟩
    | succ j ih =>
      obtain ⟨hle, hsome⟩ := ih
      rw [List.range_succ, List.foldl_append, List.foldl_cons, List.foldl_nil]
      generalize (List.range j).foldl (fun max i => if (m i).isSome ∧ max < i then i else max) 0 =
          best at hle hsome ⊢
      by_cases hj : (m j).isSome ∧ best < j
      · rw [if_pos hj]
        exact ⟨fun n hn _ => Nat.lt_succ_iff.mp hn, Or.inr hj.1⟩
      · rw [if_neg hj]
        refine ⟨fun n hn hs => ?_, hsome⟩
        rcases Nat.lt_succ_iff_lt_or_eq.mp hn with hlt | rfl
        · exact hle n hlt hs
        · exact Nat.not_lt.mp fun hlt => hj ⟨hs, hlt⟩
  obtain ⟨hle, hsome⟩ := hall (k + 1)
  exact ⟨fun n hn => hle n (Nat.lt_succ_of_le hn), hsome⟩

theorem largestKey_scan {m : Nat → Option α} {k : Nat} (h : ∀ n, (m n).isSome → n ≤ k) :
    LargestKey m (scanMax m k) := by
  obtain ⟨hle, hsome⟩ := scanMax_spec m k
  exact ⟨fun n hn => hle n (h n hn) hn, hsome⟩

theorem largestKey_erase {m : Nat → Option α} {k : Nat} (h : LargestKey m k) (n : Nat) :
    LargestKey (Function.update m n none) (scanMax (Function.update m n none) k) := by
  apply largestKey_scan
  intro i hi
  by_cases hne : i = n
  · rw [hne, Function.update_self] at hi
    cases hi
  · rw [Function.update_of_ne hne] at hi
    exact h.bound i hi

/-! ## Entries in order -/

/-- What `f` lists of the numbers below `k`. -/
def listed (f : Nat → List β) (k : Nat) : List β := (List.range k).flatMap f

theorem listed_congr {f g : Nat → List β} {k : Nat} (h : ∀ n < k, f n = g n) : listed f k = listed g k := by
  unfold listed
  exact List.flatMap_congr fun n hn => h n (List.mem_range.mp hn)

theorem listed_succ (f : Nat → List β) (k : Nat) : listed f (k + 1) = listed f k ++ f k := by
  simp [listed, List.range_succ]

theorem listed_update {f : Nat → List β} {n k : Nat} (hn : n < k) (hf : f n = []) (l : List β) :
    (listed (Function.update f n l) k).Perm (l ++ listed f k) := by
  induction k with
  | zero => exact absurd hn (Nat.not_lt_zero n)
  | succ k ih =>
    rw [listed_succ, listed_succ]
    by_cases hlt : n < k
    · rw [Function.update_of_ne (by omega), ← List.append_assoc]
      exact (ih hlt).append_right _
    · obtain rfl : n = k := by omega
      have hsame : listed (Function.update f n l) n = listed f n :=
        listed_congr fun i hi => Function.update_of_ne (by omega) _ _
      rw [hsame, Function.update_self, hf, List.append_nil]
      exact List.perm_append_comm

end

end Lib
