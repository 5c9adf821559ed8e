import Mathlib.Data.List.Destutter

/-!
# Stays and their brackets

A walk visits places one after the other. Its stays are the walk without
immediate repetitions, and its brackets open and close every stay but the last,
which stays open. `brackets_stays_snoc` is one step of the walk.
-/

namespace Lib

section
variable {α β : Type*} (opening closing : α → β)

def brackets : List α → List β
  | [] => []
  | [a] => [opening a]
  | a :: b :: l => opening a :: closing a :: brackets (b :: l)

theorem brackets_snoc (l : List α) (a b : α) :
    brackets opening closing (l ++ [a, b]) = brackets opening closing (l ++ [a]) ++ [closing a, opening b] := by
  induction l with
  | nil => rfl
  | cons c l ih =>
    cases l with
    | nil => rfl
    | cons d l => simpa [brackets] using ih

variable [DecidableEq α]

def stays (walk : List α) : List α := walk.destutter (· ≠ ·)

/-- The stays end where the walk does. -/
theorem stays_last (a : α) (l : List α) : ∃ l', stays (a :: l) = l' ++ [l.getLastD a] := by
  induction l generalizing a with
  | nil => exact ⟨[], rfl⟩
  | cons b l ih =>
    obtain ⟨l', hl⟩ := ih b
    simp only [stays, List.destutter_cons'] at hl ⊢
    by_cases h : a = b
    · subst h
      rw [List.destutter'_cons_neg _ (by simp), List.getLastD_cons]
      exact ⟨l', hl⟩
    · rw [List.destutter'_cons_pos _ h, hl, List.getLastD_cons]
      exact ⟨a :: l', rfl⟩

theorem stays_snoc (a b : α) (l : List α) :
    stays (a :: (l ++ [b])) = if l.getLastD a = b then stays (a :: l) else stays (a :: l) ++ [b] := by
  simp only [stays, List.destutter_cons']
  induction l generalizing a with
  | nil =>
    simp only [List.nil_append, List.destutter'_singleton, List.getLastD_nil, List.destutter'_nil]
    by_cases h : a = b
    · simp [h]
    · simp [h]
  | cons c l ih =>
    rw [List.cons_append, List.destutter'_cons, List.destutter'_cons, ih c, ih a, List.getLastD_cons]
    by_cases h : a = c
    · subst h
      simp only [ne_eq, not_true_eq_false, ite_false]
    · simp only [ne_eq, h, not_false_eq_true, ite_true]
      split <;> rfl

theorem brackets_stays_snoc (a b : α) (l : List α) :
    brackets opening closing (stays (a :: (l ++ [b]))) =
      if l.getLastD a = b then brackets opening closing (stays (a :: l))
      else brackets opening closing (stays (a :: l)) ++ [closing (l.getLastD a), opening b] := by
  rw [stays_snoc]
  split
  · rfl
  · obtain ⟨l', hl⟩ := stays_last a l
    rw [hl, List.append_assoc]
    exact brackets_snoc opening closing l' (l.getLastD a) b

end

end Lib
