import Mathlib.Data.List.Basic
import Mathlib.Data.List.Infix

/-!
# Scanning for a word

Two ways to count how much of a word a text has shown so far: the letters that
stand together at its end (`AtEnd`), and the letters that occur in it in order,
wherever they stand (`Spread`). The first count is complete when the text ends
in the word, the second when the word is a subsequence of the text.
-/

namespace Lib

open scoped List

section
variable {α : Type*} {w l : List α} {k : Nat} {b : α}

theorem take_next (h : w[k]? = some b) : w.take (k + 1) = w.take k ++ [b] := by
  rw [List.take_add_one, h]
  rfl

/-- The text ends in the first `k` letters of the word. -/
def AtEnd (w l : List α) (k : Nat) : Prop := w.take k <:+ l

theorem atEnd_zero (w l : List α) : AtEnd w l 0 := List.nil_suffix

theorem atEnd_next (h : AtEnd w l k) (hb : w[k]? = some b) : AtEnd w (l ++ [b]) (k + 1) := by
  unfold AtEnd
  rw [take_next hb]
  exact List.suffix_append_self_iff.mpr h

theorem atEnd_length : AtEnd w l w.length ↔ w <:+ l := by
  unfold AtEnd
  rw [List.take_length]

/-- A text that ends in the word ends in its last letter. -/
theorem suffix_last (hw : k + 1 = w.length) (h : w <:+ l ++ [b]) : w[k]? = some b := by
  rcases List.suffix_concat_iff.mp h with hnil | ⟨t, ht, -⟩
  · rw [hnil] at hw
    cases hw
  · have hlen : t.length = k := by
      rw [ht, List.length_append, List.length_singleton] at hw
      exact (Nat.succ.inj hw).symm
    rw [ht, ← hlen]
    exact List.getElem?_concat_length

/-- The first `k` letters of the word occur in the text in order, and no more. -/
structure Spread (w l : List α) (k : Nat) : Prop where
  seen : w.take k <+ l
  unseen : ¬ w.take (k + 1) <+ l

theorem concat_sublist_concat {c : α} {x : List α} : x ++ [c] <+ l ++ [b] ↔ x ++ [c] <+ l ∨ c = b ∧ x <+ l := by
  have hrev : (x ++ [c]).reverse <+ (l ++ [b]).reverse ↔
      (x ++ [c]).reverse <+ l.reverse ∨ c = b ∧ x.reverse <+ l.reverse := by
    simp only [List.reverse_append, List.reverse_singleton, List.singleton_append]
    exact List.cons_sublist_cons'
  simpa only [List.reverse_sublist] using hrev

theorem spread_nil (hw : w ≠ []) : Spread w [] 0 := by
  refine ⟨List.Sublist.refl _, ?_⟩
  intro h
  have hnil := List.sublist_nil.mp h
  rw [List.take_eq_nil_iff] at hnil
  rcases hnil with h0 | h0
  · cases h0
  · exact hw h0

/-- With its next letter a word is complete, if nothing else of it is unseen. -/
theorem spread_complete (h : Spread w l k) (hk : k + 1 = w.length) : w <+ l ++ [b] ↔ w[k]? = some b := by
  have hlt : k < w.length := by omega
  have hw : w = w.take k ++ [w[k]] := by
    rw [← take_next (List.getElem?_eq_getElem hlt), hk, List.take_length]
  have hunseen : ¬ w <+ l := by
    have := h.unseen
    rwa [hk, List.take_length] at this
  constructor
  · intro hsub
    rw [hw, concat_sublist_concat, ← hw] at hsub
    rcases hsub with hold | ⟨heq, -⟩
    · exact absurd hold hunseen
    · rw [← heq]
      exact List.getElem?_eq_getElem hlt
  · intro hb
    rw [List.getElem?_eq_getElem hlt, Option.some.injEq] at hb
    rw [hw, hb]
    exact List.Sublist.append h.seen (List.Sublist.refl _)

theorem spread_next (h : Spread w l k) (hb : w[k]? = some b) (hk : k + 1 < w.length) :
    Spread w (l ++ [b]) (k + 1) := by
  constructor
  · rw [take_next hb]
    exact List.Sublist.append h.seen (List.Sublist.refl _)
  · intro hsub
    rw [take_next (List.getElem?_eq_getElem hk), concat_sublist_concat] at hsub
    apply h.unseen
    rcases hsub with hold | ⟨-, hold⟩
    · exact (List.sublist_append_left _ _).trans hold
    · exact hold

theorem spread_stay (h : Spread w l k) (hb : w[k]? ≠ some b) (hk : k < w.length) : Spread w (l ++ [b]) k := by
  constructor
  · exact h.seen.trans (List.sublist_append_left _ _)
  · intro hsub
    have hget := List.getElem?_eq_getElem hk
    rw [take_next hget, concat_sublist_concat, ← take_next hget] at hsub
    rcases hsub with hold | ⟨heq, -⟩
    · exact h.unseen hold
    · exact hb (by rw [hget, heq])

/-- A word of which letters are still missing is not complete after the next. -/
theorem spread_incomplete (h : Spread w l k) (hk : k + 1 < w.length) : ¬ w <+ l ++ [b] := by
  intro hsub
  have htake : w.take (k + 1 + 1) <+ l ++ [b] := (List.take_sublist _ _).trans hsub
  rw [take_next (List.getElem?_eq_getElem hk), concat_sublist_concat] at htake
  apply h.unseen
  rcases htake with hold | ⟨-, hold⟩
  · exact (List.sublist_append_left _ _).trans hold
  · exact hold

end

end Lib
