import Mathlib.Data.List.Basic
import Mathlib.Data.List.Infix

/-!
# Machines fed one symbol at a time

`feedUntil` feeds a list to a machine until it is done and returns the symbols
left over. `Undone` says that no nonempty prefix of a list makes the machine
done; a run that stops splits the list at the first symbol that does
(`feedUntil_cases`), and feeding in two parts is feeding at once
(`feedUntil_append`).
-/

namespace Lib

section
variable {P β : Type*} (feed : P → β → P) (done : P → Bool)

def feedAll (p : P) (l : List β) : P := l.foldl feed p

def feedUntil : P → List β → P × List β
  | p, [] => (p, [])
  | p, b :: l => if done (feed p b) then (feed p b, l) else feedUntil (feed p b) l

/-- No nonempty prefix of the list makes the machine done. -/
def Undone : P → List β → Prop
  | _, [] => True
  | p, b :: l => done (feed p b) = false ∧ Undone (feed p b) l

@[simp] theorem feedAll_nil (p : P) : feedAll feed p [] = p := rfl

@[simp] theorem feedAll_cons (p : P) (b : β) (l : List β) :
    feedAll feed p (b :: l) = feedAll feed (feed p b) l := rfl

theorem feedAll_append (p : P) (l l' : List β) : feedAll feed p (l ++ l') = feedAll feed (feedAll feed p l) l' :=
  List.foldl_append

/-- What the symbols put out that are fed, each in the state it finds. -/
def outputs {γ : Type*} (out : P → β → List γ) : P → List β → List γ
  | _, [] => []
  | p, b :: l => out p b ++ outputs out (feed p b) l

variable {feed done}

theorem mem_outputs {γ : Type*} {out : P → β → List γ} {p : P} {l : List β} {x : γ} :
    x ∈ outputs feed out p l ↔ ∃ u b r, l = u ++ b :: r ∧ x ∈ out (feedAll feed p u) b := by
  induction l generalizing p with
  | nil => simp [outputs]
  | cons b l ih =>
    rw [outputs, List.mem_append, ih]
    constructor
    · intro h
      rcases h with h | ⟨u, c, r, hl, hx⟩
      · exact ⟨[], b, l, rfl, h⟩
      · exact ⟨b :: u, c, r, by rw [hl]; rfl, hx⟩
    · intro h
      obtain ⟨u, c, r, hl, hx⟩ := h
      cases u with
      | nil =>
        rw [List.nil_append, List.cons.injEq] at hl
        rw [hl.1]
        exact Or.inl hx
      | cons a u =>
        rw [List.cons_append, List.cons.injEq] at hl
        rw [hl.1]
        exact Or.inr ⟨u, c, r, hl.2, hx⟩

theorem undone_append {p : P} {l l' : List β} :
    Undone feed done p (l ++ l') ↔ Undone feed done p l ∧ Undone feed done (feedAll feed p l) l' := by
  induction l generalizing p with
  | nil => simp [Undone]
  | cons b l ih => simp only [List.cons_append, Undone, ih, feedAll_cons, and_assoc]

theorem undone_done {p : P} {l : List β} (h : Undone feed done p l) (hne : l ≠ []) :
    done (feedAll feed p l) = false := by
  induction l generalizing p with
  | nil => exact absurd rfl hne
  | cons b l ih =>
    cases l with
    | nil => exact h.1
    | cons c l => exact ih h.2 (List.cons_ne_nil _ _)

/-- Symbols fed before the machine is done do not matter to where it stops. -/
theorem feedUntil_append {p : P} {l : List β} (h : Undone feed done p l) (l' : List β) :
    feedUntil feed done p (l ++ l') = feedUntil feed done (feedAll feed p l) l' := by
  induction l generalizing p with
  | nil => rfl
  | cons b l ih => simp only [List.cons_append, feedUntil, h.1, Bool.false_eq_true, ite_false, ih h.2, feedAll_cons]

theorem feedUntil_done {p : P} {l : List β} {b : β} (h : Undone feed done p l)
    (hd : done (feed (feedAll feed p l) b) = true) (l' : List β) :
    feedUntil feed done p (l ++ b :: l') = (feedAll feed p (l ++ [b]), l') := by
  rw [feedUntil_append h, feedAll_append]
  simp only [feedUntil, hd, ite_true, feedAll_cons, feedAll_nil]

theorem feedUntil_keeps {I : P → Prop} (hI : ∀ p b, I p → I (feed p b)) {p : P} (hp : I p) (l : List β) :
    I (feedUntil feed done p l).1 := by
  induction l generalizing p with
  | nil => exact hp
  | cons b l ih =>
    unfold feedUntil
    split
    · exact hI p b hp
    · exact ih (hI p b hp)

variable (feed done) in
/-- A list either leaves the machine undone, or splits at the first symbol
that makes it done. -/
theorem feedUntil_cases (p : P) (l : List β) :
    (Undone feed done p l ∧ feedUntil feed done p l = (feedAll feed p l, [])) ∨
      ∃ u b r, l = u ++ b :: r ∧ Undone feed done p u ∧ done (feedAll feed p (u ++ [b])) = true ∧
        feedUntil feed done p l = (feedAll feed p (u ++ [b]), r) := by
  induction l generalizing p with
  | nil => exact Or.inl ⟨trivial, rfl⟩
  | cons b l ih =>
    by_cases hb : done (feed p b) = true
    · exact Or.inr ⟨[], b, l, rfl, trivial, hb, by simp [feedUntil, hb]⟩
    · rw [Bool.not_eq_true] at hb
      rcases ih (feed p b) with ⟨hu, he⟩ | ⟨u, c, r, rfl, hu, hd, he⟩
      · exact Or.inl ⟨⟨hb, hu⟩, by simp [feedUntil, hb, he]⟩
      · exact Or.inr ⟨b :: u, c, r, rfl, ⟨hb, hu⟩, hd, by simp [feedUntil, hb, he]⟩

variable (feed done) in
/-- What a machine leaves over is the end of what it is fed. -/
theorem feedUntil_suffix (p : P) (l : List β) : (feedUntil feed done p l).2 <:+ l := by
  rcases feedUntil_cases feed done p l with ⟨_, he⟩ | ⟨u, b, r, rfl, _, _, he⟩
  · rw [he]
    exact List.nil_suffix
  · rw [he]
    exact ⟨u ++ [b], by simp⟩

/-- What is kept track of symbol by symbol as long as the machine is not done
holds after the symbols so far, and after one more. -/
theorem undone_tracked {R : List β → P → Prop} (hstep : ∀ l p b, R l p → done p = false → R (l ++ [b]) (feed p b))
    {p : P} (hp : R [] p) (hd : done p = false) {l : List β} (h : Undone feed done p l) (b : β) :
    R l (feedAll feed p l) ∧ R (l ++ [b]) (feedAll feed p (l ++ [b])) := by
  have hall : ∀ (u l : List β) (p : P), R l p → done p = false → Undone feed done p u →
      R (l ++ u) (feedAll feed p u) ∧ done (feedAll feed p u) = false := by
    intro u
    induction u with
    | nil => intro l p hr hd _; simpa using ⟨hr, hd⟩
    | cons b u ih =>
      intro l p hr hd hu
      simpa using ih (l ++ [b]) _ (hstep l p b hr hd) hu.1 hu.2
  obtain ⟨hr, hd'⟩ := hall l [] p hp hd h
  rw [List.nil_append] at hr
  exact ⟨hr, by rw [feedAll_append]; exact hstep _ _ b hr hd'⟩

end

end Lib
