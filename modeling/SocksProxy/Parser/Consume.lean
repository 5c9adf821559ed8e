import SocksProxy.Buffer
import SocksProxy.Lib.Feed

/-!
# The consume loop

`hello_consume`, `auth_consume`, `request_consume` and `prawtos_consume` are
one loop over four parsers: read a byte of the buffer, feed it, stop when the
parser is done. `consume_spec` reads the loop as `feedUntil` on the unread
bytes.
-/

namespace SocksProxy

open Lib

section
variable {P : Type*} (feed : P → UInt8 → P) (isDone : P → Bool)

/-- The first argument bounds the passes; each pass takes one byte. -/
def consumeLoop : Nat → Buffer → P → Buffer × P
  | 0, b, p => (b, p)
  | n + 1, b, p =>
    if bufferCanRead b then
      let (c, b') := bufferRead b
      let p' := feed p c
      if isDone p' then (b', p') else consumeLoop n b' p'
    else (b, p)

def consume (b : Buffer) (p : P) : Buffer × P := consumeLoop feed isDone (bufferReadPtr b).length b p

theorem consumeLoop_spec : ∀ (n : Nat) (b : Buffer) (p : P), b.unread.length ≤ n →
    (consumeLoop feed isDone n b p).2 = (feedUntil feed isDone p b.unread).1 ∧
      (consumeLoop feed isDone n b p).1.unread = (feedUntil feed isDone p b.unread).2 ∧
      (consumeLoop feed isDone n b p).1.limit = b.limit
  | 0, b, p, h => by
    have hu : b.unread = [] := List.eq_nil_of_length_eq_zero (Nat.le_zero.mp h)
    simp [consumeLoop, hu, feedUntil]
  | n + 1, b, p, h => by
    simp only [consumeLoop]
    cases hu : b.unread with
    | nil =>
      have hc : bufferCanRead b = false := (canRead_eq_false b).mpr hu
      simp [hc, hu, feedUntil]
    | cons c l =>
      have hc : bufferCanRead b = true := (canRead_iff b).mpr (by rw [hu]; exact List.cons_ne_nil _ _)
      obtain ⟨h1, h2, h3⟩ := bufferRead_cons hu
      simp only [hc, ite_true, feedUntil, h1]
      split
      · exact ⟨rfl, h2, h3⟩
      · have hl : (bufferRead b).2.unread.length ≤ n := by
          rw [hu, List.length_cons] at h; rw [h2]; omega
        obtain ⟨e1, e2, e3⟩ := consumeLoop_spec n (bufferRead b).2 (feed p c) hl
        rw [h2] at e1 e2
        exact ⟨e1, e2, e3.trans h3⟩

theorem consume_spec (b : Buffer) (p : P) :
    (consume feed isDone b p).2 = (feedUntil feed isDone p b.unread).1 ∧
      (consume feed isDone b p).1.unread = (feedUntil feed isDone p b.unread).2 ∧
      (consume feed isDone b p).1.limit = b.limit :=
  consumeLoop_spec feed isDone _ b p (Nat.le_refl _)

/-- A consumed buffer is either drained with the parser waiting, or stopped
after the byte that made the parser done. -/
theorem consume_cases (b : Buffer) (p : P) :
    (Undone feed isDone p b.unread ∧ (consume feed isDone b p).2 = feedAll feed p b.unread ∧
        (consume feed isDone b p).1.unread = []) ∨
      ∃ u c r, b.unread = u ++ c :: r ∧ Undone feed isDone p u ∧ isDone (feedAll feed p (u ++ [c])) = true ∧
        (consume feed isDone b p).2 = feedAll feed p (u ++ [c]) ∧ (consume feed isDone b p).1.unread = r := by
  obtain ⟨h1, h2, -⟩ := consume_spec feed isDone b p
  rcases feedUntil_cases feed isDone p b.unread with ⟨hu, he⟩ | ⟨u, c, r, hl, hu, hd, he⟩
  · rw [he] at h1 h2
    exact Or.inl ⟨hu, h1, h2⟩
  · rw [he] at h1 h2
    exact Or.inr ⟨u, c, r, hl, hu, hd, h1, h2⟩

theorem consumeLoop_rewound (n : Nat) {b : Buffer} (p : P) (h : Rewound b) :
    Rewound (consumeLoop feed isDone n b p).1 := by
  induction n generalizing b p with
  | zero => exact h
  | succ n ih =>
    have hread := rewound_read h
    simp only [consumeLoop]
    split
    · split
      · exact hread
      · exact ih _ hread
    · exact h

theorem consume_rewound {b : Buffer} (p : P) (h : Rewound b) : Rewound (consume feed isDone b p).1 :=
  consumeLoop_rewound feed isDone _ p h

end

/-! ## Arrays being filled -/

/-- An array of `n` bytes of which the first have been filled with `a`. -/
def FilledTo (n : Nat) (a arr : List UInt8) : Prop := arr = a ++ List.replicate (n - a.length) 0

theorem filledTo_nil (n : Nat) : FilledTo n [] (List.replicate n 0) := rfl

theorem filledTo_set {n : Nat} {a arr : List UInt8} (h : FilledTo n a arr) (hl : a.length < n) (c : UInt8) :
    FilledTo n (a ++ [c]) (arr.set a.length c) := by
  obtain ⟨m, hm⟩ : ∃ m, n - a.length = m + 1 := ⟨n - a.length - 1, by omega⟩
  have hm' : n - (a ++ [c]).length = m := by simp only [List.length_append, List.length_singleton]; omega
  unfold FilledTo at h ⊢
  rw [h, hm, hm', List.set_append_right _ _ (Nat.le_refl _), Nat.sub_self, List.replicate_succ, List.set_cons_zero,
    List.append_assoc]
  rfl

theorem filledTo_full {n : Nat} {a arr : List UInt8} (h : FilledTo n a arr) (hl : a.length = n) : arr = a := by
  unfold FilledTo at h
  rw [h, hl, Nat.sub_self, List.replicate_zero, List.append_nil]

theorem toNat_succ {i n : UInt8} {k : Nat} (hi : i.toNat = k) (hk : k < n.toNat) : (i + 1).toNat = k + 1 := by
  have := n.toNat_lt
  rw [UInt8.toNat_add, hi]
  simp only [UInt8.reduceToNat]
  omega

theorem toNat_ne {c k : UInt8} (h : c ≠ k) : c.toNat ≠ k.toNat := fun h' => h (UInt8.toNat_inj.mp h')

end SocksProxy
