import Mathlib.Data.Set.Defs
import SocksProxy.Lib.Feed

/-!
# Machines that recognise a language

No word of the language begins another. A machine that waits only where a word
goes on, and that stops right, stops at the last symbol of a word, in error at
the first symbol that no word has at its position, and nowhere else
(`stopsAt_word_iff`, `stopsAt_stray_iff`, `undone_iff`).
-/

namespace Lib

section
variable {P β : Type*}

/-- The machine becomes done with the last symbol of `l`. -/
def StopsAt (feed : P → β → P) (done : P → Bool) (p : P) (l : List β) : Prop :=
  ∃ u c, l = u ++ [c] ∧ Undone feed done p u ∧ done (feedAll feed p l) = true

/-- A word of the language goes on after `l`. -/
def GoesOn (W : Set (List β)) (l : List β) : Prop := ∃ c r, l ++ c :: r ∈ W

/-- No word has the last symbol of `l` at its position. -/
def Strays (W : Set (List β)) (l : List β) : Prop := ∃ u c, l = u ++ [c] ∧ GoesOn W u ∧ ∀ s, l ++ s ∉ W

structure Recognises (feed : P → β → P) (done ok : P → Bool) (p : P) (W : Set (List β)) : Prop where
  start : done p = false
  prefixFree : ∀ {w r}, w ∈ W → w ++ r ∈ W → r = []
  waits : ∀ {l}, Undone feed done p l → GoesOn W l
  accepts : ∀ {l}, StopsAt feed done p l → ok (feedAll feed p l) = true → l ∈ W
  rejects : ∀ {l}, StopsAt feed done p l → ok (feedAll feed p l) = false → ∀ s, l ++ s ∉ W

variable {feed : P → β → P} {done ok : P → Bool} {p : P} {W : Set (List β)}

/-- A list leaves the machine undone or begins with one at which it stops. -/
theorem undone_or_stopsAt (feed : P → β → P) (done : P → Bool) (p : P) (l : List β) :
    Undone feed done p l ∨ ∃ w r, l = w ++ r ∧ StopsAt feed done p w ∧
      feedUntil feed done p l = (feedAll feed p w, r) := by
  rcases feedUntil_cases feed done p l with ⟨hu, _⟩ | ⟨u, c, r, rfl, hu, hd, he⟩
  · exact Or.inl hu
  · exact Or.inr ⟨u ++ [c], r, by simp, ⟨u, c, rfl, hu, hd⟩, he⟩

theorem stopsAt_feedUntil {w : List β} (h : StopsAt feed done p w) (r : List β) :
    feedUntil feed done p (w ++ r) = (feedAll feed p w, r) := by
  obtain ⟨u, c, rfl, hu, hd⟩ := h
  rw [feedAll_append] at hd
  rw [List.append_assoc]
  exact feedUntil_done hu hd r

theorem undone_not_done (hd : done p = false) {l : List β} (hu : Undone feed done p l) :
    done (feedAll feed p l) = false := by
  cases l with
  | nil => exact hd
  | cons b l => exact undone_done hu (List.cons_ne_nil b l)

theorem undone_feedUntil {l : List β} (h : Undone feed done p l) :
    feedUntil feed done p l = (feedAll feed p l, []) := by
  have he := feedUntil_append h []
  rwa [List.append_nil] at he

/-- Where a machine that is done has stopped. -/
theorem feedUntil_stopped (hd : done p = false) {l : List β} (h : done (feedUntil feed done p l).1 = true) :
    ∃ w, l = w ++ (feedUntil feed done p l).2 ∧ StopsAt feed done p w ∧
      (feedUntil feed done p l).1 = feedAll feed p w := by
  rcases undone_or_stopsAt feed done p l with hu | ⟨w, r, hl, hs, he⟩
  · rw [undone_feedUntil hu, undone_not_done hd hu] at h
    cases h
  · exact ⟨w, by rw [he]; exact hl, hs, by rw [he]⟩

theorem goesOn_not_word (h : Recognises feed done ok p W) {l : List β} (hg : GoesOn W l) : l ∉ W := by
  intro hl
  obtain ⟨c, r, hr⟩ := hg
  exact List.cons_ne_nil c r (h.prefixFree hl hr)

theorem undone_iff (h : Recognises feed done ok p W) (l : List β) : Undone feed done p l ↔ GoesOn W l := by
  constructor
  · exact h.waits
  · rintro ⟨c, r, hr⟩
    rcases undone_or_stopsAt feed done p l with hu | ⟨w, t, rfl, hs, _⟩
    · exact hu
    · exfalso
      rw [List.append_assoc] at hr
      cases hok : ok (feedAll feed p w) with
      | false => exact h.rejects hs hok _ hr
      | true =>
        have hnil := h.prefixFree (h.accepts hs hok) hr
        simp at hnil

theorem feedUntil_waits_iff (h : Recognises feed done ok p W) (l : List β) :
    done (feedUntil feed done p l).1 = false ↔ GoesOn W l := by
  rw [← undone_iff h l]
  constructor
  · intro hd
    rcases undone_or_stopsAt feed done p l with hu | ⟨w, r, _, ⟨_, _, _, _, hw⟩, he⟩
    · exact hu
    · rw [he, hw] at hd
      cases hd
  · intro hu
    rw [undone_feedUntil hu]
    exact undone_not_done h.start hu

/-- The machine stops at a word, and accepts it. -/
theorem word_stopsAt (h : Recognises feed done ok p W) {w : List β} (hw : w ∈ W) :
    StopsAt feed done p w ∧ ok (feedAll feed p w) = true := by
  rcases undone_or_stopsAt feed done p w with hu | ⟨v, r, rfl, hs, _⟩
  · exact absurd hw (goesOn_not_word h (h.waits hu))
  · cases hok : ok (feedAll feed p v) with
    | false => exact absurd hw (h.rejects hs hok r)
    | true =>
      obtain rfl := h.prefixFree (h.accepts hs hok) hw
      rw [List.append_nil]
      exact ⟨hs, hok⟩

theorem stopsAt_word_iff (h : Recognises feed done ok p W) (l : List β) :
    StopsAt feed done p l ∧ ok (feedAll feed p l) = true ↔ l ∈ W :=
  ⟨fun ⟨hs, hok⟩ => h.accepts hs hok, word_stopsAt h⟩

theorem stopsAt_stray_iff (h : Recognises feed done ok p W) (l : List β) :
    StopsAt feed done p l ∧ ok (feedAll feed p l) = false ↔ Strays W l := by
  constructor
  · rintro ⟨hs, hok⟩
    obtain ⟨u, c, rfl, hu, hd⟩ := hs
    exact ⟨u, c, rfl, h.waits hu, h.rejects ⟨u, c, rfl, hu, hd⟩ hok⟩
  · rintro ⟨u, c, rfl, hg, hno⟩
    have hu := (undone_iff h u).mpr hg
    have hnone : ¬ Undone feed done p (u ++ [c]) := by
      intro hw
      obtain ⟨b, r, hr⟩ := h.waits hw
      exact hno _ hr
    have hd : done (feedAll feed p (u ++ [c])) = true := by
      by_contra hd
      rw [Bool.not_eq_true, feedAll_append] at hd
      exact hnone (undone_append.mpr ⟨hu, hd, trivial⟩)
    have hs : StopsAt feed done p (u ++ [c]) := ⟨u, c, rfl, hu, hd⟩
    refine ⟨hs, ?_⟩
    cases hok : ok (feedAll feed p (u ++ [c])) with
    | false => rfl
    | true =>
      have hword := h.accepts hs hok
      rw [← List.append_nil (u ++ [c])] at hword
      exact absurd hword (hno [])

/-! ## Machines that stay done -/

/-- What a done machine shows is not changed by the symbols that follow. -/
theorem feedAll_stays {γ : Type*} {V : P → γ}
    (hstay : ∀ q b, done q = true → done (feed q b) = true ∧ V (feed q b) = V q) {q : P} (hd : done q = true)
    (l : List β) : done (feedAll feed q l) = true ∧ V (feedAll feed q l) = V q := by
  induction l generalizing q with
  | nil => exact ⟨hd, rfl⟩
  | cons b l ih =>
    obtain ⟨hb, hv⟩ := hstay q b hd
    obtain ⟨hd', hv'⟩ := ih hb
    exact ⟨hd', hv'.trans hv⟩

theorem undone_of_not_done (hstay : ∀ q b, done q = true → done (feed q b) = true) {l : List β}
    (hd : done (feedAll feed p l) = false) : Undone feed done p l := by
  rcases undone_or_stopsAt feed done p l with hu | ⟨w, r, rfl, ⟨_, _, _, _, hw⟩, _⟩
  · exact hu
  · rw [feedAll_append, (feedAll_stays (V := fun _ => ()) (fun q b h => ⟨hstay q b h, rfl⟩) hw r).1] at hd
    cases hd

end

end Lib
