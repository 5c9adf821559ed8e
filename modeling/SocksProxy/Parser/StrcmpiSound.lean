import Mathlib.Data.List.GetD
import SocksProxy.Parser.Engine

/-!
# The comparison parser recognises its string

The state a string leaves the parser in is its length while it is a prefix of
the string compared with, and the sink `NEQ` after that. A byte is matched by
its row exactly if it is the next letter in either case.
-/

namespace SocksProxy

open Lib

/-- What is compared: two texts without the case of their letters. -/
def asciiLower (b : UInt8) : UInt8 := if 65 ≤ b ∧ b ≤ 90 then b + 32 else b

def ignoringCase (s : List UInt8) : List UInt8 := s.map asciiLower

def compareIgnoringCase (s w : List UInt8) : StringCmp :=
  if ignoringCase w = ignoringCase s then .eq
  else if ignoringCase w <+: ignoringCase s then .mayeq
  else .neq

theorem snoc_prefix_iff {α : Type*} {l s : List α} {a : α} : l ++ [a] <+: s ↔ l <+: s ∧ s[l.length]? = some a := by
  constructor
  · intro h
    obtain ⟨t, ht⟩ := h
    subst ht
    simp
  · intro h
    obtain ⟨⟨t, ht⟩, ha⟩ := h
    subst ht
    cases t with
    | nil => simp at ha
    | cons b t =>
      simp only [List.getElem?_append_right (Nat.le_refl _), Nat.sub_self, List.getElem?_cons_zero,
        Option.some.injEq] at ha
      exact ⟨t, by simp [ha]⟩

/-! ## The rows of the table -/

section
variable {s : List UInt8} {n : Nat}

structure Tables.Sized (n : Nat) (t : Tables) : Prop where
  transitions : t.transitions.length = 3 * (n + 2)
  states : t.states.length = n + 2
  nstates : t.nstates.length = n + 2

/-- State `i` begins at its own place in the transitions and has `k` of them. -/
structure Tables.Row (i k : Nat) (row : List (ParserStateTransition StringCmp)) (t : Tables) : Prop where
  states : t.states[i]? = some (i * 3)
  nstates : t.nstates[i]? = some k
  transitions : ∀ j < k, t.transitions[i * 3 + j]? = row[j]?

def letterRow (s : List UInt8) (n i : Nat) : List (ParserStateTransition StringCmp) :=
  let dest := if i + 1 = n then n else i + 1
  let act := if i + 1 = n then eq else mayEq
  [⟨intTolower (charValue (s.getD i 0)), dest, some act, none⟩,
    ⟨intToupper (charValue (s.getD i 0)), dest, some act, none⟩, ⟨any, n + 1, some neq, none⟩]

theorem stateRow_sized {t : Tables} (h : t.Sized n) (i : Nat) : (stateRow s n t i).Sized n :=
  ⟨by simpa [stateRow] using h.transitions, by simpa [stateRow] using h.states, by simpa [stateRow] using h.nstates⟩

theorem sinkRow_sized {t : Tables} (h : t.Sized n) (i : Nat) : (sinkRow n t i).Sized n :=
  ⟨by simpa [sinkRow] using h.transitions, by simpa [sinkRow] using h.states, by simpa [sinkRow] using h.nstates⟩

theorem stateRow_row {t : Tables} {i : Nat} (h : t.Sized n) (hi : i < n) :
    (stateRow s n t i).Row i 3 (letterRow s n i) := by
  have h1 := h.transitions
  have h2 := h.states
  have h3 := h.nstates
  constructor
  · simp only [stateRow, List.getElem?_set_self (show i < t.states.length by omega), Nat.add_zero]
  · simp only [stateRow, List.getElem?_set_self (show i < t.nstates.length by omega)]
  · intro j hj
    have hcases : j = 0 ∨ j = 1 ∨ j = 2 := by omega
    rcases hcases with rfl | rfl | rfl <;>
      simp [stateRow, letterRow, h1, show i * 3 < 3 * (n + 2) by omega,
        show i * 3 + 1 < 3 * (n + 2) by omega, show i * 3 + 2 < 3 * (n + 2) by omega]

theorem sinkRow_row {t : Tables} {i : Nat} (h : t.Sized n) (hi : i < n + 2) :
    (sinkRow n t i).Row i 1 [⟨any, n + 1, some neq, none⟩] := by
  have h1 := h.transitions
  have h2 := h.states
  have h3 := h.nstates
  constructor
  · simp only [sinkRow, List.getElem?_set_self (show i < t.states.length by omega), Nat.add_zero]
  · simp only [sinkRow, List.getElem?_set_self (show i < t.nstates.length by omega)]
  · intro j hj
    obtain rfl : j = 0 := by omega
    simp only [sinkRow, Nat.add_zero, List.getElem?_set_self (show i * 3 < t.transitions.length by omega),
      List.getElem?_cons_zero]

variable {row : List (ParserStateTransition StringCmp)} {t : Tables} {i j k : Nat}

theorem stateRow_keeps (hij : j ≠ i) (hk : k ≤ 3) (h : t.Row j k row) : (stateRow s n t i).Row j k row := by
  constructor
  · simp only [stateRow, List.getElem?_set_ne (Ne.symm hij), h.states]
  · simp only [stateRow, List.getElem?_set_ne (Ne.symm hij), h.nstates]
  · intro l hl
    simp only [stateRow]
    rw [List.getElem?_set_ne (by omega), List.getElem?_set_ne (by omega), List.getElem?_set_ne (by omega)]
    exact h.transitions l hl

theorem sinkRow_keeps (hij : j ≠ i) (hk : k ≤ 3) (h : t.Row j k row) : (sinkRow n t i).Row j k row := by
  constructor
  · simp only [sinkRow, List.getElem?_set_ne (Ne.symm hij), h.states]
  · simp only [sinkRow, List.getElem?_set_ne (Ne.symm hij), h.nstates]
  · intro l hl
    simp only [sinkRow]
    rw [List.getElem?_set_ne (by omega)]
    exact h.transitions l hl

end

/-- The arrays of the definition, as tables. -/
def ParserDefinition.tables (d : ParserDefinition StringCmp) : Tables := ⟨d.transitions, d.states, d.statesN⟩

theorem calloc_sized (n : Nat) : Tables.Sized n
    ⟨List.replicate (3 * (n + 2)) default, List.replicate (n + 2) 0, List.replicate (n + 2) 0⟩ :=
  ⟨List.length_replicate, List.length_replicate, List.length_replicate⟩

section
variable (s : List UInt8)

theorem strcmpi_sink {i : Nat} (hi : i = (cString s).length ∨ i = (cString s).length + 1) :
    (parserUtilsStrcmpi s).tables.Row i 1 [⟨any, (cString s).length + 1, some neq, none⟩] := by
  have hloop : (loop (stateRow s (cString s).length) _ (cString s).length).Sized (cString s).length :=
    loop_keeps (calloc_sized _) fun t i _ h => stateRow_sized h i
  rcases hi with rfl | rfl
  · apply sinkRow_keeps (by omega) (by omega)
    exact sinkRow_row hloop (by omega)
  · exact sinkRow_row (sinkRow_sized hloop _) (by omega)

theorem strcmpi_letter {i : Nat} (hi : i < (cString s).length) :
    (parserUtilsStrcmpi s).tables.Row i 3 (letterRow s (cString s).length i) := by
  apply sinkRow_keeps (by omega) (Nat.le_refl 3)
  apply sinkRow_keeps (by omega) (Nat.le_refl 3)
  exact loop_establishes (P := fun i t => t.Row i 3 (letterRow s (cString s).length i)) (calloc_sized _)
    (fun t i _ h => stateRow_sized h i) (fun t i hi h => stateRow_row h hi)
    (fun t i j _ hj h => stateRow_keeps (Nat.ne_of_lt hj) (Nat.le_refl 3) h) i hi

end

/-! ## One byte -/

/-- An event that carries one byte and has no second event behind it. -/
structure ParserEvent.Reports (e : ParserEvent StringCmp) (type : StringCmp) (c : UInt8) : Prop where
  type : e.type = type
  n : e.n = 1
  data : e.data[0]? = some c
  next : e.next = false

theorem event_reports (type : StringCmp) {e : ParserEvent StringCmp} (h : e.next = false) (c : UInt8) :
    (event type e c).Reports type c :=
  ⟨rfl, rfl, by simp [event], h⟩

/-- A byte taken by a transition to `dest` whose action reports `type`. -/
structure Parser.Moves (p p' : Parser StringCmp) (c : UInt8) (dest : Nat) (type : StringCmp) : Prop where
  definition : p'.definition = p.definition
  state : p'.state = dest
  reports : p'.e1.Reports type c

section
variable {p : Parser StringCmp} (c : UInt8)

theorem any_matched (dest : Nat) (act1 act2 : Option (ParserEvent StringCmp → UInt8 → ParserEvent StringCmp))
    (type : BitVec 32) : (ParserStateTransition.mk any dest act1 act2).matched type c = true := by
  simp [ParserStateTransition.matched, any]

theorem asciiLower_toNat (b : UInt8) :
    (asciiLower b).toNat = if 65 ≤ b.toNat ∧ b.toNat ≤ 90 then b.toNat + 32 else b.toNat := by
  have hb : b.toNat < 256 := UInt8.toNat_lt b
  have h65 : (65 : UInt8).toNat = 65 := rfl
  have h90 : (90 : UInt8).toNat = 90 := rfl
  have h32 : (32 : UInt8).toNat = 32 := rfl
  simp only [asciiLower, UInt8.le_iff_toNat_le, h65, h90]
  split
  · rw [UInt8.toNat_add, h32]
    omega
  · rfl

theorem intTolower_charValue {b : UInt8} (hb : b < 128) :
    intTolower (charValue b) = if 65 ≤ b.toNat ∧ b.toNat ≤ 90 then (b.toNat : Int) + 32 else b.toNat := by
  simp only [intTolower, charValue, if_pos hb]
  split <;> split <;> omega

theorem intToupper_charValue {b : UInt8} (hb : b < 128) :
    intToupper (charValue b) = if 97 ≤ b.toNat ∧ b.toNat ≤ 122 then (b.toNat : Int) - 32 else b.toNat := by
  simp only [intToupper, charValue, if_pos hb]
  split <;> split <;> omega

theorem byte_matched {when : Int} (h : when ≤ 0xFF) (dest : Nat)
    (act1 act2 : Option (ParserEvent StringCmp → UInt8 → ParserEvent StringCmp)) (type : BitVec 32) :
    (ParserStateTransition.mk when dest act1 act2).matched type c = decide ((c.toNat : Int) = when) := by
  simp only [ParserStateTransition.matched, if_pos h]

theorem letter_le {b : UInt8} (hb : b < 128) :
    intTolower (charValue b) ≤ 0xFF ∧ intToupper (charValue b) ≤ 0xFF := by
  have hb' : b.toNat < 128 := UInt8.lt_iff_toNat_lt.mp hb
  rw [intTolower_charValue hb, intToupper_charValue hb]
  constructor <;> split <;> omega

/-- A byte is a letter in one of its cases if the two agree in lower case. -/
theorem letter_iff {b : UInt8} (hb : b < 128) :
    ((c.toNat : Int) = intTolower (charValue b) ∨ (c.toNat : Int) = intToupper (charValue b)) ↔
      asciiLower c = asciiLower b := by
  rw [intTolower_charValue hb, intToupper_charValue hb, ← UInt8.toNat_inj, asciiLower_toNat, asciiLower_toNat]
  constructor
  · intro h
    split at h <;> split at h <;> split <;> omega
  · intro h
    split at h <;> split at h <;> split <;> omega

theorem fire_moves (h : p.e1.next = false) (when : Int) (dest : Nat) (type : StringCmp) :
    ∃ p', p.fire ⟨when, dest, some (event type), none⟩ c = .ok p' ∧ p.Moves p' c dest type :=
  ⟨_, rfl, rfl, rfl, event_reports type h c⟩

theorem parserFeed_row {k : Nat} {row : List (ParserStateTransition StringCmp)}
    (h : p.definition.tables.Row p.state k row) :
    ∃ q : Parser StringCmp, q.definition = p.definition ∧ q.e1.next = false ∧
      parserFeed p c = q.firstMatch (p.classes c) c (p.state * 3) k := by
  have hs : p.definition.states[p.state]? = some (p.state * 3) := h.states
  have hn : p.definition.statesN[p.state]? = some k := h.nstates
  refine ⟨{ p with e1 := { p.e1 with next := false }, e2 := { p.e2 with next := false } }, rfl, rfl, ?_⟩
  simp only [parserFeed, hs, hn]

theorem parserFeed_sink {dest : Nat} (h : p.definition.tables.Row p.state 1 [⟨any, dest, some neq, none⟩]) :
    ∃ p', parserFeed p c = .ok p' ∧ p.Moves p' c dest .neq := by
  obtain ⟨q, hq, hnext, hfeed⟩ := parserFeed_row c h
  have ht := h.transitions 0 Nat.one_pos
  simp only [ParserDefinition.tables, Nat.add_zero, List.getElem?_cons_zero] at ht
  rw [hfeed]
  simp only [Parser.firstMatch, hq, ht, any_matched, ite_true]
  obtain ⟨p', hp', hm⟩ := fire_moves c hnext any dest .neq
  exact ⟨p', hp', hm.definition.trans hq, hm.state, hm.reports⟩

theorem parserFeed_letter {s : List UInt8} {n i : Nat} (hs : s.getD i 0 < 128)
    (h : p.definition.tables.Row p.state 3 (letterRow s n i)) :
    ∃ p', parserFeed p c = .ok p' ∧
      if asciiLower c = asciiLower (s.getD i 0) then
        p.Moves p' c (if i + 1 = n then n else i + 1) (if i + 1 = n then .eq else .mayeq)
      else p.Moves p' c (n + 1) .neq := by
  obtain ⟨q, hq, hnext, hfeed⟩ := parserFeed_row c h
  have ht0 := h.transitions 0 (by omega)
  have ht1 := h.transitions 1 (by omega)
  have ht2 := h.transitions 2 (by omega)
  simp only [letterRow, List.getElem?_cons_zero, List.getElem?_cons_succ, Nat.add_zero,
    ParserDefinition.tables] at ht0 ht1 ht2
  obtain ⟨hlow, hup⟩ := letter_le hs
  have hact : (if i + 1 = n then eq else mayEq) = event (if i + 1 = n then .eq else .mayeq) := by
    split <;> rfl
  have hmove : ∀ when dest type, ∃ p', q.fire ⟨when, dest, some (event type), none⟩ c = .ok p' ∧
      p.Moves p' c dest type := by
    intro when dest type
    obtain ⟨p', hp', hm⟩ := fire_moves c hnext when dest type
    exact ⟨p', hp', hm.definition.trans hq, hm.state, hm.reports⟩
  rw [hfeed]
  simp only [Parser.firstMatch, hq, ht0, ht1, ht2, Nat.add_assoc, byte_matched c hlow, byte_matched c hup,
    any_matched, decide_eq_true_eq, ite_true, hact]
  by_cases hc : asciiLower c = asciiLower (s.getD i 0)
  · simp only [if_pos hc]
    by_cases hl : (c.toNat : Int) = intTolower (charValue (s.getD i 0))
    · simp only [if_pos hl]
      exact hmove _ _ _
    · have hu := ((letter_iff c hs).mpr hc).resolve_left hl
      simp only [if_neg hl, if_pos hu]
      exact hmove _ _ _
  · have hnot := mt (letter_iff c hs).mp hc
    simp only [if_neg hc]
    rw [if_neg fun h => hnot (Or.inl h), if_neg fun h => hnot (Or.inr h)]
    exact hmove _ _ _

end

/-! ## A whole text -/

section
variable (classes : UInt8 → BitVec 32) (s : List UInt8)

/-- The state a text leaves the parser in. -/
def matchState (s w : List UInt8) : Nat :=
  if ignoringCase w <+: ignoringCase s then w.length else s.length + 1

/-- The parser after the text `w`. -/
structure Compared (s w : List UInt8) (p : Parser StringCmp) : Prop where
  definition : p.definition = parserUtilsStrcmpi s
  state : p.state = matchState (cString s) w
  reports : ∀ l c, w = l ++ [c] → p.e1.Reports (compareIgnoringCase (cString s) w) c

theorem compared_init : Compared s [] (parserInit classes (parserUtilsStrcmpi s)) := by
  constructor
  · rfl
  · simp [matchState, ignoringCase, parserInit, parserUtilsStrcmpi]
  · intro l c h
    exact absurd h (List.append_ne_nil_of_right_ne_nil l (List.cons_ne_nil c [])).symm

theorem ignoringCase_snoc_iff {s w : List UInt8} {c : UInt8} :
    ignoringCase (w ++ [c]) <+: ignoringCase s ↔
      ignoringCase w <+: ignoringCase s ∧ w.length < s.length ∧ asciiLower c = asciiLower (s.getD w.length 0) := by
  have hmap : ignoringCase (w ++ [c]) = ignoringCase w ++ [asciiLower c] := by simp [ignoringCase]
  rw [hmap, snoc_prefix_iff]
  simp only [ignoringCase, List.length_map, List.getElem?_map, List.getD_eq_getElem?_getD]
  by_cases hlt : w.length < s.length
  · simp [hlt, eq_comm]
  · simp [hlt]

theorem ignoringCase_eq_iff {s w : List UInt8} :
    ignoringCase w = ignoringCase s ↔ ignoringCase w <+: ignoringCase s ∧ w.length = s.length := by
  constructor
  · intro h
    refine ⟨h ▸ List.prefix_rfl, ?_⟩
    simpa [ignoringCase] using congrArg List.length h
  · intro h
    apply h.1.eq_of_length
    simpa [ignoringCase] using h.2

variable {s}

theorem cString_getD {i : Nat} (hi : i < (cString s).length) : (cString s).getD i 0 = s.getD i 0 := by
  have hp : cString s <+: s := List.takeWhile_prefix _
  rw [List.getD_eq_getElem _ _ hi, List.getD_eq_getElem _ _ (Nat.lt_of_lt_of_le hi hp.length_le)]
  exact hp.getElem hi

theorem compared_step (hs : ∀ b ∈ cString s, b < 128) {w : List UInt8} {p : Parser StringCmp} (h : Compared s w p)
    (c : UInt8) : ∃ p', parserFeed p c = .ok p' ∧ Compared s (w ++ [c]) p' := by
  have hnext : ∀ {dest type p'}, p.Moves p' c dest type → matchState (cString s) (w ++ [c]) = dest →
      compareIgnoringCase (cString s) (w ++ [c]) = type → Compared s (w ++ [c]) p' := by
    intro dest type p' hm hd ht
    refine ⟨hm.definition.trans h.definition, hm.state.trans hd.symm, ?_⟩
    intro l c' hl
    obtain ⟨-, hcc⟩ := List.append_inj' hl rfl
    rw [List.cons.injEq] at hcc
    rw [ht, ← hcc.1]
    exact hm.reports
  have hstate := h.state
  -- the state counts the letters that have matched, until one does not
  by_cases hlt : ignoringCase w <+: ignoringCase (cString s) ∧ w.length < (cString s).length
  · rw [matchState, if_pos hlt.1] at hstate
    have hrow := strcmpi_letter s hlt.2
    rw [← h.definition, ← hstate] at hrow
    have hget := cString_getD hlt.2
    have hascii : s.getD p.state 0 < 128 := by
      rw [hstate, ← hget, List.getD_eq_getElem _ _ hlt.2]
      exact hs _ (List.getElem_mem hlt.2)
    obtain ⟨p', hp', hm⟩ := parserFeed_letter c hascii hrow
    refine ⟨p', hp', ?_⟩
    rw [hstate, ← hget] at hm
    by_cases hc : asciiLower c = asciiLower ((cString s).getD w.length 0)
    · have hpre : ignoringCase (w ++ [c]) <+: ignoringCase (cString s) :=
        ignoringCase_snoc_iff.mpr ⟨hlt.1, hlt.2, hc⟩
      rw [if_pos hc] at hm
      apply hnext hm
      · rw [matchState, if_pos hpre, List.length_append, List.length_singleton]
        split <;> omega
      · simp only [compareIgnoringCase, ignoringCase_eq_iff, hpre, true_and, ite_true, List.length_append,
          List.length_singleton]
    · have hpre : ¬ ignoringCase (w ++ [c]) <+: ignoringCase (cString s) := fun hp =>
        hc (ignoringCase_snoc_iff.mp hp).2.2
      rw [if_neg hc] at hm
      apply hnext hm
      · rw [matchState, if_neg hpre]
      · simp only [compareIgnoringCase, ignoringCase_eq_iff, hpre, false_and, ite_false]
  · have hpre : ¬ ignoringCase (w ++ [c]) <+: ignoringCase (cString s) := fun hp =>
      hlt ⟨(ignoringCase_snoc_iff.mp hp).1, (ignoringCase_snoc_iff.mp hp).2.1⟩
    -- both final states loop on every byte
    have hsink : p.state = (cString s).length ∨ p.state = (cString s).length + 1 := by
      rw [hstate, matchState]
      split
      · rename_i hw
        have hle := hw.length_le
        simp only [ignoringCase, List.length_map] at hle
        have : ¬ w.length < (cString s).length := fun hl => hlt ⟨hw, hl⟩
        omega
      · exact Or.inr rfl
    have hrow := strcmpi_sink s hsink
    rw [← h.definition] at hrow
    obtain ⟨p', hp', hm⟩ := parserFeed_sink c hrow
    refine ⟨p', hp', hnext hm ?_ ?_⟩
    · rw [matchState, if_neg hpre]
    · simp only [compareIgnoringCase, ignoringCase_eq_iff, hpre, false_and, ite_false]

theorem compared_state {w : List UInt8} {p : Parser StringCmp} (h : Compared s w p) :
    p.state < p.definition.statesCount := by
  rw [h.state, h.definition]
  simp only [matchState, parserUtilsStrcmpi]
  split
  · rename_i hw
    have hle := hw.length_le
    simp only [ignoringCase, List.length_map] at hle
    omega
  · omega

/-- The parser of `parser_utils_strcmpi` compares a text with its string, whatever their case. -/
theorem strcmpi_compares (hs : ∀ b ∈ cString s, b < 128) (w : List UInt8) :
    ∃ p, run parserFeed (parserInit classes (parserUtilsStrcmpi s)) w = .ok p ∧
      (∀ l c, w = l ++ [c] → p.e1.Reports (compareIgnoringCase (cString s) w) c) ∧
      p.state < p.definition.statesCount := by
  have hall : ∃ p, run parserFeed (parserInit classes (parserUtilsStrcmpi s)) w = .ok p ∧ Compared s w p := by
    induction w using List.reverseRecOn with
    | nil => exact ⟨_, rfl, compared_init classes s⟩
    | append_singleton w c ih =>
      obtain ⟨p, hp, hc⟩ := ih
      obtain ⟨p', hp', hc'⟩ := compared_step hs hc c
      exact ⟨p', run_snoc.mpr ⟨p, hp, hp'⟩, hc'⟩
  obtain ⟨p, hp, hc⟩ := hall
  exact ⟨p, hp, hc.reports, compared_state hc⟩

end

theorem strcmpi_compares_foo :
    ∃ p, run parserFeed (parserInit (fun _ => 0) (parserUtilsStrcmpi [102, 111, 111, 0])) [102, 79, 111] = .ok p ∧
      p.e1.Reports .eq 111 := by
  obtain ⟨p, hp, hr, -⟩ :=
    strcmpi_compares (fun _ => 0) (s := [102, 111, 111, 0]) (by decide +kernel) [102, 79, 111]
  have heq : compareIgnoringCase (cString [102, 111, 111, 0]) [102, 79, 111] = .eq := by decide +kernel
  exact ⟨p, hp, heq ▸ hr [102, 79] 111 rfl⟩

end SocksProxy
