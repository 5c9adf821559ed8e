import Mathlib.Data.Finmap

/-!
# Singly linked lists in a heap

A heap is a finite map from addresses to cells, and a cell holds an item and
the address of the next one. `Segment` says that the cells met from one address
to another are those of a list, in order, and `Chain` that they end. A chain is
determined by its first address (`chain_unique`), so it meets no cell twice
(`chain_nodup`) and is no longer than the heap (`chain_length_le`). The other
lemmas change it at one place: `chain_cons`, `chain_set`, `chain_tail` and
`chain_unlink`.
-/

namespace Lib

structure Cell (ι α : Type*) where
  item : α
  next : Option ι
  deriving DecidableEq, Repr

abbrev Cells (ι α : Type*) := Finmap fun _ : ι => Cell ι α

section
variable {ι α : Type*} [DecidableEq ι]

/-- The cells from `p` up to `q`, each with its address. -/
def Segment (cells : Cells ι α) : Option ι → List (ι × α) → Option ι → Prop
  | p, [], q => p = q
  | p, a :: l, q => p = some a.1 ∧ ∃ next, cells.lookup a.1 = some ⟨a.2, next⟩ ∧ Segment cells next l q

def Chain (cells : Cells ι α) (p : Option ι) (l : List (ι × α)) : Prop := Segment cells p l none

variable {cells cells' : Cells ι α} {p q : Option ι} {l l' : List (ι × α)} {i j : ι} {a b : α}

@[simp] theorem chain_nil : Chain cells p [] ↔ p = none := Iff.rfl

theorem chain_none (h : Chain cells none l) : l = [] := by
  cases l with
  | nil => rfl
  | cons a l => cases h.1

theorem segment_append :
    Segment cells p (l ++ l') q ↔ ∃ r, Segment cells p l r ∧ Segment cells r l' q := by
  induction l generalizing p with
  | nil => simp [Segment]
  | cons a l ih =>
    simp only [List.cons_append, Segment, ih]
    constructor
    · rintro ⟨hp, next, hn, r, hl, hl'⟩
      exact ⟨r, ⟨hp, next, hn, hl⟩, hl'⟩
    · rintro ⟨r, ⟨hp, next, hn, hl⟩, hl'⟩
      exact ⟨hp, next, hn, r, hl, hl'⟩

theorem chain_append : Chain cells p (l ++ l') ↔ ∃ r, Segment cells p l r ∧ Chain cells r l' := segment_append

/-- The first address determines the cells. -/
theorem chain_unique (h : Chain cells p l) (h' : Chain cells p l') : l = l' := by
  induction l generalizing p l' with
  | nil =>
    rw [chain_nil] at h; subst h
    exact (chain_none h').symm
  | cons a l ih =>
    cases l' with
    | nil =>
      rw [chain_nil] at h'; subst h'
      cases h.1
    | cons b l' =>
      obtain ⟨hp, next, hn, hl⟩ := h
      obtain ⟨hp', next', hn', hl'⟩ := h'
      have hi : a.1 = b.1 := Option.some.inj (hp.symm.trans hp')
      rw [hi, hn'] at hn
      injection Option.some.inj hn with hitem hnext
      subst hnext
      rw [ih hl hl', Prod.ext hi hitem.symm]

/-- A chain does not come back to a cell: it would have to go on from there as
it did before. -/
theorem chain_nodup (h : Chain cells p l) : (l.map Prod.fst).Nodup := by
  induction l generalizing p with
  | nil => exact List.nodup_nil
  | cons a l ih =>
    have ht := h
    obtain ⟨hp, next, hn, hl⟩ := h
    refine List.nodup_cons.mpr ⟨fun hmem => ?_, ih hl⟩
    obtain ⟨b, hb, hab⟩ := List.mem_map.mp hmem
    obtain ⟨s, t, rfl⟩ := List.append_of_mem hb
    obtain ⟨r, _, hr⟩ := chain_append.mp hl
    have hr' : Chain cells p (b :: t) := by
      rw [hp, ← hab, ← hr.1]; exact hr
    have hlen := congrArg List.length (chain_unique ht hr')
    simp only [List.length_cons, List.length_append] at hlen
    omega

theorem segment_mem (h : Segment cells p l q) (hi : i ∈ l.map Prod.fst) : i ∈ cells := by
  induction l generalizing p with
  | nil => cases hi
  | cons a l ih =>
    obtain ⟨_, next, hn, hl⟩ := h
    rcases List.mem_cons.mp hi with rfl | hi
    · exact Finmap.mem_of_lookup_eq_some hn
    · exact ih hl hi

theorem chain_length_le (h : Chain cells p l) : l.length ≤ cells.keys.card := by
  have hsub : (l.map Prod.fst).toFinset ⊆ cells.keys := by
    intro i hi
    exact Finmap.mem_keys.mpr (segment_mem h (List.mem_toFinset.mp hi))
  have hle := Finset.card_le_card hsub
  rwa [List.toFinset_card_of_nodup (chain_nodup h), List.length_map] at hle

/-! ## Changes of the heap -/

theorem segment_congr (hc : ∀ i ∈ l.map Prod.fst, cells'.lookup i = cells.lookup i) (h : Segment cells p l q) :
    Segment cells' p l q := by
  induction l generalizing p with
  | nil => exact h
  | cons a l ih =>
    obtain ⟨hp, next, hn, hl⟩ := h
    refine ⟨hp, next, ?_, ih (fun i hi => hc i (List.mem_cons_of_mem _ hi)) hl⟩
    rw [hc a.1 List.mem_cons_self, hn]

theorem segment_insert (c : Cell ι α) (hi : i ∉ l.map Prod.fst) (h : Segment cells p l q) :
    Segment (cells.insert i c) p l q := by
  apply segment_congr _ h
  intro k hk
  exact Finmap.lookup_insert_of_ne _ (ne_of_mem_of_not_mem hk hi)

theorem segment_erase (hi : i ∉ l.map Prod.fst) (h : Segment cells p l q) : Segment (cells.erase i) p l q := by
  apply segment_congr _ h
  intro k hk
  exact Finmap.lookup_erase_ne (ne_of_mem_of_not_mem hk hi)

theorem chain_cons (a : α) (hi : i ∉ l.map Prod.fst) (h : Chain cells p l) :
    Chain (cells.insert i ⟨a, p⟩) (some i) ((i, a) :: l) :=
  ⟨rfl, p, Finmap.lookup_insert _, segment_insert _ hi h⟩

theorem chain_not_mem (h : Chain cells p (l ++ (i, a) :: l')) : i ∉ l.map Prod.fst ∧ i ∉ l'.map Prod.fst := by
  have hn := chain_nodup h
  rw [List.map_append, List.map_cons, List.nodup_append] at hn
  obtain ⟨_, hc, hd⟩ := hn
  exact ⟨fun hi => hd i hi i List.mem_cons_self rfl, (List.nodup_cons.mp hc).1⟩

theorem chain_lookup (h : Chain cells p (l ++ (i, a) :: l')) :
    ∃ next, cells.lookup i = some ⟨a, next⟩ ∧ Chain cells next l' := by
  obtain ⟨r, _, _, next, hn, hc⟩ := chain_append.mp h
  exact ⟨next, hn, hc⟩

theorem chain_first_ne (h : Chain cells p (l ++ (i, a) :: l')) (hl : l ≠ []) : p ≠ some i := by
  cases l with
  | nil => exact absurd rfl hl
  | cons b l =>
    intro hp
    have hi := (chain_not_mem h).1
    obtain ⟨hp', _⟩ := h
    have hib : i = b.1 := Option.some.inj (hp.symm.trans hp')
    exact hi (hib ▸ List.mem_cons_self)

theorem chain_set {next : Option ι} (b : α) (h : Chain cells p (l ++ (i, a) :: l'))
    (hn : cells.lookup i = some ⟨a, next⟩) :
    Chain (cells.insert i ⟨b, next⟩) p (l ++ (i, b) :: l') := by
  obtain ⟨hl, hl'⟩ := chain_not_mem h
  obtain ⟨r, hs, hr, next', hn', hc⟩ := chain_append.mp h
  rw [hn] at hn'
  injection Option.some.inj hn' with _ hnext
  subst hnext hr
  exact chain_append.mpr ⟨some i, segment_insert _ hl hs, chain_cons b hl' hc⟩

theorem chain_tail {next : Option ι} (h : Chain cells p ((i, a) :: l)) (hn : cells.lookup i = some ⟨a, next⟩) :
    Chain (cells.erase i) next l := by
  have hi := (chain_not_mem (l := []) h).2
  obtain ⟨_, next', hn', hc⟩ := h
  rw [hn] at hn'
  injection Option.some.inj hn' with _ hnext
  subst hnext
  exact segment_erase hi hc

/-- The cell behind `j` is freed, and `j` leads to the one behind it. -/
theorem chain_unlink {next : Option ι} (h : Chain cells p (l ++ (j, b) :: (i, a) :: l'))
    (hn : cells.lookup i = some ⟨a, next⟩) : Chain ((cells.erase i).insert j ⟨b, next⟩) p (l ++ (j, b) :: l') := by
  obtain ⟨hl, hjl⟩ := chain_not_mem h
  have hi : i ∉ (l ++ [(j, b)]).map Prod.fst := by
    have h' : Chain cells p ((l ++ [(j, b)]) ++ (i, a) :: l') := by simpa using h
    exact (chain_not_mem h').1
  rw [List.map_append, List.mem_append, not_or] at hi
  obtain ⟨r, hs, hr, _, _, hc⟩ := chain_append.mp h
  subst hr
  have ht := chain_tail hc hn
  refine chain_append.mpr ⟨some j, segment_insert _ hl (segment_erase hi.1 hs), chain_cons b ?_ ht⟩
  exact fun hj => hjl (List.mem_cons_of_mem _ hj)

end

end Lib
