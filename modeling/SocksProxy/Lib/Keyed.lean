import Mathlib.Data.List.Nodup

/-!
# Lists with keys

Entries are looked up by a key that no two of them share. `without` takes out
what is under a key, before another entry is put in its place.
-/

namespace Lib

section
variable {α β : Type*} [DecidableEq β] (key : α → β)

/-- The entries under other keys than `k`. -/
def without (k : β) (l : List α) : List α := l.filter fun a => decide (key a ≠ k)

/-- No two entries have the same key. -/
def DistinctKeys (l : List α) : Prop := (l.map key).Nodup

variable {key} {a : α} {k : β} {l : List α}

theorem mem_without : a ∈ without key k l ↔ a ∈ l ∧ key a ≠ k := by
  simp [without]

theorem without_eq_self (h : ∀ a ∈ l, key a ≠ k) : without key k l = l :=
  List.filter_eq_self.mpr fun a ha => decide_eq_true (h a ha)

theorem map_without (k : β) (l : List α) :
    (without key k l).map key = (l.map key).filter fun k' => decide (k' ≠ k) := by
  rw [List.filter_map]
  rfl

theorem length_without (hd : DistinctKeys key l) (ha : a ∈ l) : (without key (key a) l).length + 1 = l.length := by
  have herase : (without key (key a) l).map key = (l.map key).erase (key a) := by
    rw [map_without, List.Nodup.erase_eq_filter hd]
    exact List.filter_congr fun k' _ => by by_cases h : k' = key a <;> simp [h]
  have hmem : key a ∈ l.map key := List.mem_map_of_mem ha
  have hlen := congrArg List.length herase
  rw [List.length_map, List.length_erase_of_mem hmem, List.length_map] at hlen
  have hpos := List.length_pos_of_mem ha
  omega

theorem distinctKeys_without (hd : DistinctKeys key l) (k : β) : DistinctKeys key (without key k l) := by
  unfold DistinctKeys
  rw [map_without]
  exact hd.filter _

theorem distinctKeys_replace (hd : DistinctKeys key l) (a : α) : DistinctKeys key (a :: without key (key a) l) := by
  refine List.nodup_cons.mpr ⟨fun hmem => ?_, distinctKeys_without hd _⟩
  obtain ⟨b, hb, hkey⟩ := List.mem_map.mp hmem
  exact (mem_without.mp hb).2 hkey

end

end Lib
