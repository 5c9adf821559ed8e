import Mathlib.Algebra.Ring.Nat
import Mathlib.Data.Nat.Size
import Mathlib.Logic.Function.Basic
import Mathlib.Tactic.Common

/-!
# The selector (`selector.c`)

A table of registrations indexed by descriptor, with the interest sets handed
to `select`. `fds` is the memory from the table on: only the first `fdSize`
entries are allocated. Handlers and attached data are left abstract.
-/

namespace SocksProxy

def fdSetsize : Nat := 1024

/-! ## Interests -/

/-- `fd_interest`: the two bits of the mask. -/
structure FdInterest where
  read : Bool
  write : Bool
  deriving DecidableEq, Repr

def opNoop : FdInterest := ⟨false, false⟩
def opRead : FdInterest := ⟨true, false⟩
def opWrite : FdInterest := ⟨false, true⟩
def opReadWrite : FdInterest := ⟨true, true⟩

inductive Readiness where
  | read
  | write
  deriving DecidableEq, Repr

def FdInterest.has (i : FdInterest) : Readiness → Bool
  | .read => i.read
  | .write => i.write

inductive SelectorStatus where
  | success
  | enomem
  | maxfd
  | iargs
  | fdinuse
  | io
  deriving DecidableEq, Repr

/-! ## The table -/

structure Item (η δ : Type) where
  fd : Int
  interest : FdInterest
  handler : Option η
  data : Option δ
  deriving DecidableEq, Repr

def fdUnused : Int := -1

section
variable {η δ : Type}

def Item.used (i : Item η δ) : Bool := decide (i.fd ≠ fdUnused)

def itemInit (i : Item η δ) : Item η δ := { i with fd := fdUnused }

/-- An entry of zeroed memory, after `item_init`. -/
def Item.blank : Item η δ := ⟨fdUnused, opNoop, none, none⟩

structure Selector (η δ : Type) where
  fds : Nat → Item η δ
  fdSize : Nat
  maxFd : Nat
  masterR : Nat → Bool
  masterW : Nat → Bool
  slaveR : Nat → Bool
  slaveW : Nat → Bool

def nextCapacity (n : Nat) : Nat := min (2 ^ n.size) fdSetsize + 1

def itemsInit (s : Selector η δ) (last : Nat) : Selector η δ :=
  { s with fds := fun i => if last ≤ i ∧ i < s.fdSize then itemInit (s.fds i) else s.fds i }

def itemsMaxFd (s : Selector η δ) : Nat :=
  (List.range (s.maxFd + 1)).foldl
    (fun max i => if (s.fds i).used ∧ (max : Int) < (s.fds i).fd then (s.fds i).fd.toNat else max) 0

def itemsUpdateFdsetForFd (s : Selector η δ) (item : Item η δ) : Selector η δ :=
  { s with
    masterR := Function.update s.masterR item.fd.toNat (item.used && item.interest.read)
    masterW := Function.update s.masterW item.fd.toNat (item.used && item.interest.write) }

/-- `alloc` is whether `calloc` or `realloc` finds memory. -/
def ensureCapacity (s : Selector η δ) (n : Nat) (alloc : Bool) : Selector η δ × SelectorStatus :=
  if n < s.fdSize then (s, .success)
  else if fdSetsize < n then (s, .maxfd)
  else if alloc then
    let fds := if s.fdSize = 0 then fun _ => .blank else s.fds
    (itemsInit { s with fds := fds, fdSize := nextCapacity n } s.fdSize, .success)
  else (s, .enomem)

def selectorNew (initialElements : Nat) (alloc : Bool) : Option (Selector η δ) :=
  let s : Selector η δ := ⟨fun _ => .blank, 0, 0, fun _ => false, fun _ => false, fun _ => false, fun _ => false⟩
  match ensureCapacity s initialElements alloc with
  | (s, .success) => some s
  | _ => none

def invalidFd (fd : Int) : Bool := decide (fd < 0 ∨ (fdSetsize : Int) ≤ fd)

def selectorRegister (s : Selector η δ) (fd : Int) (handler : Option η) (interest : FdInterest) (data : Option δ)
    (alloc : Bool) : Selector η δ × SelectorStatus :=
  if invalidFd fd ∨ handler.isNone then (s, .iargs)
  else
    let ufd := fd.toNat
    let (s, ret) := if s.fdSize < ufd then ensureCapacity s ufd alloc else (s, .success)
    if ret ≠ .success then (s, ret)
    else if (s.fds ufd).used then (s, .fdinuse)
    else
      let item : Item η δ := ⟨fd, interest, handler, data⟩
      let s := { s with fds := Function.update s.fds ufd item, maxFd := max s.maxFd ufd }
      (itemsUpdateFdsetForFd s item, .success)

/-- The third component is the registration whose `handle_close` is called
before the entry is cleared. -/
def selectorUnregisterFd (s : Selector η δ) (fd : Int) : Selector η δ × SelectorStatus × Option (Item η δ) :=
  if invalidFd fd then (s, .iargs, none)
  else
    let item := s.fds fd.toNat
    if item.used then
      let s := itemsUpdateFdsetForFd s { item with interest := opNoop }
      let s := { s with fds := Function.update s.fds fd.toNat .blank }
      ({ s with maxFd := itemsMaxFd s }, .success, some item)
    else (s, .iargs, none)

def selectorSetInterest (s : Selector η δ) (fd : Int) (i : FdInterest) : Selector η δ × SelectorStatus :=
  if invalidFd fd then (s, .iargs)
  else
    let item := s.fds fd.toNat
    if item.used then
      let item := { item with interest := i }
      (itemsUpdateFdsetForFd { s with fds := Function.update s.fds fd.toNat item } item, .success)
    else (s, .iargs)

/-! ## What the operations do to the table -/

theorem selectorSetInterest_used {s : Selector η δ} {fd : Int} (hv : invalidFd fd = false)
    (hu : (s.fds fd.toNat).used = true) (i : FdInterest) :
    (selectorSetInterest s fd i).2 = .success ∧ (selectorSetInterest s fd i).1.fdSize = s.fdSize ∧
      (selectorSetInterest s fd i).1.fds =
        Function.update s.fds fd.toNat { s.fds fd.toNat with interest := i } := by
  simp [selectorSetInterest, hv, hu, itemsUpdateFdsetForFd]

theorem selectorRegister_free {s : Selector η δ} {fd : Int} (hv : invalidFd fd = false) (hs : fd.toNat ≤ s.fdSize)
    (hu : (s.fds fd.toNat).used = false) (h : η) (i : FdInterest) (d : Option δ) (alloc : Bool) :
    (selectorRegister s fd (some h) i d alloc).2 = .success ∧
      (selectorRegister s fd (some h) i d alloc).1.fdSize = s.fdSize ∧
      (selectorRegister s fd (some h) i d alloc).1.fds = Function.update s.fds fd.toNat ⟨fd, i, some h, d⟩ := by
  simp [selectorRegister, hv, hu, Nat.not_lt.mpr hs, itemsUpdateFdsetForFd]

/-- In a table large enough for every descriptor, a registration that is
refused leaves the selector as it was. -/
theorem selectorRegister_refused {s : Selector η δ} {fd : Int} (hs : fdSetsize < s.fdSize) (h : η) (i : FdInterest)
    (d : Option δ) (alloc : Bool) (hr : (selectorRegister s fd (some h) i d alloc).2 ≠ .success) :
    (selectorRegister s fd (some h) i d alloc).1 = s := by
  unfold selectorRegister at hr ⊢
  by_cases hv : invalidFd fd = true
  · simp [hv]
  · have hlt : ¬ s.fdSize < fd.toNat := by
      simp only [invalidFd, decide_eq_true_eq] at hv; omega
    by_cases hu : (s.fds fd.toNat).used = true
    · simp [hv, hlt, hu]
    · simp [hv, hlt, hu] at hr

theorem selectorRegister_success {s : Selector η δ} {fd : Int} (hs : fdSetsize < s.fdSize) {h : η} {i : FdInterest}
    {d : Option δ} {alloc : Bool} (hr : (selectorRegister s fd (some h) i d alloc).2 = .success) :
    invalidFd fd = false ∧ (s.fds fd.toNat).used = false := by
  unfold selectorRegister at hr
  by_cases hv : invalidFd fd = true
  · simp [hv] at hr
  · have hlt : ¬ s.fdSize < fd.toNat := by
      simp only [invalidFd, decide_eq_true_eq] at hv; omega
    by_cases hu : (s.fds fd.toNat).used = true
    · simp [hv, hlt, hu] at hr
    · exact ⟨by simpa using hv, by simpa using hu⟩

theorem selectorUnregisterFd_used {s : Selector η δ} {fd : Int} (hv : invalidFd fd = false)
    (hu : (s.fds fd.toNat).used = true) :
    (selectorUnregisterFd s fd).2 = (.success, some (s.fds fd.toNat)) ∧
      (selectorUnregisterFd s fd).1.fdSize = s.fdSize ∧
      (selectorUnregisterFd s fd).1.fds = Function.update s.fds fd.toNat .blank := by
  simp [selectorUnregisterFd, hv, hu, itemsUpdateFdsetForFd]

/-- `t` differs from `s` at the descriptor `fd` only, and there carries the
data it carried before or `d`. -/
def ChangedAt (fd : Int) (d : Option δ) (s t : Selector η δ) : Prop :=
  t.fdSize = s.fdSize ∧
    ∀ n, t.fds n = s.fds n ∨
      ((n : Int) = fd ∧ ((t.fds n).used = true →
        (t.fds n).data = d ∨ ((s.fds n).used = true ∧ (t.fds n).data = (s.fds n).data)))

theorem changedAt_refl (fd : Int) (d : Option δ) (s : Selector η δ) : ChangedAt fd d s s :=
  ⟨rfl, fun _ => Or.inl rfl⟩

theorem changedAt_update {fd : Int} {d : Option δ} {s t : Selector η δ} {i : Item η δ} (hv : invalidFd fd = false)
    (hs : t.fdSize = s.fdSize) (ht : t.fds = Function.update s.fds fd.toNat i)
    (hi : i.used = true → i.data = d ∨ ((s.fds fd.toNat).used = true ∧ i.data = (s.fds fd.toNat).data)) :
    ChangedAt fd d s t := by
  refine ⟨hs, fun n => ?_⟩
  by_cases hn : n = fd.toNat
  · subst hn
    refine Or.inr ⟨?_, by rw [ht, Function.update_self]; exact hi⟩
    simp only [invalidFd, decide_eq_false_iff_not] at hv; omega
  · exact Or.inl (by rw [ht, Function.update_of_ne hn])

theorem changedAt_setInterest (s : Selector η δ) (fd : Int) (i : FdInterest) (d : Option δ) :
    ChangedAt fd d s (selectorSetInterest s fd i).1 := by
  by_cases hv : invalidFd fd = true
  · simp only [selectorSetInterest, hv, ite_true]; exact changedAt_refl _ _ _
  · rw [Bool.not_eq_true] at hv
    by_cases hu : (s.fds fd.toNat).used = true
    · obtain ⟨-, h2, h3⟩ := selectorSetInterest_used hv hu i
      exact changedAt_update hv h2 h3 fun _ => Or.inr ⟨hu, rfl⟩
    · simp only [selectorSetInterest, hv, hu, Bool.false_eq_true, ite_false]; exact changedAt_refl _ _ _

theorem changedAt_register {s : Selector η δ} (hs : fdSetsize < s.fdSize) (fd : Int) (h : η) (i : FdInterest)
    (d : Option δ) (alloc : Bool) : ChangedAt fd d s (selectorRegister s fd (some h) i d alloc).1 := by
  by_cases hr : (selectorRegister s fd (some h) i d alloc).2 = .success
  · obtain ⟨hv, hu⟩ := selectorRegister_success hs hr
    have hle : fd.toNat ≤ s.fdSize := by
      simp only [invalidFd, decide_eq_false_iff_not] at hv; omega
    obtain ⟨-, h2, h3⟩ := selectorRegister_free hv hle hu h i d alloc
    exact changedAt_update hv h2 h3 fun _ => Or.inl rfl
  · rw [selectorRegister_refused hs h i d alloc hr]; exact changedAt_refl _ _ _

theorem changedAt_unregister (s : Selector η δ) (fd : Int) (d : Option δ) :
    ChangedAt fd d s (selectorUnregisterFd s fd).1 := by
  by_cases hv : invalidFd fd = true
  · simp only [selectorUnregisterFd, hv, ite_true]; exact changedAt_refl _ _ _
  · rw [Bool.not_eq_true] at hv
    by_cases hu : (s.fds fd.toNat).used = true
    · obtain ⟨-, h2, h3⟩ := selectorUnregisterFd_used hv hu
      exact changedAt_update hv h2 h3 fun hb => absurd hb Bool.false_ne_true
    · simp only [selectorUnregisterFd, hv, hu, Bool.false_eq_true, ite_false]; exact changedAt_refl _ _ _

/-- `t` differs from `s` by interests, and by new registrations that carry `d`. -/
structure OnlyAdds (d : Option δ) (s t : Selector η δ) : Prop where
  fdSize : t.fdSize = s.fdSize
  kept : ∀ n, (s.fds n).used = true → (t.fds n).used = true ∧ (t.fds n).data = (s.fds n).data
  added : ∀ n, (t.fds n).used = true → (s.fds n).used = true ∨ (t.fds n).data = d

theorem onlyAdds_refl (d : Option δ) (s : Selector η δ) : OnlyAdds d s s :=
  ⟨rfl, fun _ h => ⟨h, rfl⟩, fun _ => Or.inl⟩

theorem onlyAdds_trans {d : Option δ} {s t u : Selector η δ} (h : OnlyAdds d s t) (h' : OnlyAdds d t u) :
    OnlyAdds d s u := by
  refine ⟨h'.fdSize.trans h.fdSize, fun n hn => ?_, fun n hn => ?_⟩
  · obtain ⟨hu, hd⟩ := h.kept n hn
    exact ⟨(h'.kept n hu).1, (h'.kept n hu).2.trans hd⟩
  · rcases h'.added n hn with hu | hd
    · rcases h.added n hu with hu' | hd
      · exact Or.inl hu'
      · exact Or.inr ((h'.kept n hu).2.trans hd)
    · exact Or.inr hd

theorem onlyAdds_setInterest (d : Option δ) (s : Selector η δ) (fd : Int) (i : FdInterest) :
    OnlyAdds d s (selectorSetInterest s fd i).1 := by
  by_cases hv : invalidFd fd = true
  · simp only [selectorSetInterest, hv, ite_true]; exact onlyAdds_refl _ _
  · rw [Bool.not_eq_true] at hv
    by_cases hu : (s.fds fd.toNat).used = true
    · obtain ⟨-, h2, h3⟩ := selectorSetInterest_used hv hu i
      refine ⟨h2, fun n hn => ?_, fun n hn => ?_⟩
      · rw [h3]
        by_cases hne : n = fd.toNat
        · rw [hne, Function.update_self]; exact ⟨hu, rfl⟩
        · rw [Function.update_of_ne hne]; exact ⟨hn, rfl⟩
      · by_cases hne : n = fd.toNat
        · exact Or.inl (hne ▸ hu)
        · rw [h3, Function.update_of_ne hne] at hn; exact Or.inl hn
    · simp only [selectorSetInterest, hv, hu, Bool.false_eq_true, ite_false]; exact onlyAdds_refl _ _

theorem onlyAdds_register {s : Selector η δ} (hs : fdSetsize < s.fdSize) (fd : Int) (h : η) (i : FdInterest)
    (d : Option δ) (alloc : Bool) : OnlyAdds d s (selectorRegister s fd (some h) i d alloc).1 := by
  by_cases hr : (selectorRegister s fd (some h) i d alloc).2 = .success
  · obtain ⟨hv, hu⟩ := selectorRegister_success hs hr
    have hle : fd.toNat ≤ s.fdSize := by
      simp only [invalidFd, decide_eq_false_iff_not] at hv; omega
    obtain ⟨-, h2, h3⟩ := selectorRegister_free hv hle hu h i d alloc
    refine ⟨h2, fun n hn => ?_, fun n hn => ?_⟩
    · have hne : n ≠ fd.toNat := by rintro rfl; exact absurd (hu.symm.trans hn) Bool.false_ne_true
      rw [h3, Function.update_of_ne hne]; exact ⟨hn, rfl⟩
    · by_cases hne : n = fd.toNat
      · exact Or.inr (by rw [h3, hne, Function.update_self])
      · rw [h3, Function.update_of_ne hne] at hn; exact Or.inl hn
  · rw [selectorRegister_refused hs h i d alloc hr]; exact onlyAdds_refl _ _

@[simp] theorem used_blank : (Item.blank : Item η δ).used = false := rfl

theorem used_of_valid {i : Item η δ} (h : invalidFd i.fd = false) : i.used = true := by
  simp only [invalidFd, decide_eq_false_iff_not, not_or, Int.not_lt] at h
  exact decide_eq_true (by unfold fdUnused; omega)

theorem used_of_fd {i : Item η δ} {n : Nat} (h : i.fd = n) : i.used = true := by
  simp only [Item.used, fdUnused, h, decide_eq_true_eq]; omega

end

end SocksProxy
