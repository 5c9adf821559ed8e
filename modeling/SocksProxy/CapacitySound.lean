import SocksProxy.SelectorSound
import SocksProxy.Lib.Run
import SocksProxy.Lib.Loop

/-!
# Accesses to the item table

The table grows when a descriptor larger than its size is registered, so the
descriptor that equals the size finds no entry of its own; the other calls do
not look at the size at all. A run of calls stays inside the table exactly if
no call meets one of these two cases (`selector_inside_iff`).
-/

namespace SocksProxy

open Lib

section
variable {η δ : Type}

/-- The entries that a call touches: those that growth initialises, that of the
descriptor, and those among which the largest descriptor is looked for. -/
def SelectorCall.accesses (s : Selector η δ) : SelectorCall η δ → List Nat
  | .register fd handler _ _ alloc =>
    if invalidFd fd ∨ handler.isNone then []
    else
      let (t, ret) := if s.fdSize < fd.toNat then ensureCapacity s fd.toNat alloc else (s, .success)
      List.range' s.fdSize (t.fdSize - s.fdSize) ++ if ret ≠ .success then [] else [fd.toNat]
  | .unregisterFd fd =>
    if invalidFd fd then []
    else fd.toNat :: if (s.fds fd.toNat).used then List.range (s.maxFd + 1) else []
  | .setInterest fd _ => if invalidFd fd then [] else [fd.toNat]

/-- The descriptor of a call has an entry, or gets one. -/
def SelectorCall.HasEntry (s : Selector η δ) : SelectorCall η δ → Prop
  | .register fd handler _ _ _ => (invalidFd fd = false ∧ handler.isSome) → fd.toNat ≠ s.fdSize
  | .unregisterFd fd => invalidFd fd = false → fd.toNat < s.fdSize
  | .setInterest fd _ => invalidFd fd = false → fd.toNat < s.fdSize

variable (hasClose : η → Bool)

/-- Calls one after the other; no call stops the program. -/
def tableStep (s : Selector η δ) (c : SelectorCall η δ) : Except Empty (Selector η δ) := .ok (c.exec hasClose s).1

/-- A call keeps to the table, as it is when the call returns; a registration that succeeds has an
entry, the entries that are new are unused, and a call keeps the registrations of other descriptors. -/
structure TableInside (s : Selector η δ) (c : SelectorCall η δ) : Prop where
  inside : ∀ i ∈ c.accesses s, i < (c.exec hasClose s).1.fdSize
  registered : ∀ fd handler interest data alloc, c = .register fd handler interest data alloc →
    (c.exec hasClose s).2.1 = .success → fd.toNat < (c.exec hasClose s).1.fdSize
  fresh : ∀ fd handler interest data alloc, c = .register fd handler interest data alloc →
    ∀ i, s.fdSize ≤ i → i < (c.exec hasClose s).1.fdSize → i ≠ fd.toNat → ((c.exec hasClose s).1.fds i).used = false
  kept : ∀ fd handler interest data alloc, c = .register fd handler interest data alloc →
    ∀ i < s.fdSize, (s.fds i).used = true → (c.exec hasClose s).1.fds i = s.fds i

/-! ## Growth -/

theorem lt_nextCapacity {n : Nat} (h : n < fdSetsize) : n < nextCapacity n := by
  have hsize := Nat.lt_size_self n
  have hmin : n < min (2 ^ n.size) fdSetsize := Nat.lt_min.mpr ⟨hsize, h⟩
  exact Nat.lt_succ_of_lt hmin

theorem nextCapacity_pos (n : Nat) : 0 < nextCapacity n := Nat.succ_pos _

theorem ensureCapacity_grows {s : Selector η δ} {n : Nat} (h : s.fdSize ≤ n) (hpos : 0 < s.fdSize)
    (hn : n < fdSetsize) :
    ensureCapacity s n true = (itemsInit { s with fdSize := nextCapacity n } s.fdSize, .success) := by
  have hfds : (if s.fdSize = 0 then fun _ => Item.blank else s.fds) = s.fds := if_neg (by omega)
  simp only [ensureCapacity, if_neg (Nat.not_lt.mpr h), if_neg (Nat.not_lt.mpr (Nat.le_of_lt hn)), if_true, hfds]

theorem itemsInit_fds (s : Selector η δ) (last i : Nat) :
    (itemsInit s last).fds i = if last ≤ i ∧ i < s.fdSize then itemInit (s.fds i) else s.fds i := rfl

/-- The table in which `selector_register` looks for the entry of `fd`. -/
def grown (s : Selector η δ) (fd : Nat) (alloc : Bool) : Selector η δ × SelectorStatus :=
  if s.fdSize < fd then ensureCapacity s fd alloc else (s, .success)

/-- A table that has grown, or has not had to. -/
structure Extends (s t : Selector η δ) : Prop where
  fdSize : s.fdSize ≤ t.fdSize
  maxFd : t.maxFd = s.maxFd
  kept : ∀ i < s.fdSize, t.fds i = s.fds i
  fresh : ∀ i, s.fdSize ≤ i → i < t.fdSize → (t.fds i).used = false

theorem extends_refl (s : Selector η δ) : Extends s s :=
  ⟨Nat.le_refl _, rfl, fun _ _ => rfl, fun _ h h' => absurd h' (Nat.not_lt.mpr h)⟩

theorem grown_cases {s : Selector η δ} {fd : Nat} (hpos : 0 < s.fdSize) (hfd : fd < fdSetsize) (alloc : Bool) :
    ((grown s fd alloc).2 ≠ .success ∧ (grown s fd alloc).1 = s ∧ fd ≠ s.fdSize) ∨
      ((grown s fd alloc).2 = .success ∧ Extends s (grown s fd alloc).1 ∧
        (fd < (grown s fd alloc).1.fdSize ↔ fd ≠ s.fdSize)) := by
  unfold grown
  by_cases hlt : s.fdSize < fd
  · rw [if_pos hlt]
    cases alloc with
    | false =>
      have hno : ensureCapacity s fd false = (s, .enomem) := by
        simp only [ensureCapacity, if_neg (Nat.not_lt.mpr (Nat.le_of_lt hlt)),
          if_neg (Nat.not_lt.mpr (Nat.le_of_lt hfd)), Bool.false_eq_true, if_false]
      rw [hno]
      exact Or.inl ⟨(fun h => by cases h), rfl, Nat.ne_of_gt hlt⟩
    | true =>
      rw [ensureCapacity_grows (Nat.le_of_lt hlt) hpos hfd]
      have hcap := lt_nextCapacity hfd
      refine Or.inr ⟨rfl, ⟨?_, rfl, ?_, ?_⟩, iff_of_true hcap (Nat.ne_of_gt hlt)⟩
      · exact Nat.le_of_lt (Nat.lt_trans hlt hcap)
      · intro i hi
        rw [itemsInit_fds, if_neg (fun h => absurd h.1 (Nat.not_le.mpr hi))]
      · intro i hi hi'
        rw [itemsInit_fds, if_pos ⟨hi, hi'⟩]
        rfl
  · rw [if_neg hlt]
    exact Or.inr ⟨rfl, extends_refl s, by simp only; omega⟩

theorem register_cases {s : Selector η δ} {fd : Int} (hv : invalidFd fd = false) (h : η) (i : FdInterest)
    (d : Option δ) (alloc : Bool) :
    ((grown s fd.toNat alloc).2 ≠ .success ∧
        selectorRegister s fd (some h) i d alloc = ((grown s fd.toNat alloc).1, (grown s fd.toNat alloc).2)) ∨
      ((grown s fd.toNat alloc).2 = .success ∧ ((grown s fd.toNat alloc).1.fds fd.toNat).used = true ∧
        selectorRegister s fd (some h) i d alloc = ((grown s fd.toNat alloc).1, .fdinuse)) ∨
      ((grown s fd.toNat alloc).2 = .success ∧ ((grown s fd.toNat alloc).1.fds fd.toNat).used = false ∧
        ∃ t, selectorRegister s fd (some h) i d alloc = (t, .success) ∧
          t.fdSize = (grown s fd.toNat alloc).1.fdSize ∧ t.maxFd = max (grown s fd.toNat alloc).1.maxFd fd.toNat ∧
          t.fds = Function.update (grown s fd.toNat alloc).1.fds fd.toNat ⟨fd, i, some h, d⟩) := by
  have hargs : ¬ (invalidFd fd = true ∨ (some h).isNone = true) := by simp [hv]
  simp only [selectorRegister, if_neg hargs]
  change _ ∨ _
  -- everything after the growth looks at the grown table
  generalize hg : (if s.fdSize < fd.toNat then ensureCapacity s fd.toNat alloc else (s, .success)) = r
  have hr : grown s fd.toNat alloc = r := hg
  rw [hr]
  by_cases hok : r.2 = .success
  · right
    by_cases hu : (r.1.fds fd.toNat).used = true
    · left
      exact ⟨hok, hu, by simp [hok, hu]⟩
    · right
      refine ⟨hok, by simpa using hu, itemsUpdateFdsetForFd { r.1 with
        fds := Function.update r.1.fds fd.toNat ⟨fd, i, some h, d⟩, maxFd := max r.1.maxFd fd.toNat }
        ⟨fd, i, some h, d⟩, ?_, rfl, rfl, rfl⟩
      simp [hok, hu]
  · left
    exact ⟨hok, by simp [hok]⟩

/-! ## Calls -/

structure TableOk (s : Selector η δ) : Prop where
  pos : 0 < s.fdSize
  maxFd : s.maxFd < s.fdSize
  own : ∀ i < s.fdSize, (s.fds i).used = true → (s.fds i).fd = i

theorem itemsMaxFd_le {s : Selector η δ} (h : ∀ i ≤ s.maxFd, (s.fds i).used = true → (s.fds i).fd = i) :
    itemsMaxFd s ≤ s.maxFd := by
  change loop
    (fun (max i : Nat) => if (s.fds i).used ∧ (max : Int) < (s.fds i).fd then (s.fds i).fd.toNat else max)
    0 (s.maxFd + 1) ≤ s.maxFd
  apply loop_keeps (I := fun max => max ≤ s.maxFd) (Nat.zero_le _)
  intro max i hi hle
  split
  · rename_i hu
    rw [h i (Nat.lt_succ_iff.mp hi) hu.1, Int.toNat_natCast]
    exact Nat.lt_succ_iff.mp hi
  · exact hle

theorem tableOk_new {initial : Nat} {alloc : Bool} {s : Selector η δ} (h : selectorNew initial alloc = some s) :
    TableOk s := by
  unfold selectorNew at h
  simp only [ensureCapacity, Nat.not_lt_zero, if_false] at h
  by_cases hmax : fdSetsize < initial
  · simp [hmax] at h
  · cases alloc with
    | false => simp [hmax] at h
    | true =>
      simp only [if_neg hmax, if_true, Option.some.injEq] at h
      subst h
      refine ⟨nextCapacity_pos _, nextCapacity_pos _, ?_⟩
      intro i _ hu
      rw [itemsInit_fds] at hu
      split at hu
      · cases hu
      · cases hu

theorem valid_lt {fd : Int} (h : invalidFd fd = false) : fd.toNat < fdSetsize ∧ fd = fd.toNat := by
  simp only [invalidFd, decide_eq_false_iff_not, not_or, Int.not_lt, Int.not_le] at h
  omega

theorem accesses_register {s : Selector η δ} {fd : Int} (hv : invalidFd fd = false) (h : η) (i : FdInterest)
    (d : Option δ) (alloc : Bool) : (SelectorCall.register fd (some h) i d alloc).accesses s =
      List.range' s.fdSize ((grown s fd.toNat alloc).1.fdSize - s.fdSize) ++
        if (grown s fd.toNat alloc).2 ≠ .success then [] else [fd.toNat] := by
  simp only [SelectorCall.accesses, hv, Bool.false_eq_true, Option.isNone_some, or_self, if_false]
  rfl

/-- A registration, in the table it finds or grows. -/
structure Registered (s t : Selector η δ) (fd : Int) : Prop where
  size : s.fdSize ≤ t.fdSize
  bound : fd.toNat ≠ s.fdSize → t.maxFd < t.fdSize
  kept : ∀ n < s.fdSize, (s.fds n).used = true → t.fds n = s.fds n
  fresh : ∀ n, s.fdSize ≤ n → n < t.fdSize → n ≠ fd.toNat → (t.fds n).used = false
  own : fd.toNat ≠ s.fdSize → ∀ n < t.fdSize, (t.fds n).used = true → (t.fds n).fd = n

theorem registered_extends {s t : Selector η δ} (hs : TableOk s) (h : Extends s t) (fd : Int) :
    Registered s t fd := by
  refine ⟨h.fdSize, ?_, fun n hn _ => h.kept n hn, fun n hn hn' _ => h.fresh n hn hn', ?_⟩
  · intro _
    rw [h.maxFd]
    exact Nat.lt_of_lt_of_le hs.maxFd h.fdSize
  · intro _ n hn hu
    by_cases hold : n < s.fdSize
    · rw [h.kept n hold] at hu ⊢
      exact hs.own n hold hu
    · rw [h.fresh n (Nat.not_lt.mp hold) hn] at hu
      cases hu

theorem registered_update {s t u : Selector η δ} {fd : Int} (hv : invalidFd fd = false) (h : Registered s t fd)
    (hfd : fd.toNat < t.fdSize ↔ fd.toNat ≠ s.fdSize) {item : Item η δ} (hitem : item.fd = fd)
    (hfree : (t.fds fd.toNat).used = false) (hsize : u.fdSize = t.fdSize) (hmax : u.maxFd = max t.maxFd fd.toNat)
    (hfds : u.fds = Function.update t.fds fd.toNat item) : Registered s u fd := by
  refine ⟨hsize ▸ h.size, ?_, ?_, ?_, ?_⟩
  · intro hne
    rw [hmax, hsize]
    exact Nat.max_lt.mpr ⟨h.bound hne, hfd.mpr hne⟩
  · intro n hn hu
    have hkept := h.kept n hn hu
    have hne : n ≠ fd.toNat := by
      intro hn'
      rw [← hkept, hn', hfree] at hu
      cases hu
    rw [hfds, Function.update_of_ne hne, hkept]
  · intro n hn hn' hne
    rw [hfds, Function.update_of_ne hne]
    exact h.fresh n hn (hsize ▸ hn') hne
  · intro hne n hn hu
    rw [hfds] at hu ⊢
    by_cases heq : n = fd.toNat
    · rw [heq, Function.update_self, hitem]
      exact (valid_lt hv).2
    · rw [Function.update_of_ne heq] at hu ⊢
      exact h.own hne n (hsize ▸ hn) hu

theorem exec_register {s : Selector η δ} (hs : TableOk s) {fd : Int} (hv : invalidFd fd = false) (h : η)
    (i : FdInterest) (d : Option δ) (alloc : Bool) :
    Registered s (selectorRegister s fd (some h) i d alloc).1 fd ∧
      ((∀ n ∈ (SelectorCall.register fd (some h) i d alloc).accesses s,
        n < (selectorRegister s fd (some h) i d alloc).1.fdSize) ↔ fd.toNat ≠ s.fdSize) ∧
      (fd.toNat ≠ s.fdSize → (selectorRegister s fd (some h) i d alloc).2 = .success →
        fd.toNat < (selectorRegister s fd (some h) i d alloc).1.fdSize) := by
  have hgrown := grown_cases hs.pos (valid_lt hv).1 alloc
  have hreg := register_cases (s := s) hv h i d alloc
  have hacc := accesses_register (s := s) hv h i d alloc
  generalize grown s fd.toNat alloc = r at hgrown hreg hacc
  -- the fresh entries are in the table, so the descriptor decides
  have hrange : ∀ {b : Nat}, s.fdSize ≤ b → ((∀ n ∈ List.range' s.fdSize (b - s.fdSize) ++ [fd.toNat], n < b) ↔
      fd.toNat < b) := by
    intro b hb
    simp only [List.mem_append, List.mem_range'_1, List.mem_singleton]
    constructor
    · intro hall
      exact hall fd.toNat (Or.inr rfl)
    · intro hlt n hn
      omega
  rcases hgrown with ⟨hno, hr, hne⟩ | ⟨hok, hext, hfd⟩
  · -- the table could not grow, and the descriptor was past its end
    rcases hreg with ⟨_, he⟩ | ⟨hok, _⟩ | ⟨hok, _⟩
    · rw [he, hr]
      refine ⟨registered_extends hs (extends_refl s) fd, ?_, fun _ h => absurd h hno⟩
      refine iff_of_true ?_ hne
      rw [hacc, hr, if_pos hno, Nat.sub_self]
      intro n hn
      cases hn
    · exact absurd hok hno
    · exact absurd hok hno
  · rw [if_neg (by rw [hok]; decide)] at hacc
    have hext' := registered_extends hs hext fd
    rcases hreg with ⟨hno, _⟩ | ⟨_, _, he⟩ | ⟨_, hfree, t, he, hsize, hmax, hfds⟩
    · exact absurd hok hno
    · rw [he, hacc, hrange hext.fdSize]
      exact ⟨hext', hfd, fun hne _ => hfd.mpr hne⟩
    · rw [he, hacc]
      simp only [hsize]
      rw [hrange hext.fdSize]
      exact ⟨registered_update hv hext' hfd rfl hfree hsize hmax hfds, hfd, fun hne _ => hfd.mpr hne⟩

theorem register_invalid {s : Selector η δ} {fd : Int} {handler : Option η}
    (h : ¬ (invalidFd fd = false ∧ handler.isSome)) (i : FdInterest) (d : Option δ) (alloc : Bool) :
    selectorRegister s fd handler i d alloc = (s, .iargs) ∧
      (SelectorCall.register fd handler i d alloc).accesses s = [] := by
  have hargs : invalidFd fd = true ∨ handler.isNone = true := by
    cases hv : invalidFd fd with
    | true => exact Or.inl rfl
    | false =>
      cases handler with
      | none => exact Or.inr rfl
      | some h' => exact absurd ⟨hv, rfl⟩ h
  constructor
  · simp only [selectorRegister, if_pos hargs]
  · simp only [SelectorCall.accesses, if_pos hargs]

theorem unregister_fdSize (s : Selector η δ) (fd : Int) : (selectorUnregisterFd s fd).1.fdSize = s.fdSize :=
  (changedAt_unregister s fd none).1

theorem setInterest_fdSize (s : Selector η δ) (fd : Int) (i : FdInterest) :
    (selectorSetInterest s fd i).1.fdSize = s.fdSize :=
  (changedAt_setInterest s fd i none).1

theorem register_tableInside {s : Selector η δ} (hs : TableOk s) (fd : Int) (handler : Option η)
    (interest : FdInterest) (data : Option δ) (alloc : Bool) :
    TableInside hasClose s (.register fd handler interest data alloc) ↔
      (SelectorCall.register fd handler interest data alloc).HasEntry s := by
  by_cases hargs : invalidFd fd = false ∧ handler.isSome
  · obtain ⟨hv, hsome⟩ := hargs
    obtain ⟨h, rfl⟩ := Option.isSome_iff_exists.mp hsome
    obtain ⟨hreg, hacc, hsuccess⟩ := exec_register hs hv h interest data alloc
    constructor
    · intro hin _
      exact hacc.mp hin.inside
    · -- only a descriptor equal to the size is taken for one that has room
      intro hentry
      have hne := hentry ⟨hv, rfl⟩
      refine ⟨hacc.mpr hne, ?_, ?_, ?_⟩
      · intro _ _ _ _ _ hc hret
        cases hc
        exact hsuccess hne hret
      · intro _ _ _ _ _ hc i hi hi' hne'
        cases hc
        exact hreg.fresh i hi hi' hne'
      · intro _ _ _ _ _ hc i hi hu
        cases hc
        exact hreg.kept i hi hu
  · -- `selector_register` looks at its arguments before the table
    obtain ⟨he, hacc⟩ := register_invalid (s := s) hargs interest data alloc
    have hexec : (SelectorCall.register fd handler interest data alloc).exec hasClose s = (s, .iargs, []) := by
      simp only [SelectorCall.exec, he]
    refine iff_of_true ⟨?_, ?_, ?_, ?_⟩ fun h => absurd h hargs
    · rw [hacc]
      intro i hi
      cases hi
    · intro _ _ _ _ _ _ hret
      rw [hexec] at hret
      cases hret
    · intro _ _ _ _ _ _ i hi hi'
      rw [hexec] at hi'
      exact absurd hi' (Nat.not_lt.mpr hi)
    · intro _ _ _ _ _ _ i _ _
      rw [hexec]

/-- A call that registers nothing is inside the table if the entries it looks at are. -/
theorem tableInside_lookup {s : Selector η δ} {c : SelectorCall η δ}
    (hc : ∀ fd handler interest data alloc, c ≠ .register fd handler interest data alloc)
    (hin : ∀ i ∈ c.accesses s, i < (c.exec hasClose s).1.fdSize) : TableInside hasClose s c where
  inside := hin
  registered _ _ _ _ _ h := absurd h (hc _ _ _ _ _)
  fresh _ _ _ _ _ h := absurd h (hc _ _ _ _ _)
  kept _ _ _ _ _ h := absurd h (hc _ _ _ _ _)

theorem unregister_tableInside {s : Selector η δ} (hs : TableOk s) (fd : Int) :
    TableInside hasClose s (.unregisterFd fd) ↔ (SelectorCall.unregisterFd fd : SelectorCall η δ).HasEntry s := by
  have hsize : ((SelectorCall.unregisterFd fd).exec hasClose s).1.fdSize = s.fdSize := unregister_fdSize s fd
  constructor
  · intro hin hv
    have hmem : fd.toNat ∈ (SelectorCall.unregisterFd fd).accesses s := by simp [SelectorCall.accesses, hv]
    exact hsize ▸ hin.inside fd.toNat hmem
  · intro hentry
    refine tableInside_lookup hasClose (fun _ _ _ _ _ h => by cases h) fun i hi => ?_
    rw [hsize]
    simp only [SelectorCall.accesses] at hi
    split at hi
    · cases hi
    · rename_i hv
      -- the descriptor's entry, then those that `items_max_fd` looks through
      rcases List.mem_cons.mp hi with heq | hrange
      · rw [heq]
        exact hentry (by simpa using hv)
      · split at hrange
        · exact Nat.lt_of_lt_of_le (List.mem_range.mp hrange) hs.maxFd
        · cases hrange

theorem setInterest_tableInside (s : Selector η δ) (fd : Int) (interest : FdInterest) :
    TableInside hasClose s (.setInterest fd interest) ↔
      (SelectorCall.setInterest fd interest : SelectorCall η δ).HasEntry s := by
  have hsize : ((SelectorCall.setInterest fd interest).exec hasClose s).1.fdSize = s.fdSize :=
    setInterest_fdSize s fd interest
  constructor
  · intro hin hv
    have hmem : fd.toNat ∈ (SelectorCall.setInterest fd interest).accesses s := by
      simp [SelectorCall.accesses, hv]
    exact hsize ▸ hin.inside fd.toNat hmem
  · intro hentry
    refine tableInside_lookup hasClose (fun _ _ _ _ _ h => by cases h) fun i hi => ?_
    rw [hsize]
    simp only [SelectorCall.accesses] at hi
    split at hi
    · cases hi
    · rename_i hv
      -- no other entry is looked at
      rw [List.mem_singleton.mp hi]
      exact hentry (by simpa using hv)

/-- A call stays inside the table exactly if its descriptor has an entry. -/
theorem tableInside_iff {s : Selector η δ} (hs : TableOk s) (c : SelectorCall η δ) :
    TableInside hasClose s c ↔ c.HasEntry s := by
  cases c with
  | register fd handler interest data alloc => exact register_tableInside hasClose hs fd handler interest data alloc
  | unregisterFd fd => exact unregister_tableInside hasClose hs fd
  | setInterest fd interest => exact setInterest_tableInside hasClose s fd interest

/-! ## Runs -/

theorem tableOk_update {s : Selector η δ} (hs : TableOk s) (n : Nat) (item : Item η δ)
    (h : item.used = true → item.fd = n) :
    TableOk { s with fds := Function.update s.fds n item } := by
  refine ⟨hs.pos, hs.maxFd, ?_⟩
  intro i hi hu
  change (Function.update s.fds n item i).fd = i
  change (Function.update s.fds n item i).used = true at hu
  by_cases heq : i = n
  · rw [heq, Function.update_self] at hu ⊢
    exact h hu
  · rw [Function.update_of_ne heq] at hu ⊢
    exact hs.own i hi hu

theorem tableOk_unregister {s : Selector η δ} (hs : TableOk s) (fd : Int) :
    TableOk (selectorUnregisterFd s fd).1 := by
  by_cases hv : invalidFd fd = true
  · simp only [selectorUnregisterFd, hv, if_true]
    exact hs
  · by_cases hu : (s.fds fd.toNat).used = true
    · simp only [selectorUnregisterFd, hv, hu, Bool.false_eq_true, if_false, if_true]
      have hblank := tableOk_update hs fd.toNat Item.blank (fun h => by cases h)
      refine ⟨hs.pos, ?_, hblank.own⟩
      apply Nat.lt_of_le_of_lt _ hs.maxFd
      apply itemsMaxFd_le
      intro i hi
      exact hblank.own i (Nat.lt_of_le_of_lt hi hs.maxFd)
    · simp only [selectorUnregisterFd, hv, hu, Bool.false_eq_true, if_false]
      exact hs

theorem tableOk_setInterest {s : Selector η δ} (hs : TableOk s) {fd : Int}
    (hfd : invalidFd fd = false → fd.toNat < s.fdSize) (i : FdInterest) :
    TableOk (selectorSetInterest s fd i).1 := by
  by_cases hv : invalidFd fd = true
  · simp only [selectorSetInterest, hv, if_true]
    exact hs
  · by_cases hu : (s.fds fd.toNat).used = true
    · simp only [selectorSetInterest, hv, hu, Bool.false_eq_true, if_false, if_true]
      have hown := hs.own fd.toNat (hfd (by simpa using hv)) hu
      have hset := tableOk_update hs fd.toNat { s.fds fd.toNat with interest := i } (fun _ => hown)
      exact ⟨hs.pos, hs.maxFd, hset.own⟩
    · simp only [selectorSetInterest, hv, hu, Bool.false_eq_true, if_false]
      exact hs

theorem tableOk_step {s t : Selector η δ} {c : SelectorCall η δ} (hs : TableOk s) (hentry : c.HasEntry s)
    (h : tableStep hasClose s c = .ok t) : TableOk t := by
  simp only [tableStep, Except.ok.injEq] at h
  subst h
  cases c with
  | register fd handler interest data alloc =>
    by_cases hargs : invalidFd fd = false ∧ handler.isSome
    · have hne := hentry hargs
      obtain ⟨hv, hsome⟩ := hargs
      obtain ⟨h, rfl⟩ := Option.isSome_iff_exists.mp hsome
      obtain ⟨hreg, -, -⟩ := exec_register hs hv h interest data alloc
      exact ⟨Nat.lt_of_lt_of_le hs.pos hreg.size, hreg.bound hne, hreg.own hne⟩
    · have he := (register_invalid (s := s) hargs interest data alloc).1
      simp only [SelectorCall.exec, he]
      exact hs
  | unregisterFd fd => exact tableOk_unregister hs fd
  | setInterest fd interest => exact tableOk_setInterest hs hentry interest

/-- A run of calls on a new selector stays inside the item table exactly if no
registration is for the descriptor that equals the size of the table, and no
other call for one that is not smaller. -/
theorem selector_inside_iff {initial : Nat} {alloc : Bool} {s : Selector η δ}
    (hnew : selectorNew initial alloc = some s) (calls : List (SelectorCall η δ)) :
    Along (tableStep hasClose) (TableInside hasClose) s calls ↔
      Along (tableStep hasClose) (fun s c => c.HasEntry s) s calls := by
  apply along_iff (J := TableOk)
  · intro s c hs
    exact tableInside_iff hasClose hs c
  · intro s c t hs hentry hstep
    exact tableOk_step hasClose hs hentry hstep
  · exact tableOk_new hnew

end

def noClose : Unit → Bool := fun _ => false

/-- A selector that is made for the descriptor `0`: two entries. -/
def smallSelector : Selector Unit Unit :=
  itemsInit ⟨fun _ => .blank, 2, 0, fun _ => false, fun _ => false, fun _ => false, fun _ => false⟩ 0

theorem smallSelector_new : selectorNew 0 true = some smallSelector := by
  have hcap : nextCapacity 0 = 2 := by decide
  simp only [selectorNew, ensureCapacity, Nat.not_lt_zero, if_false, if_true, hcap]
  rfl

theorem selector_inside_small :
    selectorNew 0 true = some smallSelector ∧
      Along (tableStep noClose) (TableInside noClose) smallSelector
        [.register 1 (some ()) opRead none true, .unregisterFd 1] := by
  refine ⟨smallSelector_new, (selector_inside_iff noClose smallSelector_new _).mpr ?_⟩
  constructor
  · intro _
    decide
  · intro s hs
    have hsize : s.fdSize = 2 := by
      cases hs
      rfl
    constructor
    · intro _
      rw [hsize]
      decide
    · intro _ _
      trivial

/-- The descriptor that equals the size of the table. -/
theorem register_outside :
    selectorNew 0 true = some smallSelector ∧
      ¬ Along (tableStep noClose) (TableInside noClose) smallSelector [.register 2 (some ()) opRead none true] := by
  refine ⟨smallSelector_new, ?_⟩
  intro h
  have hin := (tableInside_iff noClose (tableOk_new smallSelector_new) _).mp h.1
  exact hin ⟨rfl, rfl⟩ rfl

end SocksProxy
