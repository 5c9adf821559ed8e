import SocksProxy.Lib.Slots
import SocksProxy.Selector

/-!
# The selector is a table of registrations

`Registrations` is what the selector is for: which descriptors are registered,
and with what. The table, the two descriptor sets and the cached maximum mirror
it after every sequence of calls, and `handle_close` runs once for every
registration.
-/

namespace SocksProxy

open Lib

structure Registration (η δ : Type) where
  handler : η
  interest : FdInterest
  data : Option δ

abbrev Registrations (η δ : Type) := Nat → Option (Registration η δ)

/-- `alloc` is whether a larger table finds memory. -/
inductive SelectorCall (η δ : Type) where
  | register (fd : Int) (handler : Option η) (interest : FdInterest) (data : Option δ) (alloc : Bool)
  | unregisterFd (fd : Int)
  | setInterest (fd : Int) (interest : FdInterest)

section
variable {η δ : Type} (hasClose : η → Bool)

/-- The calls of `handle_close` when a registration ends, as descriptor and
data; `hasClose` is whether the handler has the callback. -/
def handleClose (item : Item η δ) : List (Int × Option δ) :=
  if item.handler.any hasClose then [(item.fd, item.data)] else []

/-- A call of the selector: its table, what it returns, and the calls of `handle_close`. -/
def SelectorCall.exec (s : Selector η δ) : SelectorCall η δ → Selector η δ × SelectorStatus × List (Int × Option δ)
  | .register fd handler interest data alloc =>
    let (s, status) := selectorRegister s fd handler interest data alloc
    (s, status, [])
  | .unregisterFd fd =>
    let (s, status, closed) := selectorUnregisterFd s fd
    (s, status, (closed.map (handleClose hasClose)).getD [])
  | .setInterest fd interest =>
    let (s, status) := selectorSetInterest s fd interest
    (s, status, [])

def execAll : Selector η δ → List (SelectorCall η δ) → Selector η δ × List (Int × Option δ)
  | s, [] => (s, [])
  | s, c :: calls =>
    let (s, _, closes) := c.exec hasClose s
    let (s, rest) := execAll s calls
    (s, closes ++ rest)

/-- The loop of `selector_destroy` over the entries. -/
def destroyLoop : Selector η δ → List Nat → List (Int × Option δ)
  | _, [] => []
  | s, i :: is =>
    if (s.fds i).used then
      let (s, _, closed) := selectorUnregisterFd s i
      (closed.map (handleClose hasClose)).getD [] ++ destroyLoop s is
    else destroyLoop s is

/-- The calls of `handle_close` that `selector_destroy` makes. -/
def selectorDestroy (s : Selector η δ) : List (Int × Option δ) := destroyLoop hasClose s (List.range s.fdSize)

/-- The selector of the server: `selector_new(1024)`. -/
def serverSelector : Selector η δ where
  fds := fun _ => .blank
  fdSize := fdSetsize + 1
  maxFd := 0
  masterR := fun _ => false
  masterW := fun _ => false
  slaveR := fun _ => false
  slaveW := fun _ => false

theorem selectorNew_server : selectorNew fdSetsize true = some (serverSelector : Selector η δ) := by
  have hcap : nextCapacity fdSetsize = fdSetsize + 1 := by decide
  simp only [selectorNew, ensureCapacity, Nat.not_lt_zero, if_false, Nat.lt_irrefl, if_true, itemsInit, hcap]
  congr 1
  unfold serverSelector
  congr 1
  funext i
  split
  · rfl
  · rfl

/-! ## What the selector is for -/

/-- The calls of `handle_close` for a registration of `n` that ends. -/
def Registration.closes (n : Nat) (r : Registration η δ) : List (Int × Option δ) :=
  if hasClose r.handler then [((n : Int), r.data)] else []

/-- What a call does to the registrations, what it returns and what it closes. -/
def SelectorCall.spec (m : Registrations η δ) :
    SelectorCall η δ → Registrations η δ × SelectorStatus × List (Int × Option δ)
  | .register fd handler interest data _ =>
    match handler with
    | none => (m, .iargs, [])
    | some h =>
      if invalidFd fd then (m, .iargs, [])
      else if (m fd.toNat).isSome then (m, .fdinuse, [])
      else (Function.update m fd.toNat (some ⟨h, interest, data⟩), .success, [])
  | .unregisterFd fd =>
    if invalidFd fd then (m, .iargs, [])
    else
      match m fd.toNat with
      | none => (m, .iargs, [])
      | some r => (Function.update m fd.toNat none, .success, r.closes hasClose fd.toNat)
  | .setInterest fd interest =>
    if invalidFd fd then (m, .iargs, [])
    else
      match m fd.toNat with
      | none => (m, .iargs, [])
      | some r => (Function.update m fd.toNat (some { r with interest := interest }), .success, [])

def specAll : Registrations η δ → List (SelectorCall η δ) → Registrations η δ × List (Int × Option δ)
  | m, [] => (m, [])
  | m, c :: calls =>
    let (m, _, closes) := c.spec hasClose m
    let (m, rest) := specAll m calls
    (m, closes ++ rest)

/-- The registration that a call begins, as it will be closed. -/
def SelectorCall.begins (m : Registrations η δ) : SelectorCall η δ → List (Int × Option δ)
  | .register fd (some h) interest data _ =>
    if invalidFd fd then []
    else if (m fd.toNat).isSome then []
    else (⟨h, interest, data⟩ : Registration η δ).closes hasClose fd.toNat
  | _ => []

/-- The registrations that began, each as it will be closed. -/
def beginsAll : Registrations η δ → List (SelectorCall η δ) → List (Int × Option δ)
  | _, [] => []
  | m, c :: calls => c.begins hasClose m ++ beginsAll (c.spec hasClose m).1 calls

/-- The calls of `handle_close` that are due for what is registered of `n`. -/
def due (m : Registrations η δ) (n : Nat) : List (Int × Option δ) :=
  ((m n).map (Registration.closes hasClose n)).getD []

/-- The entry of a registration in the table. -/
def Registration.item (n : Nat) (r : Registration η δ) : Item η δ := ⟨n, r.interest, some r.handler, r.data⟩

@[simp] theorem item_used (n : Nat) (r : Registration η δ) : (r.item n).used = true := used_of_fd rfl

@[simp] theorem item_fd (n : Nat) (r : Registration η δ) : (r.item n).fd = n := rfl

@[simp] theorem item_interest (n : Nat) (r : Registration η δ) : (r.item n).interest = r.interest := rfl

theorem item_setInterest (n : Nat) (r : Registration η δ) (i : FdInterest) :
    { r.item n with interest := i } = ({ r with interest := i } : Registration η δ).item n := rfl

theorem updateFdset_item (s : Selector η δ) (n : Nat) (r : Registration η δ) :
    (itemsUpdateFdsetForFd s (r.item n)).masterR = Function.update s.masterR n r.interest.read ∧
      (itemsUpdateFdsetForFd s (r.item n)).masterW = Function.update s.masterW n r.interest.write := by
  simp [itemsUpdateFdsetForFd]

/-- The selector mirrors the registrations: entry `n` is in use exactly when `n`
is registered, and holds the registration, else nothing; the sets have the
descriptors with the interest; `max_fd` is the largest descriptor. -/
structure Mirrors (m : Registrations η δ) (s : Selector η δ) : Prop where
  fdSize : s.fdSize = fdSetsize + 1
  valid : ∀ n, (m n).isSome → n < fdSetsize
  used : ∀ n, (s.fds n).used = true ↔ (m n).isSome
  item : ∀ n r, m n = some r → s.fds n = r.item n
  blank : ∀ n, m n = none → s.fds n = .blank
  masterR : ∀ n, s.masterR n = true ↔ ∃ r, m n = some r ∧ r.interest.read = true
  masterW : ∀ n, s.masterW n = true ↔ ∃ r, m n = some r ∧ r.interest.write = true
  maxFd : LargestKey m s.maxFd

theorem mirrors_server : Mirrors (fun _ => none) (serverSelector : Selector η δ) where
  fdSize := rfl
  valid := fun _ h => absurd h Bool.false_ne_true
  used := fun _ => ⟨fun h => absurd h Bool.false_ne_true, fun h => absurd h Bool.false_ne_true⟩
  item := fun _ _ h => by cases h
  blank := fun _ _ => rfl
  masterR := fun _ => ⟨fun h => absurd h Bool.false_ne_true, fun ⟨_, h, _⟩ => by cases h⟩
  masterW := fun _ => ⟨fun h => absurd h Bool.false_ne_true, fun ⟨_, h, _⟩ => by cases h⟩
  maxFd := largestKey_empty

/-! ## One call -/

variable {m : Registrations η δ} {s : Selector η δ}

theorem mirrors_update (h : Mirrors m s) {n : Nat} (hn : n < fdSetsize) (o : Option (Registration η δ))
    {t : Selector η δ} (hsize : t.fdSize = s.fdSize)
    (hfds : t.fds = Function.update s.fds n ((o.map (Registration.item n)).getD .blank))
    (hr : t.masterR = Function.update s.masterR n (o.any fun r => r.interest.read))
    (hw : t.masterW = Function.update s.masterW n (o.any fun r => r.interest.write))
    (hmax : LargestKey (Function.update m n o) t.maxFd) : Mirrors (Function.update m n o) t := by
  -- both master sets are updated alike
  have hset : ∀ {set set' : Nat → Bool} {bit : FdInterest → Bool},
      set' = Function.update set n (o.any fun r => bit r.interest) →
      (∀ i, set i = true ↔ ∃ r, m i = some r ∧ bit r.interest = true) →
      ∀ i, set' i = true ↔ ∃ r, Function.update m n o i = some r ∧ bit r.interest = true := by
    intro set set' bit hset' hold i
    rw [hset']
    by_cases hi : i = n
    · subst hi
      rw [Function.update_self, Function.update_self]
      cases o with
      | none => simp
      | some r => simp
    · rw [Function.update_of_ne hi, Function.update_of_ne hi]
      exact hold i
  refine ⟨hsize.trans h.fdSize, ?_, ?_, ?_, ?_, hset hr h.masterR, hset hw h.masterW, hmax⟩
  · intro i hi
    by_cases hne : i = n
    · rw [hne]
      exact hn
    · rw [Function.update_of_ne hne] at hi
      exact h.valid i hi
  · intro i
    rw [hfds]
    by_cases hne : i = n
    · subst hne
      rw [Function.update_self, Function.update_self]
      cases o with
      | none => exact Iff.rfl
      | some r => exact ⟨fun _ => rfl, fun _ => used_of_fd rfl⟩
    · rw [Function.update_of_ne hne, Function.update_of_ne hne]
      exact h.used i
  · intro i r hi
    rw [hfds]
    by_cases hne : i = n
    · subst hne
      rw [Function.update_self] at hi ⊢
      rw [hi]
      rfl
    · rw [Function.update_of_ne hne] at hi ⊢
      exact h.item i r hi
  · intro i hi
    rw [hfds]
    by_cases hne : i = n
    · subst hne
      rw [Function.update_self] at hi ⊢
      rw [hi]
      rfl
    · rw [Function.update_of_ne hne] at hi ⊢
      exact h.blank i hi

theorem mirrors_free (h : Mirrors m s) {n : Nat} : (s.fds n).used = false ↔ m n = none := by
  rw [← Bool.not_eq_true, h.used n, Option.not_isSome_iff_eq_none]

theorem valid_toNat {fd : Int} (hv : invalidFd fd = false) :
    fd.toNat < fdSetsize ∧ ((fd.toNat : Nat) : Int) = fd := by
  simp only [invalidFd, decide_eq_false_iff_not] at hv
  omega

/-- What the calls agree on: registrations that are mirrored, the same status
and the same calls of `handle_close`, and nothing changed by a call that fails. -/
structure Agrees (s : Selector η δ) (r : Registrations η δ × SelectorStatus × List (Int × Option δ))
    (t : Selector η δ × SelectorStatus × List (Int × Option δ)) : Prop where
  mirrors : Mirrors r.1 t.1
  returns : t.2 = r.2
  unchanged : t.2.1 ≠ .success → t.1 = s

theorem agrees_refused (h : Mirrors m s) (status : SelectorStatus) : Agrees s (m, status, []) (s, status, []) :=
  ⟨h, rfl, fun _ => rfl⟩

theorem register_agrees (h : Mirrors m s) (fd : Int) (handler : Option η) (interest : FdInterest) (data : Option δ)
    (alloc : Bool) : Agrees s ((SelectorCall.register fd handler interest data alloc).spec hasClose m)
      ((SelectorCall.register fd handler interest data alloc).exec hasClose s) := by
  unfold SelectorCall.spec SelectorCall.exec
  cases handler with
  | none =>
    simp only [selectorRegister, Option.isNone_none, or_true, if_true]
    exact agrees_refused h _
  | some handler =>
    cases hv : invalidFd fd with
    | true =>
      simp only [selectorRegister, hv, true_or, if_true]
      exact agrees_refused h _
    | false =>
      obtain ⟨hlt, hfd⟩ := valid_toNat hv
      have hroom : ¬ s.fdSize < fd.toNat := by
        rw [h.fdSize]
        omega
      cases hm : m fd.toNat with
      | some r =>
        have hu : (s.fds fd.toNat).used = true := (h.used _).mpr (by rw [hm]; rfl)
        simp only [selectorRegister, hv, hroom, hu, Option.isNone_some, Bool.false_eq_true, or_self, if_false,
          ne_eq, not_true_eq_false, if_true, hm, Option.isSome_some]
        exact agrees_refused h _
      | none =>
        have hu : (s.fds fd.toNat).used = false := (mirrors_free h).mpr hm
        have hitem : (⟨fd, interest, some handler, data⟩ : Item η δ) =
            (⟨handler, interest, data⟩ : Registration η δ).item fd.toNat := by
          unfold Registration.item
          rw [hfd]
        simp only [selectorRegister, hv, hroom, hu, Option.isNone_some, Bool.false_eq_true, or_self, if_false,
          ne_eq, not_true_eq_false, hm, Option.isSome_none, hitem]
        refine ⟨mirrors_update h hlt (some ⟨handler, interest, data⟩) rfl rfl ?_ ?_ ?_, rfl,
          fun hno => absurd rfl hno⟩
        · exact (updateFdset_item _ _ _).1
        · exact (updateFdset_item _ _ _).2
        · exact largestKey_insert h.maxFd _ _

theorem itemsMaxFd_eq (hu : ∀ n, (s.fds n).used = true ↔ (m n).isSome)
    (hi : ∀ n r, m n = some r → s.fds n = r.item n) : itemsMaxFd s = scanMax m s.maxFd := by
  unfold itemsMaxFd scanMax
  refine List.foldl_ext _ _ 0 fun max i _ => ?_
  cases hm : m i with
  | none =>
    have hused : (s.fds i).used = false := by
      rw [← Bool.not_eq_true, hu i, hm]
      exact Bool.false_ne_true
    simp [hused]
  | some r =>
    simp [hi i r hm]

/-- An entry has been cleared, and the maximum is looked for in `u` again. -/
theorem mirrors_remove (h : Mirrors m s) {n : Nat} (hn : n < fdSetsize) {t u : Selector η δ}
    (hsize : t.fdSize = s.fdSize) (hfds : t.fds = Function.update s.fds n .blank)
    (hr : t.masterR = Function.update s.masterR n false) (hw : t.masterW = Function.update s.masterW n false)
    (hu : u.fds = t.fds) (hk : u.maxFd = s.maxFd) (hmax : t.maxFd = itemsMaxFd u) :
    Mirrors (Function.update m n none) t := by
  have hscan : Mirrors (Function.update m n none) { t with maxFd := scanMax (Function.update m n none) s.maxFd } :=
    mirrors_update h hn none hsize hfds hr hw (largestKey_erase h.maxFd n)
  have hused : ∀ i, (u.fds i).used = true ↔ (Function.update m n none i).isSome := by
    rw [hu]
    exact hscan.used
  have hitem : ∀ i r, Function.update m n none i = some r → u.fds i = r.item i := by
    rw [hu]
    exact hscan.item
  have hfound := itemsMaxFd_eq hused hitem
  rw [hk, ← hmax] at hfound
  rwa [← hfound] at hscan

theorem unregisterFd_agrees (h : Mirrors m s) (fd : Int) :
    Agrees s ((SelectorCall.unregisterFd fd).spec hasClose m) ((SelectorCall.unregisterFd fd).exec hasClose s) := by
  unfold SelectorCall.spec SelectorCall.exec
  cases hv : invalidFd fd with
  | true =>
    simp only [selectorUnregisterFd, hv, if_true]
    exact agrees_refused h _
  | false =>
    obtain ⟨hlt, hfd⟩ := valid_toNat hv
    cases hm : m fd.toNat with
    | none =>
      have hu : (s.fds fd.toNat).used = false := (mirrors_free h).mpr hm
      simp only [selectorUnregisterFd, hv, hu, Bool.false_eq_true, if_false, hm]
      exact agrees_refused h _
    | some r =>
      have hr : (itemsUpdateFdsetForFd s (({ r with interest := opNoop } : Registration η δ).item
          fd.toNat)).masterR = Function.update s.masterR fd.toNat false := (updateFdset_item _ _ _).1
      have hw : (itemsUpdateFdsetForFd s (({ r with interest := opNoop } : Registration η δ).item
          fd.toNat)).masterW = Function.update s.masterW fd.toNat false := (updateFdset_item _ _ _).2
      simp only [selectorUnregisterFd, hv, Bool.false_eq_true, if_false, if_true, h.item _ r hm, item_used,
        item_setInterest, hm]
      refine ⟨?_, ?_, fun hno => absurd rfl hno⟩
      · refine mirrors_remove h hlt ?_ ?_ ?_ ?_ ?_ ?_ (Eq.refl (itemsMaxFd _))
        · rfl
        · rfl
        · exact hr
        · exact hw
        · rfl
        · rfl
      · simp [handleClose, Registration.closes, Registration.item]

theorem setInterest_agrees (h : Mirrors m s) (fd : Int) (interest : FdInterest) :
    Agrees s ((SelectorCall.setInterest fd interest).spec hasClose m)
      ((SelectorCall.setInterest fd interest).exec hasClose s) := by
  unfold SelectorCall.spec SelectorCall.exec
  cases hv : invalidFd fd with
  | true =>
    simp only [selectorSetInterest, hv, if_true]
    exact agrees_refused h _
  | false =>
    obtain ⟨hlt, hfd⟩ := valid_toNat hv
    cases hm : m fd.toNat with
    | none =>
      have hu : (s.fds fd.toNat).used = false := (mirrors_free h).mpr hm
      simp only [selectorSetInterest, hv, hu, Bool.false_eq_true, if_false, hm]
      exact agrees_refused h _
    | some r =>
      simp only [selectorSetInterest, hv, Bool.false_eq_true, if_false, if_true, h.item _ r hm, item_used,
        item_setInterest, hm]
      refine ⟨mirrors_update h hlt (some { r with interest := interest }) rfl rfl ?_ ?_ ?_, rfl,
        fun hno => absurd rfl hno⟩
      · exact (updateFdset_item _ _ _).1
      · exact (updateFdset_item _ _ _).2
      · have hin := largestKey_insert h.maxFd fd.toNat { r with interest := interest }
        rw [Nat.max_eq_left (h.maxFd.bound _ (by rw [hm]; rfl))] at hin
        exact hin

theorem exec_agrees (h : Mirrors m s) (c : SelectorCall η δ) :
    Agrees s (c.spec hasClose m) (c.exec hasClose s) := by
  cases c with
  | register fd handler interest data alloc => exact register_agrees hasClose h fd handler interest data alloc
  | unregisterFd fd => exact unregisterFd_agrees hasClose h fd
  | setInterest fd interest => exact setInterest_agrees hasClose h fd interest

/-! ## Runs -/

theorem execAll_mirrors (h : Mirrors m s) (calls : List (SelectorCall η δ)) :
    Mirrors (specAll hasClose m calls).1 (execAll hasClose s calls).1 ∧
      (execAll hasClose s calls).2 = (specAll hasClose m calls).2 := by
  induction calls generalizing m s with
  | nil => exact ⟨h, rfl⟩
  | cons c calls ih =>
    have hc := exec_agrees hasClose h c
    obtain ⟨hm, hcloses⟩ := ih hc.mirrors
    simp only [execAll, specAll]
    exact ⟨hm, by rw [hcloses, congrArg Prod.snd hc.returns]⟩

theorem due_update (m : Registrations η δ) (n : Nat) (o : Option (Registration η δ)) :
    due hasClose (Function.update m n o) =
      Function.update (due hasClose m) n ((o.map (Registration.closes hasClose n)).getD []) := by
  funext i
  unfold due
  by_cases hi : i = n
  · subst hi
    rw [Function.update_self, Function.update_self]
  · rw [Function.update_of_ne hi, Function.update_of_ne hi]

/-- The loop of `selector_destroy` closes what is registered of the entries. -/
theorem destroyLoop_due {is : List Nat} (hnodup : is.Nodup) (h : Mirrors m s) :
    destroyLoop hasClose s is = is.flatMap (due hasClose m) := by
  induction is generalizing m s with
  | nil => rfl
  | cons i is ih =>
    obtain ⟨hi, hnodup⟩ := List.nodup_cons.mp hnodup
    rw [List.flatMap_cons, destroyLoop]
    cases hm : m i with
    | none =>
      have hu : (s.fds i).used = false := (mirrors_free h).mpr hm
      simp only [hu, Bool.false_eq_true, if_false]
      rw [ih hnodup h, due, hm]
      rfl
    | some r =>
      have hu : (s.fds i).used = true := (h.used i).mpr (by rw [hm]; rfl)
      have hlt := h.valid i (by rw [hm]; rfl)
      have hv : invalidFd (i : Int) = false := by
        simp only [invalidFd, decide_eq_false_iff_not]
        omega
      have hcall := unregisterFd_agrees hasClose h i
      unfold SelectorCall.spec SelectorCall.exec at hcall
      simp only [hv, Bool.false_eq_true, if_false, Int.toNat_natCast, hm] at hcall
      have hcloses : ((selectorUnregisterFd s i).2.2.map (handleClose hasClose)).getD [] = r.closes hasClose i :=
        congrArg Prod.snd hcall.returns
      simp only [hu, if_true]
      rw [ih hnodup hcall.mirrors, hcloses, due, hm]
      congr 1
      refine List.flatMap_congr fun j hj => ?_
      rw [due_update, Function.update_of_ne]
      rintro rfl
      exact hi hj

theorem selectorDestroy_due (h : Mirrors m s) :
    selectorDestroy hasClose s = listed (due hasClose m) (fdSetsize + 1) := by
  unfold selectorDestroy listed
  rw [destroyLoop_due hasClose List.nodup_range h, h.fdSize]

/-! ## Every registration is closed once -/

theorem due_insert {k n : Nat} (hn : n < k) (hm : m n = none) (r : Registration η δ) :
    (listed (due hasClose (Function.update m n (some r))) k).Perm
      (r.closes hasClose n ++ listed (due hasClose m) k) := by
  have hnone : due hasClose m n = [] := by
    unfold due
    rw [hm]
    rfl
  rw [due_update]
  exact listed_update hn hnone _

/-- What a call closes and what is due after it is what was due before it and
what it begins. -/
theorem spec_closes {k : Nat} (hk : fdSetsize ≤ k) (m : Registrations η δ) (c : SelectorCall η δ) :
    ((c.spec hasClose m).2.2 ++ listed (due hasClose (c.spec hasClose m).1) k).Perm
      (c.begins hasClose m ++ listed (due hasClose m) k) := by
  cases c with
  | register fd handler interest data alloc =>
    cases handler with
    | none => exact List.Perm.refl _
    | some handler =>
      unfold SelectorCall.spec SelectorCall.begins
      cases hv : invalidFd fd with
      | true => simp [hv]
      | false =>
        cases hm : m fd.toNat with
        | some r => simp [hv, hm]
        | none =>
          simp only [hv, hm, Bool.false_eq_true, if_false, Option.isSome_none]
          exact due_insert hasClose (Nat.lt_of_lt_of_le (valid_toNat hv).1 hk) hm _
  | unregisterFd fd =>
    unfold SelectorCall.spec SelectorCall.begins
    cases hv : invalidFd fd with
    | true => simp [hv]
    | false =>
      cases hm : m fd.toNat with
      | none => simp [hv, hm]
      | some r =>
        -- putting the registration back gives the registrations before
        have hback := due_insert hasClose (m := Function.update m fd.toNat none)
          (Nat.lt_of_lt_of_le (valid_toNat hv).1 hk) (Function.update_self _ _ _) r
        rw [Function.update_idem, ← hm, Function.update_eq_self] at hback
        simp only [hv, hm, Bool.false_eq_true, if_false, List.nil_append]
        exact hback.symm
  | setInterest fd interest =>
    unfold SelectorCall.spec SelectorCall.begins
    cases hv : invalidFd fd with
    | true => simp [hv]
    | false =>
      cases hm : m fd.toNat with
      | none => simp [hv, hm]
      | some r =>
        have hsame : due hasClose (Function.update m fd.toNat (some { r with interest := interest })) =
            due hasClose m := by
          rw [due_update, Function.update_eq_self_iff]
          unfold due
          rw [hm]
          rfl
        simp only [hv, hm, Bool.false_eq_true, if_false, hsame]
        exact List.Perm.refl _

theorem specAll_closes {k : Nat} (hk : fdSetsize ≤ k) (m : Registrations η δ) (calls : List (SelectorCall η δ)) :
    ((specAll hasClose m calls).2 ++ listed (due hasClose (specAll hasClose m calls).1) k).Perm
      (beginsAll hasClose m calls ++ listed (due hasClose m) k) := by
  induction calls generalizing m with
  | nil => exact List.Perm.refl _
  | cons c calls ih =>
    simp only [specAll, beginsAll]
    rw [List.append_assoc, List.append_assoc]
    have hrest := (ih (c.spec hasClose m).1).append_left (c.spec hasClose m).2.2
    have hcall := (spec_closes hasClose hk m c).append_left (beginsAll hasClose (c.spec hasClose m).1 calls)
    refine hrest.trans ((List.perm_append_comm_assoc _ _ _).trans (hcall.trans ?_))
    exact List.perm_append_comm_assoc _ _ _

/-- The calls of `handle_close` of a run and of `selector_destroy` after it are
those of the registrations that began, each once. -/
theorem closes_once (calls : List (SelectorCall η δ)) :
    ((execAll hasClose serverSelector calls).2 ++
      selectorDestroy hasClose (execAll hasClose serverSelector calls).1).Perm
        (beginsAll hasClose (fun _ => none) calls) := by
  obtain ⟨hm, hcloses⟩ := execAll_mirrors hasClose mirrors_server calls
  have hempty : listed (due hasClose (fun _ => (none : Option (Registration η δ)))) (fdSetsize + 1) = [] := by
    unfold listed
    exact List.flatMap_eq_nil_iff.mpr fun _ _ => rfl
  have hall := specAll_closes hasClose (Nat.le_succ fdSetsize) (fun _ => (none : Option (Registration η δ)))
    calls
  rw [hempty, List.append_nil] at hall
  rw [hcloses, selectorDestroy_due hasClose hm]
  exact hall

/-- After every sequence of calls the selector mirrors the registrations; the
next call returns what it should, closes the registration that it ends, and
changes nothing when it fails; `selector_destroy` closes what is registered;
and every registration that began is closed once. -/
theorem selector_mirrors (calls : List (SelectorCall η δ)) (c : SelectorCall η δ) :
    selectorNew fdSetsize true = some (serverSelector : Selector η δ) ∧
      Mirrors (specAll hasClose (fun _ => none) calls).1 (execAll hasClose serverSelector calls).1 ∧
      Agrees (execAll hasClose serverSelector calls).1 (c.spec hasClose (specAll hasClose (fun _ => none) calls).1)
        (c.exec hasClose (execAll hasClose serverSelector calls).1) ∧
      selectorDestroy hasClose (execAll hasClose serverSelector calls).1 =
        listed (due hasClose (specAll hasClose (fun _ => none) calls).1) (fdSetsize + 1) ∧
      ((execAll hasClose serverSelector calls).2 ++
        selectorDestroy hasClose (execAll hasClose serverSelector calls).1).Perm
          (beginsAll hasClose (fun _ => none) calls) := by
  obtain ⟨hm, -⟩ := execAll_mirrors hasClose mirrors_server calls
  exact ⟨selectorNew_server, hm, exec_agrees hasClose hm c, selectorDestroy_due hasClose hm,
    closes_once hasClose calls⟩

end

end SocksProxy
