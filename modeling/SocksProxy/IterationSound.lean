import SocksProxy.Iteration

/-!
# Events and the registrations they are for

`Held.turn` is a round as it should go: an event arrives at the registration
that `select` reported, if it still has the interest. The round of the code goes
the same way until a callback has renewed a descriptor whose turn is to come.
-/

namespace SocksProxy

/-- The registrations, numbered, and whether an assertion has failed. -/
structure Held (η δ : Type) where
  registered : Registrations η δ
  gen : Nat → Nat
  failed : Bool

abbrev Slot := Nat × Readiness

def itemSlots (i : Nat) : List Slot := [(i, .read), (i, .write)]

section
variable {η δ : Type} (hasClose : η → Bool)

def Held.exec (h : Held η δ) (c : SelectorCall η δ) : Held η δ :=
  let (m, status, _) := c.spec hasClose h.registered
  { h with registered := m, gen := c.renumber h.gen status }

def Held.execAll (h : Held η δ) (calls : List (SelectorCall η δ)) : Held η δ := calls.foldl (Held.exec hasClose) h

/-- The descriptor is registered with the interest. -/
def Held.wants (h : Held η δ) (slot : Slot) : Bool := (h.registered slot.1).any fun r => r.interest.has slot.2

/-- What the table holds. -/
def Selector.registrations (s : Selector η δ) : Registrations η δ := fun n =>
  if (s.fds n).used then (s.fds n).handler.map fun h => ⟨h, (s.fds n).interest, (s.fds n).data⟩ else none

def Round.held (r : Round η δ) : Held η δ := ⟨r.sel.registrations, r.gen, r.failed⟩

section
variable (callbacks : Callbacks η δ) (reported : Slot → Bool) (gen : Nat → Nat)

/-- The turn of a slot as it should go: the callback runs when `select` reported
the registration, numbered by `gen`, and it still has the interest. -/
def Held.turn (h : Held η δ) (slot : Slot) : Held η δ :=
  if h.failed then h
  else if reported slot && h.wants slot && h.gen slot.1 == gen slot.1 then
    match callbacks slot.1 slot.2 with
    | none => { h with failed := true }
    | some calls => h.execAll hasClose calls
  else h

/-- The descriptor was reported, and has been renewed with the interest since. -/
def Held.stale (h : Held η δ) (slot : Slot) : Bool :=
  !h.failed && reported slot && h.wants slot && h.gen slot.1 != gen slot.1

/-- The callbacks renew a descriptor that was reported, before its turn. -/
def renews : Held η δ → List Slot → Bool
  | _, [] => false
  | h, slot :: slots => h.stale reported gen slot || renews (h.turn hasClose callbacks reported gen slot) slots

end

/-- What `select` reports of the registrations. -/
def Held.reported (h : Held η δ) (ready : Nat → Readiness → Bool) (slot : Slot) : Bool :=
  h.wants slot && ready slot.1 slot.2

/-- The event is for a registration that `select` reported, and arrives at that one. -/
def Reported (result : SelectResult) (r : Round η δ) (d : Delivery η δ) : Prop :=
  ∃ ready, result = some ready ∧ r.held.reported ready (d.n, d.kind) = true ∧ d.gen = r.gen d.n

/-- In the round as it should go, the callbacks renew a reported descriptor before its turn. -/
def renewsInRound (result : SelectResult) (callbacks : Callbacks η δ) (r : Round η δ) : Bool :=
  result.any fun ready =>
    renews hasClose callbacks (r.held.reported ready) r.gen r.held
      ((List.range (r.sel.maxFd + 1)).flatMap itemSlots)

/-! ## The table and the registrations -/

variable {m : Registrations η δ} {s : Selector η δ}

theorem registrations_eq (h : Mirrors m s) : s.registrations = m := by
  funext n
  unfold Selector.registrations
  cases hm : m n with
  | none => simp [h.blank n hm]
  | some r =>
    rw [h.item n r hm, if_pos (item_used n r)]
    rfl

theorem wants_eq {h : Held η δ} (hm : Mirrors h.registered s) (slot : Slot) :
    (s.fds slot.1).interest.has slot.2 = h.wants slot := by
  unfold Held.wants
  cases hr : h.registered slot.1 with
  | none =>
    rw [hm.blank _ hr]
    cases slot.2 with
    | read => rfl
    | write => rfl
  | some r =>
    rw [hm.item _ r hr]
    rfl

theorem ensureCapacity_slave (s : Selector η δ) (n : Nat) (alloc : Bool) :
    (ensureCapacity s n alloc).1.slaveR = s.slaveR ∧ (ensureCapacity s n alloc).1.slaveW = s.slaveW := by
  unfold ensureCapacity itemsInit
  split
  · exact ⟨rfl, rfl⟩
  · split
    · exact ⟨rfl, rfl⟩
    · split
      · exact ⟨rfl, rfl⟩
      · exact ⟨rfl, rfl⟩

theorem register_slave (s : Selector η δ) (fd : Int) (handler : Option η) (interest : FdInterest) (data : Option δ)
    (alloc : Bool) : (selectorRegister s fd handler interest data alloc).1.slaveR = s.slaveR ∧
      (selectorRegister s fd handler interest data alloc).1.slaveW = s.slaveW := by
  obtain ⟨hr, hw⟩ := ensureCapacity_slave s fd.toNat alloc
  unfold selectorRegister itemsUpdateFdsetForFd
  split
  · exact ⟨rfl, rfl⟩
  · dsimp only
    by_cases hroom : s.fdSize < fd.toNat
    · rw [if_pos hroom]
      split
      · exact ⟨hr, hw⟩
      · split
        · exact ⟨hr, hw⟩
        · exact ⟨hr, hw⟩
    · rw [if_neg hroom]
      split
      · exact ⟨rfl, rfl⟩
      · split
        · exact ⟨rfl, rfl⟩
        · exact ⟨rfl, rfl⟩

/-- No call touches the sets that `select` left. -/
theorem exec_slave (s : Selector η δ) (c : SelectorCall η δ) :
    (c.exec hasClose s).1.slaveR = s.slaveR ∧ (c.exec hasClose s).1.slaveW = s.slaveW := by
  cases c with
  | register fd handler interest data alloc => exact register_slave s fd handler interest data alloc
  | unregisterFd fd =>
    unfold SelectorCall.exec selectorUnregisterFd itemsUpdateFdsetForFd
    dsimp only
    split
    · exact ⟨rfl, rfl⟩
    · split
      · exact ⟨rfl, rfl⟩
      · exact ⟨rfl, rfl⟩
  | setInterest fd interest =>
    unfold SelectorCall.exec selectorSetInterest itemsUpdateFdsetForFd
    dsimp only
    split
    · exact ⟨rfl, rfl⟩
    · split
      · exact ⟨rfl, rfl⟩
      · exact ⟨rfl, rfl⟩

/-! ## The round of the code and the round as it should go -/

section
variable {reported : Slot → Bool} {gen : Nat → Nat}

structure Lockstep (reported : Slot → Bool) (r : Round η δ) (h : Held η δ) : Prop where
  mirrors : Mirrors h.registered r.sel
  gen : r.gen = h.gen
  failed : r.failed = h.failed
  slaveR : ∀ n, r.sel.slaveR n = reported (n, .read)
  slaveW : ∀ n, r.sel.slaveW n = reported (n, .write)

theorem lockstep_exec {r : Round η δ} {h : Held η δ} (hl : Lockstep reported r h) (c : SelectorCall η δ) :
    Lockstep reported (r.exec hasClose c) (h.exec hasClose c) := by
  have hc := exec_agrees hasClose hl.mirrors c
  obtain ⟨hr, hw⟩ := exec_slave hasClose r.sel c
  refine ⟨hc.mirrors, ?_, hl.failed, fun n => ?_, fun n => ?_⟩
  · simp only [Round.exec, Held.exec]
    rw [congrArg Prod.fst hc.returns, hl.gen]
  · simp only [Round.exec]
    rw [hr]
    exact hl.slaveR n
  · simp only [Round.exec]
    rw [hw]
    exact hl.slaveW n

theorem lockstep_execAll {r : Round η δ} {h : Held η δ} (hl : Lockstep reported r h)
    (calls : List (SelectorCall η δ)) :
    Lockstep reported (r.execAll hasClose calls) (h.execAll hasClose calls) := by
  induction calls generalizing r h with
  | nil => exact hl
  | cons c calls ih => exact ih (lockstep_exec hasClose hl c)

theorem execAll_frame (r : Round η δ) (calls : List (SelectorCall η δ)) :
    (r.execAll hasClose calls).sel.slaveW = r.sel.slaveW ∧ (r.execAll hasClose calls).delivered = r.delivered := by
  induction calls generalizing r with
  | nil => exact ⟨rfl, rfl⟩
  | cons c calls ih =>
    obtain ⟨hslave, hdelivered⟩ := ih (r.exec hasClose c)
    exact ⟨hslave.trans (exec_slave hasClose r.sel c).2, hdelivered⟩

/-- An event arrives at the registration that was reported. -/
def Meant (reported : Slot → Bool) (gen : Nat → Nat) (d : Delivery η δ) : Prop :=
  reported (d.n, d.kind) = true ∧ d.gen = gen d.n

theorem lockstep_deliver {r : Round η δ} {h : Held η δ} (hl : Lockstep reported r h) (d : Delivery η δ) :
    Lockstep reported (r.deliver d) h := ⟨hl.mirrors, hl.gen, hl.failed, hl.slaveR, hl.slaveW⟩

/-- The event of a slot that no callback has renewed arrives as it should. -/
theorem handleEvent_meant {r : Round η δ} {h : Held η δ} (hl : Lockstep reported r h) (callbacks : Callbacks η δ)
    (key : Int × Option δ) {i : Nat} {kind : Readiness} (hs : h.stale reported gen (i, kind) = false) :
    Lockstep reported (handleEvent hasClose callbacks key i kind (reported (i, kind)) r)
        (h.turn hasClose callbacks reported gen (i, kind)) ∧
      ((∀ d ∈ (handleEvent hasClose callbacks key i kind (reported (i, kind)) r).delivered, Meant reported gen d) ↔
        ∀ d ∈ r.delivered, Meant reported gen d) := by
  unfold handleEvent Held.turn
  have hwants : (r.sel.fds i).interest.has kind = h.wants (i, kind) := wants_eq hl.mirrors (i, kind)
  cases hf : h.failed with
  | true =>
    simp only [hl.failed, hf, if_true]
    exact ⟨hl, trivial⟩
  | false =>
    have hfail : r.failed = false := hl.failed.trans hf
    cases hr : reported (i, kind) with
    | false =>
      simp only [hfail, Bool.false_eq_true, if_false, Bool.false_and]
      exact ⟨hl, trivial⟩
    | true =>
      cases hw : h.wants (i, kind) with
      | false =>
        simp only [hfail, hwants, hw, Bool.false_eq_true, if_false, if_true, Bool.true_and, Bool.false_and]
        exact ⟨hl, trivial⟩
      | true =>
        -- the slot has not been renewed since `select`
        have hgen : h.gen i = gen i := by
          simpa [Held.stale, hf, hr, hw] using hs
        have hmeant : Meant reported gen (⟨i, r.gen i, kind, (r.sel.fds i).handler, key⟩ : Delivery η δ) :=
          ⟨hr, by rw [hl.gen, hgen]⟩
        have hdelivered := lockstep_deliver hl ⟨i, r.gen i, kind, (r.sel.fds i).handler, key⟩
        have hall : (∀ d ∈ (r.deliver ⟨i, r.gen i, kind, (r.sel.fds i).handler, key⟩).delivered,
            Meant reported gen d) ↔ ∀ d ∈ r.delivered, Meant reported gen d := by
          unfold Round.deliver
          rw [List.forall_mem_append, List.forall_mem_singleton]
          exact and_iff_left hmeant
        simp only [hfail, hwants, hw, hgen, beq_self_eq_true, Bool.false_eq_true, if_false, if_true, Bool.true_and]
        cases callbacks i kind with
        | none =>
          exact ⟨⟨hdelivered.mirrors, hdelivered.gen, rfl, hdelivered.slaveR, hdelivered.slaveW⟩, hall⟩
        | some calls =>
          simp only [(execAll_frame hasClose _ calls).2]
          exact ⟨lockstep_execAll hasClose hdelivered calls, hall⟩

/-- A stale event arrives at a registration that it is not meant for. -/
theorem handleEvent_stale {r : Round η δ} {h : Held η δ} (hl : Lockstep reported r h) (callbacks : Callbacks η δ)
    (key : Int × Option δ) {i : Nat} {kind : Readiness} (hs : h.stale reported gen (i, kind) = true) :
    ¬ ∀ d ∈ (handleEvent hasClose callbacks key i kind (reported (i, kind)) r).delivered, Meant reported gen d := by
  unfold Held.stale at hs
  simp only [Bool.and_eq_true, Bool.not_eq_true', bne_iff_ne] at hs
  obtain ⟨⟨⟨hf, hr⟩, hw⟩, hgen⟩ := hs
  have hwants : (r.sel.fds i).interest.has kind = true := (wants_eq hl.mirrors (i, kind)).trans hw
  unfold handleEvent
  simp only [hl.failed, hf, hr, hwants, Bool.false_eq_true, if_false, if_true]
  intro hall
  have harrived : Meant reported gen (⟨i, r.gen i, kind, (r.sel.fds i).handler, key⟩ : Delivery η δ) := by
    apply hall
    cases callbacks i kind with
    | none => exact List.mem_append_right _ (List.mem_singleton_self _)
    | some calls =>
      rw [(execAll_frame hasClose _ calls).2]
      exact List.mem_append_right _ (List.mem_singleton_self _)
  exact hgen (hl.gen ▸ harrived.2)

/-! ## A whole round -/

theorem handleEvent_frame (callbacks : Callbacks η δ) (key : Int × Option δ) (i : Nat) (kind : Readiness)
    (isset : Bool) (r : Round η δ) :
    (handleEvent hasClose callbacks key i kind isset r).sel.slaveW = r.sel.slaveW ∧
      r.delivered ⊆ (handleEvent hasClose callbacks key i kind isset r).delivered := by
  unfold handleEvent
  split
  · exact ⟨rfl, List.Subset.refl _⟩
  · split
    · dsimp only
      split
      · split
        · exact ⟨rfl, List.subset_append_left _ _⟩
        · rw [(execAll_frame hasClose _ _).1, (execAll_frame hasClose _ _).2]
          exact ⟨rfl, List.subset_append_left _ _⟩
      · exact ⟨rfl, List.Subset.refl _⟩
    · exact ⟨rfl, List.Subset.refl _⟩

/-- An entry that is not in use has no interest, so its two tests can be made all the same. -/
theorem handleItem_eq {r : Round η δ} {h : Held η δ} (hl : Lockstep reported r h) (callbacks : Callbacks η δ)
    (i : Nat) :
    handleItem hasClose callbacks r i =
      handleEvent hasClose callbacks ((r.sel.fds i).fd, (r.sel.fds i).data) i .write (reported (i, .write))
        (handleEvent hasClose callbacks ((r.sel.fds i).fd, (r.sel.fds i).data) i .read
          (reported (i, .read)) r) := by
  unfold handleItem
  cases hm : h.registered i with
  | none =>
    have hblank := hl.mirrors.blank i hm
    have hskip : ∀ kind isset key, handleEvent hasClose callbacks key i kind isset r = r := by
      intro kind isset key
      unfold handleEvent
      have hno : (r.sel.fds i).interest.has kind = false := by
        rw [hblank]
        cases kind with
        | read => rfl
        | write => rfl
      simp [hno]
    rw [hskip, hskip, hblank, if_neg (by simp)]
  | some reg =>
    have hitem := hl.mirrors.item i reg hm
    simp only [hitem, item_used, item_fd, Int.toNat_natCast, if_true, hl.slaveR,
      (handleEvent_frame hasClose callbacks _ i
      .read (reported (i, .read)) r).1, hl.slaveW]

theorem handleItems_subset (callbacks : Callbacks η δ) (is : List Nat) (r : Round η δ) :
    r.delivered ⊆ (is.foldl (handleItem hasClose callbacks) r).delivered := by
  induction is generalizing r with
  | nil => exact List.Subset.refl _
  | cons i is ih =>
    refine List.Subset.trans ?_ (ih _)
    unfold handleItem
    dsimp only
    split
    · exact List.Subset.trans (handleEvent_frame hasClose _ _ _ _ _ _).2 (handleEvent_frame hasClose _ _ _ _ _ _).2
    · exact List.Subset.refl _

/-- All events of the loop arrive as they should when no callback renews a
reported descriptor before its turn, and only then. -/
theorem handleItems_iff (gen : Nat → Nat) (callbacks : Callbacks η δ) (is : List Nat) {r : Round η δ} {h : Held η δ}
    (hl : Lockstep reported r h) :
    (∀ d ∈ (is.foldl (handleItem hasClose callbacks) r).delivered, Meant reported gen d) ↔
      (∀ d ∈ r.delivered, Meant reported gen d) ∧
        renews hasClose callbacks reported gen h (is.flatMap itemSlots) = false := by
  induction is generalizing r h with
  | nil => simp [renews]
  | cons i is ih =>
    have hsub := handleItems_subset hasClose callbacks is (handleItem hasClose callbacks r i)
    rw [List.foldl_cons, List.flatMap_cons, itemSlots]
    simp only [List.cons_append, List.nil_append, renews, Bool.or_eq_false_iff]
    rw [handleItem_eq hasClose hl callbacks i] at hsub ⊢
    generalize ((r.sel.fds i).fd, (r.sel.fds i).data) = key at hsub ⊢
    cases hread : h.stale reported gen (i, .read) with
    | true =>
      refine ⟨fun hall => ?_, fun hno => absurd hno.2.1 (by simp)⟩
      -- a read event that is stale is delivered, and it stays among the delivered
      have hbad := handleEvent_stale hasClose hl callbacks key hread
      exact absurd (fun d hd => hall d (hsub ((handleEvent_frame hasClose _ _ _ _ _ _).2 hd))) hbad
    | false =>
      obtain ⟨hl', hiff⟩ := handleEvent_meant hasClose hl callbacks key hread
      -- the read callback runs before the write event of its slot is looked at
      cases hwrite : (h.turn hasClose callbacks reported gen (i, .read)).stale reported gen (i, .write) with
      | true =>
        refine ⟨fun hall => ?_, fun hno => absurd hno.2.2.1 (by simp)⟩
        have hbad := handleEvent_stale hasClose hl' callbacks key hwrite
        exact absurd (fun d hd => hall d (hsub hd)) hbad
      | false =>
        obtain ⟨hl'', hiff'⟩ := handleEvent_meant hasClose hl' callbacks key hwrite
        rw [ih hl'', hiff', hiff]
        simp

end

/-! ## Turns of the server's loop -/

/-- The table is kept as a mirror of the registrations. -/
def Mirrored (r : Round η δ) : Prop := ∃ m, Mirrors m r.sel

theorem mirrored_execAll {r : Round η δ} (hk : Mirrored r) (calls : List (SelectorCall η δ)) :
    Mirrored (r.execAll hasClose calls) := by
  induction calls generalizing r with
  | nil => exact hk
  | cons c calls ih =>
    obtain ⟨m, hm⟩ := hk
    exact ih ⟨_, (exec_agrees hasClose hm c).mirrors⟩

theorem mirrored_deliver {r : Round η δ} (hk : Mirrored r) (d : Delivery η δ) : Mirrored (r.deliver d) := hk

theorem mirrored_handleEvent {r : Round η δ} (hk : Mirrored r) (callbacks : Callbacks η δ) (key : Int × Option δ)
    (i : Nat) (kind : Readiness) (isset : Bool) : Mirrored (handleEvent hasClose callbacks key i kind isset r) := by
  unfold handleEvent
  split
  · exact hk
  · split
    · dsimp only
      split
      · split
        · exact hk
        · exact mirrored_execAll hasClose (mirrored_deliver hk _) _
      · exact hk
    · exact hk

theorem mirrored_handleItems {r : Round η δ} (hk : Mirrored r) (callbacks : Callbacks η δ) (is : List Nat) :
    Mirrored (is.foldl (handleItem hasClose callbacks) r) := by
  induction is generalizing r with
  | nil => exact hk
  | cons i is ih =>
    apply ih
    unfold handleItem
    dsimp only
    split
    · exact mirrored_handleEvent hasClose (mirrored_handleEvent hasClose hk _ _ _ _ _) _ _ _ _ _
    · exact hk

theorem mirrors_begin {r : Round η δ} (hm : Mirrors m r.sel) (ready : Nat → Readiness → Bool) :
    Mirrors m (r.begin ready).sel :=
  ⟨hm.fdSize, hm.valid, hm.used, hm.item, hm.blank, hm.masterR, hm.masterW, hm.maxFd⟩

theorem lockstep_begin {r : Round η δ} (hm : Mirrors m r.sel) (ready : Nat → Readiness → Bool) :
    Lockstep (r.held.reported ready) (r.begin ready) r.held := by
  have heq : r.held.registered = m := registrations_eq hm
  have hset : ∀ {bit : Bool} {n : Nat} {kind : Readiness},
      (bit = true ↔ ∃ reg, m n = some reg ∧ reg.interest.has kind = true) → bit = r.held.wants (n, kind) := by
    intro bit n kind hbit
    unfold Held.wants
    rw [heq, Bool.eq_iff_iff, hbit, Option.any_eq_true]
  refine ⟨?_, rfl, rfl, fun n => ?_, fun n => ?_⟩
  · rw [heq]
    exact mirrors_begin hm ready
  · exact congrArg (· && ready n .read) (hset (hm.masterR n))
  · exact congrArg (· && ready n .write) (hset (hm.masterW n))

theorem mirrored_selectorSelect {r : Round η δ} (hk : Mirrored r) (result : SelectResult)
    (callbacks : Callbacks η δ) :
    Mirrored (selectorSelect hasClose result callbacks r) := by
  obtain ⟨m, hm⟩ := hk
  cases result with
  | none => exact ⟨m, hm⟩
  | some ready => exact mirrored_handleItems hasClose ⟨m, mirrors_begin hm ready⟩ callbacks _

theorem mirrored_atSelect (turns : List (Turn η δ)) (calls : List (SelectorCall η δ)) :
    Mirrored (atSelect hasClose turns calls) := by
  have hall : ∀ (turns : List (Turn η δ)) (r : Round η δ), Mirrored r →
      Mirrored (turns.foldl (Turn.exec hasClose) r) := by
    intro turns
    induction turns with
    | nil => exact fun _ hk => hk
    | cons t turns ih =>
      exact fun r hk => ih _ (mirrored_selectorSelect hasClose (mirrored_execAll hasClose hk _) _ _)
  exact mirrored_execAll hasClose (hall turns serverRound ⟨_, mirrors_server⟩) calls

/-- In every turn of the server's loop, whatever `pselect` returns and whatever
the callbacks do: each event arrives at a registration that `select` reported if
and only if the callbacks renew no reported descriptor before its turn. -/
theorem selectorSelect_meant_iff (turns : List (Turn η δ)) (calls : List (SelectorCall η δ)) (result : SelectResult)
    (callbacks : Callbacks η δ) :
    (∀ d ∈ (selectorSelect hasClose result callbacks (atSelect hasClose turns calls)).delivered,
        Reported result (atSelect hasClose turns calls) d) ↔
      renewsInRound hasClose result callbacks (atSelect hasClose turns calls) = false := by
  obtain ⟨m, hm⟩ := mirrored_atSelect hasClose turns calls
  generalize atSelect hasClose turns calls = r at hm
  unfold selectorSelect renewsInRound Reported
  cases result with
  | none => simp
  | some ready =>
    have hl : Lockstep (r.held.reported ready) (r.begin ready) r.held := lockstep_begin hm ready
    have hiff := handleItems_iff hasClose r.gen callbacks (List.range (r.sel.maxFd + 1)) hl
    simp only [Option.some.injEq, exists_eq_left', Option.any_some]
    exact hiff.trans (and_iff_right fun d hd => absurd hd List.not_mem_nil)

end

/-- Session 1 has the client 5 and the origin 9, session 2 has the client 6. In
one round session 1 ends and session 2 connects to its origin, under the number
9 again: the event that was for the old origin arrives at the new one. -/
def reusedCalls : List (SelectorCall Unit Nat) :=
  [.register 5 (some ()) opRead (some 1) true, .register 9 (some ()) opWrite (some 1) true,
    .register 6 (some ()) opRead (some 2) true]

def reusedReady : SelectResult := some fun n kind => [(5, .read), (6, .read), (9, .write)].contains (n, kind)

def reusedCallbacks : Callbacks Unit Nat
  | 5, .read => some [.unregisterFd 5, .unregisterFd 9]
  | 6, .read => some [.register 9 (some ()) opWrite (some 2) true]
  | _, _ => some []

theorem reused_delivered : ¬ ∀ d ∈ (selectorSelect (fun _ => false) reusedReady reusedCallbacks
      (atSelect (fun _ => false) [] reusedCalls)).delivered,
    Reported reusedReady (atSelect (fun _ => false) [] reusedCalls) d := by
  intro hall
  have harrived : (⟨9, 2, .write, some (), (9, some 2)⟩ : Delivery Unit Nat) ∈
      (selectorSelect (fun _ => false) reusedReady reusedCallbacks
      (atSelect (fun _ => false) [] reusedCalls)).delivered := by
    decide +kernel
  obtain ⟨_, _, _, hgen⟩ := hall _ harrived
  exact absurd hgen (by decide +kernel)

end SocksProxy
