import SocksProxy.CounterSound
import SocksProxy.Lib.Keyed

/-!
# What an event does to the connections

A connection that is registered goes on, or is unregistered and taken back from
the counter. `Enlisted` is what holds of the sessions, and of the connections of
the service alike; `enlisted_event` and `enlisted_new` keep it.
-/

namespace SocksProxy

open Lib

/-- The descriptor is registered, and its entry carries `p`. -/
def Carried (sel : Selector Handler Ptr) (fd : Int) (p : Ptr) : Prop :=
  invalidFd fd = false ∧ (sel.fds fd.toNat).used = true ∧ (sel.fds fd.toNat).data = some p

instance (sel : Selector Handler Ptr) (fd : Int) (p : Ptr) : Decidable (Carried sel fd p) := by
  unfold Carried; infer_instance

/-! ## The counters -/

/-- Nothing is counted but bytes. -/
def SameConnections (s t : Stadistics) : Prop :=
  getConcurrentConnections t = getConcurrentConnections s ∧ getTotalConnections t = getTotalConnections s

section
variable {s t u : Stadistics}

theorem sameConnections_refl (s : Stadistics) : SameConnections s s := ⟨rfl, rfl⟩

theorem sameConnections_trans (h : SameConnections s t) (h' : SameConnections t u) : SameConnections s u :=
  ⟨h'.1.trans h.1, h'.2.trans h.2⟩

theorem saturates (x : UInt16) : (if x < 0xFFFF then x + 1 else x).toNat = min (x.toNat + 1) 0xFFFF := by
  have hx := x.toNat_lt
  by_cases hlt : x < 0xFFFF
  · have hnat : x.toNat < 0xFFFF := UInt16.lt_iff_toNat_lt.mp hlt
    rw [if_pos hlt, UInt16.toNat_add, UInt16.toNat_one]
    omega
  · have hnat : ¬ x.toNat < 0xFFFF := fun h => hlt (UInt16.lt_iff_toNat_lt.mpr h)
    rw [if_neg hlt]
    omega

/-- Both are counted, up to their last value. -/
theorem increase_counts (s : Stadistics) :
    (getConcurrentConnections (stadisticsIncreaseConcurrent s)).toNat =
        min ((getConcurrentConnections s).toNat + 1) 0xFFFF ∧
      (getTotalConnections (stadisticsIncreaseConcurrent s)).toNat =
        min ((getTotalConnections s).toNat + 1) 0xFFFF :=
  ⟨saturates s.concurrentConnections, saturates s.totalConnections⟩

/-- What is open is taken back, down to 0. -/
theorem prawtosDecrease_counts (s : Stadistics) :
    (getConcurrentConnections (prawtosDecrease s)).toNat = (getConcurrentConnections s).toNat - 1 ∧
      getTotalConnections (prawtosDecrease s) = getTotalConnections s := by
  unfold prawtosDecrease
  by_cases hpos : 0 < getConcurrentConnections s
  · have hnat := UInt16.lt_iff_toNat_lt.mp hpos
    rw [if_pos hpos]
    unfold stadisticsDecreaseConcurrent getConcurrentConnections at *
    simp only [hpos, if_true]
    refine ⟨?_, rfl⟩
    rw [UInt16.toNat_sub_of_le _ _ (by rw [UInt16.le_iff_toNat_le]; exact hnat)]
    rfl
  · have hz : (getConcurrentConnections s).toNat = 0 := by
      rw [UInt16.lt_iff_toNat_lt] at hpos
      exact Nat.eq_zero_of_not_pos hpos
    rw [if_neg hpos, hz]
    exact ⟨rfl, rfl⟩

end

/-! ## An event on a connection -/

section
variable {sel sel' : Selector Handler Ptr} {fd fd' : Int} {p p' : Ptr}

theorem carried_onlyAdds {d : Option Ptr} (h : Carried sel fd p) (ho : OnlyAdds d sel sel') : Carried sel' fd p :=
  ⟨h.1, (ho.kept _ h.2.1).1, (ho.kept _ h.2.1).2.trans h.2.2⟩

theorem carried_unregister (h : Carried sel fd p) (h' : Carried sel fd' p') (hne : p ≠ p') :
    Carried (selectorUnregisterFd sel fd').1 fd p := by
  obtain ⟨-, -, hfds⟩ := selectorUnregisterFd_used h'.1 h'.2.1
  have hother : fd.toNat ≠ fd'.toNat := by
    intro heq
    have hdata := h.2.2
    rw [heq, h'.2.2, Option.some.injEq] at hdata
    exact hne hdata.symm
  refine ⟨h.1, ?_, ?_⟩
  · rw [hfds, Function.update_of_ne hother]
    exact h.2.1
  · rw [hfds, Function.update_of_ne hother]
    exact h.2.2

/-- What an event does: the connection goes on, or it is unregistered and taken
back from the counter. -/
def Outcome (p : Ptr) (fd : Int) (sel : Selector Handler Ptr) (s : Stadistics) (freed : Bool)
    (sel' : Selector Handler Ptr) (s' : Stadistics) : Prop :=
  ∃ sel₁ s₁, OnlyAdds (some p) sel sel₁ ∧ SameConnections s s₁ ∧
    ((freed = false ∧ sel' = sel₁ ∧ s' = s₁) ∨
      (freed = true ∧ sel' = (selectorUnregisterFd sel₁ fd).1 ∧ s' = prawtosDecrease s₁))

variable {s s' : Stadistics} {freed : Bool}

theorem outcome_fdSize (h : Outcome p fd sel s freed sel' s') (hc : Carried sel fd p) :
    sel'.fdSize = sel.fdSize := by
  obtain ⟨sel₁, s₁, ho, -, h⟩ := h
  rcases h with ⟨-, rfl, -⟩ | ⟨-, rfl, -⟩
  · exact ho.fdSize
  · have hc₁ := carried_onlyAdds hc ho
    exact (selectorUnregisterFd_used hc₁.1 hc₁.2.1).2.1.trans ho.fdSize

theorem outcome_self (h : Outcome p fd sel s false sel' s') (hc : Carried sel fd p) :
    Carried sel' fd p ∧ SameConnections s s' := by
  obtain ⟨sel₁, s₁, ho, hs, h⟩ := h
  rcases h with ⟨-, rfl, rfl⟩ | ⟨hno, -, -⟩
  · exact ⟨carried_onlyAdds hc ho, hs⟩
  · cases hno

theorem outcome_other (h : Outcome p fd sel s freed sel' s') (hc : Carried sel fd p) (hc' : Carried sel fd' p')
    (hne : p' ≠ p) : Carried sel' fd' p' := by
  obtain ⟨sel₁, s₁, ho, -, h⟩ := h
  rcases h with ⟨-, rfl, -⟩ | ⟨-, rfl, -⟩
  · exact carried_onlyAdds hc' ho
  · exact carried_unregister (carried_onlyAdds hc' ho) (carried_onlyAdds hc ho) hne

theorem outcome_counts (h : Outcome p fd sel s freed sel' s') :
    (getConcurrentConnections s').toNat = (getConcurrentConnections s).toNat - freed.toNat ∧
      getTotalConnections s' = getTotalConnections s := by
  obtain ⟨sel₁, s₁, -, hs, h⟩ := h
  rcases h with ⟨rfl, -, rfl⟩ | ⟨rfl, -, rfl⟩
  · exact ⟨congrArg UInt16.toNat hs.1, hs.2⟩
  · obtain ⟨hc, ht⟩ := prawtosDecrease_counts s₁
    exact ⟨by rw [hc, hs.1]; rfl, ht.trans hs.2⟩

end

section
variable {c d : Conn} {e : Event}

theorem copyWrite_connections {k : Key} {st : SessionState} (h : copyWrite k c = .ok (d, st)) :
    SameConnections c.stats d.stats := by
  rw [(copyWrite_steady h).stats]
  change SameConnections c.stats (relayStats k c)
  unfold relayStats
  split
  · exact ⟨rfl, rfl⟩
  · exact sameConnections_refl _

theorem sessionHandler_connections {m : StateMachine} {ret : Nat} (h : sessionHandler c e = .ok (m, d, ret)) :
    SameConnections c.stats d.stats := by
  refine stmHandler_rel (R := fun c d : Conn => SameConnections c.stats d.stats) (fun c => sameConnections_refl _)
    sameConnections_trans (fun i c => ?_) (fun i c => ?_) (fun g x y ret hg hr => ?_) h
  · match i with
    | 0 | 1 | 2 | 3 | 4 | 5 | 6 | 7 => exact sameConnections_refl _
    | i + 8 => exact sameConnections_refl _
  · rw [depart_session]
    exact sameConnections_refl _
  · by_cases hw : stmState c.sMachine = SessionState.copy.toNat ∧ e.ready = .write
    · rw [hw.1, hw.2] at hg
      obtain ⟨st, hcopy⟩ := callback_copyWrite hg hr
      exact copyWrite_connections hcopy
    · rw [(callback_steady hw hg hr).stats]
      exact sameConnections_refl _

theorem closeSession_stats (c : Conn) : (closeSession c).stats = prawtosDecrease c.stats := by
  have hclosed : (clientClose c).stats = c.stats := rfl
  unfold closeSession prawtosDecrease
  simp only
  by_cases hpos : 0 < getConcurrentConnections c.stats
  · rw [if_pos hpos]
    split
    · rw [if_pos (hclosed ▸ hpos)]
      rfl
    · rfl
  · rw [if_neg hpos]
    split
    · rw [if_neg (hclosed ▸ hpos)]
      rfl
    · rfl

theorem dispatch_outcome (hsize : fdSetsize < c.sel.fdSize) (hc : Carried c.sel c.clientFd (.session c.self))
    (hf : c.freed = false) (h : dispatch c e = .ok d) :
    d.self = c.self ∧ d.clientFd = c.clientFd ∧
      Outcome (.session c.self) c.clientFd c.sel c.stats d.freed d.sel d.stats := by
  rw [dispatch_eq] at h
  split at h
  · rw [hf, if_neg Bool.false_ne_true] at h
    cases hr : sessionHandler c e with
    | error f => rw [hr] at h; cases h
    | ok q =>
      obtain ⟨m, x, ret⟩ := q
      have hkept := sessionHandler_kept hr
      have hsame := sessionHandler_connections hr
      have hadds := hkept.sel hsize
      rw [hr, afterHandler, Except.ok.injEq] at h
      split at h
      · have hcarx : Carried x.sel x.clientFd (.session x.self) := by
          rw [hkept.clientFd, hkept.self]
          exact carried_onlyAdds hc hadds
        obtain ⟨hfreed, hfd, -, -, hself, hsel⟩ := closeSession_carried (c := { x with sMachine := m }) hcarx
        rw [← h]
        refine ⟨hself.trans hkept.self, hfd.trans hkept.clientFd, x.sel, x.stats, hadds, hsame,
          Or.inr ⟨hfreed, ?_, ?_⟩⟩
        · rw [hsel]
          exact congrArg (fun fd => (selectorUnregisterFd x.sel fd).1) hkept.clientFd
        · exact closeSession_stats _
      · rw [← h]
        exact ⟨hkept.self, hkept.clientFd, x.sel, x.stats, hadds, hsame, Or.inl ⟨hkept.freed.trans hf, rfl, rfl⟩⟩
  · rw [Except.ok.injEq] at h
    rw [← h]
    exact ⟨rfl, rfl, c.sel, c.stats, onlyAdds_refl _ _, sameConnections_refl _, Or.inl ⟨hf, rfl, rfl⟩⟩

end

section
variable {c d : PrawtosConn}

/-- What a callback of the service keeps of the registration. -/
structure PrawtosHolds (c d : PrawtosConn) : Prop where
  self : d.self = c.self
  clientFd : d.clientFd = c.clientFd
  freed : d.freed = c.freed
  stats : d.stats = c.stats
  sel : ∀ p, OnlyAdds p c.sel d.sel

theorem prawtosHolds_rule : PrawtosRule PrawtosHolds where
  trans := fun h h' => ⟨h'.self.trans h.self, h'.clientFd.trans h.clientFd, h'.freed.trans h.freed,
    h'.stats.trans h.stats, fun p => onlyAdds_trans (h.sel p) (h'.sel p)⟩
  note := fun c _ => ⟨rfl, rfl, rfl, rfl, fun p => onlyAdds_refl p c.sel⟩
  setInterest := fun c fd i => ⟨rfl, rfl, rfl, rfl, fun p => onlyAdds_setInterest p c.sel fd i⟩
  own := fun h => ⟨h.self, h.clientFd, h.freed, congrArg Process.stats h.process,
    fun p => congrArg Process.sel h.process ▸ onlyAdds_refl p _⟩

theorem cmdProcess_holds {heap : Heap} {ret : PrawtosState} (h : cmdProcess heap c = .ok (d, ret)) :
    PrawtosHolds c d := by
  obtain ⟨hok, -⟩ := cmdProcess_ok h
  exact ⟨hok.self, hok.clientFd, hok.freed, congrArg Process.stats hok.process,
    fun p => congrArg Process.sel hok.process ▸ onlyAdds_refl p _⟩

theorem prawtosDone_outcome (hc : Carried c.sel c.clientFd (.prawtos c.self)) (h : prawtosDone c = .ok d) :
    d.self = c.self ∧ d.clientFd = c.clientFd ∧ d.freed = true ∧ d.sel = (selectorUnregisterFd c.sel c.clientFd).1 ∧
      d.stats = prawtosDecrease c.stats := by
  obtain ⟨hstatus, -, -⟩ := selectorUnregisterFd_used hc.1 hc.2.1
  have hfd : c.clientFd ≠ -1 := by
    have hv := hc.1
    simp only [invalidFd, decide_eq_false_iff_not] at hv
    omega
  unfold prawtosDone at h
  simp only [hfd, ne_eq, not_false_eq_true, if_true] at h
  generalize selectorUnregisterFd c.sel c.clientFd = r at hstatus h
  obtain ⟨sel, status, item⟩ := r
  obtain ⟨rfl, rfl⟩ := Prod.mk.inj hstatus
  rw [← Except.ok.inj h]
  refine ⟨rfl, rfl, ?_, rfl, rfl⟩
  change (c.freed || decide (((some (c.sel.fds c.clientFd.toNat)).bind (·.data)) = some (.prawtos c.self))) = true
  rw [Option.bind_some, hc.2.2, decide_eq_true rfl, Bool.or_true]

theorem prawtosDispatch_outcome {e : PrawtosEvent} (hc : Carried c.sel c.clientFd (.prawtos c.self))
    (hf : c.freed = false) (h : prawtosDispatch c e = .ok d) :
    d.self = c.self ∧ d.clientFd = c.clientFd ∧
      Outcome (.prawtos c.self) c.clientFd c.sel c.stats d.freed d.sel d.stats := by
  rcases prawtosDispatch_ok h with rfl | ⟨st, g, x, y, z, ret, hg, hx, hcall, hz, m, -, hd⟩
  · exact ⟨rfl, rfl, d.sel, d.stats, onlyAdds_refl _ _, sameConnections_refl _, Or.inl ⟨hf, rfl, rfl⟩⟩
  have hrefl := prawtosRule_refl prawtosHolds_rule
  have hcx : PrawtosHolds c x := by
    rcases hx with rfl | ⟨i, rfl⟩
    · exact hrefl x
    · exact prawtosArrive_rel prawtosHolds_rule i
  have hyz : PrawtosHolds y z := by
    rcases hz with rfl | ⟨i, rfl⟩
    · exact hrefl z
    · exact prawtosArrive_rel prawtosHolds_rule i
  have hxy := prawtosHandlerOf_rel prawtosHolds_rule cmdProcess_holds hg hcall
  have hcz := prawtosHolds_rule.trans hcx (prawtosHolds_rule.trans hxy hyz)
  have hsame : SameConnections c.stats z.stats := hcz.stats ▸ sameConnections_refl _
  split at hd
  · have hcarz : Carried z.sel z.clientFd (.prawtos z.self) := by
      rw [hcz.clientFd, hcz.self]
      exact carried_onlyAdds hc (hcz.sel none)
    obtain ⟨hself, hfd, hfreed, hsel, hstats⟩ := prawtosDone_outcome (c := { z with stm := m }) hcarz hd
    refine ⟨hself.trans hcz.self, hfd.trans hcz.clientFd, z.sel, z.stats, hcz.sel _, hsame,
      Or.inr ⟨hfreed, ?_, hstats⟩⟩
    rw [hsel]
    exact congrArg (fun fd => (selectorUnregisterFd z.sel fd).1) hcz.clientFd
  · rw [hd]
    exact ⟨hcz.self, hcz.clientFd, z.sel, z.stats, hcz.sel _, hsame, Or.inl ⟨hcz.freed.trans hf, rfl, rfl⟩⟩

end

/-! ## The connections of one kind -/

/-- What sessions and connections of the service have in common. -/
structure Party (α : Type) where
  self : α → Nat
  clientFd : α → Int
  freed : α → Bool
  ptr : Nat → Ptr
  ptr_inj : Function.Injective ptr

def sessionParty : Party Record where
  self := fun r => r.self
  clientFd := fun r => r.clientFd
  freed := fun r => r.freed
  ptr := .session
  ptr_inj := fun _ _ h => Ptr.session.inj h

def prawtosParty : Party PrawtosRecord where
  self := fun r => r.self
  clientFd := fun r => r.clientFd
  freed := fun r => r.freed
  ptr := .prawtos
  ptr_inj := fun _ _ h => Ptr.prawtos.inj h

/-- Those in the list are live, each is registered, and no two have one address. -/
structure Enlisted {α : Type} (k : Party α) (sel : Selector Handler Ptr) (l : List α) : Prop where
  alive : ∀ r ∈ l, k.freed r = false
  carried : ∀ r ∈ l, Carried sel (k.clientFd r) (k.ptr (k.self r))
  distinct : DistinctKeys k.self l

section
variable {α : Type} {k : Party α} {sel sel' : Selector Handler Ptr} {l : List α} {r x : α}

/-- The list when `x` has been put back, or freed. -/
def Party.put (k : Party α) (x : α) (l : List α) : List α :=
  if k.freed x then without k.self (k.self x) l else x :: without k.self (k.self x) l

theorem enlisted_count (h : Enlisted k sel l) :
    l.countP (fun r => decide (Carried sel (k.clientFd r) (k.ptr (k.self r)))) = l.length :=
  List.countP_eq_length.mpr fun r hr => decide_eq_true (h.carried r hr)

theorem enlisted_onlyAdds {d : Option Ptr} (h : Enlisted k sel l) (ho : OnlyAdds d sel sel') : Enlisted k sel' l :=
  ⟨h.alive, fun r hr => carried_onlyAdds (h.carried r hr) ho, h.distinct⟩

theorem enlisted_other {p : Ptr} {fd : Int} {s s' : Stadistics} {freed : Bool} (h : Enlisted k sel l)
    (hc : Carried sel fd p) (ho : Outcome p fd sel s freed sel' s') (hne : ∀ a, k.ptr a ≠ p) : Enlisted k sel' l :=
  ⟨h.alive, fun r hr => outcome_other ho hc (h.carried r hr) (hne _), h.distinct⟩

/-- A connection that is registered joins the others. -/
theorem enlisted_new (h : Enlisted k sel l) (hf : k.freed x = false)
    (hc : Carried sel (k.clientFd x) (k.ptr (k.self x))) : Enlisted k sel (k.put x l) := by
  have hput : k.put x l = x :: without k.self (k.self x) l := by simp [Party.put, hf]
  rw [hput]
  refine ⟨fun r hr => ?_, fun r hr => ?_, distinctKeys_replace h.distinct x⟩
  · rcases List.mem_cons.mp hr with rfl | hr
    · exact hf
    · exact h.alive r (mem_without.mp hr).1
  · rcases List.mem_cons.mp hr with rfl | hr
    · exact hc
    · exact h.carried r (mem_without.mp hr).1

/-- A connection that was in the list is put back after an event, or is freed and leaves. -/
theorem enlisted_event {s s' : Stadistics} (h : Enlisted k sel l) (hr : r ∈ l) (hself : k.self x = k.self r)
    (hfd : k.clientFd x = k.clientFd r) (ho : Outcome (k.ptr (k.self r)) (k.clientFd r) sel s (k.freed x) sel' s') :
    Enlisted k sel' (k.put x l) ∧ (k.put x l).length + (k.freed x).toNat = l.length := by
  have hc := h.carried r hr
  have hrest : ∀ r' ∈ without k.self (k.self x) l,
      k.freed r' = false ∧ Carried sel' (k.clientFd r') (k.ptr (k.self r')) := by
    intro r' hr'
    obtain ⟨hmem, hne⟩ := mem_without.mp hr'
    refine ⟨h.alive r' hmem, outcome_other ho hc (h.carried r' hmem) fun heq => hne ?_⟩
    rw [hself]
    exact k.ptr_inj heq
  have hlen : (without k.self (k.self x) l).length + 1 = l.length := by
    rw [hself]
    exact length_without h.distinct hr
  cases hx : k.freed x with
  | true =>
    have hput : k.put x l = without k.self (k.self x) l := by simp [Party.put, hx]
    rw [hput]
    exact ⟨⟨fun r' hr' => (hrest r' hr').1, fun r' hr' => (hrest r' hr').2, distinctKeys_without h.distinct _⟩,
      hlen⟩
  | false =>
    rw [hx] at ho
    have hput : k.put x l = x :: without k.self (k.self x) l := by simp [Party.put, hx]
    rw [hput]
    refine ⟨⟨fun r' hr' => ?_, fun r' hr' => ?_, distinctKeys_replace h.distinct x⟩, hlen⟩
    · rcases List.mem_cons.mp hr' with rfl | hr'
      · exact hx
      · exact (hrest r' hr').1
    · rcases List.mem_cons.mp hr' with rfl | hr'
      · rw [hself, hfd]
        exact (outcome_self ho hc).1
      · exact (hrest r' hr').2

end

end SocksProxy
