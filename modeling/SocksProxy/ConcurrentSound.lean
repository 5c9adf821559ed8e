import SocksProxy.CloseSound
import SocksProxy.Outcome

/-!
# The counters of connections

`new_connection_ipv4` and `new_connection_ipv6` count before they look whether
there is a connection, and `prawtos_passive_accept` takes back what it has not
counted. `Balanced` says of a step that neither matters; as long as every step
is, the counters are the connections that are open and those that have been
accepted, and not beyond.
-/

namespace SocksProxy

open Lib

/-! ## Connections -/

namespace Server

variable (w : Server)

/-- The connections that have been accepted and registered, and are not closed. -/
def openConnections : Nat :=
  w.sessions.countP (fun r => decide (Carried w.process.sel r.clientFd (.session r.self))) +
    w.prawtos.countP fun r => decide (Carried w.process.sel r.clientFd (.prawtos r.self))

/-- What `accept` returns. -/
def newFd (fd : Option Nat) : Option Nat := fd.filter fun n => decide ((n : Int) ∉ w.process.openFds)

/-- The connections that `accept` returns in the step. -/
def accepts : ServerStep → Nat
  | .accept fd memory => if (memory.bind fun a => w.find a.session).isSome then 0 else (w.newFd fd).toList.length
  | .prawtosAccept fd _ _ => (w.newFd fd).toList.length
  | _ => 0

/-- The counters are the connections that are open and the `n` accepted so far. -/
def CountersMatch (n : Nat) : Prop :=
  (getConcurrentConnections w.process.stats).toNat = w.openConnections ∧
    (getTotalConnections w.process.stats).toNat = n

/-- `selector_register` finds the entry of `n` free, or left to `p`. -/
def CanRegister (p : Option Ptr) (n : Nat) : Prop :=
  n < fdSetsize ∧ ((w.process.sel.fds n).used = false ∨ (p.isSome ∧ (w.process.sel.fds n).data = p))

/-- The service gets all it needs for the connection. -/
def Serves (fd : Option Nat) (nio : Bool) (memory : Option Nat) : Prop :=
  ∃ n ∈ w.newFd fd, nio = true ∧ (∃ a ∈ memory, (w.prawtosFind a).isNone) ∧ w.CanRegister none n

/-- A session gets memory exactly when it gets a descriptor, and then one that
can be registered; an `accept` of the service gets all it needs, or no
connection while none is open. An allocation in use is none that `malloc` gives. -/
def Balanced : ServerStep → Prop
  | .accept fd none => w.newFd fd = none
  | .accept fd (some a) =>
    (w.find a.session).isSome = true ∨ ∃ n ∈ w.newFd fd, w.CanRegister (some (.session a.session)) n
  | .prawtosAccept fd nio memory => w.Serves fd nio memory ∨ (w.newFd fd = none ∧ w.openConnections = 0)
  | _ => True

end Server

instance (w : Server) (p : Option Ptr) (n : Nat) : Decidable (w.CanRegister p n) := by
  unfold Server.CanRegister; infer_instance

instance (w : Server) (fd : Option Nat) (nio : Bool) (memory : Option Nat) :
    Decidable (w.Serves fd nio memory) := by
  unfold Server.Serves; infer_instance

instance (w : Server) (s : ServerStep) : Decidable (w.Balanced s) :=
  match s with
  | .accept fd none => inferInstanceAs (Decidable (w.newFd fd = none))
  | .accept fd (some a) =>
    inferInstanceAs (Decidable ((w.find a.session).isSome = true ∨
      ∃ n ∈ w.newFd fd, w.CanRegister (some (.session a.session)) n))
  | .prawtosAccept fd nio memory =>
    inferInstanceAs (Decidable (w.Serves fd nio memory ∨ (w.newFd fd = none ∧ w.openConnections = 0)))
  | .event _ | .prawtosEvent _ => .isTrue trivial

/-! ## The invariant -/

/-- What `Balanced` keeps of a run. -/
structure Enrolled (w : Server) : Prop where
  fdSize : fdSetsize < w.process.sel.fdSize
  sessions : Enlisted sessionParty w.process.sel w.sessions
  prawtos : Enlisted prawtosParty w.process.sel w.prawtos
  counters : (getConcurrentConnections w.process.stats).toNat ≤ (getTotalConnections w.process.stats).toNat

section
variable {w : Server}

theorem openConnections_eq (h : Enrolled w) : w.openConnections = w.sessions.length + w.prawtos.length :=
  congrArg₂ (· + ·) (enlisted_count h.sessions) (enlisted_count h.prawtos)

theorem enrolled_booted (b : Booted) : Enrolled b.server where
  fdSize := b.fdSize_lt
  sessions := ⟨fun _ hr => absurd hr List.not_mem_nil, fun _ hr => absurd hr List.not_mem_nil, List.nodup_nil⟩
  prawtos := ⟨fun _ hr => absurd hr List.not_mem_nil, fun _ hr => absurd hr List.not_mem_nil, List.nodup_nil⟩
  counters := by
    change (getConcurrentConnections b.process.stats).toNat ≤ (getTotalConnections b.process.stats).toNat
    rw [b.stats_init]
    exact Nat.le_refl _

theorem countersMatch_booted (b : Booted) : b.server.CountersMatch 0 := by
  have hc : getConcurrentConnections b.server.process.stats = 0 := congrArg getConcurrentConnections b.stats_init
  have ht : getTotalConnections b.server.process.stats = 0 := congrArg getTotalConnections b.stats_init
  unfold Server.CountersMatch
  rw [hc, ht]
  exact ⟨rfl, rfl⟩

/-! ## Events -/

theorem enrolled_outcome {w' : Server} {p : Ptr} {fd : Int} {freed : Bool} {n : Nat} (h : Enrolled w)
    (hc : Carried w.process.sel fd p)
    (ho : Outcome p fd w.process.sel w.process.stats freed w'.process.sel w'.process.stats)
    (hs : Enlisted sessionParty w'.process.sel w'.sessions) (hp : Enlisted prawtosParty w'.process.sel w'.prawtos)
    (hlen : w'.sessions.length + w'.prawtos.length + freed.toNat = w.sessions.length + w.prawtos.length) :
    Enrolled w' ∧ (w.CountersMatch n → w'.CountersMatch n) := by
  obtain ⟨hopen, htotal⟩ := outcome_counts ho
  have h' : Enrolled w' := by
    refine ⟨?_, hs, hp, ?_⟩
    · rw [outcome_fdSize ho hc]
      exact h.fdSize
    · rw [hopen, htotal]
      exact Nat.le_trans (Nat.sub_le _ _) h.counters
  refine ⟨h', fun hmatch => ?_⟩
  obtain ⟨hm, hn⟩ := hmatch
  refine ⟨?_, (congrArg UInt16.toNat htotal).trans hn⟩
  rw [openConnections_eq h] at hm
  rw [openConnections_eq h', hopen, hm]
  omega

theorem put_eq (w : Proxy) (c : Conn) :
    w.put c =
      ⟨sessionParty.put c.toRecord w.sessions, if c.freed then c.toRecord :: w.closed else w.closed,
        c.toProcess⟩ := by
  have hput : sessionParty.put c.toRecord w.sessions =
      if c.freed then w.sessions.filter fun r => decide (r.self ≠ c.self)
      else c.toRecord :: w.sessions.filter fun r => decide (r.self ≠ c.self) := rfl
  rw [hput, Proxy.put]
  cases c.freed <;> rfl

theorem prawtosPut_eq (w : Server) (c : PrawtosConn) :
    w.prawtosPut c =
      { w with
        process := c.toProcess
        users := c.users
        prawtos := prawtosParty.put c.toPrawtosRecord w.prawtos
        prawtosClosed := if c.freed then c.toPrawtosRecord :: w.prawtosClosed else w.prawtosClosed } := by
  have hput : prawtosParty.put c.toPrawtosRecord w.prawtos =
      if c.freed then w.prawtos.filter fun r => decide (r.self ≠ c.self)
      else c.toPrawtosRecord :: w.prawtos.filter fun r => decide (r.self ≠ c.self) := rfl
  rw [hput, Server.prawtosPut]
  cases c.freed <;> rfl

theorem event_enrolled {w' : Server} {e : Event} {n : Nat} (h : Enrolled w)
    (hs : serverStep w (.event e) = .ok w') :
    Enrolled w' ∧ (w.CountersMatch n → w'.CountersMatch n) := by
  rcases serverEvent_ok hs with ⟨-, rfl⟩ | ⟨a, r, d, -, hr, hd, rfl⟩
  · exact ⟨h, id⟩
  · have hmem := (find_some hr).1
    have hc := h.sessions.carried r hmem
    obtain ⟨hself, hfd, ho⟩ := dispatch_outcome h.fdSize hc (h.sessions.alive r hmem) hd
    obtain ⟨hlist, hlen⟩ := enlisted_event (x := d.toRecord) h.sessions hmem hself hfd ho
    rw [put_eq]
    refine enrolled_outcome h hc ho hlist (enlisted_other h.prawtos hc ho fun a => Ptr.noConfusion) ?_
    rw [Nat.add_right_comm]
    exact congrArg (· + w.prawtos.length) hlen

theorem prawtosEvent_enrolled {w' : Server} {e : PrawtosEvent} {n : Nat} (h : Enrolled w)
    (hs : serverStep w (.prawtosEvent e) = .ok w') : Enrolled w' ∧ (w.CountersMatch n → w'.CountersMatch n) := by
  rcases serverPrawtosEvent_ok hs with rfl | ⟨a, r, d, hr, hd, rfl⟩
  · exact ⟨h, id⟩
  · have hmem : r ∈ w.prawtos := List.mem_of_find?_eq_some hr
    have hc := h.prawtos.carried r hmem
    obtain ⟨hself, hfd, ho⟩ := prawtosDispatch_outcome hc (h.prawtos.alive r hmem) hd
    obtain ⟨hlist, hlen⟩ := enlisted_event (x := d.toPrawtosRecord) h.prawtos hmem hself hfd ho
    rw [prawtosPut_eq]
    refine enrolled_outcome h hc ho (enlisted_other h.sessions hc ho fun a => Ptr.noConfusion) hlist ?_
    rw [Nat.add_assoc]
    exact congrArg (w.sessions.length + ·) hlen

/-! ## Accepts -/

/-- A session is carried when it finds the entry free, or left to it. -/
theorem carried_register {sel : Selector Handler Ptr} (hs : fdSetsize < sel.fdSize) (n : Nat) (h : Handler)
    (i : FdInterest) (p : Ptr) (alloc : Bool) :
    Carried (selectorRegister sel n (some h) i (some p) alloc).1 n p ↔
      n < fdSetsize ∧ ((sel.fds n).used = false ∨ (sel.fds n).data = some p) := by
  by_cases hfree : n < fdSetsize ∧ (sel.fds n).used = false
  · obtain ⟨hlt, hu⟩ := hfree
    have hv := invalidFd_of_lt hlt
    obtain ⟨-, -, hfds⟩ :=
      selectorRegister_free (s := sel) hv (by rw [Int.toNat_natCast]; omega) hu h i (some p) alloc
    refine iff_of_true ⟨hv, ?_, ?_⟩ ⟨hlt, Or.inl hu⟩
    · rw [hfds, Function.update_self]
      exact used_of_valid hv
    · rw [hfds, Function.update_self]
  · have hrefused : (selectorRegister sel n (some h) i (some p) alloc).2 ≠ .success := by
      intro hok
      obtain ⟨hv, hu⟩ := selectorRegister_success hs hok
      simp only [invalidFd, decide_eq_false_iff_not] at hv
      exact hfree ⟨by omega, hu⟩
    rw [selectorRegister_refused hs _ _ _ _ hrefused]
    -- a refused registration leaves the entry to whoever carries it
    constructor
    · rintro ⟨hv, -, hd⟩
      simp only [invalidFd, decide_eq_false_iff_not] at hv
      exact ⟨by omega, Or.inr hd⟩
    · rintro ⟨hlt, hu⟩
      have hused : (sel.fds n).used = true := by
        by_contra hno
        exact hfree ⟨hlt, Bool.not_eq_true _ ▸ hno⟩
      refine ⟨invalidFd_of_lt hlt, hused, hu.resolve_left fun hno => ?_⟩
      exact Bool.false_ne_true (hno.symm.trans hused)

theorem put_newConnection {a : Allocation} (hnew : (w.find a.session).isSome = false) (fd : Int) :
    w.put (newConnection w.process a fd) =
      ⟨(newConnection w.process a fd).toRecord :: w.sessions, w.closed,
        (newConnection w.process a fd).toProcess⟩ := by
  have hkeep : without sessionParty.self a.session w.sessions = w.sessions := by
    refine without_eq_self fun r hr heq => ?_
    exact Bool.false_ne_true (hnew.symm.trans (find_isSome.mpr ⟨r, hr, heq⟩))
  exact congrArg (fun l => Proxy.mk ((newConnection w.process a fd).toRecord :: l) w.closed
    (newConnection w.process a fd).toProcess) hkeep

theorem newConnection_onlyAdds (h : Enrolled w) (a : Allocation) (fd : Int) :
    OnlyAdds (some (.session a.session)) w.process.sel (newConnection w.process a fd).sel :=
  onlyAdds_register h.fdSize fd .client opRead _ true

/-- The new session is one more that is open if it is carried. -/
theorem openConnections_new (h : Enrolled w) {a : Allocation} (hnew : (w.find a.session).isSome = false)
    (fd : Int) :
    ({ w with toProxy := w.put (newConnection w.process a fd) } : Server).openConnections =
      w.openConnections + if Carried (newConnection w.process a fd).sel fd (.session a.session) then 1 else 0 := by
  have hadds := newConnection_onlyAdds h a fd
  have hs : w.sessions.countP (fun r =>
      decide (Carried (newConnection w.process a fd).sel r.clientFd (.session r.self))) = w.sessions.length :=
    enlisted_count (enlisted_onlyAdds h.sessions hadds)
  have hp : w.prawtos.countP (fun r =>
      decide (Carried (newConnection w.process a fd).sel r.clientFd (.prawtos r.self))) = w.prawtos.length :=
    enlisted_count (enlisted_onlyAdds h.prawtos hadds)
  have hself : (newConnection w.process a fd).self = a.session := rfl
  have hfd : (newConnection w.process a fd).clientFd = fd := rfl
  rw [put_newConnection hnew, openConnections_eq h]
  unfold Server.openConnections
  simp only [List.countP_cons, hs, hp, hself, hfd, decide_eq_true_eq]
  omega

/-- The session is counted, whatever `accept` has returned and whether it is carried. -/
theorem newConnection_counts (h : Enrolled w) {a : Allocation} {n k : Nat}
    (hnew : (w.find a.session).isSome = false) (fd : Int) (hm : w.CountersMatch n) (hlt : n < 65535) :
    ({ w with toProxy := w.put (newConnection w.process a fd) } : Server).CountersMatch (n + k) ↔
      k = 1 ∧ Carried (newConnection w.process a fd).sel fd (.session a.session) := by
  obtain ⟨hopen, htotal⟩ := hm
  have hle := h.counters
  obtain ⟨hc, ht⟩ := increase_counts w.process.stats
  have hstats :
      (w.put (newConnection w.process a fd)).process.stats = stadisticsIncreaseConcurrent w.process.stats := by
    rw [put_newConnection hnew]
    rfl
  unfold Server.CountersMatch
  rw [openConnections_new h hnew fd]
  simp only [hstats]
  rw [hc, ht]
  split
  · rename_i hcar
    constructor
    · intro hcount
      obtain ⟨-, hn⟩ := hcount
      exact ⟨by omega, hcar⟩
    · intro hone
      obtain ⟨hk, -⟩ := hone
      exact ⟨by omega, by omega⟩
  · rename_i hcar
    constructor
    · intro hcount
      obtain ⟨hn, -⟩ := hcount
      omega
    · intro hone
      exact absurd hone.2 hcar

theorem newConnection_enrolled (h : Enrolled w) {a : Allocation} {fd : Int}
    (hc : Carried (newConnection w.process a fd).sel fd (.session a.session)) :
    Enrolled { w with toProxy := w.put (newConnection w.process a fd) } := by
  have hadds := newConnection_onlyAdds h a fd
  have hle := h.counters
  obtain ⟨hconc, htot⟩ := increase_counts w.process.stats
  rw [put_eq]
  refine ⟨?_,
    enlisted_new (x := (newConnection w.process a fd).toRecord) (enlisted_onlyAdds h.sessions hadds) rfl hc,
    enlisted_onlyAdds h.prawtos hadds, ?_⟩
  · change fdSetsize < (newConnection w.process a fd).sel.fdSize
    rw [hadds.fdSize]
    exact h.fdSize
  · change (getConcurrentConnections (stadisticsIncreaseConcurrent w.process.stats)).toNat ≤
      (getTotalConnections (stadisticsIncreaseConcurrent w.process.stats)).toNat
    rw [hconc, htot]
    omega

theorem accept_new {a : Allocation} (hnew : (w.find a.session).isSome = false) (fd : Option Nat) :
    w.accept fd (some a) = w.put (newConnection w.process a (((w.newFd fd).map Int.ofNat).getD (-1))) := by
  simp only [Proxy.accept, hnew, Bool.false_eq_true, if_false, Server.newFd]
  cases fd with
  | none => rfl
  | some n =>
    by_cases hopen : (n : Int) ∈ w.process.openFds
    · simp [Option.filter, hopen]
    · simp [Option.filter, hopen]

theorem newConnection_carried (h : Enrolled w) (a : Allocation) (fd : Option Nat) :
    (w.newFd fd).toList.length = 1 ∧
        Carried (newConnection w.process a (((w.newFd fd).map Int.ofNat).getD (-1))).sel
          (((w.newFd fd).map Int.ofNat).getD (-1)) (.session a.session) ↔
      ∃ n ∈ w.newFd fd, w.CanRegister (some (.session a.session)) n := by
  cases w.newFd fd with
  | none => exact iff_of_false (fun hno => absurd hno.1 (by simp)) (by simp)
  | some n =>
    have hreg := carried_register h.fdSize n .client opRead (.session a.session) true
    constructor
    · intro hcar
      obtain ⟨hlt, hfree⟩ := hreg.mp hcar.2
      exact ⟨n, rfl, hlt, hfree.imp_right fun hd => ⟨rfl, hd⟩⟩
    · intro hcan
      obtain ⟨k, hk, hlt, hfree⟩ := hcan
      obtain rfl : n = k := Option.some.inj hk
      exact ⟨rfl, hreg.mpr ⟨hlt, hfree.imp_right And.right⟩⟩

theorem accept_counts {fd : Option Nat} {memory : Option Allocation} {n : Nat} (h : Enrolled w)
    (hm : w.CountersMatch n) (hlt : n < 65535) :
    ({ w with toProxy := w.accept fd memory } : Server).CountersMatch (n + w.accepts (.accept fd memory)) ↔
      w.Balanced (.accept fd memory) := by
  cases memory with
  | none =>
    simp only [Server.accepts, Server.Balanced, Proxy.accept, Option.bind_none, Option.isSome_none,
      Bool.false_eq_true, if_false]
    cases w.newFd fd with
    | none => exact iff_of_true hm rfl
    | some k => exact iff_of_false (fun hno => absurd (hno.2.symm.trans hm.2) (by simp)) (by simp)
  | some a =>
    by_cases hused : (w.find a.session).isSome = true
    · simp only [Server.accepts, Server.Balanced, Proxy.accept, Option.bind_some, hused, if_true]
      exact iff_of_true hm (Or.inl trivial)
    · have hnew : (w.find a.session).isSome = false := Bool.not_eq_true _ ▸ hused
      rw [accept_new hnew, newConnection_counts h hnew _ hm hlt]
      simp only [Server.accepts, Server.Balanced, Option.bind_some, hnew, Bool.false_eq_true, if_false, false_or]
      exact newConnection_carried h a fd

theorem accept_enrolled {fd : Option Nat} {memory : Option Allocation} (h : Enrolled w)
    (hb : w.Balanced (.accept fd memory)) : Enrolled { w with toProxy := w.accept fd memory } := by
  cases memory with
  | none => exact h
  | some a =>
    by_cases hused : (w.find a.session).isSome = true
    · rw [Proxy.accept, if_pos hused]
      exact h
    · have hnew : (w.find a.session).isSome = false := Bool.not_eq_true _ ▸ hused
      rw [accept_new hnew]
      exact newConnection_enrolled h ((newConnection_carried h a fd).mpr (hb.resolve_left hused)).2

/-- The connection that `prawtos_passive_accept` registers. -/
def prawtosRegistered (p : Process) (users : List User) (fd self : Nat) : PrawtosConn :=
  { toPrawtosRecord := prawtosArrival self fd
    sel := (selectorRegister p.sel fd (some Handler.prawtos) opRead (some (.prawtos self)) true).1
    stats := stadisticsIncreaseConcurrent p.stats
    openFds := (fd : Int) :: p.openFds
    users := users }

/-- The service accepts with all that it needs, or takes back from the counter. -/
theorem prawtosAccept_cases (h : Enrolled w) (fd : Option Nat) (nio : Bool) (memory : Option Nat) :
    (∃ n a, w.newFd fd = some n ∧ w.prawtosFind a = none ∧ w.Serves fd nio memory ∧
        Carried (prawtosRegistered w.process w.users n a).sel n (.prawtos a) ∧
        w.prawtosAccept fd nio memory = w.prawtosPut (prawtosRegistered w.process w.users n a)) ∨
      (¬ w.Serves fd nio memory ∧
        w.prawtosAccept fd nio memory =
          { w with process := { w.process with stats := prawtosDecrease w.process.stats } }) := by
  have hfd : (fd.filter fun n : Nat => decide ((n : Int) ∉ w.process.openFds)) = w.newFd fd := rfl
  by_cases hgives : ∃ n ∈ w.newFd fd, nio = true ∧ ∃ a ∈ memory, (w.prawtosFind a).isNone = true
  · obtain ⟨n, hn, rfl, a, ha, hnone⟩ := hgives
    have hmem : (memory.filter fun a => (w.prawtosFind a).isNone) = some a := by
      rw [Option.mem_def.mp ha, Option.filter_some, if_pos hnone]
    unfold Server.prawtosAccept prawtosPassiveAccept
    rw [hfd, Option.mem_def.mp hn, hmem]
    simp only
    by_cases hok : (selectorRegister w.process.sel n (some Handler.prawtos) opRead (some (.prawtos a)) true).2 =
        .success
    · rw [if_pos hok]
      obtain ⟨hv, hu⟩ := selectorRegister_success h.fdSize hok
      have hlt : n < fdSetsize := by
        simp only [invalidFd, decide_eq_false_iff_not] at hv
        omega
      refine Or.inl ⟨n, a, rfl, Option.isNone_iff_eq_none.mp hnone,
        ⟨n, hn, rfl, ⟨a, ha, hnone⟩, hlt, Or.inl hu⟩, ?_, rfl⟩
      exact (carried_register h.fdSize n .prawtos opRead (.prawtos a) true).mpr ⟨hlt, Or.inl hu⟩
    · rw [if_neg hok, selectorRegister_refused h.fdSize _ _ _ _ hok]
      refine Or.inr ⟨fun hserves => hok ?_, rfl⟩
      obtain ⟨k, hk, -, -, hlt, hfree⟩ := hserves
      obtain rfl : n = k := Option.some.inj (hn.symm.trans hk)
      have hu : (w.process.sel.fds n).used = false := hfree.resolve_right fun hno => Bool.false_ne_true hno.1
      have hle : (n : Int).toNat ≤ w.process.sel.fdSize := by
        rw [Int.toNat_natCast]
        exact Nat.le_of_lt (Nat.lt_trans hlt h.fdSize)
      exact (selectorRegister_free (invalidFd_of_lt hlt) hle hu _ _ _ _).1
  · refine Or.inr ⟨fun hserves => ?_, ?_⟩
    · obtain ⟨n, hn, hnio, hmem, -⟩ := hserves
      exact hgives ⟨n, hn, hnio, hmem⟩
    -- one of the three is missing: `accept`, the flags or the memory
    unfold Server.prawtosAccept prawtosPassiveAccept
    rw [hfd]
    generalize hr : (memory.filter fun a => (w.prawtosFind a).isNone) = r
    cases hn : w.newFd fd with
    | none => rfl
    | some n =>
      cases nio with
      | false => rfl
      | true =>
        cases r with
        | none => rfl
        | some a => exact absurd ⟨n, hn, rfl, a, Option.filter_eq_some_iff.mp hr⟩ hgives

theorem prawtosRegistered_enrolled (h : Enrolled w) {n a : Nat} (hnew : w.prawtosFind a = none)
    (hc : Carried (prawtosRegistered w.process w.users n a).sel n (.prawtos a)) :
    Enrolled (w.prawtosPut (prawtosRegistered w.process w.users n a)) ∧
      (w.prawtosPut (prawtosRegistered w.process w.users n a)).openConnections = w.openConnections + 1 := by
  have hadds : OnlyAdds (some (.prawtos a)) w.process.sel (prawtosRegistered w.process w.users n a).sel :=
    onlyAdds_register h.fdSize n .prawtos opRead _ true
  have hle := h.counters
  obtain ⟨hconc, htot⟩ := increase_counts w.process.stats
  have henrolled : Enrolled (w.prawtosPut (prawtosRegistered w.process w.users n a)) := by
    rw [prawtosPut_eq]
    refine ⟨?_, enlisted_onlyAdds h.sessions hadds,
      enlisted_new (x := (prawtosRegistered w.process w.users n a).toPrawtosRecord)
        (enlisted_onlyAdds h.prawtos hadds) rfl hc,
      ?_⟩
    · change fdSetsize < (prawtosRegistered w.process w.users n a).sel.fdSize
      rw [hadds.fdSize]
      exact h.fdSize
    · change (getConcurrentConnections (stadisticsIncreaseConcurrent w.process.stats)).toNat ≤
        (getTotalConnections (stadisticsIncreaseConcurrent w.process.stats)).toNat
      rw [hconc, htot]
      omega
  have hkeep : without prawtosParty.self a w.prawtos = w.prawtos := by
    refine without_eq_self fun r hr heq => ?_
    have hno := List.find?_eq_none.mp hnew r hr
    exact hno (decide_eq_true heq)
  have hlen : (prawtosParty.put (prawtosRegistered w.process w.users n a).toPrawtosRecord w.prawtos).length =
      w.prawtos.length + 1 := by
    have hput : prawtosParty.put (prawtosRegistered w.process w.users n a).toPrawtosRecord w.prawtos =
        (prawtosRegistered w.process w.users n a).toPrawtosRecord :: without prawtosParty.self a w.prawtos := rfl
    rw [hput, hkeep, List.length_cons]
  refine ⟨henrolled, ?_⟩
  rw [openConnections_eq henrolled, openConnections_eq h, prawtosPut_eq]
  simp only [hlen]
  omega

theorem prawtosAccept_counts {fd : Option Nat} {nio : Bool} {memory : Option Nat} {n : Nat} (h : Enrolled w)
    (hm : w.CountersMatch n) (hlt : n < 65535) :
    (w.prawtosAccept fd nio memory).CountersMatch (n + w.accepts (.prawtosAccept fd nio memory)) ↔
      w.Balanced (.prawtosAccept fd nio memory) := by
  obtain ⟨hopen, htotal⟩ := hm
  have hle := h.counters
  rcases prawtosAccept_cases h fd nio memory with ⟨k, a, hfd, hnew, hserves, hc, heq⟩ | ⟨hserves, heq⟩
  · refine iff_of_true ?_ (Or.inl hserves)
    obtain ⟨hconc, htot⟩ := increase_counts w.process.stats
    have hstats : (w.prawtosPut (prawtosRegistered w.process w.users k a)).process.stats =
        stadisticsIncreaseConcurrent w.process.stats := prawtosPut_stats _ _
    have hone : w.accepts (.prawtosAccept fd nio memory) = 1 := by rw [Server.accepts, hfd]; rfl
    unfold Server.CountersMatch
    rw [hone, heq, hstats, (prawtosRegistered_enrolled h hnew hc).2, hconc, htot]
    omega
  · have hbalanced : w.Balanced (.prawtosAccept fd nio memory) ↔ w.newFd fd = none ∧ w.openConnections = 0 :=
      or_iff_right hserves
    have hnone : w.accepts (.prawtosAccept fd nio memory) = 0 ↔ w.newFd fd = none := by
      rw [Server.accepts]
      cases w.newFd fd <;> simp
    obtain ⟨hconc, htot⟩ := prawtosDecrease_counts w.process.stats
    have hcount : (w.prawtosAccept fd nio memory).openConnections = w.openConnections := by rw [heq]; rfl
    have hstats : (w.prawtosAccept fd nio memory).process.stats = prawtosDecrease w.process.stats := by rw [heq]
    rw [hbalanced, ← hnone]
    unfold Server.CountersMatch
    rw [hcount, hstats, hconc, htot]
    omega

theorem prawtosAccept_enrolled {fd : Option Nat} {nio : Bool} {memory : Option Nat} (h : Enrolled w) :
    Enrolled (w.prawtosAccept fd nio memory) := by
  rcases prawtosAccept_cases h fd nio memory with ⟨k, a, -, hnew, -, hc, heq⟩ | ⟨-, heq⟩
  · rw [heq]
    exact (prawtosRegistered_enrolled h hnew hc).1
  · obtain ⟨hconc, htot⟩ := prawtosDecrease_counts w.process.stats
    rw [heq]
    refine ⟨h.fdSize, h.sessions, h.prawtos, ?_⟩
    simp only
    rw [hconc, htot]
    exact Nat.le_trans (Nat.sub_le _ _) h.counters

/-! ## A run -/

/-- One step: the counters follow it exactly when it is balanced. -/
theorem serverStep_counters {w' : Server} {n : Nat} (s : ServerStep) (h : Enrolled w) (hm : w.CountersMatch n)
    (hlt : n < 65535) (hs : serverStep w s = .ok w') : w'.CountersMatch (n + w.accepts s) ↔ w.Balanced s := by
  cases s with
  | accept fd memory =>
    rw [serverStep, proxyStep, Except.map, Except.ok.injEq] at hs
    exact hs ▸ accept_counts h hm hlt
  | event e => exact iff_of_true ((event_enrolled h hs).2 hm) trivial
  | prawtosAccept fd nio memory =>
    rw [serverStep, Except.ok.injEq] at hs
    exact hs ▸ prawtosAccept_counts h hm hlt
  | prawtosEvent e => exact iff_of_true ((prawtosEvent_enrolled h hs).2 hm) trivial

theorem serverStep_enrolled {w' : Server} (s : ServerStep) (h : Enrolled w) (hb : w.Balanced s)
    (hs : serverStep w s = .ok w') : Enrolled w' := by
  cases s with
  | accept fd memory =>
    rw [serverStep, proxyStep, Except.map, Except.ok.injEq] at hs
    exact hs ▸ accept_enrolled h hb
  | event e => exact (event_enrolled (n := 0) h hs).1
  | prawtosAccept fd nio memory =>
    rw [serverStep, Except.ok.injEq] at hs
    exact hs ▸ prawtosAccept_enrolled h
  | prawtosEvent e => exact (prawtosEvent_enrolled (n := 0) h hs).1

theorem balanced_of_fault {s : ServerStep} {f : Fault} (hs : serverStep w s = .error f) : w.Balanced s := by
  cases s with
  | accept fd memory => cases hs
  | event e => trivial
  | prawtosAccept fd nio memory => cases hs
  | prawtosEvent e => trivial

/-- While fewer than 65535 connections have been accepted, the counters match
throughout a run exactly when each of its steps is balanced. -/
theorem countersMatch_iff (b : Booted) (es : List ServerStep)
    (hT : tally Server.accepts serverStep b.server es < 65535) :
    (∀ pre w, pre <+: es → run serverStep b.server pre = .ok w →
        w.CountersMatch (tally Server.accepts serverStep b.server pre)) ↔
      Along serverStep Server.Balanced b.server es := by
  have hN : 0 + tally Server.accepts serverStep b.server es < 65535 := by
    rw [Nat.zero_add]
    exact hT
  have hrun := run_tally_iff (J := Enrolled) (M := fun n w => w.CountersMatch n) (C := Server.Balanced)
    (fun w s f => balanced_of_fault) (fun n w s w' hj hm hn hs => serverStep_counters s hj hm (by omega) hs)
    (fun w s w' hj hb hs => serverStep_enrolled s hj hb hs) (enrolled_booted b) (countersMatch_booted b) hN
  simp only [Nat.zero_add] at hrun
  exact hrun

end

/-- A session that ends in an error, and one of the service. -/
def balancedSteps : List ServerStep :=
  [.accept (some 5) (some firstAccepted.memory), .prawtosAccept (some 6) true (some 0),
    .event ⟨5, .read, Answers.failed⟩, .accept none none,
    .prawtosEvent (prawtosReads 6 (authMessage admin2 alggo2))]

theorem countersMatch_balancedSteps :
    tally Server.accepts serverStep firstBooted.server balancedSteps = 2 ∧
      ∀ pre w, pre <+: balancedSteps → run serverStep firstBooted.server pre = .ok w →
        w.CountersMatch (tally Server.accepts serverStep firstBooted.server pre) :=
  ⟨by decide +kernel, (countersMatch_iff firstBooted balancedSteps (by decide +kernel)).mpr (by decide +kernel)⟩

/-- A session for an `accept` that has failed is counted; an `accept` of the
service that fails takes a session back that is open. -/
theorem failedAccepts_miscounted :
    (∃ w, run serverStep firstBooted.server [.accept none (some firstAccepted.memory)] = .ok w ∧
      tally Server.accepts serverStep firstBooted.server [.accept none (some firstAccepted.memory)] = 0 ∧
      w.openConnections = 0 ∧ getConcurrentConnections w.process.stats = 1 ∧
      getTotalConnections w.process.stats = 1) ∧
    (∃ w, run serverStep firstBooted.server
        [.accept (some 5) (some firstAccepted.memory), .prawtosAccept none false none] = .ok w ∧
      tally Server.accepts serverStep firstBooted.server
        [.accept (some 5) (some firstAccepted.memory), .prawtosAccept none false none] = 1 ∧
      w.openConnections = 1 ∧ getConcurrentConnections w.process.stats = 0) :=
  ⟨⟨_, rfl, by decide +kernel, by decide +kernel, by decide +kernel, by decide +kernel⟩,
    ⟨_, rfl, by decide +kernel, by decide +kernel, by decide +kernel⟩⟩

end SocksProxy
