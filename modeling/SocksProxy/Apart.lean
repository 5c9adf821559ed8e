import SocksProxy.AdminSound
import SocksProxy.ConcurrentSound
import SocksProxy.PrawtosConfine

/-!
# The connections of the server, each on its own

`Server.Holds` is which connection holds a descriptor. A connection touches
what it holds and what is not open, so what it does is, for every other one,
something the rest of the process does between two of its events
(`runsIn_acts`, `prawtosRunsIn_acts`).
-/

namespace SocksProxy

open Lib

/-! ## What a connection holds -/

def PrawtosRecord.Holds (r : PrawtosRecord) (x : Int) : Prop := 0 ≤ x ∧ x = r.clientFd

namespace Server

variable (w : Server)

/-- The connection at `p` holds the descriptor. -/
def Holds (p : Ptr) (x : Int) : Prop :=
  match p with
  | .session a => ∃ r ∈ w.sessions, r.self = a ∧ r.Holds x
  | .prawtos a => ∃ r ∈ w.prawtos, r.self = a ∧ r.Holds x

def Grasps (p : Ptr) (x : Int) : Prop := w.Holds p x ∨ (0 ≤ x ∧ x ∉ w.process.openFds)

end Server

/-- No registration carries `p`. -/
def Unknown (sel : Selector Handler Ptr) (p : Ptr) : Prop :=
  ∀ n, (sel.fds n).used = true → (sel.fds n).data ≠ some p

theorem unknown_register {sel : Selector Handler Ptr} (hfd : fdSetsize < sel.fdSize) {p q : Ptr} {n : Int}
    {h : Handler} {i : FdInterest} (hu : Unknown sel q) (hne : p ≠ q) :
    Unknown (selectorRegister sel n (some h) i (some p) true).1 q := by
  intro m hm hd
  have hadds := onlyAdds_register hfd n h i (some p) true
  rcases hadds.added m hm with hused | hnew
  · exact hu m hused ((hadds.kept m hused).2 ▸ hd)
  · exact hne (Option.some.inj (hnew.symm.trans hd))

/-- `malloc` gives no address that a registration carries. For a session this is
more than it promises: the origin of a session that has ended stays registered
with the freed address. -/
def Server.Fresh (w : Server) : ServerStep → Prop
  | .accept _ (some a) => Unknown w.process.sel (.session a.session)
  | .prawtosAccept _ _ (some a) => Unknown w.process.sel (.prawtos a)
  | _ => True

/-! ## Runs of one connection -/

/-- In the process `p` the session is where a run of its own leads to. -/
def RunsIn (p : Process) (r : Record) : Prop :=
  ∃ a : Accepted, Reaches step a.conn { toRecord := r, toProcess := p }

def PrawtosRunsIn (p : Process) (users : List User) (r : PrawtosRecord) : Prop :=
  ∃ a : PrawtosAccepted, Reaches prawtosStep a.conn { toPrawtosRecord := r, toProcess := p, users := users }

section
variable {own : Int → Prop} {d p' : Ptr} {p q : Process}

theorem data_foreign {a : Action} (hd : a.By d) (hne : p' ≠ d) : a.data ≠ some p' := by
  intro hp
  cases a with
  | register h i q => exact hne ((Option.some.inj hp).symm.trans hd.1)
  | opened | closed | setInterest i | unregister | count s => cases hp

/-- What the connection at `d` may make of an entry: nothing, its own
registration, or another interest of one that is there. -/
def Rewrites (d : Ptr) (n : Nat) (i j : Item Handler Ptr) : Prop :=
  j = .blank ∨ (∃ k, j = ⟨n, k, some d.handler, some d⟩) ∨ (i.used = true ∧ ∃ k, j = { i with interest := k })

theorem rewrites_trans {n : Nat} {i j k : Item Handler Ptr} (h : Rewrites d n i j) (h' : Rewrites d n j k) :
    Rewrites d n i k := by
  rcases h' with rfl | ⟨l, rfl⟩ | ⟨hu, l, rfl⟩
  · exact Or.inl rfl
  · exact Or.inr (Or.inl ⟨l, rfl⟩)
  · rcases h with rfl | ⟨m, rfl⟩ | ⟨hi, m, rfl⟩
    · exact absurd hu Bool.false_ne_true
    · exact Or.inr (Or.inl ⟨l, rfl⟩)
    · exact Or.inr (Or.inr ⟨hi, l, rfl⟩)

theorem update_entry {fds fds' : Nat → Item Handler Ptr} {x : Int} {j : Item Handler Ptr} (hv : invalidFd x = false)
    (h : fds' = Function.update fds x.toNat j) (n : Nat) : fds' n = fds n ∨ ((n : Int) = x ∧ fds' n = j) := by
  by_cases hn : n = x.toNat
  · subst hn
    refine Or.inr ⟨?_, by rw [h, Function.update_self]⟩
    simp only [invalidFd, decide_eq_false_iff_not] at hv
    omega
  · exact Or.inl (by rw [h, Function.update_of_ne hn])

theorem act_entry {x : Int} {a : Action} (hp : fdSetsize < p.sel.fdSize) (ha : a.By d) (n : Nat) :
    (p.act x a).sel.fds n = p.sel.fds n ∨
      ((n : Int) = x ∧ Rewrites d n (p.sel.fds n) ((p.act x a).sel.fds n)) := by
  cases a with
  | opened =>
    simp only [Process.act]
    split
    · exact Or.inl rfl
    · exact Or.inl rfl
  | closed | count s => exact Or.inl rfl
  | register h i q =>
    obtain ⟨rfl, rfl⟩ := ha
    simp only [Process.act]
    -- a registration that is refused leaves the entry to its owner
    by_cases hr : (selectorRegister p.sel x (some q.handler) i (some q) true).2 = .success
    · obtain ⟨hv, hu⟩ := selectorRegister_success hp hr
      have hle : x.toNat ≤ p.sel.fdSize := by
        simp only [invalidFd, decide_eq_false_iff_not] at hv
        omega
      have hfds := (selectorRegister_free hv hle hu q.handler i (some q) true).2.2
      rcases update_entry hv hfds n with heq | ⟨hx, hj⟩
      · exact Or.inl heq
      · exact Or.inr ⟨hx, Or.inr (Or.inl ⟨i, by rw [hj, hx]⟩)⟩
    · rw [selectorRegister_refused hp _ _ _ _ hr]
      exact Or.inl rfl
  | setInterest i =>
    simp only [Process.act]
    by_cases hv : invalidFd x = true
    · exact Or.inl (by simp only [selectorSetInterest, hv, if_true])
    rw [Bool.not_eq_true] at hv
    by_cases hu : (p.sel.fds x.toNat).used = true
    · rcases update_entry hv (selectorSetInterest_used hv hu i).2.2 n with heq | ⟨hx, hj⟩
      · exact Or.inl heq
      · obtain rfl : n = x.toNat := by omega
        exact Or.inr ⟨hx, Or.inr (Or.inr ⟨hu, i, hj⟩)⟩
    · exact Or.inl (by simp only [selectorSetInterest, hv, hu, Bool.false_eq_true, if_false])
  | unregister =>
    simp only [Process.act]
    by_cases hv : invalidFd x = true
    · exact Or.inl (by simp only [selectorUnregisterFd, hv, if_true])
    rw [Bool.not_eq_true] at hv
    by_cases hu : (p.sel.fds x.toNat).used = true
    · rcases update_entry hv (selectorUnregisterFd_used hv hu).2.2 n with heq | ⟨hx, hj⟩
      · exact Or.inl heq
      · exact Or.inr ⟨hx, Or.inl hj⟩
    · exact Or.inl (by simp only [selectorUnregisterFd, hv, hu, Bool.false_eq_true, if_false])

/-- An entry changes only when its descriptor is one that the connection acts on. -/
theorem acts_entry (h : Acts own d p q) (hp : fdSetsize < p.sel.fdSize) (n : Nat) :
    q.sel.fds n = p.sel.fds n ∨ (own n ∧ Rewrites d n (p.sel.fds n) (q.sel.fds n)) := by
  induction h with
  | refl => exact Or.inl rfl
  | tail hpq hq ih =>
    have hsize := acts_fdSize hpq hp
    obtain ⟨x, a, rfl, hown, ha⟩ := hq
    rcases act_entry (x := x) hsize ha n with heq | ⟨rfl, hr⟩
    · rw [heq]
      exact ih
    · rcases hown with hown | ⟨s, rfl⟩
      · refine Or.inr ⟨hown, ?_⟩
        rcases ih with heq | ⟨-, hr'⟩
        · exact heq ▸ hr
        · exact rewrites_trans hr' hr
      · exact ih

theorem rewrites_data {n : Nat} {i j : Item Handler Ptr} (h : Rewrites d n i j) (hj : j.used = true) :
    j.data = some d ∨ (i.used = true ∧ j.data = i.data) := by
  rcases h with rfl | ⟨k, rfl⟩ | ⟨hu, k, rfl⟩
  · exact absurd hj Bool.false_ne_true
  · exact Or.inl rfl
  · exact Or.inr ⟨hu, rfl⟩

theorem acts_unknown (h : Acts own d p q) (hp : fdSetsize < p.sel.fdSize) (hne : p' ≠ d) (hu : Unknown p.sel p') :
    Unknown q.sel p' := by
  intro n hn hdata
  rcases acts_entry h hp n with heq | ⟨-, hr⟩
  · rw [heq] at hn hdata
    exact hu n hn hdata
  · rcases rewrites_data hr hn with hd | ⟨hused, hd⟩
    · exact hne (Option.some.inj (hdata.symm.trans hd))
    · exact hu n hused (hd.symm.trans hdata)

/-- Some descriptor is none of the session's. -/
theorem exists_not_owns (r : Record) : ∃ x, ¬ r.Owns x := by
  refine ⟨max r.clientFd r.server.fd + 1, fun h => ?_⟩
  rcases h with ⟨-, h⟩ | h
  · omega
  · omega

theorem runsIn_acts {r : Record} (h : RunsIn p r) (hne : Ptr.session r.self ≠ d) (ho : ∀ x, own x → ¬ r.Owns x)
    (ha : Acts own d p q) : RunsIn q r := by
  obtain ⟨a, hr⟩ := h
  refine ⟨a, reaches_trans hr
    (reaches_shared (R := ActsOnce own d) (f := fun p => ({ toRecord := r, toProcess := p } : Conn)) ?_ ha)⟩
  rintro p q ⟨x, b, rfl, hx, hb⟩
  have hdata := data_foreign hb hne
  rcases hx with hx | ⟨s, rfl⟩
  · refine ⟨.other x b, ?_⟩
    have hno : ¬ (r.Owns x ∨ b.data = some (.session r.self)) := fun hor => hor.elim (ho x hx) hdata
    simp only [step]
    rw [if_neg hno]
  · -- the counters are changed as if it were on a descriptor of the others
    obtain ⟨y, hy⟩ := exists_not_owns r
    refine ⟨.other y (.count s), ?_⟩
    have hno : ¬ (r.Owns y ∨ (Action.count s).data = some (.session r.self)) := fun hor => hor.elim hy hdata
    simp only [step]
    rw [if_neg hno]
    rfl

/-- What happens to a management connection between two of its events. -/
def Surroundings (c d : PrawtosConn) : Prop := ∃ s, (∀ e, s ≠ .event e) ∧ prawtosStep c s = .ok d

/-- What another connection does is nothing but that. -/
theorem surroundings_acts {r : PrawtosRecord} {users : List User} (hne : Ptr.prawtos r.self ≠ d)
    (ho : ∀ x, own x → x ≠ r.clientFd) (ha : Acts own d p q) (users' : List User) :
    Relation.ReflTransGen Surroundings { toPrawtosRecord := r, toProcess := p, users := users }
      { toPrawtosRecord := r, toProcess := q, users := users' } := by
  have husers : Surroundings { toPrawtosRecord := r, toProcess := p, users := users }
      { toPrawtosRecord := r, toProcess := p, users := users' } :=
    ⟨.users users', fun _ he => (by cases he), rfl⟩
  refine (Relation.ReflTransGen.single husers).trans ?_
  refine Relation.ReflTransGen.lift
    (fun p => ({ toPrawtosRecord := r, toProcess := p, users := users' } : PrawtosConn)) ?_ _ _ ha
  rintro p q ⟨x, b, rfl, hx, hb⟩
  have hdata := data_foreign hb hne
  rcases hx with hx | ⟨s, rfl⟩
  · refine ⟨.other x b, fun _ he => (by cases he), ?_⟩
    have hno : ¬ ((r.freed = false ∧ x = r.clientFd) ∨ b.data = some (.prawtos r.self)) :=
      fun hor => hor.elim (fun h => ho x hx h.2) hdata
    simp only [prawtosStep]
    rw [if_neg hno]
  · refine ⟨.other (r.clientFd + 1) (.count s), fun _ he => (by cases he), ?_⟩
    have hno : ¬ ((r.freed = false ∧ r.clientFd + 1 = r.clientFd) ∨
        (Action.count s).data = some (.prawtos r.self)) :=
      fun hor => hor.elim (fun h => absurd h.2 (by omega)) hdata
    simp only [prawtosStep]
    rw [if_neg hno]
    rfl

theorem prawtosRunsIn_acts {r : PrawtosRecord} {users users' : List User} (h : PrawtosRunsIn p users r)
    (hne : Ptr.prawtos r.self ≠ d) (ho : ∀ x, own x → x ≠ r.clientFd) (ha : Acts own d p q) :
    PrawtosRunsIn q users' r := by
  obtain ⟨a, hr⟩ := h
  refine ⟨a, reaches_trans hr (reaches_shared (R := Surroundings) (f := id) ?_
    (surroundings_acts hne ho ha users'))⟩
  rintro c c' ⟨s, -, hs⟩
  exact ⟨s, hs⟩

end

/-! ## The server between two steps -/

structure Partitioned (w : Server) : Prop where
  fdSize : fdSetsize < w.process.sel.fdSize
  leased : Leased w.Holds (· ∈ w.process.openFds)
  distinct : DistinctKeys (fun r : Record => r.self) w.sessions
  prawtosDistinct : DistinctKeys (fun r : PrawtosRecord => r.self) w.prawtos
  alive : ∀ r ∈ w.sessions, r.freed = false
  prawtosAlive : ∀ r ∈ w.prawtos, r.freed = false
  runs : ∀ r ∈ w.sessions, RunsIn w.process r ∨ Unknown w.process.sel (.session r.self)
  prawtosRuns : ∀ r ∈ w.prawtos, PrawtosRunsIn w.process w.users r
  closed : ∀ r ∈ w.closed, ∃ p, RunsIn p r
  prawtosClosed : ∀ r ∈ w.prawtosClosed, ∃ p users, PrawtosRunsIn p users r

/-- A step of the server: one connection has had its turn. -/
structure Advances (w w' : Server) : Prop where
  partitioned : Partitioned w'
  turn : ∃ p, Acts (w.Grasps p) p w.process w'.process ∧
    TookTurn p w.Holds w'.Holds (· ∈ w.process.openFds) (· ∈ w'.process.openFds)

section
variable {w : Server} {p : Ptr} {q : Process}

theorem advances_count (h : Partitioned w) {w' : Server} (hp : Partitioned w') (hh : w'.Holds = w.Holds)
    {s : Stadistics} (hs : w'.process = { w.process with stats := s }) : Advances w w' := by
  refine ⟨hp, .session 0, hs ▸ acts_count s, ?_⟩
  rw [hh, hs]
  exact ⟨fun x hx => ⟨Or.inl hx, h.leased.taken _ x hx⟩, fun _ _ _ hx => hx, fun _ hx _ => hx⟩

theorem advances_refl (h : Partitioned w) : Advances w w := advances_count h h rfl rfl

theorem grasps_foreign (h : Partitioned w) {p' : Ptr} (hne : p' ≠ p) {x : Int} (hx : w.Grasps p x) :
    ¬ w.Holds p' x :=
  leased_foreign h.leased hne (hx.imp_right And.right)

theorem grasps_nonneg {x : Int} (hx : w.Grasps p x) : 0 ≤ x := by
  rcases hx with hx | ⟨hpos, -⟩
  · cases p with
    | session a =>
      obtain ⟨r, -, -, hpos, -⟩ := hx
      exact hpos
    | prawtos a =>
      obtain ⟨r, -, -, hpos, -⟩ := hx
      exact hpos
  · exact hpos

/-- What the connection at `p` does, the other sessions see as done by the rest of the process. -/
theorem foreign_session (h : Partitioned w) (ha : Acts (w.Grasps p) p w.process q) {r : Record}
    (hr : r ∈ w.sessions) (hne : Ptr.session r.self ≠ p) : RunsIn q r ∨ Unknown q.sel (.session r.self) := by
  rcases h.runs r hr with hruns | hidle
  · refine Or.inl (runsIn_acts hruns hne (fun x hx howns => ?_) ha)
    have hheld : w.Holds (.session r.self) x :=
      ⟨r, hr, rfl, grasps_nonneg hx, howns.imp_left And.right⟩
    exact grasps_foreign h hne hx hheld
  · exact Or.inr (acts_unknown ha h.fdSize hne hidle)

theorem foreign_prawtos (h : Partitioned w) (ha : Acts (w.Grasps p) p w.process q) {r : PrawtosRecord}
    (hr : r ∈ w.prawtos) (hne : Ptr.prawtos r.self ≠ p) (users : List User) : PrawtosRunsIn q users r := by
  refine prawtosRunsIn_acts (h.prawtosRuns r hr) hne (fun x hx he => ?_) ha
  exact grasps_foreign h hne hx ⟨r, hr, rfl, grasps_nonneg hx, he⟩

end

end SocksProxy
