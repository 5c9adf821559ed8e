import SocksProxy.ApartSound
import SocksProxy.IterationSound
import SocksProxy.MainLoop

/-!
# The loop takes steps of the server

Each entry of the selector is free, a connection's, or a listening socket's
(`Server.Wired`), and stays so. A callback that is given an old key is then
called for what the entry holds now, so that the loop of `main` does what a run
of the server does, one handler after the other.
-/

namespace SocksProxy

open Lib

/-! ## The entries -/

/-- A socket that `main` has registered before its loop; no connection holds it. -/
structure Server.Listens (w : Server) (n : Nat) (h : Handler) : Prop where
  item : w.process.sel.fds n = ⟨n, opRead, some h, none⟩
  passive : h.isPassive = true
  isOpen : (n : Int) ∈ w.process.openFds
  unheld : ∀ p, ¬ w.Holds p n

inductive Server.Wired (w : Server) (n : Nat) : Prop
  | free (item : w.process.sel.fds n = .blank) : Server.Wired w n
  | connection (p : Ptr) (i : FdInterest) (item : w.process.sel.fds n = ⟨n, i, some p.handler, some p⟩) :
      Server.Wired w n
  | listening (h : Handler) (listens : w.Listens n h) : Server.Wired w n

/-- `main` has registered its listening sockets, and nothing else. -/
def Booted.Listening (b : Booted) : Prop :=
  ∀ n, b.process.sel.fds n = .blank ∨
    ∃ h : Handler, h.isPassive = true ∧ (n : Int) ∈ b.process.openFds ∧
      b.process.sel.fds n = ⟨n, opRead, some h, none⟩

section
variable {w w' : Server} {n : Nat} {h : Handler}

theorem booted_unheld (b : Booted) (p : Ptr) (x : Int) : ¬ b.server.Holds p x := by
  intro hx
  cases p with
  | session a => exact absurd hx.choose_spec.1 List.not_mem_nil
  | prawtos a => exact absurd hx.choose_spec.1 List.not_mem_nil

theorem wired_booted {b : Booted} (hb : b.Listening) (n : Nat) : b.server.Wired n := by
  rcases hb n with hblank | ⟨h, hpassive, hopen, hitem⟩
  · exact .free hblank
  · exact .listening h ⟨hitem, hpassive, hopen, fun p => booted_unheld b p n⟩

theorem listens_ungrasped (hl : w.Listens n h) (p : Ptr) : ¬ w.Grasps p n := by
  rintro (hx | ⟨-, hno⟩)
  · exact hl.unheld p hx
  · exact hno hl.isOpen

/-- Connections do nothing to a listening socket. -/
theorem listens_kept (hp : Partitioned w) (ha : Advances w w') (hl : w.Listens n h) : w'.Listens n h := by
  obtain ⟨p, hacts, hturn⟩ := ha.turn
  refine ⟨?_, hl.passive, hturn.kept n hl.isOpen (hl.unheld p), fun q hq => ?_⟩
  · rcases acts_entry hacts hp.fdSize n with heq | ⟨hgrasp, -⟩
    · exact heq.trans hl.item
    · exact absurd hgrasp (listens_ungrasped hl p)
  · by_cases hqp : q = p
    · subst hqp
      exact (hturn.own n hq).1.elim (hl.unheld q) fun hno => hno hl.isOpen
    · exact hl.unheld q (hturn.others q n hqp hq)

/-- A step leaves an entry alone, or it is none of a listening socket before
and after the step. -/
theorem entry_moves (hp : Partitioned w) (ha : Advances w w') (hw : w.Wired n) :
    w'.process.sel.fds n = w.process.sel.fds n ∨
      ((∀ h, w.process.sel.fds n ≠ ⟨n, opRead, some h, none⟩) ∧
        (w'.process.sel.fds n = .blank ∨ ∃ p i, w'.process.sel.fds n = ⟨n, i, some p.handler, some p⟩)) := by
  obtain ⟨p, hacts, -⟩ := ha.turn
  rcases acts_entry hacts hp.fdSize n with heq | ⟨hgrasp, hrewrites⟩
  · exact Or.inl heq
  cases hw with
  | listening h listens => exact absurd hgrasp (listens_ungrasped listens p)
  | free item =>
    refine Or.inr ⟨fun h hitem => ?_, ?_⟩
    · cases congrArg Item.handler (item.symm.trans hitem)
    · rcases hrewrites with hblank | ⟨k, hreg⟩ | ⟨hu, -⟩
      · exact Or.inl hblank
      · exact Or.inr ⟨p, k, hreg⟩
      · rw [item] at hu
        exact absurd hu Bool.false_ne_true
  | connection q i item =>
    refine Or.inr ⟨fun h hitem => ?_, ?_⟩
    · cases congrArg Item.data (item.symm.trans hitem)
    · rcases hrewrites with hblank | ⟨k, hreg⟩ | ⟨-, k, hset⟩
      · exact Or.inl hblank
      · exact Or.inr ⟨p, k, hreg⟩
      · exact Or.inr ⟨q, k, by rw [hset, item]⟩

theorem wired_kept (hp : Partitioned w) (ha : Advances w w') (hw : w.Wired n) : w'.Wired n := by
  rcases entry_moves hp ha hw with heq | ⟨-, hblank | ⟨p, i, hitem⟩⟩
  · cases hw with
    | free item => exact .free (heq.trans item)
    | connection p i item => exact .connection p i (heq.trans item)
    | listening h listens => exact .listening h (listens_kept hp ha listens)
  · exact .free hblank
  · exact .connection p i hitem

/-- What holds whenever the loop calls something. -/
structure Server.Ready (w : Server) : Prop where
  partitioned : Partitioned w
  wired : ∀ n, w.Wired n

theorem ready_step {s : ServerStep} (hw : w.Ready) (hfresh : w.Fresh s) (hs : serverStep w s = .ok w') :
    w'.Ready := by
  have hadv := serverStep_advances hw.partitioned hfresh hs
  exact ⟨hadv.partitioned, fun n => wired_kept hw.partitioned hadv (hw.wired n)⟩

/-! ## A callback -/

/-- The callback for an event on a session, with a key that names its entry. -/
theorem clientHandler_step (hw : w.Ready) {e : Event} {a : Nat} {i : FdInterest} {r : Replies}
    (hitem : w.process.sel.fds e.fd = ⟨e.fd, i, some .client, some (.session a)⟩) (hi : i.has e.ready = true)
    (hr : r.sys = e.sys) {f : Key → Conn → Except Fault Conn}
    (hf : f = match e.ready with | .read => clientRead | .write => clientWrite) :
    w.clientHandler ⟨e.fd, some (.session a)⟩ r f = serverStep w (.event e) := by
  have hcalled := called_of_item hitem hi
  simp only [Server.clientHandler, serverStep, proxyStep, hcalled]
  cases hfind : w.find a with
  | none => rfl
  | some s =>
    obtain ⟨hmem, hself⟩ := find_some hfind
    have hsel : Selects (w.conn s) e := by
      obtain ⟨hu, hd, hh, hi⟩ := called_some hcalled
      exact ⟨hu, hself ▸ hd, hh, hi⟩
    have hdispatch : dispatch (w.conn s) e = f ⟨e.fd, r.sys⟩ (w.conn s) := by
      have hlive : ¬ (w.conn s).freed = true := by
        rw [show (w.conn s).freed = false from hw.partitioned.alive s hmem]
        decide
      unfold dispatch
      rw [if_pos hsel, if_neg hlive, hr, hf]
      cases e.ready with
      | read => rfl
      | write => rfl
    simp only [hdispatch]
    cases f ⟨e.fd, r.sys⟩ (w.conn s) with
    | error g => rfl
    | ok c => rfl

theorem prawtosHandler_step (hw : w.Ready) {e : PrawtosEvent} {a : Nat} {i : FdInterest} {r : Replies}
    (hitem : w.process.sel.fds e.fd = ⟨e.fd, i, some .prawtos, some (.prawtos a)⟩) (hi : i.has e.ready = true)
    (hr : r.prawtosSys = e.sys) {f : PrawtosKey → PrawtosConn → Except Fault PrawtosConn}
    (hf : f = match e.ready with | .read => prawtosRead | .write => prawtosWrite) :
    w.prawtosHandler ⟨e.fd, some (.prawtos a)⟩ r f = serverStep w (.prawtosEvent e) := by
  have hcalled := prawtosCalled_of_item hitem hi
  simp only [Server.prawtosHandler, serverStep, hcalled]
  cases hfind : w.prawtosFind a with
  | none => rfl
  | some s =>
    have hmem : s ∈ w.prawtos := List.mem_of_find?_eq_some hfind
    have hself : s.self = a := by simpa using List.find?_some hfind
    have hsel : PrawtosSelects (w.prawtosConn s) e := by
      unfold PrawtosSelects
      rw [show (w.prawtosConn s).sel.fds e.fd = _ from hitem]
      exact ⟨used_of_fd rfl, hself ▸ rfl, rfl, hi⟩
    have hdispatch : prawtosDispatch (w.prawtosConn s) e = f ⟨e.fd, r.prawtosSys⟩ (w.prawtosConn s) := by
      have hlive : ¬ (w.prawtosConn s).freed = true := by
        rw [show (w.prawtosConn s).freed = false from hw.partitioned.prawtosAlive s hmem]
        decide
      unfold prawtosDispatch
      rw [if_pos hsel, if_neg hlive, hr, hf]
      cases e.ready with
      | read => rfl
      | write => rfl
    simp only [hdispatch]

/-- A callback is a step of the server when its key names the entry as it is. -/
theorem callback_step (hw : w.Ready) {i : Nat} {kind : Readiness} {r : Replies}
    (hi : (w.process.sel.fds i).interest.has kind = true) (hh : (w.process.sel.fds i).handler = some h) :
    w.callback ⟨i, (w.process.sel.fds i).data⟩ r h kind = serverStep w (h.call i kind r) := by
  cases hw.wired i with
  | free item =>
    rw [item] at hh
    cases hh
  | listening g listens =>
    -- no registration but a connection's asks for writes
    have hread : kind = .read := by
      rw [listens.item] at hi
      cases kind with
      | read => rfl
      | write => cases hi
    subst hread
    cases h with
    | newConnectionIpv4 | newConnectionIpv6 | prawtosPassiveAccept => rfl
    | client | prawtos =>
      -- a handler without a connection is one of the three that accept
      have hpassive := listens.passive
      rw [listens.item] at hh
      rw [Option.some.inj hh] at hpassive
      cases hpassive
  | connection p k item =>
    have hk : k.has kind = true := by rwa [item] at hi
    rw [item] at hh
    rw [← Option.some.inj hh, show (w.process.sel.fds i).data = some p by rw [item]]
    cases p with
    | session a =>
      cases kind with
      | read => exact clientHandler_step (e := ⟨i, .read, r.sys⟩) hw item hk rfl rfl
      | write => exact clientHandler_step (e := ⟨i, .write, r.sys⟩) hw item hk rfl rfl
    | prawtos a =>
      cases kind with
      | read => exact prawtosHandler_step (e := ⟨i, .read, r.prawtosSys⟩) hw item hk rfl rfl
      | write => exact prawtosHandler_step (e := ⟨i, .write, r.prawtosSys⟩) hw item hk rfl rfl

/-! ## The two tests for an entry -/

/-- What the callback of an entry leaves in it is still of the same connection. -/
theorem data_kept (hw : w.Ready) {i : Nat} {kind : Readiness} {r : Replies}
    (hi : (w.process.sel.fds i).interest.has kind = true) (hh : (w.process.sel.fds i).handler = some h)
    (hfresh : w.Fresh (h.call i kind r)) (hs : serverStep w (h.call i kind r) = .ok w')
    (hu : (w'.process.sel.fds i).used = true) : (w'.process.sel.fds i).data = (w.process.sel.fds i).data := by
  -- an action registers an entry anew for the connection that ran it, and for no other
  have hdata : ∀ {own : Int → Prop} {p : Ptr}, Acts own p w.process w'.process →
      (w.process.sel.fds i).data = some p → (w'.process.sel.fds i).data = (w.process.sel.fds i).data := by
    intro own p hacts hp
    rcases acts_entry hacts hw.partitioned.fdSize i with heq | ⟨-, hr⟩
    · rw [heq]
    · exact (rewrites_data hr hu).elim (fun hd => hd.trans hp.symm) And.right
  cases hw.wired i with
  | free item =>
    rw [item] at hh
    cases hh
  | listening g listens =>
    have hadv := serverStep_advances hw.partitioned hfresh hs
    rw [(listens_kept hw.partitioned hadv listens).item, listens.item]
  | connection p k item =>
    have hk : k.has kind = true := by rwa [item] at hi
    rw [item] at hh
    rw [← Option.some.inj hh] at hs
    cases p with
    | session a =>
      have hcalled := called_of_item (e := ⟨i, kind, r.sys⟩) item hk
      rcases serverEvent_ok hs with ⟨hno, -⟩ | ⟨b, s, d, hb, hfind, hd, rfl⟩
      · cases hcalled.symm.trans hno
      · obtain rfl := Option.some.inj (hcalled.symm.trans hb)
        obtain ⟨hmem, hself, hruns⟩ := called_runs hw.partitioned hcalled hfind
        have hmoved := dispatch_moved (runsIn_inv hruns) (hw.partitioned.alive s hmem) hd
        have hprocess : (w.put d).process = d.toProcess := by rw [put_eq]
        have hacts : Acts _ (.session s.self) w.process (w.put d).process := hprocess ▸ hmoved.acts
        exact hdata hacts (by rw [item, hself])
    | prawtos a =>
      have hcalled := prawtosCalled_of_item (e := ⟨i, kind, r.prawtosSys⟩) item hk
      have hs : serverStep w (.prawtosEvent ⟨i, kind, r.prawtosSys⟩) = .ok w' := hs
      rw [serverStep, hcalled] at hs
      cases hfind : w.prawtosFind a with
      | none => simp only [hfind] at hs; cases hs
      | some s =>
        simp only [hfind] at hs
        cases hd : prawtosDispatch (w.prawtosConn s) ⟨i, kind, r.prawtosSys⟩ with
        | error g => rw [hd] at hs; cases hs
        | ok d =>
          rw [hd, Except.map, Except.ok.injEq] at hs
          have hself : s.self = a := by simpa using List.find?_some hfind
          have hmoved := (prawtos_moved hw.partitioned (List.mem_of_find?_eq_some hfind)).2 _ _ hd
          have hprocess : w'.process = d.toProcess := by rw [← hs, prawtosPut_eq]
          have hacts : Acts _ (.prawtos s.self) w.process w'.process := hprocess ▸ hmoved.acts
          exact hdata hacts (by rw [item, hself])

/-- `key` was filled at entry `i`, and names what is there still. -/
def Server.Names (w : Server) (key : SelectorKey) (i : Nat) : Prop :=
  (w.process.sel.fds i).used = true → key = ⟨i, (w.process.sel.fds i).data⟩

theorem handleEvent_follows (hw : w.Ready) {key : SelectorKey} {i : Nat} (hkey : w.Names key i) (r : Replies)
    (kind : Readiness) (isset : Bool) :
    Logged.Follows serverStep Server.Fresh w (w.handleEvent key r i kind isset) := by
  unfold Server.handleEvent
  simp only
  split
  · rename_i hi
    have hused : (w.process.sel.fds i).used = true := by
      cases hw.wired i with
      | free item => rw [item] at hi; cases kind <;> cases hi.2
      | connection p k item => rw [item]; exact used_of_fd rfl
      | listening g listens => rw [listens.item]; exact used_of_fd rfl
    cases hh : (w.process.sel.fds i).handler with
    | none =>
      cases hw.wired i with
      | free item => rw [item] at hused; cases hused
      | connection p k item => rw [item] at hh; cases hh
      | listening g listens => rw [listens.item] at hh; cases hh
    | some h =>
      rw [hkey hused]
      exact Logged.follows_once (callback_step hw hi.2 hh)
  · exact Logged.follows_done w

/-- The key is good for the second test after the first. -/
theorem names_after (hw : w.Ready) {key : SelectorKey} {i : Nat} (hkey : w.Names key i)
    (hused : (w.process.sel.fds i).used = true) {r : Replies} {kind : Readiness} {isset : Bool}
    (hf : Along serverStep Server.Fresh w (w.handleEvent key r i kind isset).1)
    (hr : run serverStep w (w.handleEvent key r i kind isset).1 = .ok w') : w'.Names key i := by
  unfold Server.handleEvent at hf hr
  simp only at hf hr
  split at hr
  · rename_i hi
    rw [if_pos hi] at hf
    cases hh : (w.process.sel.fds i).handler with
    | none =>
      rw [hh, run_nil, Except.ok.injEq] at hr
      exact hr ▸ hkey
    | some h =>
      rw [hh] at hr hf
      obtain ⟨u, hs, hu⟩ := run_cons_ok.mp hr
      rw [run_nil, Except.ok.injEq] at hu
      subst hu
      intro hused'
      rw [hkey hused, data_kept hw hi.2 hh hf.1 hs hused']
  · rw [Logged.done, run_nil, Except.ok.injEq] at hr
    exact hr ▸ hkey

theorem handleItem_follows (hw : w.Ready) (isset : Nat → Readiness → Bool) (replies : Nat → Readiness → Replies)
    (i : Nat) : Logged.Follows serverStep Server.Fresh w (w.handleItem isset replies i) := by
  unfold Server.handleItem
  simp only
  split
  · rename_i hused
    have hfd : (w.process.sel.fds i).fd = i := by
      cases hw.wired i with
      | free item => rw [item] at hused; cases hused
      | connection p k item => rw [item]
      | listening g listens => rw [listens.item]
    have hkey : w.Names ⟨(w.process.sel.fds i).fd, (w.process.sel.fds i).data⟩ i := fun _ => by rw [hfd]
    refine Logged.follows_bind (handleEvent_follows hw hkey _ _ _) fun u hf hr => ?_
    have hu : u.Ready := run_along (fun _ _ _ => ready_step) hw hf hr
    exact handleEvent_follows hu (names_after hw hkey hused hf hr) _ _ _
  · exact Logged.follows_done w

/-! ## The loop -/

theorem selectorSelect_follows (hw : w.Ready) (turn : SelectResult × (Nat → Readiness → Replies)) :
    Logged.Follows serverStep Server.Fresh w (w.selectorSelect turn) := by
  unfold Server.selectorSelect
  split
  · exact Logged.follows_done w
  · exact Logged.follows_fold (fun u i hu => handleItem_follows hu _ _ i) (fun _ _ _ => ready_step) _ hw

theorem mainLoop_follows (hw : w.Ready) (turns : List (SelectResult × (Nat → Readiness → Replies))) :
    Logged.Follows serverStep Server.Fresh w (w.mainLoop turns) :=
  Logged.follows_fold (fun _ turn hu => selectorSelect_follows hu turn) (fun _ _ _ => ready_step) turns hw

theorem ready_booted {b : Booted} (hb : b.Listening) : b.server.Ready := ⟨partitioned_booted b, wired_booted hb⟩

def listeningSelector : Selector Handler Ptr :=
  let s := (selectorRegister serverSelector 3 (some .newConnectionIpv4) opRead none true).1
  (selectorRegister s 4 (some .prawtosPassiveAccept) opRead none true).1

theorem listeningSelector_fds (n : Nat) : listeningSelector.fds n =
    if n = 4 then ⟨4, opRead, some .prawtosPassiveAccept, none⟩
    else if n = 3 then ⟨3, opRead, some .newConnectionIpv4, none⟩ else .blank := by
  have h3 := @selectorRegister_free _ _ serverSelector 3 (by decide) (by decide) rfl
    Handler.newConnectionIpv4 opRead (none : Option Ptr) true
  have h4 := @selectorRegister_free _ _ (selectorRegister serverSelector 3 (some Handler.newConnectionIpv4) opRead
    (none : Option Ptr) true).1 4 (by decide) (by decide) rfl .prawtosPassiveAccept opRead none true
  have hfds : listeningSelector.fds = _ := h4.2.2
  rw [hfds, h3.2.2]
  simp only [Function.update_apply]
  rfl

/-- A server with one socket for clients and one for the service. -/
def listeningBooted : Booted where
  process := { sel := listeningSelector, stats := stadisticsInit, openFds := [0, 1, 2, 3, 4] }
  fdSize_lt := by decide
  unknown := by
    intro n a _ hd
    rw [listeningSelector_fds] at hd
    split at hd
    · cases hd
    · split at hd <;> cases hd
  users := initUserList zeroHeap
  stats_init := rfl

theorem listening_listeningBooted : listeningBooted.Listening := by
  intro n
  have hfds : listeningBooted.process.sel.fds n = _ := listeningSelector_fds n
  rw [hfds]
  split
  · rename_i hn
    subst hn
    exact Or.inr ⟨_, rfl, by decide, rfl⟩
  · split
    · rename_i hn
      subst hn
      exact Or.inr ⟨_, rfl, by decide, rfl⟩
    · exact Or.inl rfl

/-- A client connects, sends its greeting and is answered. -/
def threeTurns : List (SelectResult × (Nat → Readiness → Replies)) :=
  let replies : Nat → Readiness → Replies := fun _ _ =>
    { accept := some 5, nio := true, memory := some firstAccepted.memory, address := some 0,
      sys := { Answers.failed with recv := .data [0x05, 1, 0x00], send := .accepted 2 }
      prawtosSys := ⟨.error, .error, zeroHeap⟩ }
  [(some fun n kind => n == 3 && kind == .read, replies), (some fun n kind => n == 5 && kind == .read, replies),
    (some fun n kind => n == 5 && kind == .write, replies)]

theorem listening_unknown (p : Ptr) : Unknown listeningBooted.process.sel p := by
  intro n _ hd
  rw [show listeningBooted.process.sel.fds n = _ from listeningSelector_fds n] at hd
  split at hd
  · cases hd
  · split at hd <;> cases hd

theorem threeTurns_fresh :
    Along serverStep Server.Fresh listeningBooted.server (listeningBooted.server.mainLoop threeTurns).1 :=
  fresh_first listening_unknown (by decide +kernel)

/-- However many events a turn of the loop finds, and whatever the callbacks
for the first of them do to the selector before the others are called, the loop
does what the handlers that it has called do one after the other, each as a step
of the server. -/
theorem mainLoop_runs (b : Booted) (hb : b.Listening) (turns : List (SelectResult × (Nat → Readiness → Replies)))
    (hf : Along serverStep Server.Fresh b.server (b.server.mainLoop turns).1) :
    (b.server.mainLoop turns).2 = run serverStep b.server (b.server.mainLoop turns).1 :=
  mainLoop_follows (ready_booted hb) turns hf

theorem mainLoop_runs_three :
    (listeningBooted.server.mainLoop threeTurns).1.length = 3 ∧
      (listeningBooted.server.mainLoop threeTurns).2 =
        run serverStep listeningBooted.server (listeningBooted.server.mainLoop threeTurns).1 :=
  ⟨by decide +kernel, mainLoop_runs listeningBooted listening_listeningBooted threeTurns threeTurns_fresh⟩

/-! ## The listening sockets -/

theorem mirrors_act {p : Process} {m : Registrations Handler Ptr} (hm : Mirrors m p.sel) (x : Int) (a : Action) :
    ∃ m', Mirrors m' (p.act x a).sel := by
  cases a with
  | opened =>
    simp only [Process.act]
    split
    · exact ⟨m, hm⟩
    · exact ⟨m, hm⟩
  | closed | count s => exact ⟨m, hm⟩
  | register g i d => exact ⟨_, (register_agrees (fun _ => false) hm x (some g) i (some d) true).mirrors⟩
  | setInterest i => exact ⟨_, (setInterest_agrees (fun _ => false) hm x i).mirrors⟩
  | unregister => exact ⟨_, (unregisterFd_agrees (fun _ => false) hm x).mirrors⟩

theorem mirrors_acts {own : Int → Prop} {d : Ptr} {p q : Process} (h : Acts own d p q) (hp : ∃ m, Mirrors m p.sel) :
    ∃ m, Mirrors m q.sel := by
  induction h with
  | refl => exact hp
  | tail _ hq ih =>
    obtain ⟨m, hm⟩ := ih
    obtain ⟨x, a, rfl, -, -⟩ := hq
    exact mirrors_act hm x a

/-- What holds of a server that listens on descriptor `n`. -/
structure Server.Attends (w : Server) (n : Nat) (h : Handler) : Prop where
  ready : w.Ready
  mirrors : ∃ m, Mirrors m w.process.sel
  listens : w.Listens n h

theorem attends_step {s : ServerStep} (hw : w.Attends n h) (hfresh : w.Fresh s) (hs : serverStep w s = .ok w') :
    w'.Attends n h := by
  have hadv := serverStep_advances hw.ready.partitioned hfresh hs
  refine ⟨ready_step hw.ready hfresh hs, ?_, listens_kept hw.ready.partitioned hadv hw.listens⟩
  obtain ⟨p, hacts, -⟩ := hadv.turn
  exact mirrors_acts hacts hw.mirrors

theorem handleItem_calls (hw : w.Listens n h) {isset : Nat → Readiness → Bool} (hset : isset n .read = true)
    (replies : Nat → Readiness → Replies) :
    h.call n .read (replies n .read) ∈ (w.handleItem isset replies n).1 := by
  have hused : (w.process.sel.fds n).used = true := by rw [hw.item]; exact used_of_fd rfl
  unfold Server.handleItem
  simp only
  rw [if_pos hused]
  apply Logged.mem_bind
  unfold Server.handleEvent
  simp only [hw.item, Int.toNat_natCast, hset]
  exact List.mem_singleton_self _

/-- A listening socket that `pselect` reports has its handler called before the
turn is over. -/
theorem selectorSelect_calls (hw : w.Attends n h) {ready : Nat → Readiness → Bool} (hr : ready n .read = true)
    {replies : Nat → Readiness → Replies}
    (hf : Along serverStep Server.Fresh w (w.selectorSelect (some ready, replies)).1)
    (hok : (w.selectorSelect (some ready, replies)).2 = .ok w') :
    h.call n .read (replies n .read) ∈ (w.selectorSelect (some ready, replies)).1 := by
  obtain ⟨m, hm⟩ := hw.mirrors
  have hused : (w.process.sel.fds n).used = true := by rw [hw.listens.item]; exact used_of_fd rfl
  obtain ⟨reg, hreg⟩ := Option.isSome_iff_exists.mp ((hm.used n).mp hused)
  have hitem := hm.item n reg hreg
  rw [hw.listens.item] at hitem
  have hmaster : w.process.sel.masterR n = true :=
    (hm.masterR n).mpr ⟨reg, hreg, congrArg (fun i : Item Handler Ptr => i.interest.read) hitem.symm⟩
  have hmax : n ≤ w.process.sel.maxFd := hm.maxFd.1 n (by rw [hreg]; rfl)
  have hset : w.reported ready n .read = true := by rw [Server.reported, hmaster, hr]; rfl
  refine Logged.mem_fold (I := fun u => u.Attends n h) (fun u i hu => handleItem_follows hu.ready _ _ i)
    (fun _ _ _ => attends_step) (fun u hu => handleItem_calls hu.listens hset replies) ?_ hw hf hok
  exact List.mem_range.mpr (by omega)

/-- Whatever the connections do, the listening sockets stay open and registered,
no connection gets hold of one, and one that `pselect` reports has its handler
called in the same turn, unless the turn ends in a fault. -/
theorem listening_served (b : Booted) (hb : b.Listening) (hm : ∃ m, Mirrors m b.process.sel)
    {turns : List (SelectResult × (Nat → Readiness → Replies))} (hl : (b.server.mainLoop turns).2 = .ok w)
    (hf : Along serverStep Server.Fresh b.server (b.server.mainLoop turns).1)
    (hn : b.process.sel.fds n = ⟨n, opRead, some h, none⟩) :
    w.process.sel.fds n = ⟨n, opRead, some h, none⟩ ∧ (n : Int) ∈ w.process.openFds ∧ (∀ p, ¬ w.Holds p n) ∧
      ∀ ready replies w', ready n .read = true → (w.selectorSelect (some ready, replies)).2 = .ok w' →
        Along serverStep Server.Fresh w (w.selectorSelect (some ready, replies)).1 →
        h.call n .read (replies n .read) ∈ (w.selectorSelect (some ready, replies)).1 := by
  have hlistens : b.server.Listens n h := by
    rcases hb n with hblank | ⟨g, hpassive, hopen, hitem⟩
    · cases hn.symm.trans hblank
    · cases hn.symm.trans hitem
      exact ⟨hn, hpassive, hopen, fun p => booted_unheld b p n⟩
  have hr : run serverStep b.server (b.server.mainLoop turns).1 = .ok w :=
    (mainLoop_follows (ready_booted hb) turns hf).symm.trans hl
  have hw : w.Attends n h :=
    run_along (I := fun w => w.Attends n h) (fun _ _ _ => attends_step) ⟨ready_booted hb, hm, hlistens⟩ hf hr
  exact ⟨hw.listens.item, hw.listens.isOpen, hw.listens.unheld,
    fun ready replies w' hready hok hf => selectorSelect_calls hw hready hf hok⟩

theorem mirrors_listening : ∃ m, Mirrors m listeningBooted.process.sel :=
  have h3 := register_agrees (fun _ => false) mirrors_server 3 (some Handler.newConnectionIpv4) opRead
    (none : Option Ptr) true
  ⟨_, (register_agrees (fun _ => false) h3.mirrors 4 (some .prawtosPassiveAccept) opRead none true).mirrors⟩

/-- After the three turns both sockets listen as before. -/
theorem listening_served_three : ∃ w, (listeningBooted.server.mainLoop threeTurns).2 = .ok w ∧
    w.process.sel.fds 3 = ⟨3, opRead, some .newConnectionIpv4, none⟩ ∧
      w.process.sel.fds 4 = ⟨4, opRead, some .prawtosPassiveAccept, none⟩ := by
  have hok : (listeningBooted.server.mainLoop threeTurns).2.isOk = true := by decide +kernel
  cases hl : (listeningBooted.server.mainLoop threeTurns).2 with
  | error f => rw [hl] at hok; cases hok
  | ok w =>
    have hitem := fun n => listeningSelector_fds n
    exact ⟨w, rfl,
      (listening_served listeningBooted listening_listeningBooted mirrors_listening hl threeTurns_fresh
        (hitem 3)).1,
      (listening_served listeningBooted listening_listeningBooted mirrors_listening hl threeTurns_fresh
        (hitem 4)).1⟩

end

end SocksProxy
