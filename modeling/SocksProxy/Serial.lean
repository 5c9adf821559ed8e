import SocksProxy.ArgsSound
import SocksProxy.Guarded
import SocksProxy.TransferSound

/-!
# The list of users under concurrent connections

Any number of management connections give commands at the same time. A command
that ends calls one handler, which changes the list at once
(`serverStep_handled`). So the list is the map that the commands make of it one
after the other, in the order in which they end, and each is answered as the map
answers it (`users_serial`).
-/

namespace SocksProxy

open Lib

/-! ## One command -/

/-- What the handlers of USERS make of the list of users, and their result. -/
def PrawtosParser.userResult (p : PrawtosParser) (h : Heap) (users : List User) : List User × Bool :=
  let a := p.credentials
  if p.user.cmd = 0 then addUser h users a.unamePtr a.ulen a.passwdPtr a.plen (decide (p.user.admin ≠ 0))
  else if p.user.cmd = 1 then deleteUser h users a.unamePtr
  else editUser h users a.unamePtr a.passwdPtr a.plen

section
variable {p : PrawtosParser} {h : Heap} {users : List User}

theorem userResult_create (hp : p.user.cmd = 0) : p.userResult h users =
    addUser h users p.credentials.unamePtr p.credentials.ulen p.credentials.passwdPtr p.credentials.plen
      (decide (p.user.admin ≠ 0)) := if_pos hp

theorem userResult_delete (hp : p.user.cmd = 1) :
    p.userResult h users = deleteUser h users p.credentials.unamePtr := by
  unfold PrawtosParser.userResult
  simp only [hp, if_true]
  rfl

theorem userResult_edit (hp : p.user.cmd = 2) : p.userResult h users =
    editUser h users p.credentials.unamePtr p.credentials.passwdPtr p.credentials.plen := by
  unfold PrawtosParser.userResult
  simp only [hp]
  rfl

end

/-- What an event of the connection has done to the users. -/
inductive Handles (h : Heap) (c d : PrawtosConn) : Prop
  | nothing (calls : ∀ i, d.calls.drop c.calls.length ≠ [.user i]) (users : d.users = c.users) : Handles h c d
  | user (i : Nat) (calls : d.calls.drop c.calls.length = [.user i])
      (result : d.cmd.parser.userResult h c.users = (d.users, decide (d.cmd.status = .success))) : Handles h c d

section
variable {h : Heap} {c d : PrawtosConn} {e : PrawtosEvent} {ret : PrawtosState}

theorem handles_kept (calls : d.calls = c.calls) (users : d.users = c.users) : Handles h c d := by
  refine .nothing (fun i => ?_) users
  rw [calls, List.drop_length]
  exact (List.cons_ne_nil _ _).symm

theorem status_result (b : Bool) :
    decide ((if b then PrawtosResponseStatus.success else .userCredentia) = .success) = b := by
  cases b <;> rfl

/-- The handler that the command of the parser calls. -/
theorem userHandlers_result {f : CmdOptions} {i : UInt8} {n : Nat} (hf : userHandlers[i.toNat]? = some f)
    (hi : c.cmd.parser.user.cmd = i) (hd : f h c = .ok (d, n)) :
    d = { c with
      users := (c.cmd.parser.userResult h c.users).1
      cmd.status := if (c.cmd.parser.userResult h c.users).2 then .success else .userCredentia } := by
  have hlt : i < 3 := by
    rw [UInt8.lt_iff_toNat_lt]
    exact (List.getElem?_eq_some_iff.mp hf).1
  have hcases : i = 0 ∨ i = 1 ∨ i = 2 := by
    rw [UInt8.lt_iff_toNat_lt] at hlt
    simp only [← UInt8.toNat_inj, UInt8.reduceToNat] at hlt ⊢
    omega
  rcases hcases with rfl | rfl | rfl
  · obtain rfl : createUser = f := Option.some.inj hf
    unfold createUser at hd
    simp only at hd
    split at hd
    · cases hd
    · rw [userResult_create hi]
      exact userAnswer_ok hd
  · obtain rfl : delUser = f := Option.some.inj hf
    rw [userResult_delete hi]
    exact userAnswer_ok hd
  · obtain rfl : modifyUser = f := Option.some.inj hf
    unfold modifyUser at hd
    simp only at hd
    split at hd
    · cases hd
    · rw [userResult_edit hi]
      exact userAnswer_ok hd

theorem cmdProcess_handles (hd : cmdProcess h c = .ok (d, ret)) : Handles h c d := by
  unfold cmdProcess at hd
  split at hd
  · -- a GET leaves the users alone
    split at hd
    · cases hd
    · rename_i c₁ n hi
      obtain ⟨f, hf, hf'⟩ := invoke_ok hi
      obtain ⟨args, nargs, rfl⟩ := getHandlers_ok hf hf'
      split at hd
      · cases hd
      · simp only [Except.ok.injEq, Prod.mk.injEq] at hd
        obtain ⟨rfl, -⟩ := hd
        refine .nothing (fun i => ?_) rfl
        simp only [List.drop_left]
        exact fun he => by cases he
  · split at hd
    · split at hd
      · cases hd
      · rename_i c₁ n hi
        unfold invoke at hi
        split at hi
        · cases hi
        · rename_i f hf
          obtain rfl := userHandlers_result
            (c := { c with calls := c.calls ++ [.user c.cmd.parser.user.cmd.toNat] }) hf rfl hi
          simp only [Except.ok.injEq, Prod.mk.injEq] at hd
          obtain ⟨rfl, -⟩ := hd
          refine .user c.cmd.parser.user.cmd.toNat List.drop_left ?_
          simp only [status_result]
    · split at hd
      · simp only [Except.ok.injEq, Prod.mk.injEq] at hd
        obtain ⟨rfl, -⟩ := hd
        exact handles_kept rfl rfl
      · simp only [Except.ok.injEq, Prod.mk.injEq] at hd
        obtain ⟨rfl, -⟩ := hd
        exact handles_kept rfl rfl

theorem prawtosDone_handled (hd : prawtosDone c = .ok d) :
    d.calls = c.calls ∧ d.users = c.users ∧ d.cmd = c.cmd := by
  unfold prawtosDone at hd
  simp only at hd
  split at hd
  · split at hd
    · rename_i sel item _
      rw [← Except.ok.inj hd]
      exact ⟨rfl, rfl, rfl⟩
    · cases hd
  · rw [← Except.ok.inj hd]
    exact ⟨rfl, rfl, rfl⟩

theorem prawtosSettle_handled {k : PrawtosKey} {st : PrawtosState} (hd : prawtosSettle k st c ret.toNat = .ok d) :
    d.calls = c.calls ∧ d.users = c.users ∧ (ret = .cmdWrite ∨ ret = .error → d.cmd = c.cmd) := by
  have harrive : ∀ x : PrawtosConn,
      x = (if ret.toNat = st.toNat then c else arrive prawtosInitStates ret.toNat k c) →
        x.calls = c.calls ∧ x.users = c.users ∧ (ret = .cmdWrite ∨ ret = .error → x.cmd = c.cmd) := by
    rintro x rfl
    split
    · exact ⟨rfl, rfl, fun _ => rfl⟩
    · obtain ⟨h1, -, -, h4⟩ := prawtosArrive_buffer ret.toNat k c
      refine ⟨h1, h4, fun hr => ?_⟩
      rcases hr with rfl | rfl <;> rfl
  unfold prawtosSettle at hd
  simp only at hd
  generalize hx : (if ret.toNat = st.toNat then c else arrive prawtosInitStates ret.toNat k c) = x at hd
  obtain ⟨h1, h2, h3⟩ := harrive x hx.symm
  split at hd
  · obtain ⟨h1', h2', h3'⟩ := prawtosDone_handled hd
    exact ⟨h1'.trans h1, h2'.trans h2, fun hr => h3'.trans (h3 hr)⟩
  · rw [← Except.ok.inj hd]
    exact ⟨h1, h2, h3⟩

theorem cmdReturn_cases {p : PrawtosParser} (hr : ret = .cmdWrite ∨ ret = .error) :
    cmdReturn p ret = .cmdWrite ∨ cmdReturn p ret = .error := by
  unfold cmdReturn
  split
  · exact Or.inr rfl
  · exact hr

/-- Only `cmd_read` calls a handler. -/
theorem prawtosDispatch_handles {V : Name → Name → Prop} (hinv : PrawtosInv V c) (hf : c.freed = false)
    (hd : prawtosDispatch c e = .ok d) : Handles e.sys.heap c d := by
  rcases hinv with hended | ⟨fd, st, hst, hp⟩
  · exact absurd (hf.symm.trans hended.freed) Bool.false_ne_true
  have hkept := prawtosDispatch_kept hst hf hd
  have hquiet : d.calls = c.calls → Handles e.sys.heap c d := fun hcalls => handles_kept hcalls (hkept.users hcalls)
  rw [prawtosDispatch_inState hst hf] at hd
  by_cases hs : PrawtosSelects c e
  swap
  · rw [if_neg hs, Except.ok.injEq] at hd
    exact hquiet (hd ▸ rfl)
  rw [if_pos hs] at hd
  cases hp with
  | authRead live r calls =>
    rw [callback_authRead live hs] at hd
    exact hquiet ((prawtosSettle_handled hd).1.trans (authPrawtosRead_rel callsKept_rule e.key c))
  | authWrite uname passwd live w calls vouched =>
    rw [callback_authWrite live hs] at hd
    exact hquiet ((prawtosSettle_handled hd).1.trans (authPrawtosWrite_rel callsKept_rule e.key c))
  | cmdWrite live vouched =>
    rw [callback_cmdWrite live hs] at hd
    exact hquiet ((prawtosSettle_handled hd).1.trans (cmdWrite_rel callsKept_rule e.key c))
  | cmdRead u live r vouched =>
    rw [callback_cmdRead live hs] at hd
    have hout := cmdRead_outcome (k := e.key) live r (congrArg Nat.cast (prawtosReady_read live hs).1)
    generalize cmdRead e.key c = q at hout hd
    cases hout with
    | failed c' live' same _ _ => exact hquiet ((prawtosSettle_handled hd).1.trans same.calls)
    | reading c' l b _ _ live' same => exact hquiet ((prawtosSettle_handled hd).1.trans same.calls)
    | processed c' l b v x _ _ _ live' same =>
      cases hp : cmdProcess e.key.sys.heap c' with
      | error f => rw [hp] at hd; cases hd
      | ok q =>
        obtain ⟨c₂, ret⟩ := q
        rw [hp] at hd
        obtain ⟨hcalls, husers, hcmd⟩ := prawtosSettle_handled hd
        have hcmd := hcmd (cmdReturn_cases (cmdProcess_ok hp).2)
        cases cmdProcess_handles hp with
        | nothing calls users =>
          refine .nothing (fun i => ?_) (husers.trans (users.trans same.users))
          rw [hcalls, ← same.calls]
          exact calls i
        | user i calls result =>
          refine .user i ?_ ?_
          · rw [hcalls, ← same.calls]
            exact calls
          · rw [hcmd, husers, ← same.users]
            exact result

end

/-! ## One step of the server -/

/-- The commands of USERS that a step of the server executes, as the parser
holds them, with whether they are answered with success. -/
def Server.handled (w : Server) : ServerStep → List (PrawtosParser × Bool)
  | .prawtosEvent e =>
    match (w.prawtosCalled e).bind w.prawtosFind with
    | some r =>
      match prawtosDispatch (w.prawtosConn r) e with
      | .ok d =>
        match d.calls.drop r.calls.length with
        | [.user _] => [(d.cmd.parser, decide (d.cmd.status = .success))]
        | _ => []
      | .error _ => []
    | none => []
  | _ => []

section
variable {w w' : Server} {s : ServerStep}

theorem handled_event {e : PrawtosEvent} {r : PrawtosRecord} {d : PrawtosConn}
    (hcalled : w.prawtosCalled e = some r.self) (hr : w.prawtosFind r.self = some r)
    (hd : prawtosDispatch (w.prawtosConn r) e = .ok d) :
    w.handled (.prawtosEvent e) =
      match d.calls.drop r.calls.length with
      | [.user _] => [(d.cmd.parser, decide (d.cmd.status = .success))]
      | _ => [] := by
  simp only [Server.handled, hcalled, Option.bind_some, hr, hd]

/-- A step executes no command of USERS and leaves the users alone, or executes
one command on the users there are. -/
theorem serverStep_handled (hp : Partitioned w) (hs : serverStep w s = .ok w') :
    (w.handled s = [] ∧ w'.users = w.users) ∨
      ∃ p ok h, w.handled s = [(p, ok)] ∧ p.userResult h w.users = (w'.users, ok) := by
  cases s with
  | accept fd memory =>
    rw [serverStep, proxyStep, Except.map, Except.ok.injEq] at hs
    exact Or.inl ⟨rfl, by rw [← hs]⟩
  | event e => exact Or.inl ⟨rfl, (event_acts hp hs).2.1⟩
  | prawtosAccept fd nio memory =>
    rw [serverStep, Except.ok.injEq] at hs
    exact Or.inl ⟨rfl, hs ▸ prawtosAccept_users w fd nio memory⟩
  | prawtosEvent e =>
    rcases prawtosEvent_called hs with ⟨rfl, hnone⟩ | ⟨r, d, hmem, hcalled, hr, hd, rfl⟩
    · exact Or.inl ⟨by simp only [Server.handled, hnone, Option.bind_none], rfl⟩
    · have husers : (w.prawtosPut d).users = d.users := by rw [prawtosPut_eq]
      have hinv := prawtosRunsIn_inv (hp.prawtosRuns r hmem)
      rw [handled_event hcalled hr hd, husers]
      cases prawtosDispatch_handles hinv (hp.prawtosAlive r hmem) hd with
      | nothing calls users =>
        refine Or.inl ⟨?_, users⟩
        split
        · rename_i i hi
          exact absurd hi (calls i)
        · rfl
      | user i calls result =>
        have hcalls : d.calls.drop r.calls.length = [.user i] := calls
        rw [hcalls]
        exact Or.inr ⟨_, _, _, rfl, result⟩

end

/-! ## The commands as calls of the map -/

/-- The parser holds the call; the lengths count the terminators. -/
def Call.HeldBy : Call → PrawtosParser → Prop
  | .add name passwd admin, p =>
    p.user.cmd = 0 ∧ p.credentials.unamePtr = name.memory ∧ p.credentials.ulen = name.length ∧
      p.credentials.passwdPtr = passwd.memory ∧ p.credentials.plen = passwd.length ∧
      decide (p.user.admin ≠ 0) = admin
  | .delete name, p => p.user.cmd = 1 ∧ p.credentials.unamePtr = name.memory
  | .edit name passwd, p =>
    p.user.cmd = 2 ∧ p.credentials.unamePtr = name.memory ∧ p.credentials.passwdPtr = passwd.memory ∧
      p.credentials.plen = passwd.length

section
variable {p : PrawtosParser} {users : List User} {m : UserMap} {x : Call}

/-- A command does to the stored map what the call does to the map. -/
theorem userResult_stores (h : Heap) (hs : StoresAll users m.entries) (hx : x.HeldBy p) :
    StoresAll (p.userResult h users).1 (x.spec m).1.entries ∧ (p.userResult h users).2 = (x.spec m).2 := by
  cases x with
  | add name passwd admin =>
    obtain ⟨hcmd, h1, h2, h3, h4, h5⟩ := hx
    have hr := addUserRec_stores h name passwd admin hs
    rw [userResult_create hcmd, h1, h2, h3, h4, h5, addUser, hr]
    simp only [Call.spec, UserMap.addUser]
    by_cases hm : name.octets ∈ m
    · rw [if_pos (show name.octets ∈ m.entries.keys from hm), dif_pos hm]
      exact ⟨hs, rfl⟩
    · rw [if_neg (show name.octets ∉ m.entries.keys from hm), dif_neg hm]
      exact ⟨List.rel_append hs (List.Forall₂.cons (stores_newUser name passwd admin) List.Forall₂.nil), rfl⟩
  | delete name =>
    obtain ⟨hcmd, h1⟩ := hx
    rw [userResult_delete hcmd, h1]
    obtain ⟨hs', hr⟩ := deleteUser_stores h name hs
    exact ⟨hs', hr.trans (decide_eq_decide.mpr Iff.rfl)⟩
  | edit name passwd =>
    obtain ⟨hcmd, h1, h2, h3⟩ := hx
    have hr := editUser_stores h name passwd hs
    rw [userResult_edit hcmd, h1, h2, h3]
    simp only [Call.spec, UserMap.editUser]
    rw [mem_iff_dlookup]
    cases hd : m.entries.dlookup name.octets with
    | none =>
      rw [hd] at hr
      simp only at hr
      rw [hr]
      exact ⟨hs, rfl⟩
    | some v =>
      rw [hd] at hr
      exact hr

end

/-! ## A run of the server -/

/-- A call on the map, with its answer. -/
def Call.answered (m : UserMap) (x : Call) : UserMap × List Bool := ((x.spec m).1, [(x.spec m).2])

/-- However the management connections take turns, the list of users is the map
that their commands, one after the other in the order in which they were
executed, make of the map it was at first, and each command was answered as the
map answered it then. -/
theorem users_serial (b : Booted) {m : UserMap} (hm : StoresAll b.users m.entries) {es : List ServerStep}
    {w : Server} (hr : run serverStep b.server es = .ok w) (hf : Along serverStep Server.Fresh b.server es)
    {calls : List Call}
    (hcalls : List.Forall₂ (fun x y => x.HeldBy y.1) calls (gather Server.handled serverStep b.server es)) :
    StoresAll w.users (transduce Call.answered m calls).1.entries ∧
      (gather Server.handled serverStep b.server es).map Prod.snd = (transduce Call.answered m calls).2 := by
  have hboth : (Partitioned w ∧ StoresAll w.users (transduce Call.answered m calls).1.entries) ∧
      (gather Server.handled serverStep b.server es).map Prod.snd = (transduce Call.answered m calls).2 := by
    refine run_refines (R := fun (w : Server) (m : UserMap) => Partitioned w ∧ StoresAll w.users m.entries)
      ?_ ⟨partitioned_booted b, hm⟩ hf hr hcalls
    rintro w s w' m calls ⟨hp, hs⟩ hfresh hstep hheld
    have hp' := serverStep_partitioned hp hfresh hstep
    rcases serverStep_handled hp hstep with ⟨hnone, husers⟩ | ⟨p, ok, h, hone, hresult⟩
    · rw [hnone] at hheld ⊢
      obtain rfl := List.forall₂_nil_right_iff.mp hheld
      exact ⟨⟨hp', husers ▸ hs⟩, rfl⟩
    · rw [hone] at hheld ⊢
      obtain ⟨x, calls, hx, hnil, rfl⟩ := List.forall₂_cons_right_iff.mp hheld
      obtain rfl := List.forall₂_nil_right_iff.mp hnil
      obtain ⟨hs', hok⟩ := userResult_stores h hs hx
      rw [hresult] at hs' hok
      exact ⟨⟨hp', hs'⟩, congrArg (fun ok => [ok]) hok⟩
  exact ⟨hboth.1.2, hboth.2⟩

/-- Two administrators: the second deletes the user that the first has created,
before the first has read the answer. -/
def serialSteps : List ServerStep :=
  [.prawtosAccept (some 6) true (some 0), .prawtosAccept (some 7) true (some 1),
    .prawtosEvent (prawtosReads 6 (authMessage admin2 alggo2)),
    .prawtosEvent (prawtosReads 7 (authMessage admin2 alggo2)), .prawtosEvent (prawtosWrites 7 2),
    .prawtosEvent (prawtosWrites 6 2), createsAb,
    .prawtosEvent (prawtosReads 7 (Command.delete nameAb).encode)]

def served (i : Nat) : PrawtosParser × Bool :=
  (gather Server.handled serverStep firstBooted.server serialSteps).getD i
    ({ credentials := .zero, n := 0, i := 0, get := 0, user := ⟨0, 0⟩, type := 0, state := .type }, false)

/-- The name in the parser's array, and what is behind it. -/
def servedName (i : Nat) : CStr := ⟨[97, 98], (served i).1.credentials.unamePtr.drop 3, by decide, by decide⟩

def servedPasswd (i : Nat) : CStr := ⟨[99, 100], (served i).1.credentials.passwdPtr.drop 3, by decide, by decide⟩

def servedCalls : List Call := [.add (servedName 0) (servedPasswd 0) false, .delete (servedName 1)]

theorem serialSteps_fresh : Along serverStep Server.Fresh firstBooted.server serialSteps := by
  refine ⟨firstBooted_fresh _, fun w hw => ⟨?_, fun w' _ => fresh_events rfl⟩⟩
  have hsel : w.process.sel =
      (selectorRegister firstBooted.process.sel 6 (some .prawtos) opRead (some (.prawtos 0)) true).1 := by
    rw [← Except.ok.inj hw]
    rfl
  have hunknown : Unknown w.process.sel (.prawtos 1) := by
    rw [hsel]
    refine unknown_register firstBooted.fdSize_lt (firstBooted_fresh (.prawtosAccept none true (some 1))) ?_
    exact fun he => absurd (Ptr.prawtos.inj he) Nat.zero_ne_one
  exact hunknown

theorem users_serial_two :
    StoresAll (final serverStep firstBooted.server serialSteps).users
        (transduce Call.answered UserMap.init servedCalls).1.entries ∧
      (gather Server.handled serverStep firstBooted.server serialSteps).map Prod.snd =
        (transduce Call.answered UserMap.init servedCalls).2 := by
  have hr : run serverStep firstBooted.server serialSteps = .ok (final serverStep firstBooted.server serialSteps) :=
    run_final (by decide +kernel)
  have hgather : gather Server.handled serverStep firstBooted.server serialSteps = [served 0, served 1] := by
    decide +kernel
  refine users_serial firstBooted (initUserList_stores zeroHeap) hr serialSteps_fresh ?_
  rw [hgather]
  refine List.Forall₂.cons ?_ (List.Forall₂.cons ?_ List.Forall₂.nil)
  · exact ⟨by decide +kernel, by decide +kernel, by decide +kernel, by decide +kernel, by decide +kernel,
      by decide +kernel⟩
  · exact ⟨by decide +kernel, by decide +kernel⟩

end SocksProxy
