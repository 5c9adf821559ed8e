import SocksProxy.Service

/-!
# The strings of the list of users

The store keeps what the length octets of a command count, and reads it as
strings. A name or a password that comes without a NUL gets its terminator from
the parser, behind the octets that are counted: the block of a CREATE then has
none, and the `strcpy` of an EDIT writes it past the end. `contained_iff` says
that these are the only commands that do.
-/

namespace SocksProxy

open Lib

/-! ## Commands on the list of users -/

/-- A name or a password of 1 to 254 octets. -/
abbrev ShortName := { l : List UInt8 // l ≠ [] ∧ l.length < maxLen }

def ShortName.name (l : ShortName) : Name := ⟨l.1, l.2.1, Nat.le_of_lt l.2.2⟩

inductive UsersCommand where
  | create (admin : Bool) (uname passwd : ShortName)
  | delete (uname : ShortName)
  | edit (uname passwd : ShortName)

def UsersCommand.command : UsersCommand → Command
  | create admin uname passwd => .create admin uname.name passwd.name
  | delete uname => .delete uname.name
  | edit uname passwd => .edit uname.name passwd.name

/-- A command, the connection it comes in on and the heap then. -/
structure Execution where
  conn : PrawtosConn
  heap : Heap
  cmd : UsersCommand

/-- The connection once its parser has read the command. -/
def Execution.ready (x : Execution) (users : List User) : PrawtosConn :=
  { x.conn with
    users := users
    cmd.parser := feedAll prawtosParserFeed (prawtosParserInit x.conn.cmd.parser) x.cmd.command.encode }

def executeStep (users : List User) (x : Execution) : Except Fault (List User) :=
  (cmdProcess x.heap (x.ready users)).map fun r => r.1.users

/-! ## What the strings need -/

/-- The block of the name and that of the password have a NUL. -/
def User.Contained (user : User) : Prop := 0 ∈ user.username ∧ 0 ∈ user.password

def AllContained (users : List User) : Prop := ∀ user ∈ users, user.Contained

/-- The `strcpy` of an EDIT stays in the block of `plen` octets. -/
def StrcpyFits (users : List User) (x : Execution) : Prop :=
  let a := (x.ready users).cmd.parser.credentials
  ∀ uname passwd, x.cmd = .edit uname passwd → (editUser x.heap users a.unamePtr a.passwdPtr a.plen).2 = true →
    x.heap.allocates = true → (cString a.passwdPtr ++ [0]).length ≤ a.plen.toNat

def StringsContained (users : List User) (xs : List Execution) : Prop :=
  Always executeStep AllContained users xs ∧ Along executeStep StrcpyFits users xs

def Known (users : List User) (uname : List UInt8) : Prop := ∃ user ∈ users, cString user.username = cString uname

/-- A user that is added has a NUL among the octets of the name and of the
password, and so has a new password. -/
def TerminatorCounted (users : List User) (x : Execution) : Prop :=
  x.heap.allocates = true →
    match x.cmd with
    | .create _ uname passwd => ¬ Known users uname.1 → 0 ∈ uname.1 ∧ 0 ∈ passwd.1
    | .delete _ => True
    | .edit uname passwd => Known users uname.1 → 0 ∈ passwd.1

instance (users : List User) (uname : List UInt8) : Decidable (Known users uname) := by
  unfold Known; infer_instance

/-! ## The functions of the store on contained strings -/

section
variable {users : List User} {user : User} {uname passwd : List UInt8} {ulen plen : UInt8} {admin : Bool}

theorem allContained_cons : AllContained (user :: users) ↔ user.Contained ∧ AllContained users :=
  List.forall_mem_cons

theorem allContained_append {t : List User} : AllContained (users ++ t) ↔ AllContained users ∧ AllContained t :=
  List.forall_mem_append

theorem known_cons : Known (user :: users) uname ↔ cString user.username = cString uname ∨ Known users uname := by
  simp only [Known, List.mem_cons, exists_eq_or_imp]

theorem usernameString_contained (h : user.Contained) (heap : Heap) :
    user.usernameString heap = cString user.username := cString_append_of_mem h.1 _

theorem addUser_contained (heap : Heap) (h : AllContained users) :
    addUser heap users uname ulen passwd plen admin =
      if Known users uname then (users, false) else (users ++ [newUser uname ulen passwd plen admin], true) := by
  unfold addUser
  induction users generalizing heap with
  | nil => simp [addUserRec, Known]
  | cons user users ih =>
    obtain ⟨hu, h⟩ := allContained_cons.mp h
    simp only [addUserRec, usernameString_contained hu, known_cons]
    by_cases hn : cString user.username = cString uname
    · simp only [hn, if_true, true_or]
    · simp only [hn, if_false, false_or, ih heap.tail h]
      split
      · rfl
      · rfl

theorem deleteUser_sublist (heap : Heap) (users : List User) : (deleteUser heap users uname).1.Sublist users := by
  induction users generalizing heap with
  | nil => exact List.Sublist.refl _
  | cons user users ih =>
    simp only [deleteUser]
    split
    · exact List.sublist_cons_self _ _
    · exact List.Sublist.cons_cons _ (ih heap.tail)

theorem editUser_contained (heap : Heap) (h : AllContained users) (uname passwd : List UInt8) (plen : UInt8) :
    (¬ Known users uname ∧ editUser heap users uname passwd plen = (users, false)) ∨
      Known users uname ∧ ∃ s user t, users = s ++ user :: t ∧
        editUser heap users uname passwd plen = (s ++ newPassword heap user passwd plen :: t, true) := by
  induction users generalizing heap with
  | nil => exact Or.inl ⟨by simp [Known], rfl⟩
  | cons user users ih =>
    obtain ⟨hu, h⟩ := allContained_cons.mp h
    simp only [editUser, usernameString_contained hu, known_cons]
    by_cases hn : cString user.username = cString uname
    · apply Or.inr
      refine ⟨Or.inl hn, [], user, users, rfl, ?_⟩
      simp only [hn, if_true, List.nil_append]
    · simp only [hn, if_false, false_or]
      rcases ih heap.tail h with ⟨hk, he⟩ | ⟨hk, s, v, t, rfl, he⟩
      · exact Or.inl ⟨hk, by rw [he]⟩
      · apply Or.inr
        refine ⟨hk, user :: s, v, t, rfl, ?_⟩
        rw [he]
        rfl

/-- A string that fits in the new block is there with its terminator. -/
theorem newPassword_contained (heap : Heap) (h : user.Contained)
    (hp : (cString passwd ++ [0]).length ≤ plen.toNat) :
    (newPassword heap user passwd plen).Contained := by
  refine ⟨h.1, ?_⟩
  have hlen := length_reallocate heap user.password plen.toNat
  have htake : (cString passwd ++ [0]).take plen.toNat = cString passwd ++ [0] := List.take_of_length_le hp
  simp only [newPassword, store, List.take_zero, List.nil_append, hlen, Nat.sub_zero, htake]
  simp

end

/-! ## The commands -/

theorem cmdProcess_users {c : PrawtosConn} (heap : Heap) (ht : c.cmd.parser.type = 0x01) :
    (cmdProcess heap c).map (fun r => r.1.users) =
      (invoke userHandlers .user c.cmd.parser.user.cmd heap c).map fun r => r.1.users := by
  unfold cmdProcess
  rw [if_neg (by rw [ht]; decide), if_pos ht]
  cases invoke userHandlers .user c.cmd.parser.user.cmd heap c with
  | error f => rfl
  | ok r => rfl

theorem createUser_users {d : PrawtosConn} {heap : Heap} {r : List User × Bool}
    (hr : addUser heap d.users d.cmd.parser.credentials.unamePtr d.cmd.parser.credentials.ulen
      d.cmd.parser.credentials.passwdPtr d.cmd.parser.credentials.plen (decide (d.cmd.parser.user.admin ≠ 0)) = r) :
    (createUser heap d).map (fun r => r.1.users) =
      if r.2 = true ∧ heap.allocates = false then .error .wildPointer else .ok r.1 := by
  unfold createUser
  simp only [hr]
  split
  · rfl
  · rfl

theorem modifyUser_users {d : PrawtosConn} {heap : Heap} {r : List User × Bool}
    (hplen : d.cmd.parser.credentials.plen ≠ 0)
    (hr : editUser heap d.users d.cmd.parser.credentials.unamePtr d.cmd.parser.credentials.passwdPtr
      d.cmd.parser.credentials.plen = r) :
    (modifyUser heap d).map (fun r => r.1.users) =
      if r.2 = true ∧ heap.allocates = false then .error .wildPointer else .ok r.1 := by
  unfold modifyUser
  simp only [hr, hplen, or_false]
  split
  · rfl
  · rfl

section
variable {users : List User} (conn : PrawtosConn) (heap : Heap) (admin : Bool) (uname passwd : ShortName)

theorem execute_create (h : AllContained users) :
    executeStep users ⟨conn, heap, .create admin uname passwd⟩ =
      if Known users uname.1 then .ok users
      else if heap.allocates = false then .error .wildPointer
      else .ok (users ++ [newUser uname.1 uname.name.len passwd.1 passwd.name.len admin]) := by
  let c := (Execution.mk conn heap (.create admin uname passwd)).ready users
  have hp : (Command.create admin uname.name passwd.name).Parsed c.cmd.parser := feedAll_encode _ _
  obtain ⟨ht, huser, hcred⟩ := hp
  have hinvoke : invoke userHandlers .user c.cmd.parser.user.cmd heap c =
      createUser heap { c with calls := c.calls ++ [.user 0] } := by rw [huser]; rfl
  have hr : addUser heap users c.cmd.parser.credentials.unamePtr c.cmd.parser.credentials.ulen
      c.cmd.parser.credentials.passwdPtr c.cmd.parser.credentials.plen (decide (c.cmd.parser.user.admin ≠ 0)) =
        addUser heap users uname.1 uname.name.len passwd.1 passwd.name.len admin := by
    rw [hcred, huser]; exact addUser_fields users admin (Or.inl uname.2.2)
  have hstep : executeStep users ⟨conn, heap, .create admin uname passwd⟩ =
      (createUser heap { c with calls := c.calls ++ [.user 0] }).map fun r => r.1.users := by
    rw [← hinvoke]; exact cmdProcess_users heap ht
  rw [hstep.trans (createUser_users hr), addUser_contained heap h]
  by_cases hk : Known users uname.1
  · simp only [if_pos hk, Bool.false_eq_true, false_and, if_false]
  · simp only [if_neg hk, true_and]

theorem execute_delete : executeStep users ⟨conn, heap, .delete uname⟩ =
    .ok (deleteUser heap users uname.1).1 := by
  let c := (Execution.mk conn heap (.delete uname)).ready users
  have hp : (Command.delete uname.name).Parsed c.cmd.parser := feedAll_encode _ _
  obtain ⟨ht, huser, hcred⟩ := hp
  have hinvoke : invoke userHandlers .user c.cmd.parser.user.cmd heap c =
      delUser heap { c with calls := c.calls ++ [.user 1] } := by rw [huser]; rfl
  have hr : deleteUser heap users c.cmd.parser.credentials.unamePtr = deleteUser heap users uname.1 := by
    rw [hcred]
    exact deleteUser_congr heap users (cString_nameField uname.2.2 _)
  have hstep : executeStep users ⟨conn, heap, .delete uname⟩ =
      (delUser heap { c with calls := c.calls ++ [.user 1] }).map fun r => r.1.users := by
    rw [← hinvoke]; exact cmdProcess_users heap ht
  rw [hstep, ← hr]
  rfl

variable (users) in
theorem edit_fields :
    let c := (Execution.mk conn heap (.edit uname passwd)).ready users
    editUser heap users c.cmd.parser.credentials.unamePtr c.cmd.parser.credentials.passwdPtr
        c.cmd.parser.credentials.plen = editUser heap users uname.1 passwd.1 passwd.name.len ∧
      cString c.cmd.parser.credentials.passwdPtr = cString passwd.1 ∧
      c.cmd.parser.credentials.plen.toNat = passwd.1.length := by
  intro c
  have hp : (Command.edit uname.name passwd.name).Parsed c.cmd.parser := feedAll_encode _ _
  obtain ⟨_, _, hcred⟩ := hp
  have hpasswd : cString (nameField passwd.1) = cString passwd.1 := cString_passwd (Nat.le_of_lt passwd.2.2)
  rw [hcred]
  exact ⟨editUser_congr heap users (cString_nameField uname.2.2 _) hpasswd, hpasswd, name_toNat passwd.name⟩

theorem execute_edit : executeStep users ⟨conn, heap, .edit uname passwd⟩ =
    if (editUser heap users uname.1 passwd.1 passwd.name.len).2 = true ∧ heap.allocates = false
      then .error .wildPointer
    else .ok (editUser heap users uname.1 passwd.1 passwd.name.len).1 := by
  let c := (Execution.mk conn heap (.edit uname passwd)).ready users
  have hp : (Command.edit uname.name passwd.name).Parsed c.cmd.parser := feedAll_encode _ _
  obtain ⟨ht, huser, hcred⟩ := hp
  have hplen : c.cmd.parser.credentials.plen ≠ 0 := by rw [hcred]; exact name_len_ne passwd.name
  have hinvoke : invoke userHandlers .user c.cmd.parser.user.cmd heap c =
      modifyUser heap { c with calls := c.calls ++ [.user 2] } := by rw [huser]; rfl
  have hstep : executeStep users ⟨conn, heap, .edit uname passwd⟩ =
      (modifyUser heap { c with calls := c.calls ++ [.user 2] }).map fun r => r.1.users := by
    rw [← hinvoke]; exact cmdProcess_users heap ht
  rw [hstep]
  exact modifyUser_users hplen (edit_fields _ conn heap uname passwd).1

end

/-! ## One command, and all of them -/

/-- The strings stay in their blocks, and `strcpy` in the one it writes to,
exactly when the command counts the terminators it needs. -/
def KeepsIff (users : List User) (x : Execution) : Prop :=
  ((∀ users', executeStep users x = .ok users' → AllContained users') ∧ StrcpyFits users x) ↔
    TerminatorCounted users x

section
variable {users : List User} (h : AllContained users)
include h

theorem create_keepsIff (conn : PrawtosConn) (heap : Heap) (admin : Bool) (uname passwd : ShortName) :
    KeepsIff users ⟨conn, heap, .create admin uname passwd⟩ := by
  have hfits : StrcpyFits users ⟨conn, heap, .create admin uname passwd⟩ :=
    fun _ _ hcmd => by cases hcmd
  have hlen : uname.name.len.toNat = uname.1.length := name_toNat _
  have hplen : passwd.name.len.toNat = passwd.1.length := name_toNat _
  have hnew : (newUser uname.1 uname.name.len passwd.1 passwd.name.len admin).Contained ↔
      0 ∈ uname.1 ∧ 0 ∈ passwd.1 := by
    simp only [User.Contained, newUser, hlen, hplen, List.take_length]
  rw [KeepsIff, and_iff_left hfits, execute_create conn heap admin uname passwd h, TerminatorCounted]
  by_cases hk : Known users uname.1
  · -- `add_user` copies nothing for a name that is in the list
    rw [if_pos hk]
    constructor
    · intro _ _ hn
      exact absurd hk hn
    · intro _ users' he
      exact Except.ok.inj he ▸ h
  · rw [if_neg hk]
    cases ha : heap.allocates with
    | false =>
      -- the write through the null pointer leaves no list to speak of
      constructor
      · intro _ hno
        cases hno
      · intro _ users' hno
        cases hno
    | true =>
      rw [if_neg (by decide)]
      constructor
      · intro hall _ _
        have huser := (allContained_append.mp (hall _ rfl)).2 _ List.mem_cons_self
        exact hnew.mp huser
      · intro hc users' he
        rw [← Except.ok.inj he, allContained_append]
        refine ⟨h, ?_⟩
        intro user hu
        rw [List.mem_singleton.mp hu]
        exact hnew.mpr (hc rfl hk)

theorem delete_keepsIff (conn : PrawtosConn) (heap : Heap) (uname : ShortName) :
    KeepsIff users ⟨conn, heap, .delete uname⟩ := by
  have hfits : StrcpyFits users ⟨conn, heap, .delete uname⟩ := fun _ _ hcmd => by cases hcmd
  rw [KeepsIff, and_iff_left hfits, execute_delete, TerminatorCounted]
  simp only [Except.ok.injEq, forall_eq', imp_true_iff, iff_true]
  intro user hu
  exact h user ((deleteUser_sublist heap users).subset hu)

omit h in
/-- `strcpy` writes what is before the first zero of the password, and one
more; the block has as many octets as the message said. -/
theorem edit_fits (conn : PrawtosConn) (heap : Heap) (uname passwd : ShortName) :
    StrcpyFits users ⟨conn, heap, .edit uname passwd⟩ ↔
      ((editUser heap users uname.1 passwd.1 passwd.name.len).2 = true → heap.allocates = true → 0 ∈ passwd.1) := by
  obtain ⟨hfields, hpasswd, hplen⟩ := edit_fields users conn heap uname passwd
  constructor
  · intro hf hr ha
    have hlen := hf uname passwd rfl (by rw [hfields]; exact hr) ha
    rw [hpasswd, hplen, List.length_append, List.length_singleton] at hlen
    by_contra hn
    rw [cString_of_not_mem hn] at hlen
    exact Nat.not_succ_le_self _ hlen
  · intro hf _ _ _ hr ha
    rw [hfields] at hr
    rw [hpasswd, hplen, List.length_append, List.length_singleton]
    exact cString_length_lt (hf hr ha)

theorem edit_keepsIff (conn : PrawtosConn) (heap : Heap) (uname passwd : ShortName) :
    KeepsIff users ⟨conn, heap, .edit uname passwd⟩ := by
  rw [KeepsIff, edit_fits, execute_edit, TerminatorCounted]
  rcases editUser_contained heap h uname.1 passwd.1 passwd.name.len with ⟨hk, he⟩ | ⟨hk, s, user, t, hs, he⟩
  · -- a name that is not in the list changes nothing
    rw [he, if_neg (by simp)]
    constructor
    · intro _ _ hk'
      exact absurd hk' hk
    · intro _
      refine ⟨fun users' hu => Except.ok.inj hu ▸ h, fun hno => by cases hno⟩
  · rw [he]
    cases ha : heap.allocates with
    | false =>
      constructor
      · intro _ hno
        cases hno
      · intro _
        refine ⟨fun users' hno => ?_, fun _ hno => ?_⟩
        · cases hno
        · cases hno
    | true =>
      rw [if_neg (by simp)]
      constructor
      · intro hall _ _
        exact hall.2 rfl rfl
      · intro hc
        have h0 : 0 ∈ passwd.1 := hc rfl hk
        refine ⟨?_, fun _ _ => h0⟩
        intro users' hu
        rw [hs, allContained_append, allContained_cons] at h
        obtain ⟨h1, h2, h3⟩ := h
        have hlen : (cString passwd.1 ++ [0]).length ≤ passwd.name.len.toNat := by
          rw [name_toNat, List.length_append, List.length_singleton]
          exact cString_length_lt h0
        rw [← Except.ok.inj hu, allContained_append, allContained_cons]
        exact ⟨h1, newPassword_contained heap h2 hlen, h3⟩

/-- A command that leaves the strings in their blocks counts the terminators
it needs, and the other way round. -/
theorem execute_contained (x : Execution) :
    ((∀ users', executeStep users x = .ok users' → AllContained users') ∧ StrcpyFits users x) ↔
      TerminatorCounted users x := by
  obtain ⟨conn, heap, cmd⟩ := x
  cases cmd with
  | create admin uname passwd => exact create_keepsIff h conn heap admin uname passwd
  | delete uname => exact delete_keepsIff h conn heap uname
  | edit uname passwd => exact edit_keepsIff h conn heap uname passwd

omit h in
theorem addUser_keeps (heap : Heap) (uname : List UInt8) (ulen : UInt8) (passwd : List UInt8) (plen : UInt8)
    (admin : Bool) (h : AllContained users) (hu : 0 ∈ uname.take ulen.toNat) (hp : 0 ∈ passwd.take plen.toNat) :
    AllContained (addUser heap users uname ulen passwd plen admin).1 := by
  rw [addUser_contained heap h]
  split
  · exact h
  · rw [allContained_append]
    refine ⟨h, ?_⟩
    intro user hm
    rw [List.mem_singleton.mp hm]
    exact ⟨hu, hp⟩

end

theorem initUserList_contained (heap : Heap) : AllContained (initUserList heap) := by
  have h : AllContained [] := List.forall_mem_nil _
  have h1 := addUser_keeps heap admin2Literal 7 alggo2Literal 7 true h (by decide) (by decide)
  have h2 := addUser_keeps heap adminLiteral 6 alggoLiteral 6 true h1 (by decide) (by decide)
  exact addUser_keeps heap pruebitaLiteral 9 pruebitaLiteral 9 true h2 (by decide) (by decide)

/-- Strings stay in their blocks, and copies too, exactly when no command adds
a user or sets a password without a NUL among the octets it counts. -/
theorem contained_iff (heap : Heap) (xs : List Execution) :
    StringsContained (initUserList heap) xs ↔ Along executeStep TerminatorCounted (initUserList heap) xs := by
  have hinit := initUserList_contained heap
  have hsteps : Along executeStep
      (fun users x => (∀ users', executeStep users x = .ok users' → AllContained users') ∧ StrcpyFits users x)
        (initUserList heap) xs ↔ Along executeStep TerminatorCounted (initUserList heap) xs := by
    apply along_iff (J := AllContained)
    · intro users x h
      exact execute_contained h x
    · intro users x users' h hc hs
      exact ((execute_contained h x).mpr hc).1 users' hs
    · exact hinit
  rw [StringsContained, always_iff_along, ← hsteps, along_and, and_iff_right hinit]

/-- A CREATE of the name `ab` and the password `cd`, as lengths and octets. -/
def createAb : Execution where
  conn := firstPrawtosAccepted.conn
  heap := zeroHeap
  cmd := .create false ⟨[97, 98], by decide⟩ ⟨[99, 100], by decide⟩

theorem createAb_not_contained : ¬ StringsContained (initUserList zeroHeap) [createAb] := by
  intro h
  have hstep := execute_create firstPrawtosAccepted.conn zeroHeap false ⟨[97, 98], by decide⟩ ⟨[99, 100], by decide⟩
    (initUserList_contained zeroHeap)
  rw [if_neg (by decide), if_neg (by decide)] at hstep
  have hall : AllContained _ := h.1.2 _ hstep
  have huser := (allContained_append.mp hall).2 _ List.mem_cons_self
  exact absurd huser.1 (by decide)

end SocksProxy
