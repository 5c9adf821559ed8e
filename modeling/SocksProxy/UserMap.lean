import Mathlib.Data.List.AList
import Mathlib.Data.List.Forall2
import SocksProxy.UserListSound

/-!
# The list of users as a map

`UserMap` is what the list is for: a map from names to passwords and admin
flags that keeps the order in which the names came. A name or password that is
passed with the length of its string and terminator (`CStr`) is stored as just
that, so the blocks end where the strings do and the memory behind them does
not matter. `users_refine` follows any sequence of calls.
-/

namespace SocksProxy

open Lib

/-- A string with its terminator, whose length goes into one octet; `rest` is the memory behind it. -/
structure CStr where
  octets : List UInt8
  rest : List UInt8
  noNul : 0 ∉ octets
  short : octets.length < maxLen

namespace CStr

variable (s : CStr)

def memory : List UInt8 := s.octets ++ 0 :: s.rest

/-- The length argument counts the terminator. -/
def length : UInt8 := UInt8.ofNat (s.octets.length + 1)

end CStr

abbrev UserEntry := Sigma fun _ : List UInt8 => List UInt8 × Bool

/-- Names with passwords and admin flags, in order and without repetition. -/
abbrev UserMap := AList fun _ : List UInt8 => List UInt8 × Bool

namespace UserMap

variable (m : UserMap) (name passwd : List UInt8)

theorem nodupKeys_concat {m : UserMap} {name : List UInt8} (h : name ∉ m) (e : List UInt8 × Bool) :
    (m.entries ++ [(⟨name, e⟩ : UserEntry)]).NodupKeys := by
  have hn := m.nodupKeys
  simp only [List.NodupKeys, List.keys, List.map_append, List.map_cons, List.map_nil] at hn ⊢
  rw [List.nodup_append]
  refine ⟨hn, List.nodup_singleton _, ?_⟩
  intro a ha b hb hab
  rw [List.mem_singleton] at hb
  exact h (hb ▸ hab ▸ ha)

def addUser (admin : Bool) : UserMap × Bool :=
  if h : name ∈ m then (m, false) else (⟨m.entries ++ [⟨name, passwd, admin⟩], nodupKeys_concat h _⟩, true)

def deleteUser : UserMap × Bool := (m.erase name, decide (name ∈ m))

def editUser : UserMap × Bool :=
  match m.lookup name with
  | some (_, admin) => (m.replace name (passwd, admin), true)
  | none => (m, false)

def checkCredentials : Nat := if m.lookup name = some (passwd, true) then 0 else 1

end UserMap

/-- The blocks of the user are the strings with their terminators. -/
structure Stores (user : User) (e : UserEntry) : Prop where
  username : user.username = e.1 ++ [0]
  password : user.password = e.2.1 ++ [0]
  isAdmin : user.isAdmin = e.2.2
  noNul_name : 0 ∉ e.1
  noNul_passwd : 0 ∉ e.2.1

def StoresAll (users : List User) (entries : List UserEntry) : Prop := List.Forall₂ Stores users entries

/-! ## Strings and their blocks -/

@[simp] theorem CStr.cString_memory (s : CStr) : cString s.memory = s.octets := cString_of_noNul s.noNul s.rest

theorem CStr.length_toNat (s : CStr) : s.length.toNat = s.octets.length + 1 := by
  have h := s.short
  unfold maxLen at h
  simp only [CStr.length, UInt8.toNat_ofNat']
  omega

@[simp] theorem CStr.take_memory (s : CStr) : s.memory.take s.length.toNat = s.octets ++ [0] := by
  rw [s.length_toNat, CStr.memory, List.take_append]
  simp

theorem Stores.usernameString {user : User} {e : UserEntry} (h : Stores user e) (heap : Heap) :
    user.usernameString heap = e.1 := by
  rw [User.usernameString, h.username, List.append_assoc]
  exact cString_of_noNul h.noNul_name _

theorem Stores.passwordString {user : User} {e : UserEntry} (h : Stores user e) (heap : Heap) :
    user.passwordString heap = e.2.1 := by
  rw [User.passwordString, h.password, List.append_assoc]
  exact cString_of_noNul h.noNul_passwd _

theorem stores_newUser (name passwd : CStr) (admin : Bool) :
    Stores (newUser name.memory name.length passwd.memory passwd.length admin)
      ⟨name.octets, passwd.octets, admin⟩ :=
  ⟨name.take_memory, passwd.take_memory, rfl, name.noNul, passwd.noNul⟩

theorem store_all {block l : List UInt8} (h : l.length = block.length) : store block 0 l = l := by
  rw [store, List.take_zero, List.nil_append, Nat.sub_zero, ← h, List.take_length, Nat.zero_add, h,
    List.drop_length, List.append_nil]

theorem stores_newPassword {user : User} {e : UserEntry} (h : Stores user e) (heap : Heap) (passwd : CStr) :
    Stores (newPassword heap user passwd.memory passwd.length) ⟨e.1, passwd.octets, e.2.2⟩ := by
  refine ⟨h.username, ?_, h.isAdmin, h.noNul_name, passwd.noNul⟩
  simp only [newPassword, CStr.cString_memory]
  apply store_all
  rw [length_reallocate, passwd.length_toNat, List.length_append, List.length_singleton]

/-! ## The functions on a stored map -/

section
variable {users : List User} {entries : List UserEntry} (heap : Heap) (name passwd : CStr)

theorem addUserRec_stores (admin : Bool) (h : StoresAll users entries) :
    addUserRec name.memory name.length passwd.memory passwd.length admin heap users =
      if name.octets ∈ entries.keys then (users, false)
      else (users ++ [newUser name.memory name.length passwd.memory passwd.length admin], true) := by
  induction h generalizing heap with
  | nil => rfl
  | @cons user e users entries hu _ ih =>
    simp only [addUserRec, hu.usernameString, CStr.cString_memory, List.keys_cons, List.mem_cons]
    by_cases he : e.1 = name.octets
    · simp only [he, if_true, true_or]
    · simp only [he, Ne.symm he, if_false, false_or, ih]
      split
      · rfl
      · rfl

theorem deleteUser_stores (h : StoresAll users entries) :
    StoresAll (deleteUser heap users name.memory).1 (entries.kerase name.octets) ∧
      (deleteUser heap users name.memory).2 = decide (name.octets ∈ entries.keys) := by
  induction h generalizing heap with
  | nil => exact ⟨List.Forall₂.nil, rfl⟩
  | @cons user e users entries hu hs ih =>
    simp only [deleteUser, hu.usernameString, CStr.cString_memory]
    by_cases he : e.1 = name.octets
    · rw [if_pos he, List.kerase_cons_eq he.symm]
      exact ⟨hs, by simp [he]⟩
    · rw [if_neg he, List.kerase_cons_ne (Ne.symm he)]
      obtain ⟨hs', hr⟩ := ih heap.tail
      exact ⟨List.Forall₂.cons hu hs', by rw [hr]; simp [Ne.symm he]⟩

theorem kreplace_cons_eq {e : UserEntry} (v : List UInt8 × Bool) (l : List UserEntry) :
    List.kreplace e.1 v (e :: l) = ⟨e.1, v⟩ :: l := by
  rw [List.kreplace, List.lookmap_cons_some]
  simp

theorem kreplace_cons_ne {a : List UInt8} {e : UserEntry} (v : List UInt8 × Bool) (l : List UserEntry)
    (h : a ≠ e.1) :
    List.kreplace a v (e :: l) = e :: List.kreplace a v l := by
  rw [List.kreplace, List.lookmap_cons_none]
  simp [h]

theorem editUser_stores (h : StoresAll users entries) :
    match entries.dlookup name.octets with
    | some (_, admin) => StoresAll (editUser heap users name.memory passwd.memory passwd.length).1
        (entries.kreplace name.octets (passwd.octets, admin)) ∧
        (editUser heap users name.memory passwd.memory passwd.length).2 = true
    | none => editUser heap users name.memory passwd.memory passwd.length = (users, false) := by
  induction h generalizing heap with
  | nil => rfl
  | @cons user e users entries hu hs ih =>
    simp only [editUser, hu.usernameString, CStr.cString_memory]
    by_cases he : e.1 = name.octets
    · rw [if_pos he, ← he, List.dlookup_cons_eq]
      simp only [kreplace_cons_eq]
      exact ⟨List.Forall₂.cons (stores_newPassword hu heap passwd) hs, trivial⟩
    · rw [if_neg he, List.dlookup_cons_ne _ _ (Ne.symm he)]
      have ih := ih heap.tail
      cases hl : entries.dlookup name.octets with
      | none => rw [hl] at ih; simp only [ih]
      | some v =>
        rw [hl] at ih
        simp only [kreplace_cons_ne _ _ (Ne.symm he)]
        exact ⟨List.Forall₂.cons hu ih.1, ih.2⟩

theorem checkCredentials_stores (uname passwd : List UInt8) (h : StoresAll users entries) (hn : entries.NodupKeys) :
    userCheckCredentials heap users uname passwd =
      if entries.dlookup (cString uname) = some (cString passwd, true) then 0 else 1 := by
  induction h generalizing heap with
  | nil => rfl
  | @cons user e users entries hu hs ih =>
    have ih := ih heap.tail (List.nodupKeys_of_nodupKeys_cons hn)
    simp only [userCheckCredentials, User.Matches, hu.usernameString, hu.passwordString, hu.isAdmin]
    by_cases he : e.1 = cString uname
    · have hnone : entries.dlookup (cString uname) = none := by
        rw [List.dlookup_eq_none, ← he]
        exact List.notMem_keys_of_nodupKeys_cons hn
      rw [hnone] at ih
      rw [← he, List.dlookup_cons_eq, ih]
      have hv : (some e.2 = some (cString passwd, true)) ↔ cString passwd = e.2.1 ∧ e.2.2 = true := by
        rw [Option.some.injEq, Prod.ext_iff, eq_comm (a := e.2.1)]
      simp [hv]
    · rw [List.dlookup_cons_ne _ _ (Ne.symm he), ← ih, if_neg (fun h => he h.1.symm)]

theorem names_stores (mem : Memory) {l : List (Nat × User)} (h : StoresAll (UserList.usersOf l) entries) :
    (l.map fun a => cString (mem.username a.1 a.2)) = entries.keys := by
  induction l generalizing entries with
  | nil => cases h; rfl
  | cons a l ih =>
    cases h with
    | @cons _ e _ entries ha hs =>
      have hname := ha.usernameString (UserList.heapOf mem (a :: l))
      rw [UserList.heapOf_username] at hname
      rw [List.map_cons, hname, ih hs]
      rfl

end

/-! ## Calls -/

inductive Call where
  | add (name passwd : CStr) (admin : Bool)
  | delete (name : CStr)
  | edit (name passwd : CStr)

namespace Call

def exec (mem : Memory) (list : UserList) : Call → Except Stop (UserList × Bool)
  | add name passwd admin =>
    UserList.addUser mem name.memory name.length passwd.memory passwd.length admin list
  | delete name => UserList.deleteUser mem name.memory list
  | edit name passwd => UserList.editUser mem name.memory passwd.memory passwd.length list

def spec (m : UserMap) : Call → UserMap × Bool
  | add name passwd admin => m.addUser name.octets passwd.octets admin
  | delete name => m.deleteUser name.octets
  | edit name passwd => m.editUser name.octets passwd.octets

end Call

/-- The nodes of the list hold the entries of the map. -/
def Represents (list : UserList) (m : UserMap) : Prop :=
  ∃ l, list.Linked l ∧ StoresAll (UserList.usersOf l) m.entries

section
variable {list : UserList} {m : UserMap}

theorem represents_size (h : Represents list m) : list.size = m.entries.length := by
  obtain ⟨l, hl, hs⟩ := h
  rw [hl.size, ← List.Forall₂.length_eq hs]
  simp [UserList.usersOf]

theorem mem_iff_dlookup {name : List UInt8} : m.lookup name = m.entries.dlookup name := rfl

/-- A call does to the list what it does to the map, or stops for lack of memory
or at a `size` that cannot grow. -/
theorem exec_represents (mem : Memory) (h : Represents list m) (c : Call) :
    (mem.allocates = false ∧ c.exec mem list = .error .refused) ∨
    (list.size = intMax ∧ c.exec mem list = .error .overflow) ∨
    ∃ list', c.exec mem list = .ok (list', (c.spec m).2) ∧ Represents list' (c.spec m).1 := by
  obtain ⟨l, hl, hs⟩ := h
  cases c with
  | add name passwd admin =>
    have hr := addUserRec_stores (UserList.heapOf mem l) name passwd admin hs
    rcases UserList.addUser_sim mem name.memory name.length passwd.memory passwd.length admin hl with
      ⟨_, h⟩ | ⟨list', l', he, hl', hu⟩
    · rcases h with h | h
      · exact Or.inl h
      · exact Or.inr (Or.inl h)
    · apply Or.inr
      apply Or.inr
      rw [addUser] at he hu
      simp only [Call.exec, Call.spec, UserMap.addUser]
      -- a name that is there leaves the list as it is
      by_cases hm : name.octets ∈ m
      · rw [if_pos (show name.octets ∈ m.entries.keys from hm)] at hr
        rw [hr] at he hu
        rw [dif_pos hm]
        exact ⟨list', he, l', hl', hu ▸ hs⟩
      · rw [if_neg (show name.octets ∉ m.entries.keys from hm)] at hr
        rw [hr] at he hu
        rw [dif_neg hm]
        refine ⟨list', he, l', hl', ?_⟩
        rw [hu]
        exact List.rel_append hs (List.Forall₂.cons (stores_newUser name passwd admin) List.Forall₂.nil)
  | delete name =>
    obtain ⟨list', l', he, hl', hu⟩ := UserList.deleteUser_sim mem name.memory hl
    obtain ⟨hs', hr⟩ := deleteUser_stores (UserList.heapOf mem l) name hs
    apply Or.inr
    apply Or.inr
    refine ⟨list', ?_, l', hl', hu ▸ hs'⟩
    have hdec : decide (name.octets ∈ m.entries.keys) = decide (name.octets ∈ m) := decide_eq_decide.mpr Iff.rfl
    rw [hr, hdec] at he
    exact he
  | edit name passwd =>
    have hr := editUser_stores (UserList.heapOf mem l) name passwd hs
    rcases UserList.editUser_sim mem name.memory passwd.memory passwd.length hl with
      ⟨_, h⟩ | ⟨list', l', he, hl', hu⟩
    · exact Or.inl h
    · apply Or.inr
      apply Or.inr
      simp only [Call.exec, Call.spec, UserMap.editUser]
      rw [mem_iff_dlookup]
      cases hd : m.entries.dlookup name.octets with
      | none =>
        rw [hd] at hr
        simp only [hr] at he hu
        exact ⟨list', he, l', hl', hu ▸ hs⟩
      | some v =>
        rw [hd] at hr
        rw [hr.2] at he
        exact ⟨list', he, l', hl', hu ▸ hr.1⟩

theorem spec_length_le (m : UserMap) (c : Call) : (c.spec m).1.entries.length ≤ m.entries.length + 1 := by
  cases c with
  | add name passwd admin =>
    simp only [Call.spec, UserMap.addUser]
    split
    · exact Nat.le_succ _
    · simp
  | delete name =>
    have h := (List.kerase_sublist name.octets m.entries).length_le
    exact Nat.le_succ_of_le h
  | edit name passwd =>
    simp only [Call.spec, UserMap.editUser]
    split
    · rename_i admin _
      have h := congrArg List.length (AList.keys_replace name.octets (passwd.octets, admin) m)
      simp only [AList.keys, List.keys, List.length_map] at h
      exact Nat.le_succ_of_le (Nat.le_of_eq h)
    · exact Nat.le_succ _

end

/-! ## Sequences of calls -/

/-- A call, with its result after those of the calls so far. -/
def callStep (s : UserList × List Bool) (c : Memory × Call) : Except Stop (UserList × List Bool) :=
  match c.2.exec c.1 s.1 with
  | .ok (list, result) => .ok (list, s.2 ++ [result])
  | .error stop => .error stop

def callSpec (m : UserMap) (c : Memory × Call) : UserMap × List Bool := ((c.2.spec m).1, [(c.2.spec m).2])

/-- What is known of a run of calls over a list of this size: it represents the
map and gives its results, or some memory ran out, or `size` did. -/
def RunOutcome (m : UserMap) (size : Int) (out : List Bool) (calls : List (Memory × Call)) :
    Except Stop (UserList × List Bool) → Prop
  | .ok (list, results) =>
    Represents list (transduce callSpec m calls).1 ∧ results = out ++ (transduce callSpec m calls).2
  | .error stop =>
    (stop = .refused ∧ ∃ c ∈ calls, c.1.allocates = false) ∨ (stop = .overflow ∧ intMax < size + calls.length)

theorem run_represents {list : UserList} {m : UserMap} (h : Represents list m) (out : List Bool)
    (calls : List (Memory × Call)) : RunOutcome m list.size out calls (run callStep (list, out) calls) := by
  induction calls generalizing list m out with
  | nil => exact ⟨h, (List.append_nil out).symm⟩
  | cons c calls ih =>
    rcases exec_represents c.1 h c.2 with ⟨ha, he⟩ | ⟨hm, he⟩ | ⟨list', he, h'⟩
    · simp only [run, callStep, he]
      exact Or.inl ⟨rfl, c, List.mem_cons_self, ha⟩
    · simp only [run, callStep, he]
      refine Or.inr ⟨rfl, ?_⟩
      rw [hm, List.length_cons]
      omega
    · have hsize : list'.size ≤ list.size + 1 := by
        rw [represents_size h', represents_size h]
        exact_mod_cast spec_length_le m c.2
      have ih := ih h' (out ++ [(c.2.spec m).2])
      simp only [run, callStep, he]
      cases hr : run callStep (list', out ++ [(c.2.spec m).2]) calls with
      | ok s =>
        rw [hr] at ih
        refine ⟨ih.1, ?_⟩
        rw [ih.2, List.append_assoc]
        rfl
      | error stop =>
        rw [hr] at ih
        rcases ih with ⟨hs, d, hd, ha⟩ | ⟨hs, hlt⟩
        · exact Or.inl ⟨hs, d, List.mem_cons_of_mem _ hd, ha⟩
        · refine Or.inr ⟨hs, ?_⟩
          rw [List.length_cons]
          omega

def CStr.admin2 : CStr := ⟨[97, 100, 109, 105, 110, 50], [], by decide, by decide⟩
def CStr.alggo2 : CStr := ⟨[97, 108, 103, 103, 111, 50], [], by decide, by decide⟩
def CStr.admin : CStr := ⟨[97, 100, 109, 105, 110], [], by decide, by decide⟩
def CStr.alggo : CStr := ⟨[97, 108, 103, 103, 111], [], by decide, by decide⟩
def CStr.pruebita : CStr := ⟨[112, 114, 117, 101, 98, 105, 116, 97], [], by decide, by decide⟩

def initCalls (mem mem' mem'' : Memory) : List (Memory × Call) :=
  [(mem, .add .admin2 .alggo2 true), (mem', .add .admin .alggo true), (mem'', .add .pruebita .pruebita true)]

/-- The entries that `init_user_list` makes. -/
def UserMap.init : UserMap :=
  ⟨[⟨CStr.admin2.octets, CStr.alggo2.octets, true⟩, ⟨CStr.admin.octets, CStr.alggo.octets, true⟩,
      ⟨CStr.pruebita.octets, CStr.pruebita.octets, true⟩],
    by simp only [List.NodupKeys, List.keys]; decide⟩

/-- `init_user_list`, and calls after it with their results. -/
def history (mem mem' mem'' : Memory) (calls : List (Memory × Call)) : Except Stop (UserList × List Bool) :=
  match UserList.initUserList mem mem' mem'' with
  | .ok list => run callStep (list, []) calls
  | .error stop => .error stop

theorem represents_empty : Represents UserList.empty ∅ := ⟨[], ⟨rfl, rfl⟩, List.Forall₂.nil⟩

theorem exec_literals (mem : Memory) (list : UserList) :
    UserList.addUser mem admin2Literal 7 alggo2Literal 7 true list = (Call.add .admin2 .alggo2 true).exec mem list ∧
    UserList.addUser mem adminLiteral 6 alggoLiteral 6 true list = (Call.add .admin .alggo true).exec mem list ∧
    UserList.addUser mem pruebitaLiteral 9 pruebitaLiteral 9 true list =
      (Call.add .pruebita .pruebita true).exec mem list := ⟨rfl, rfl, rfl⟩

theorem initUserList_run (mem mem' mem'' : Memory) :
    UserList.initUserList mem mem' mem'' =
      (run callStep (UserList.empty, []) (initCalls mem mem' mem'')).map Prod.fst := by
  simp only [UserList.initUserList, (exec_literals _ _).1, (exec_literals _ _).2.1, (exec_literals _ _).2.2, bind,
    Except.bind, initCalls, run, callStep]
  cases h : (Call.add .admin2 .alggo2 true).exec mem UserList.empty with
  | error stop => rfl
  | ok r =>
    cases h' : (Call.add .admin .alggo true).exec mem' r.1 with
    | error stop => simp only [h', Except.map]
    | ok r' =>
      cases h'' : (Call.add .pruebita .pruebita true).exec mem'' r'.1 with
      | error stop => simp only [h', h'', Except.map]
      | ok r'' => simp only [h', h'', Except.map, pure, Except.pure]

theorem initCalls_spec (mem mem' mem'' : Memory) :
    (transduce callSpec ∅ (initCalls mem mem' mem'')).1 = UserMap.init := rfl

/-- `init_user_list` makes the map of its three users, or has no memory for one. -/
theorem initUserList_represents (mem mem' mem'' : Memory) :
    match UserList.initUserList mem mem' mem'' with
    | .ok list => Represents list UserMap.init
    | .error stop => stop = .refused ∧ ∃ m ∈ [mem, mem', mem''], m.allocates = false := by
  have h := run_represents represents_empty [] (initCalls mem mem' mem'')
  rw [initUserList_run]
  cases hr : run callStep (UserList.empty, []) (initCalls mem mem' mem'') with
  | ok s =>
    rw [hr] at h
    exact initCalls_spec mem mem' mem'' ▸ h.1
  | error stop =>
    rw [hr] at h
    rcases h with ⟨hs, c, hc, ha⟩ | ⟨_, hlt⟩
    · refine ⟨hs, c.1, ?_, ha⟩
      simpa [initCalls] using List.mem_map_of_mem (f := Prod.fst) hc
    · exact absurd hlt (by simp [initCalls, UserList.empty, intMax])

/-- After any calls, each of them with a memory of its own, the list represents
the map that went through the same calls and gave the same results; its nodes
have different names, `size` counts them, and credentials are right when the map
has them with the admin flag. A call fails to return only for lack of memory, or
when `size` is at its bound. -/
theorem users_refine (mem mem' mem'' : Memory) (calls : List (Memory × Call)) :
    match history mem mem' mem'' calls with
    | .ok (list, results) =>
      (∃ l, Chain list.nodes list.first l ∧ list.size = l.length ∧
        (∀ mem : Memory, (l.map fun a => cString (mem.username a.1 a.2)).Nodup) ∧
        StoresAll (UserList.usersOf l) (transduce callSpec UserMap.init calls).1.entries) ∧
      results = (transduce callSpec UserMap.init calls).2 ∧
      ∀ (mem : Memory) (uname passwd : List UInt8), UserList.userCheckCredentials mem uname passwd list =
        .ok ((transduce callSpec UserMap.init calls).1.checkCredentials (cString uname) (cString passwd))
    | .error stop =>
      (stop = .refused ∧ ∃ m ∈ [mem, mem', mem''] ++ calls.map Prod.fst, m.allocates = false) ∨
      (stop = .overflow ∧ intMax < 3 + calls.length) := by
  have hinit := initUserList_represents mem mem' mem''
  unfold history
  cases hi : UserList.initUserList mem mem' mem'' with
  | error stop =>
    rw [hi] at hinit
    obtain ⟨hs, m, hm, ha⟩ := hinit
    exact Or.inl ⟨hs, m, List.mem_append_left _ hm, ha⟩
  | ok list =>
    rw [hi] at hinit
    have hrun := run_represents hinit [] calls
    simp only
    cases hr : run callStep (list, []) calls with
    | error stop =>
      rw [hr] at hrun
      rcases hrun with ⟨hs, c, hc, ha⟩ | ⟨hs, hlt⟩
      · exact Or.inl ⟨hs, c.1, List.mem_append_right _ (List.mem_map_of_mem hc), ha⟩
      · rw [represents_size hinit] at hlt
        exact Or.inr ⟨hs, hlt⟩
    | ok s =>
      rw [hr] at hrun
      obtain ⟨⟨l, hl, hst⟩, hres⟩ := hrun
      have hn := (transduce callSpec UserMap.init calls).1.nodupKeys
      refine ⟨⟨l, hl.chain, hl.size, fun mem => ?_, hst⟩, hres, fun mem uname passwd => ?_⟩
      · rw [names_stores mem hst]
        exact hn
      · rw [UserList.checkCredentials_sim mem uname passwd hl, checkCredentials_stores _ _ _ hst hn]
        rfl

end SocksProxy
