import SocksProxy.Args
import SocksProxy.UserMap

/-!
# Users from the command line

`parse_args` counts the users in a variable of its own, so `user_count` stays 0
and `initialize_users` adds nobody: the users are the ones wanted exactly if no
name on the command line is new.
-/

namespace SocksProxy

open Lib

/-- The name and the password of the argument of `-u`, at its first colon. -/
def OptArg.name (s : OptArg) : List UInt8 := s.text.takeWhile (· ≠ 0x3A)

def OptArg.pass (s : OptArg) : List UInt8 := (s.text.dropWhile (· ≠ 0x3A)).tail

def Opt.given : Opt → Option (List UInt8 × List UInt8)
  | .user s => some (s.name, s.pass)
  | _ => none

def given (opts : List Opt) : List (List UInt8 × List UInt8) := opts.filterMap Opt.given

def addGiven (m : UserMap) (u : List UInt8 × List UInt8) : UserMap := (m.addUser u.1 u.2 false).1

/-- The built-in users, and each new name with its first password. -/
def wantedUsers (opts : List Opt) : UserMap := (given opts).foldl addGiven UserMap.init

/-- The users have the names, passwords and flags of the entries, as strings. -/
def Shows : Heap → List User → List UserEntry → Prop
  | _, [], [] => True
  | h, user :: users, e :: entries =>
    (user.usernameString h = e.1 ∧ user.passwordString h = e.2.1 ∧ user.isAdmin = e.2.2) ∧
      Shows h.tail users entries
  | _, _, _ => False

/-! ## The list and the map -/

theorem shows_length {h : Heap} {users : List User} {entries : List UserEntry} (hs : Shows h users entries) :
    users.length = entries.length := by
  induction users generalizing h entries with
  | nil =>
    cases entries with
    | nil => rfl
    | cons e entries => exact hs.elim
  | cons user users ih =>
    cases entries with
    | nil => exact hs.elim
    | cons e entries =>
      rw [List.length_cons, List.length_cons, ih hs.2]

theorem shows_stores {users : List User} {entries : List UserEntry} (hs : StoresAll users entries) (h : Heap) :
    Shows h users entries := by
  induction hs generalizing h with
  | nil => trivial
  | cons hu _ ih => exact ⟨⟨hu.usernameString h, hu.passwordString h, hu.isAdmin⟩, ih h.tail⟩

theorem addUser_absent {users : List User} {entries : List UserEntry} (hs : StoresAll users entries) (h : Heap)
    (name passwd : CStr) (admin : Bool) (hno : name.octets ∉ entries.keys) :
    StoresAll (addUser h users name.memory name.length passwd.memory passwd.length admin).1
      (entries ++ [⟨name.octets, passwd.octets, admin⟩]) := by
  rw [addUser, addUserRec_stores h name passwd admin hs, if_neg hno]
  exact List.rel_append hs (List.Forall₂.cons (stores_newUser name passwd admin) List.Forall₂.nil)

theorem initUserList_stores (h : Heap) : StoresAll (initUserList h) UserMap.init.entries := by
  have h1 := addUser_absent List.Forall₂.nil h .admin2 .alggo2 true (by decide)
  have h2 := addUser_absent h1 h .admin .alggo true (by decide)
  exact addUser_absent h2 h .pruebita .pruebita true (by decide)

section
variable {m : UserMap} {u : List UInt8 × List UInt8}

theorem addGiven_known (h : u.1 ∈ m) : addGiven m u = m := by
  simp only [addGiven, UserMap.addUser, dif_pos h]

theorem addGiven_new (h : u.1 ∉ m) : (addGiven m u).entries.length = m.entries.length + 1 := by
  simp only [addGiven, UserMap.addUser, dif_neg h, List.length_append, List.length_singleton]

theorem addGiven_length (m : UserMap) (u : List UInt8 × List UInt8) :
    m.entries.length ≤ (addGiven m u).entries.length := by
  by_cases h : u.1 ∈ m
  · rw [addGiven_known h]
  · rw [addGiven_new h]
    exact Nat.le_succ _

theorem foldl_length (m : UserMap) (us : List (List UInt8 × List UInt8)) :
    m.entries.length ≤ (us.foldl addGiven m).entries.length := by
  induction us generalizing m with
  | nil => exact Nat.le_refl _
  | cons u us ih => exact Nat.le_trans (addGiven_length m u) (ih (addGiven m u))

/-- Users that are all known leave the map as it is; a new one makes it grow. -/
theorem foldl_known (m : UserMap) (us : List (List UInt8 × List UInt8)) :
    ((us.foldl addGiven m).entries.length = m.entries.length ↔ ∀ u ∈ us, u.1 ∈ m) ∧
      ((∀ u ∈ us, u.1 ∈ m) → us.foldl addGiven m = m) := by
  induction us with
  | nil => exact ⟨iff_of_true rfl (fun u hu => by cases hu), fun _ => rfl⟩
  | cons u us ih =>
    rw [List.foldl_cons, List.forall_mem_cons]
    by_cases h : u.1 ∈ m
    · rw [addGiven_known h]
      exact ⟨ih.1.trans (and_iff_right h).symm, fun hall => ih.2 hall.2⟩
    · refine ⟨iff_of_false ?_ fun hall => h hall.1, fun hall => absurd hall.1 h⟩
      have hgrows := foldl_length (addGiven m u) us
      rw [addGiven_new h] at hgrows
      omega

end

/-! ## The command line -/

theorem option_map_ok {α β : Type} {x : Except ArgsStop α} {f : α → β} {b : β} (h : x.map f = .ok b) :
    ∃ a, x = .ok a ∧ f a = b := by
  cases x with
  | error stop => cases h
  | ok a => exact ⟨a, rfl, Except.ok.inj h⟩

theorem parseOption_userCount (r : Socks5Args × Nat) (o : Opt) (r' : Socks5Args × Nat) (h0 : r.1.userCount = 0)
    (h : parseOption r o = .ok r') : r'.1.userCount = 0 := by
  cases o with
  | help => cases h
  | version => cases h
  | other c => cases h
  | socksPort s | mngPort s | dohPort s =>
    obtain ⟨n, -, rfl⟩ := option_map_ok h
    exact h0
  | user s =>
    simp only [parseOption] at h
    split at h
    · cases h
    · obtain ⟨u, -, rfl⟩ := option_map_ok h
      exact h0
  | _ =>
    cases h
    exact h0

theorem parseArgs_run {opts : List Opt} {operands : List (List UInt8)} {args : Socks5Args}
    (h : parseArgs opts operands = .ok args) : ∃ nusers, run parseOption argsDefault opts = .ok (args, nusers) := by
  unfold parseArgs at h
  cases hr : run parseOption argsDefault opts with
  | error stop =>
    rw [hr] at h
    cases h
  | ok r =>
    rw [hr] at h
    simp only at h
    split at h
    · cases h
      exact ⟨r.2, rfl⟩
    · cases h

theorem parseArgs_userCount {opts : List Opt} {operands : List (List UInt8)} {args : Socks5Args}
    (h : parseArgs opts operands = .ok args) : args.userCount = 0 := by
  obtain ⟨nusers, hr⟩ := parseArgs_run h
  exact run_invariant (I := fun r => r.1.userCount = 0) parseOption_userCount rfl hr

/-- After a command line that is accepted, the users are the built-in ones and
the ones given exactly if every name given is that of a built-in user. -/
theorem initializeUsers_iff {opts : List Opt} {operands : List (List UInt8)} {args : Socks5Args}
    (hargs : parseArgs opts operands = .ok args) (h : Heap) :
    Shows h (initializeUsers h args) (wantedUsers opts).entries ↔ ∀ u ∈ given opts, u.1 ∈ UserMap.init := by
  have hnone : initializeUsers h args = initUserList h := by
    unfold initializeUsers
    rw [parseArgs_userCount hargs]
    exact loop_zero _ _
  have hinit := initUserList_stores h
  obtain ⟨hlength, hsame⟩ := foldl_known UserMap.init (given opts)
  rw [hnone]
  constructor
  · intro hs
    apply hlength.mp
    rw [← shows_length (shows_stores hinit h)]
    exact (shows_length hs).symm
  · intro hall
    unfold wantedUsers
    rw [hsame hall]
    exact shows_stores hinit h

/-- `-u admin:a -N`. -/
def knownOpts : List Opt := [.user ⟨[97, 100, 109, 105, 110, 0x3A, 97], [], by decide⟩, .noDisectors]

theorem initializeUsers_known :
    ∃ args, parseArgs knownOpts [] = .ok args ∧
      Shows zeroHeap (initializeUsers zeroHeap args) (wantedUsers knownOpts).entries := by
  have hargs : parseArgs knownOpts [] = .ok { argsDefault.1 with
      disectorsEnabled := false
      users := argsDefault.1.users.set 0 ⟨some [97, 100, 109, 105, 110, 0, 97, 0], some [97, 0]⟩ } := rfl
  refine ⟨_, hargs, (initializeUsers_iff hargs zeroHeap).mpr ?_⟩
  decide

/-- `-u a:b`. -/
def newOpts : List Opt := [.user ⟨[97, 0x3A, 98], [], by decide⟩]

theorem initializeUsers_misses :
    ∃ args, parseArgs newOpts [] = .ok args ∧
      ¬ Shows zeroHeap (initializeUsers zeroHeap args) (wantedUsers newOpts).entries := by
  refine ⟨_, rfl, ?_⟩
  intro hs
  have hlength := shows_length hs
  revert hlength
  decide

end SocksProxy
