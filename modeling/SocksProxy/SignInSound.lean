import SocksProxy.ArgsSound
import SocksProxy.ClientSound
import SocksProxy.LoginSound

/-!
# The login of the client

What is typed at the prompts comes to the server as it was typed. A name and a
password of the command line are both copied into the buffer of the name, and
the buffer of the password is left as it was (`firstMessage_iff`).
-/

namespace SocksProxy

open Lib Client

/-! ## The first user of the command line -/

/-- The memory of the first user, by the pairs given so far. -/
def FirstUser (us : List (List UInt8 × List UInt8)) (u : Users) : Prop :=
  match us with
  | [] => u = ⟨none, none⟩
  | (name, pass) :: _ => ∃ n p, u = ⟨some n, some p⟩ ∧ cString n = name ∧ cString p = pass

/-- What the options so far have left in `users`. -/
structure UsersOf (opts : List Opt) (r : Socks5Args × Nat) : Prop where
  length : r.1.users.length = maxUsers
  nusers : r.2 = (given opts).length
  first : FirstUser (given opts) (r.1.users.getD 0 ⟨none, none⟩)

theorem given_snoc (opts : List Opt) (o : Opt) : given (opts ++ [o]) = given opts ++ o.given.toList := by
  rw [given, List.filterMap_append]
  congr 1

theorem user_memory {s : OptArg} {u : Users} (h : user s = .ok u) :
    ∃ n p, u = ⟨some n, some p⟩ ∧ cString n = s.name ∧ cString p = s.pass := by
  unfold user at h
  cases hd : s.text.dropWhile (· ≠ 0x3A) with
  | nil =>
    rw [hd] at h
    cases h
  | cons c p =>
    rw [hd] at h
    cases h
    have hname : 0 ∉ s.text.takeWhile (· ≠ 0x3A) := fun h0 => s.noNul ((List.takeWhile_prefix _).subset h0)
    have hpass : 0 ∉ p := by
      intro h0
      apply s.noNul
      apply (List.dropWhile_suffix (fun c => decide (c ≠ 0x3A))).subset
      rw [hd]
      exact List.mem_cons_of_mem c h0
    refine ⟨_, _, rfl, cString_of_noNul hname _, ?_⟩
    rw [OptArg.pass, hd]
    exact cString_of_noNul hpass _

theorem usersOf_keeps {opts : List Opt} {o : Opt} {args args' : Socks5Args} {n : Nat} (h : UsersOf opts (args, n))
    (ho : o.given = none) (hu : args'.users = args.users) : UsersOf (opts ++ [o]) (args', n) := by
  have hsame : given (opts ++ [o]) = given opts := by
    rw [given_snoc, ho]
    exact List.append_nil _
  refine ⟨?_, ?_, ?_⟩
  · rw [hu]
    exact h.length
  · rw [hsame]
    exact h.nusers
  · rw [hsame, hu]
    exact h.first

theorem usersOf_user {opts : List Opt} {s : OptArg} {args : Socks5Args} {n : Nat} {u : Users}
    (h : UsersOf opts (args, n)) (hu : user s = .ok u) :
    UsersOf (opts ++ [.user s]) ({ args with users := args.users.set n u }, n + 1) := by
  have hgiven : given (opts ++ [.user s]) = given opts ++ [(s.name, s.pass)] := given_snoc opts (.user s)
  have hlen : args.users.length = maxUsers := h.length
  have hcount : n = (given opts).length := h.nusers
  have hfirst : FirstUser (given opts) (args.users.getD 0 ⟨none, none⟩) := h.first
  refine ⟨?_, ?_, ?_⟩
  · rw [List.length_set]
    exact hlen
  · rw [hgiven, List.length_append, List.length_singleton, ← hcount]
  · rw [hgiven]
    cases hg : given opts with
    | nil =>
      have hzero : n = 0 := by rw [hcount, hg]; rfl
      have hget : (args.users.set n u).getD 0 ⟨none, none⟩ = u := by
        rw [hzero, List.getD_eq_getElem?_getD, List.getElem?_set_self (by rw [hlen]; decide)]
        rfl
      simp only [hget]
      exact user_memory hu
    | cons v vs =>
      have hne : n ≠ 0 := by rw [hcount, hg]; exact Nat.succ_ne_zero _
      have hget : (args.users.set n u).getD 0 ⟨none, none⟩ = args.users.getD 0 ⟨none, none⟩ := by
        rw [List.getD_eq_getElem?_getD, List.getElem?_set_ne hne, ← List.getD_eq_getElem?_getD]
      rw [hg] at hfirst
      simp only [hget]
      exact hfirst

theorem usersOf_step {opts : List Opt} {o : Opt} {r r' : Socks5Args × Nat} (h : UsersOf opts r)
    (hstep : parseOption r o = .ok r') : UsersOf (opts ++ [o]) r' := by
  obtain ⟨args, n⟩ := r
  cases o with
  | help => cases hstep
  | version => cases hstep
  | other c => cases hstep
  | socksPort s | mngPort s | dohPort s =>
    obtain ⟨m, -, rfl⟩ := option_map_ok hstep
    exact usersOf_keeps h rfl rfl
  | user s =>
    simp only [parseOption] at hstep
    split at hstep
    · cases hstep
    · obtain ⟨u, hu, rfl⟩ := option_map_ok hstep
      exact usersOf_user h hu
  | _ =>
    cases hstep
    exact usersOf_keeps h rfl rfl

theorem parseArgs_first {opts : List Opt} {operands : List (List UInt8)} {args : Socks5Args}
    (h : parseArgs opts operands = .ok args) : FirstUser (given opts) (args.users.getD 0 ⟨none, none⟩) := by
  obtain ⟨nusers, hr⟩ := parseArgs_run h
  have hstart : UsersOf [] argsDefault := ⟨rfl, rfl, rfl⟩
  exact (run_history hstart (fun _ _ _ _ _ hu hs => usersOf_step hu hs) hr).first

/-! ## The message -/

structure BufferHolds (buffer w : List UInt8) : Prop where
  string : cString buffer = w
  terminated : 0 ∈ buffer

theorem filled_holds {n : Nat} {w block : List UInt8} (h : Filled n (w ++ [0]) block) (hw : 0 ∉ w) :
    BufferHolds block w := by
  have hsplit := List.take_append_drop (w ++ [0]).length block
  rw [h.2, List.append_assoc] at hsplit
  rw [← hsplit]
  refine ⟨cString_of_noNul hw _, ?_⟩
  simp

theorem filled_front {n : Nat} {a b block : List UInt8} (h : Filled n (a ++ b) block) : Filled n a block := by
  refine ⟨h.1, ?_⟩
  have hle : a.length ≤ (a ++ b).length := by simp
  rw [← Nat.min_eq_left hle, ← List.take_take, h.2, List.take_left]

/-- What the client sends for these two strings. -/
def loginOctets (name password : List UInt8) : List UInt8 :=
  0x01 :: UInt8.ofNat name.length :: (name ++ UInt8.ofNat password.length :: password)

theorem loginMessage_eq (mem : MessageMemory) {nameBuffer passwordBuffer name password : List UInt8}
    (hn : BufferHolds nameBuffer name) (hp : BufferHolds passwordBuffer password) :
    loginMessage mem nameBuffer passwordBuffer = .ok (loginOctets name password) := by
  simp only [loginMessage, strlen, if_pos hn.terminated, if_pos hp.terminated, ok_bind, strcpy, hn.string,
    hp.string]
  refine filled_bind (filled_nil _ _) rfl (by simp) fun m1 h1 => ?_
  refine filled_bind h1 (by simp) (by simp; omega) fun m2 h2 => ?_
  refine filled_bind h2 (by simp) (by simp; omega) fun m3 h3 => ?_
  -- the length of the password takes the place of the terminator of the name
  have hname : Filled (3 + name.length + password.length + 1) ([0x01, UInt8.ofNat name.length] ++ name) m3 := by
    apply filled_front (b := [0])
    simpa using h3
  refine filled_bind hname (by simp; omega) (by simp; omega) fun m4 h4 => ?_
  rw [filled_last h4 (by simp) (by simp; omega), ok_bind]
  congr 1
  have hall : [0x01, UInt8.ofNat name.length] ++ name ++ [UInt8.ofNat password.length] ++ (password ++ [0]) =
      loginOctets name password ++ [0] := by
    simp [loginOctets]
  rw [hall]
  apply List.take_left'
  simp [loginOctets]
  omega

/-! ## Accepted by the server -/

/-- The parser accepts the message at its last byte, and holds the name and the
password as strings; they are the ones that the server looks for. -/
structure AcceptedAs (m name password : List UInt8) : Prop where
  stops : StopsAt authParserFeed authStops authParserInit m
  done : (feedAll authParserFeed authParserInit m).state = .done
  uname : cString (feedAll authParserFeed authParserInit m).credentials.unamePtr = name
  passwd : cString (feedAll authParserFeed authParserInit m).credentials.passwdPtr = password
  checked : ∀ h users, userCheckCredentials h users (feedAll authParserFeed authParserInit m).credentials.unamePtr
    (feedAll authParserFeed authParserInit m).credentials.passwdPtr =
      userCheckCredentials h users (name ++ [0]) (password ++ [0])

theorem credentialsOf_strings {uname passwd : Name} (hu : 0 ∉ uname.1) (hul : uname.1.length < maxLen)
    (hp : 0 ∉ passwd.1) (hpl : passwd.1.length < maxLen) :
    cString (credentialsOf uname passwd).unamePtr = uname.1 ∧
      cString (credentialsOf uname passwd).passwdPtr = passwd.1 := by
  constructor
  · change cString (nameField uname.1 ++ passwd.len :: nameField passwd.1) = uname.1
    rw [cString_nameField hul, cString_of_not_mem hu]
  · change cString (nameField passwd.1) = passwd.1
    rw [cString_passwd (Nat.le_of_lt hpl), cString_of_not_mem hp]

section
variable {name password : List UInt8}

/-- The message of two names is accepted with them, and with nothing else. -/
theorem login_accepted {uname passwd : Name} (hu : 0 ∉ uname.1) (hul : uname.1.length < maxLen) (hp : 0 ∉ passwd.1)
    (hpl : passwd.1.length < maxLen) :
    AcceptedAs (loginOctets uname.1 passwd.1) name password ↔ name = uname.1 ∧ password = passwd.1 := by
  have hword : loginOctets uname.1 passwd.1 = authMessage uname passwd := rfl
  obtain ⟨hstops, hdone, hcreds⟩ := authFeed_word uname passwd
  obtain ⟨hname, hpassword⟩ := credentialsOf_strings hu hul hp hpl
  rw [hword]
  constructor
  · intro h
    have h1 := h.uname
    have h2 := h.passwd
    rw [hcreds] at h1 h2
    exact ⟨h1.symm.trans hname, h2.symm.trans hpassword⟩
  · intro h
    rw [h.1, h.2]
    refine ⟨hstops, hdone, by rw [hcreds]; exact hname, by rw [hcreds]; exact hpassword, ?_⟩
    intro heap users
    apply userCheckCredentials_congr heap users
    · rw [hcreds, hname, cString_of_noNul hu]
    · rw [hcreds, hpassword, cString_of_noNul hp]

theorem login_refused (uname : Name) : ¬ AcceptedAs (loginOctets uname.1 []) name password := by
  intro h
  obtain ⟨u, p, he⟩ := (stopsAt_word_iff authParser_recognises _).mp ⟨h.stops, (isAuthDone_iff _).mpr h.done⟩
  simp only [loginOctets, authMessage, List.cons.injEq, true_and] at he
  obtain ⟨-, hrest⟩ := name_append_inj (a := uname) (b := u) he.1 he.2
  rw [List.cons.injEq] at hrest
  exact name_len_ne p hrest.1.symm

end

/-! ## The credentials that the user gives -/

/-- The name and the password are given at the prompts, or by the first `-u`. -/
inductive Enters (opts : List Opt) (input : List UInt8) (name password : Typed) : Prop
  | prompts (blanks : List Blank) (sep sep' : Blank) (r : List UInt8) (hno : given opts = [])
      (hinput : input = typedInput blanks name sep password sep' r)
  | option (rest : List (List UInt8 × List UInt8)) (hgiven : given opts = (name.1, password.1) :: rest)

/-- The message that is sent is accepted with the name and the password. -/
def SignsIn (mem : MessageMemory) (args : Socks5Args) (input name password : List UInt8) : Prop :=
  ∃ m, firstMessage mem args input = .ok m ∧ AcceptedAs m name password

def Typed.name (w : Typed) : Name := ⟨w.1, w.2.1, Nat.le_trans w.2.2.1 (by decide)⟩

theorem typed_short (w : Typed) : w.name.1.length < maxLen := Nat.lt_succ_of_le w.2.2.1

section
variable {mem : MessageMemory} {opts : List Opt} {operands : List (List UInt8)} {args : Socks5Args}
  {input : List UInt8} {name password : Typed}

theorem typed_accepted (name password : Typed) : AcceptedAs (loginOctets name.1 password.1) name.1 password.1 := by
  change AcceptedAs (loginOctets name.name.1 password.name.1) name.1 password.1
  rw [login_accepted (typed_noNul name) (typed_short name) (typed_noNul password) (typed_short password)]
  exact ⟨rfl, rfl⟩

theorem scanf_length {buffer buffer' input rest : List UInt8} (h : scanf buffer input = .ok (buffer', rest)) :
    buffer'.length = buffer.length := by
  unfold scanf at h
  simp only at h
  split at h
  · cases h
    rfl
  · rename_i hword
    unfold put at h
    split at h
    · cases h
      exact length_store _ (Nat.zero_le _)
    · cases h

theorem scanf_holds {content : Nat → UInt8} {buffer input rest : List UInt8} {w : Typed}
    (h : scanf (uninitialised content credentialsSize) input = .ok (buffer, rest)) (hw : cString buffer = w.1) :
    BufferHolds buffer w.1 := by
  refine ⟨hw, ?_⟩
  by_contra h0
  have hlen := scanf_length h
  rw [cString_of_not_mem h0] at hw
  have hshort := w.2.2.1
  rw [hw] at hlen
  simp only [uninitialised, List.length_map, List.length_range, credentialsSize] at hlen
  omega

theorem prompts_sent (hno : args.users.getD 0 ⟨none, none⟩ = ⟨none, none⟩) (blanks : List Blank) (sep sep' : Blank)
    (r : List UInt8) :
    firstMessage mem args (typedInput blanks name sep password sep' r) = .ok (loginOctets name.1 password.1) := by
  obtain ⟨nameBuffer, hname, hn⟩ := scanf_name mem blanks name password sep sep' r
  obtain ⟨passwordBuffer, hpassword, hp⟩ := scanf_password mem password sep sep' r
  simp only [firstMessage, hno, hname, ok_bind, hpassword]
  exact loginMessage_eq mem (scanf_holds hname hn) (scanf_holds hpassword hp)

theorem option_sent (mem : MessageMemory) (input : List UInt8) {n p : List UInt8}
    (hfirst : args.users.getD 0 ⟨none, none⟩ = ⟨some n, some p⟩) (hn : cString n = name.1)
    (hp : cString p = password.1) :
    ∃ nameBuffer, BufferHolds nameBuffer password.1 ∧
      firstMessage mem args input = loginMessage mem nameBuffer
        (uninitialised mem.passwordBuffer credentialsSize) := by
  have hfit : ∀ w : Typed, ([] : List UInt8).length + (w.1 ++ [0]).length ≤ credentialsSize := by
    intro w
    have := w.2.2.1
    simp only [List.length_nil, List.length_append, List.length_singleton, credentialsSize]
    omega
  obtain ⟨block, hput, hblock⟩ := filled_put (filled_nil mem.nameBuffer credentialsSize) rfl (hfit name)
  have hagain : Filled credentialsSize [] block := ⟨hblock.1, rfl⟩
  obtain ⟨nameBuffer, hput', hname⟩ := filled_put hagain rfl (hfit password)
  refine ⟨nameBuffer, filled_holds hname (typed_noNul password), ?_⟩
  rw [List.length_nil] at hput hput'
  simp only [firstMessage, hfirst, strcpy, hn, hp, hput, ok_bind, hput']

/-- The message carries the password in place of the name, and whatever string is in the buffer of the password. -/
theorem option_accepted (mem : MessageMemory) (name : Typed) {nameBuffer passwordBuffer : List UInt8}
    (hn : BufferHolds nameBuffer password.1) (hlen : passwordBuffer.length = credentialsSize) :
    (∃ m, loginMessage mem nameBuffer passwordBuffer = .ok m ∧ AcceptedAs m name.1 password.1) ↔
      name = password ∧ cString passwordBuffer = password.1 := by
  by_cases h0 : 0 ∈ passwordBuffer
  · have hshort := cString_length_lt h0
    rw [hlen] at hshort
    rw [loginMessage_eq mem hn ⟨rfl, h0⟩]
    simp only [Except.ok.injEq, exists_eq_left']
    by_cases hnil : cString passwordBuffer = []
    · rw [hnil]
      refine iff_of_false (login_refused password.name) ?_
      intro h
      exact password.2.1 h.2.symm
    · let held : Name := ⟨cString passwordBuffer, hnil, Nat.le_of_lt hshort⟩
      change AcceptedAs (loginOctets password.name.1 held.1) name.1 password.1 ↔ _
      rw [login_accepted (typed_noNul password) (typed_short password) (noNul_cString _) hshort]
      constructor
      · intro h
        exact ⟨Subtype.ext h.1, h.2.symm⟩
      · intro h
        exact ⟨congrArg Subtype.val h.1, h.2.symm⟩
  · have hno : ¬ cString passwordBuffer = password.1 := by
      intro h
      have hshort := password.2.2.1
      rw [← h, cString_of_not_mem h0, hlen] at hshort
      exact absurd hshort (by decide)
    refine iff_of_false ?_ fun h => hno h.2
    intro h
    obtain ⟨m, hm, -⟩ := h
    simp only [loginMessage, strlen, if_pos hn.terminated, if_neg h0, ok_bind] at hm
    cases hm

/-- The client logs in with what the user has given always when it was typed,
and with a name and a password of the command line exactly if they are the same
and the buffer of the password happened to hold that string already. -/
theorem firstMessage_iff (mem : MessageMemory) (hargs : parseArgs opts operands = .ok args)
    (h : Enters opts input name password) :
    SignsIn mem args input name.1 password.1 ↔
      (given opts ≠ [] → name = password ∧
        cString (uninitialised mem.passwordBuffer credentialsSize) = password.1) := by
  have hfirst := parseArgs_first hargs
  cases h with
  | prompts blanks sep sep' r hno hinput =>
    refine iff_of_true ?_ fun hne => absurd hno hne
    rw [hno] at hfirst
    rw [hinput]
    exact ⟨_, prompts_sent hfirst blanks sep sep' r, typed_accepted name password⟩
  | option rest hgiven =>
    rw [hgiven] at hfirst
    obtain ⟨n, p, hu, hn, hp⟩ := hfirst
    obtain ⟨nameBuffer, hholds, hsent⟩ := option_sent mem input hu hn hp
    have hlen : (uninitialised mem.passwordBuffer credentialsSize).length = credentialsSize := by
      simp [uninitialised]
    have hiff := option_accepted mem name hholds hlen
    rw [SignsIn, hsent, hiff, hgiven]
    simp

end

theorem typed_letter {c : UInt8} (h : c ≠ 0 ∧ isSpace c = false) :
    [c] ≠ [] ∧ [c].length ≤ 254 ∧ ∀ x ∈ [c], x ≠ 0 ∧ isSpace x = false := by
  refine ⟨List.cons_ne_nil c [], Nat.le_of_ble_eq_true rfl, ?_⟩
  intro x hx
  rw [List.mem_singleton.mp hx]
  exact h

theorem letterA_typed : (97 : UInt8) ≠ 0 ∧ isSpace 97 = false := by decide

theorem letterB_typed : (98 : UInt8) ≠ 0 ∧ isSpace 98 = false := by decide

def letterA : Typed := ⟨[97], typed_letter letterA_typed⟩
def letterB : Typed := ⟨[98], typed_letter letterB_typed⟩

def zeroMessageMemory : MessageMemory := ⟨fun _ => 0, fun _ => 0, fun _ => 0⟩

theorem signsIn_prompts :
    SignsIn zeroMessageMemory argsDefault.1 (typedInput [] letterA ⟨10, rfl⟩ letterB ⟨10, rfl⟩ []) letterA.1
      letterB.1 := by
  have hargs : parseArgs [] [] = .ok argsDefault.1 := rfl
  have henters := Enters.prompts [] ⟨10, rfl⟩ ⟨10, rfl⟩ [] (rfl : given [] = [])
    (rfl : typedInput [] letterA ⟨10, rfl⟩ letterB ⟨10, rfl⟩ [] = _)
  exact (firstMessage_iff zeroMessageMemory hargs henters).mpr fun hne => absurd rfl hne

def newArgs : Socks5Args :=
  { argsDefault.1 with users := argsDefault.1.users.set 0 ⟨some [97, 0, 98, 0], some [98, 0]⟩ }

/-- `-u a:b`: what is sent is refused for its empty password. -/
theorem signsIn_misses :
    parseArgs newOpts [] = .ok newArgs ∧ given newOpts = [(letterA.1, letterB.1)] ∧
      ¬ SignsIn zeroMessageMemory newArgs [] letterA.1 letterB.1 := by
  refine ⟨rfl, rfl, ?_⟩
  intro h
  have hfirst : newArgs.users.getD 0 ⟨none, none⟩ = ⟨some [97, 0, 98, 0], some [98, 0]⟩ := rfl
  have hname : cString [97, 0, 98, 0] = letterA.1 := rfl
  have hpass : cString [98, 0] = letterB.1 := rfl
  obtain ⟨nameBuffer, hholds, hsent⟩ := option_sent zeroMessageMemory [] hfirst hname hpass
  have hlen : (uninitialised zeroMessageMemory.passwordBuffer credentialsSize).length = credentialsSize := by
    simp [uninitialised]
  obtain ⟨m, hm, haccepted⟩ := h
  have hsame := ((option_accepted zeroMessageMemory letterA hholds hlen).mp ⟨m, hsent.symm.trans hm, haccepted⟩).1
  exact absurd hsame (by decide)

end SocksProxy
