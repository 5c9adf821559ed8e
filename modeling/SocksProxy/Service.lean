import SocksProxy.Lib.Run
import SocksProxy.Prawtos

/-!
# What the management service is for

A client authenticates itself, gives commands and may end with QUIT. `serve`
executes the commands one at a time on the list of users; `cmdProcess_command`
says that `cmd_process` executes the command it finds in the parser.
-/

namespace SocksProxy

open Lib

/-! ## Commands, one at a time -/

/-- The last `k` octets of a number, the most significant one first. -/
def bigEndian (n : Nat) : Nat → List UInt8
  | 0 => []
  | k + 1 => UInt8.ofNat (n >>> (8 * k)) :: bigEndian n k

/-- The arguments a GET is answered with, after their number. -/
def getArguments (h : Heap) (stats : Stadistics) (users : List User) (cmd : UInt8) : UInt8 × List UInt8 :=
  if cmd = 0 then (1, 4 :: bigEndian (getBytesSent stats).toNat 4)
  else if cmd = 1 then (1, 2 :: bigEndian (getTotalConnections stats).toNat 2)
  else if cmd = 2 then (1, 2 :: bigEndian (getConcurrentConnections stats).toNat 2)
  else (UInt8.ofNat (getNusers users), getAllUsers h users)

/-- The users after a change, and its answer. -/
def changed (r : List User × Bool) : List User × List UInt8 :=
  (r.1, [(if r.2 then PrawtosResponseStatus.success else .userCredentia).toByte])

/-- The users after a command, and its answer. -/
def Command.execute (stats : Stadistics) (users : List User) (h : Heap) : Command → List User × List UInt8
  | .get cmd _ =>
    let r := getArguments h stats users cmd
    (users, getFrame .success cmd r.1 r.2)
  | .create admin uname passwd => changed (addUser h users uname.1 uname.len passwd.1 passwd.len admin)
  | .delete uname => changed (deleteUser h users uname.1)
  | .edit uname passwd => changed (editUser h users uname.1 passwd.1 passwd.len)

/-- The handler of a command. -/
def Command.entry : Command → HandlerEntry
  | .get cmd _ => .get cmd.toNat
  | .create _ _ _ => .user 0
  | .delete _ => .user 1
  | .edit _ _ => .user 2

/-- The users after some commands, each executed in the heap it comes with, and
all their answers. -/
def serve (stats : Stadistics) (users : List User) (done : List (Command × Heap)) : List User × List UInt8 :=
  transduce (fun users x => x.1.execute stats users x.2) users done

/-! ## Conversations -/

/-- Names and passwords end in a NUL, as the bundled client sends them. -/
def Command.Terminated : Command → Prop
  | .get _ _ => True
  | .create _ uname passwd => uname.1.getLast? = some 0 ∧ passwd.1.getLast? = some 0
  | .delete uname => uname.1.getLast? = some 0
  | .edit uname passwd => uname.1.getLast? = some 0 ∧ passwd.1.getLast? = some 0

/-- What a client sends. -/
structure Conversation where
  uname : Name
  passwd : Name
  commands : List Command
  terminated : ∀ cmd ∈ commands, cmd.Terminated
  quit : Bool

namespace Conversation

variable (s : Conversation)

def ending : List UInt8 := if s.quit then quitMessage else []

def stream : List UInt8 := authMessage s.uname s.passwd ++ (s.commands.flatMap Command.encode ++ s.ending)

/-- The answers once the commands `done` have been executed: QUIT is answered
after all commands. -/
def answers (stats : Stadistics) (users : List User) (done : List (Command × Heap)) : List UInt8 :=
  [0x01, authSuccess] ++ (serve stats users done).2 ++
    (if s.quit ∧ done.length = s.commands.length then [PrawtosResponseStatus.success.toByte] else [])

/-- The answer to every GET fits in the write buffer, when commands are executed
in heaps of `H`. -/
def Fits (H : Heap → Prop) (stats : Stadistics) (users : List User) : Prop :=
  ∀ done cmd hc h, done.map Prod.fst ++ [Command.get cmd hc] <+: s.commands → (∀ x ∈ done, H x.2) → H h →
    ((Command.get cmd hc).execute stats (serve stats users done).1 h).2.length ≤ prawtosBufferSize

end Conversation

/-! ## What ends a command of the stream -/

/-- The parser stops after the next command of a client, or after its QUIT. -/
theorem commandEnd_next {l r : List UInt8} {p : PrawtosParser} {rest : List Command} {quit : Bool}
    (h : CommandEnd l p) (hne : l ≠ [])
    (he : l ++ r = rest.flatMap Command.encode ++ (if quit then quitMessage else [])) :
    (∃ cmd more, rest = cmd :: more ∧ l = cmd.encode ∧ cmd.Parsed p ∧ p.state = .parserDone) ∨
      (rest = [] ∧ quit = true ∧ p.type = 0x03 ∧ p.state = .parserDone) := by
  cases rest with
  | nil =>
    rw [List.flatMap_nil, List.nil_append] at he
    cases quit with
    | false => exact absurd (List.append_eq_nil_iff.mp he).1 hne
    | true =>
      have hl : l = [0x03] := by
        obtain ⟨x, l', rfl⟩ := List.exists_cons_of_ne_nil hne
        simp only [quitMessage, ite_true, List.cons_append, List.cons.injEq, List.append_eq_nil_iff] at he
        rw [he.1, he.2.1]
      refine Or.inr ⟨rfl, rfl, ?_⟩
      cases h with
      | command cmd hcmd _ _ =>
        rcases encode_head cmd [] with hh | hh <;> rw [List.append_nil, ← hcmd, hl] at hh <;> cases hh
      | quit _ hst ht => exact ⟨ht, hst⟩
      | sniff c hs _ _ => rw [hl] at hs; cases hs
      | error _ hh ht _ =>
        rw [hl] at hh
        exact absurd (Option.some.inj hh).symm ht
  | cons cmd more =>
    rw [List.flatMap_cons, List.append_assoc] at he
    have hhead : l.head? = some 0x00 ∨ l.head? = some 0x01 := by
      have := encode_head cmd (more.flatMap Command.encode ++ (if quit then quitMessage else []))
      obtain ⟨x, l', rfl⟩ := List.exists_cons_of_ne_nil hne
      rw [← he] at this
      exact this
    cases h with
    | command cmd' hcmd hst hp =>
      rw [hcmd] at he
      obtain ⟨rfl, -⟩ := encode_unique he
      exact Or.inl ⟨cmd', more, rfl, hcmd, hp, hst⟩
    | quit hl _ _ => rw [hl] at hhead; exact absurd hhead (by decide)
    | sniff c hl _ _ => rw [hl] at hhead; exact absurd hhead (by simp)
    | error _ _ _ hc => exact absurd he (hc cmd r _)

/-! ## The commands of `cmd_process` -/

section
variable {c : PrawtosConn} {heap : Heap}

theorem getCmd_cases {cmd : UInt8} (h : cmd < 4) : cmd = 0 ∨ cmd = 1 ∨ cmd = 2 ∨ cmd = 3 := by
  rw [UInt8.lt_iff_toNat_lt] at h
  simp only [← UInt8.toNat_inj, UInt8.reduceToNat] at h ⊢
  omega

theorem getHandler_arguments {cmd : UInt8} (h : cmd < 4) : ∃ f, getHandlers[cmd.toNat]? = some f ∧
    ∀ heap c, f heap c =
      getAnswer (getArguments heap c.stats c.users cmd).1 (getArguments heap c.stats c.users cmd).2 heap c := by
  rcases getCmd_cases h with rfl | rfl | rfl | rfl
  · exact ⟨_, rfl, fun _ _ => by simp [bytesSent, getArguments, bigEndian]⟩
  · exact ⟨_, rfl, fun _ _ => by simp [totalConnections, getArguments, bigEndian]⟩
  · exact ⟨_, rfl, fun _ _ => by simp [concurrentConnections, getArguments, bigEndian]⟩
  · exact ⟨_, rfl, fun _ _ => by simp [getUsersFunc, getArguments]⟩

theorem bufferMarshal_idle {b : Buffer} {l : List UInt8} (room : bufferWritePtr b = prawtosBufferSize)
    (idle : b.unread = []) (fits : l.length ≤ prawtosBufferSize) :
    (bufferMarshal b l).2 ≠ -1 ∧ (bufferMarshal b l).1.unread = l := by
  have hl : l.length ≤ bufferWritePtr b := room ▸ fits
  rw [bufferMarshal_fits hl]
  exact ⟨by simp, by rw [unread_fill, idle, List.nil_append]⟩

/-- The frame is put behind what waits in the buffer, when there is room for it
and for as many bytes as its first argument says. -/
theorem getMarshal_fits {b : Buffer} {status : PrawtosResponseStatus} {cmd nargs : UInt8} {args : List UInt8}
    (hfirst : (args.headD (heap.fresh 0)).toNat + 1 ≤ bufferWritePtr b)
    (fits : (getFrame status cmd nargs args).length ≤ bufferWritePtr b) :
    getMarshal heap b status cmd nargs args = .ok (bufferMarshal b (getFrame status cmd nargs args)) ∧
      (bufferMarshal b (getFrame status cmd nargs args)).2 ≠ -1 := by
  have hret : (bufferMarshal b (getFrame status cmd nargs args)).2 ≠ -1 := by
    rw [bufferMarshal_fits fits]
    simp
  refine ⟨?_, hret⟩
  unfold getMarshal
  simp only [Nat.not_lt.mpr hfirst, hret, ite_false]

theorem getMarshal_idle {b : Buffer} {status : PrawtosResponseStatus} {cmd nargs : UInt8} {args : List UInt8}
    (room : bufferWritePtr b = prawtosBufferSize)
    (fits : (getFrame status cmd nargs args).length ≤ prawtosBufferSize) :
    getMarshal heap b status cmd nargs args = .ok (bufferMarshal b (getFrame status cmd nargs args)) := by
  have hfirst : (args.headD (heap.fresh 0)).toNat + 1 ≤ bufferWritePtr b := by
    have := (args.headD (heap.fresh 0)).toNat_lt
    rw [room, prawtosBufferSize]
    omega
  exact (getMarshal_fits hfirst (room ▸ fits)).1

/-- What a command leaves: the users and the answer are those of `execute`. -/
structure Executed (c : PrawtosConn) (heap : Heap) (cmd : Command) (d : PrawtosConn) : Prop where
  users : d.users = (cmd.execute c.stats c.users heap).1
  answer : d.writeBuffer.unread = (cmd.execute c.stats c.users heap).2
  calls : d.calls = c.calls ++ [cmd.entry]
  stats : d.stats = c.stats
  status : d.cmd.status ≠ .cmdNotSupported

theorem cmdProcess_get {cmd : UInt8} {h : cmd < 4} (hp : (Command.get cmd h).Parsed c.cmd.parser)
    (room : bufferWritePtr c.writeBuffer = prawtosBufferSize) (idle : c.writeBuffer.unread = [])
    (fits : ((Command.get cmd h).execute c.stats c.users heap).2.length ≤ prawtosBufferSize) :
    (heap.allocates = false ∧ cmdProcess heap c = .error .wildPointer) ∨
      ∃ d, cmdProcess heap c = .ok (d, .cmdWrite) ∧ Executed c heap (.get cmd h) d := by
  obtain ⟨ht, hget⟩ := hp
  obtain ⟨f, hf, hargs⟩ := getHandler_arguments h
  have hinvoke : invoke getHandlers .get c.cmd.parser.get heap c =
      getAnswer (getArguments heap c.stats c.users cmd).1 (getArguments heap c.stats c.users cmd).2 heap
        { c with calls := c.calls ++ [.get cmd.toNat] } := by
    unfold invoke
    rw [hget, hf]
    exact hargs heap { c with calls := c.calls ++ [.get cmd.toNat] }
  unfold cmdProcess
  rw [if_pos ht, hinvoke, getAnswer]
  cases hm : heap.allocates with
  | false => exact Or.inl ⟨rfl, rfl⟩
  | true =>
    right
    have hfits : (getFrame .success cmd (getArguments heap c.stats c.users cmd).1
      (getArguments heap c.stats c.users cmd).2).length ≤ prawtosBufferSize := fits
    obtain ⟨hret, hunread⟩ := bufferMarshal_idle room idle hfits
    simp only [hget, ite_true, getMarshal_idle room hfits, hret, ite_false]
    exact ⟨_, rfl, rfl, hunread, rfl, rfl, fun hno => by cases hno⟩

theorem cmdProcess_user {r : List User × Bool} {i : Nat} (ht : c.cmd.parser.type = 0x01)
    (room : bufferWritePtr c.writeBuffer = prawtosBufferSize) (idle : c.writeBuffer.unread = [])
    (hinvoke : invoke userHandlers .user c.cmd.parser.user.cmd heap c =
      userAnswer { c with calls := c.calls ++ [.user i] } r) :
    ∃ d, cmdProcess heap c = .ok (d, .cmdWrite) ∧ d.users = (changed r).1 ∧ d.writeBuffer.unread = (changed r).2 ∧
      d.calls = c.calls ++ [.user i] ∧ d.stats = c.stats ∧ d.cmd.status ≠ .cmdNotSupported := by
  have hstatus : (if r.2 then PrawtosResponseStatus.success else .userCredentia) ≠ .cmdNotSupported := by
    cases r.2 <;> decide
  obtain ⟨hret, hunread⟩ := bufferMarshal_idle (l := (changed r).2) room idle (Nat.le_of_ble_eq_true rfl)
  have hmarshal : (userMarshal c.writeBuffer (if r.2 then .success else .userCredentia)).2 ≠ -1 := hret
  unfold cmdProcess
  rw [if_neg (by rw [ht]; decide), if_pos ht, hinvoke, userAnswer]
  simp only [hmarshal, ite_false]
  exact ⟨_, rfl, rfl, hunread, rfl, rfl, hstatus⟩

theorem nameField_take (l : Name) (r : List UInt8) :
    (nameField l.1 ++ r).take l.len.toNat = l.1.take l.len.toNat := by
  rw [name_toNat, nameField, List.append_assoc, List.take_left, List.take_length]

theorem cString_terminated {l : Name} (h : l.1.getLast? = some 0) (r : List UInt8) :
    cString (nameField l.1 ++ r) = cString l.1 :=
  cString_field (Or.inr (List.mem_of_getLast? h)) r

theorem adminOctet_ne (admin : Bool) : decide (adminOctet admin ≠ 0) = admin := by
  cases admin <;> rfl

theorem addUser_fields (users : List User) (admin : Bool) {uname passwd : Name}
    (hu : uname.1.length < maxLen ∨ 0 ∈ uname.1) :
    addUser heap users (credentialsOf uname passwd).unamePtr uname.len (credentialsOf uname passwd).passwdPtr
      passwd.len
      (decide (adminOctet admin ≠ 0)) = addUser heap users uname.1 uname.len passwd.1 passwd.len admin := by
  rw [adminOctet_ne]
  refine addUser_congr heap users admin (cString_field hu _) (nameField_take uname _) ?_
  have := nameField_take passwd []
  rwa [List.append_nil] at this

theorem cmdProcess_create {admin : Bool} {uname passwd : Name}
    (hp : (Command.create admin uname passwd).Parsed c.cmd.parser) (hu : uname.1.getLast? = some 0)
    (room : bufferWritePtr c.writeBuffer = prawtosBufferSize) (idle : c.writeBuffer.unread = []) :
    (heap.allocates = false ∧ cmdProcess heap c = .error .wildPointer) ∨
      ∃ d, cmdProcess heap c = .ok (d, .cmdWrite) ∧ Executed c heap (.create admin uname passwd) d := by
  obtain ⟨ht, huser, hcred⟩ := hp
  have hinvoke : invoke userHandlers .user c.cmd.parser.user.cmd heap c =
      createUser heap { c with calls := c.calls ++ [.user 0] } := by rw [huser]; rfl
  have hr : addUser heap c.users c.cmd.parser.credentials.unamePtr c.cmd.parser.credentials.ulen
      c.cmd.parser.credentials.passwdPtr c.cmd.parser.credentials.plen (decide (c.cmd.parser.user.admin ≠ 0)) =
        addUser heap c.users uname.1 uname.len passwd.1 passwd.len admin := by
    rw [hcred, huser]; exact addUser_fields c.users admin (Or.inr (List.mem_of_getLast? hu))
  unfold createUser at hinvoke
  simp only [hr] at hinvoke
  by_cases hf : (addUser heap c.users uname.1 uname.len passwd.1 passwd.len admin).2 = true ∧ heap.allocates = false
  · rw [if_pos hf] at hinvoke
    left
    refine ⟨hf.2, ?_⟩
    unfold cmdProcess
    rw [if_neg (by rw [ht]; decide), if_pos ht, hinvoke]
  · rw [if_neg hf] at hinvoke
    obtain ⟨d, hd, h1, h2, h3, h4, h5⟩ := cmdProcess_user ht room idle hinvoke
    exact Or.inr ⟨d, hd, h1, h2, h3, h4, h5⟩

theorem cmdProcess_delete {uname : Name} (hp : (Command.delete uname).Parsed c.cmd.parser)
    (hu : uname.1.getLast? = some 0) (room : bufferWritePtr c.writeBuffer = prawtosBufferSize)
    (idle : c.writeBuffer.unread = []) :
    ∃ d, cmdProcess heap c = .ok (d, .cmdWrite) ∧ Executed c heap (.delete uname) d := by
  obtain ⟨ht, huser, hcred⟩ := hp
  have hr : deleteUser heap c.users c.cmd.parser.credentials.unamePtr = deleteUser heap c.users uname.1 := by
    rw [hcred]; exact deleteUser_congr heap c.users (cString_terminated hu _)
  have hinvoke : invoke userHandlers .user c.cmd.parser.user.cmd heap c =
      userAnswer { c with calls := c.calls ++ [.user 1] } (deleteUser heap c.users uname.1) := by
    rw [huser, ← hr]; rfl
  obtain ⟨d, hd, h1, h2, h3, h4, h5⟩ := cmdProcess_user ht room idle hinvoke
  exact ⟨d, hd, h1, h2, h3, h4, h5⟩

theorem cmdProcess_edit {uname passwd : Name} (hp : (Command.edit uname passwd).Parsed c.cmd.parser)
    (hu : uname.1.getLast? = some 0) (room : bufferWritePtr c.writeBuffer = prawtosBufferSize)
    (idle : c.writeBuffer.unread = []) :
    (heap.allocates = false ∧ cmdProcess heap c = .error .wildPointer) ∨
      ∃ d, cmdProcess heap c = .ok (d, .cmdWrite) ∧ Executed c heap (.edit uname passwd) d := by
  obtain ⟨ht, huser, hcred⟩ := hp
  have hplen : c.cmd.parser.credentials.plen ≠ 0 := by rw [hcred]; exact name_len_ne passwd
  have hr : editUser heap c.users c.cmd.parser.credentials.unamePtr c.cmd.parser.credentials.passwdPtr
      c.cmd.parser.credentials.plen = editUser heap c.users uname.1 passwd.1 passwd.len := by
    rw [hcred]; exact editUser_congr heap c.users (cString_terminated hu _) (cString_passwd passwd.2.2)
  have hinvoke : invoke userHandlers .user c.cmd.parser.user.cmd heap c =
      modifyUser heap { c with calls := c.calls ++ [.user 2] } := by rw [huser]; rfl
  unfold modifyUser at hinvoke
  simp only [hr, hplen, or_false] at hinvoke
  by_cases hf : (editUser heap c.users uname.1 passwd.1 passwd.len).2 = true ∧ heap.allocates = false
  · rw [if_pos hf] at hinvoke
    left
    refine ⟨hf.2, ?_⟩
    unfold cmdProcess
    rw [if_neg (by rw [ht]; decide), if_pos ht, hinvoke]
  · rw [if_neg hf] at hinvoke
    obtain ⟨d, hd, h1, h2, h3, h4, h5⟩ := cmdProcess_user ht room idle hinvoke
    exact Or.inr ⟨d, hd, h1, h2, h3, h4, h5⟩

/-- `cmd_process` executes the command that the parser has read, if it gets the memory it needs. -/
theorem cmdProcess_command {cmd : Command} (hp : cmd.Parsed c.cmd.parser) (ht : cmd.Terminated)
    (room : bufferWritePtr c.writeBuffer = prawtosBufferSize) (idle : c.writeBuffer.unread = [])
    (fits : ∀ n hn, cmd = .get n hn → (cmd.execute c.stats c.users heap).2.length ≤ prawtosBufferSize) :
    (heap.allocates = false ∧ cmdProcess heap c = .error .wildPointer) ∨
      ∃ d, cmdProcess heap c = .ok (d, .cmdWrite) ∧ Executed c heap cmd d := by
  cases cmd with
  | get n hn => exact cmdProcess_get hp room idle (fits n hn rfl)
  | create admin uname passwd => exact cmdProcess_create hp ht.1 room idle
  | delete uname => exact Or.inr (cmdProcess_delete hp ht room idle)
  | edit uname passwd => exact cmdProcess_edit hp ht.1 room idle

theorem cmdProcess_quit (heap : Heap) (ht : c.cmd.parser.type = 0x03)
    (room : bufferWritePtr c.writeBuffer = prawtosBufferSize) (idle : c.writeBuffer.unread = []) :
    ∃ d, cmdProcess heap c = .ok (d, .cmdWrite) ∧ d.users = c.users ∧
      d.writeBuffer.unread = [PrawtosResponseStatus.success.toByte] ∧ d.calls = c.calls ∧ d.stats = c.stats ∧
      d.cmd.status ≠ .cmdNotSupported := by
  obtain ⟨hret, hunread⟩ :=
    bufferMarshal_idle (l := [PrawtosResponseStatus.success.toByte]) room idle (Nat.le_of_ble_eq_true rfl)
  have hmarshal : (quitMarshal c.writeBuffer .success).2 ≠ -1 := hret
  unfold cmdProcess
  rw [if_neg (by rw [ht]; decide), if_neg (by rw [ht]; decide), if_pos ht]
  simp only [hmarshal, ite_false]
  exact ⟨_, rfl, rfl, hunread, rfl, rfl, fun hno => by cases hno⟩

end

end SocksProxy
