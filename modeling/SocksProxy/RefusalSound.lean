import SocksProxy.PrawtosSound

/-!
# Commands the parser refuses

`cmd_process` runs whether or not the parser has met an error, and looks at the
type of the command only. A command that is refused is left alone exactly when
its type has no table of handlers (`refusesCommand_iff`).
-/

namespace SocksProxy

open Lib

/-- The event ends the command being read with an error of the parser. -/
def EndsInError (c : PrawtosConn) (e : PrawtosEvent) : Prop :=
  c.freed = false ∧ PrawtosSelects c e ∧ c.stm.current = some PrawtosState.cmdRead.toNat ∧
    ∃ l b, recvInto c.readBuffer e.sys.recv = some (l, b) ∧ l ≠ [] ∧
      (prawtosIsDone (prawtosConsume b c.cmd.parser).2.state).2 = true

/-- `cmd_read` only ends the connection: no handler is called, and the users and
the write buffer are what they were. -/
structure LeftAlone (c : PrawtosConn) (e : PrawtosEvent) (c' : PrawtosConn) : Prop where
  returns : cmdRead e.key c = .ok (c', .error)
  calls : c'.calls = c.calls
  users : c'.users = c.users
  writeBuffer : c'.writeBuffer = c.writeBuffer

/-- A command that ends in an error is left alone. -/
def RefusesCommand (c : PrawtosConn) : PrawtosStep → Prop
  | .event e => EndsInError c e → ∃ c', LeftAlone c e c'
  | .other _ _ => True
  | .users _ => True

/-- The first octet of the command being read, of which `l` is to come. -/
def commandType (c : PrawtosConn) (l : List UInt8) : Option UInt8 :=
  if c.cmd.parser.state = .type then l.head? else some c.cmd.parser.type

/-- A command that ends in an error is of neither of the types that have a table. -/
def OutsideTables (c : PrawtosConn) : PrawtosStep → Prop
  | .event e =>
    EndsInError c e → ∀ l b, recvInto c.readBuffer e.sys.recv = some (l, b) →
      commandType c (c.readBuffer.unread ++ l) ≠ some 0x00 ∧ commandType c (c.readBuffer.unread ++ l) ≠ some 0x01
  | .other _ _ => True
  | .users _ => True

section
variable {c : PrawtosConn} {fd : Nat} {e : PrawtosEvent} {u : List UInt8}

theorem commandType_ended {v t : List UInt8} {x type : UInt8} (r : CmdReading c u)
    (ht : (u ++ v ++ [x]).head? = some type) : commandType c (v ++ x :: t) = some type := by
  obtain ⟨p, hp, hu⟩ := r
  have hread := (commandRead_undone p hu 0).1
  rw [hp] at hread
  have hstop : prawtosStops c.cmd.parser = false := by
    cases u with
    | nil => rw [← hp]; rfl
    | cons a u => rw [← hp]; exact undone_done hu (List.cons_ne_nil _ _)
  unfold commandType
  rcases commandRead_head hread hstop with ⟨hst, rfl⟩ | ⟨hst, hhead⟩
  · rw [if_pos hst, ← ht]
    cases v <;> rfl
  · rw [if_neg hst]
    cases u with
    | nil => cases hhead
    | cons a u => exact hhead.symm.trans ht

theorem endsInError_cmdRead (live : PrawtosLive c fd opRead) (r : CmdReading c u) (h : EndsInError c e) :
    ∃ c' l b, recvInto c.readBuffer e.sys.recv = some (l, b) ∧ c'.calls = c.calls ∧ c'.users = c.users ∧
      c'.writeBuffer = c.writeBuffer ∧ c'.cmd.parser.type ≠ 0x03 ∧
      commandType c (c.readBuffer.unread ++ l) = some c'.cmd.parser.type ∧
      cmdRead e.key c =
        match cmdProcess e.sys.heap c' with
        | .error f => .error f
        | .ok (d, _) => .ok (d, .error) := by
  obtain ⟨-, hs, -, l, b, hrecv, hl, herr⟩ := h
  have hout := cmdRead_outcome (k := e.key) live r (congrArg Nat.cast (prawtosReady_read live hs).1)
  generalize hq : cmdRead e.key c = q at hout
  cases hout with
  | failed c' _ _ _ nothing => exact absurd (nothing l b hrecv) hl
  | reading c' l' b' recv parser _ _ _ _ _ _ r' =>
    obtain ⟨rfl, rfl⟩ : l = l' ∧ b = b' := by simpa using hrecv.symm.trans recv
    obtain ⟨p, hp, hu⟩ := r'
    have hstop := prawtosStops_false (undone_done hu (by simp [hl]))
    rw [hp, parser] at hstop
    rw [hstop] at herr; cases herr
  | processed c' l' b' v x recv parser split _ same _ _ kept fin =>
    obtain ⟨rfl, rfl⟩ : l = l' ∧ b = b' := by simpa using hrecv.symm.trans recv
    rw [← parser] at herr
    cases fin with
    | error _ hhead htype _ =>
      refine ⟨c', l, b, hrecv, same.calls, same.users, kept, htype, ?_, ?_⟩
      · rw [split]; exact commandType_ended r hhead
      · rw [show e.key.sys.heap = e.sys.heap from rfl]
        cases cmdProcess e.sys.heap c' with
        | error f => rfl
        | ok q => simp only [cmdReturn, herr, ite_true]
    | command cmd _ hst _ => rw [hst] at herr; cases herr
    | quit _ hst _ => rw [hst] at herr; cases herr
    | sniff x' _ hst _ => rw [hst] at herr; cases herr

theorem event_refuses (live : PrawtosLive c fd opRead) (r : CmdReading c u) (h : EndsInError c e) :
    RefusesCommand c (.event e) ↔ OutsideTables c (.event e) := by
  obtain ⟨c', l, b, hrecv, hcalls, husers, hwrite, h3, htype, hread⟩ := endsInError_cmdRead live r h
  constructor
  · intro hq _ l' b' hrecv'
    obtain ⟨rfl, rfl⟩ : l = l' ∧ b = b' := by simpa using hrecv.symm.trans hrecv'
    obtain ⟨d, hd⟩ := hq h
    rw [htype, ← not_or, Option.some.injEq, Option.some.injEq]
    intro ht
    -- a handler is called
    cases hp : cmdProcess e.sys.heap c' with
    | error f => rw [hp] at hread; exact absurd (hread.symm.trans hd.returns) (by simp)
    | ok q =>
      obtain ⟨entry, hentry⟩ := cmdProcess_calls ht hp
      rw [hp] at hread
      have hd' : q.1 = d := by simpa using hread.symm.trans hd.returns
      have := hd.calls
      rw [← hd', hentry, hcalls] at this
      simp at this
  · intro ho _
    have ht := ho h l b hrecv
    rw [htype, Ne, Ne, Option.some.injEq, Option.some.injEq] at ht
    rw [cmdProcess_unknown ht.1 ht.2 h3] at hread
    exact ⟨c', hread, hcalls, husers, hwrite⟩

theorem step_refuses {s : PrawtosStep} (h : PrawtosInv (fun _ _ => True) c) :
    RefusesCommand c s ↔ OutsideTables c s := by
  cases s with
  | other x a => exact Iff.rfl
  | users l => exact Iff.rfl
  | event e =>
    by_cases he : EndsInError c e
    · rcases h with h | ⟨fd, st, hst, hp⟩
      · exact absurd (h.freed.symm.trans he.1) (by decide)
      · have hcur := he.2.2.1
        cases hp with
        | cmdRead u live r _ => exact event_refuses live r he
        | _ => exact absurd (prawtosInState_of_current hst hcur) (by decide)
    · exact iff_of_true (fun h => absurd h he) fun h => absurd h he

end

/-- Along a run every command the parser refuses is left alone exactly when none
of them is of the type GET or USERS. -/
theorem refusesCommand_iff (a : PrawtosAccepted) (es : List PrawtosStep) :
    Along prawtosStep RefusesCommand a.conn es ↔ Along prawtosStep OutsideTables a.conn es :=
  along_iff (J := PrawtosInv fun _ _ => True) (fun _ _ h => step_refuses h)
    (fun _ _ _ h _ hs => prawtosStep_inv h (fun _ _ h => h) (fun _ _ _ _ _ _ => trivial) hs) es
    (prawtosAccepted_inv a _)

/-- The service after `admin2` has signed in. -/
def signedIn : PrawtosConn := final prawtosStep firstPrawtosAccepted.conn adminEvents

/-- A GET of a command that does not exist ends in an error, and has called `bytes_sent`. -/
theorem signedIn_seen :
    signedIn.freed = false ∧ PrawtosSelects signedIn (prawtosReads 5 [0x00, 7]) ∧
      signedIn.stm.current = some PrawtosState.cmdRead.toNat ∧
      (recvInto signedIn.readBuffer (.data [0x00, 7])).map (fun r =>
        (r.1.isEmpty, (prawtosIsDone (prawtosConsume r.2 signedIn.cmd.parser).2.state).2)) = some (false, true) ∧
      signedIn.calls = [] ∧
      (cmdRead (prawtosReads 5 [0x00, 7]).key signedIn).toOption.map (·.1.calls) = some [.get 0] := by
  decide +kernel

theorem get_not_refused : ¬ Along prawtosStep RefusesCommand firstPrawtosAccepted.conn
    (adminEvents ++ [.event (prawtosReads 5 [0x00, 7])]) := by
  intro h
  have hr : run prawtosStep firstPrawtosAccepted.conn adminEvents = .ok signedIn := run_final (by decide +kernel)
  obtain ⟨hfreed, hselects, hcurrent, hrecv, hnone, hcalled⟩ := signedIn_seen
  obtain ⟨⟨l, b⟩, hread, hend⟩ := Option.map_eq_some_iff.mp hrecv
  obtain ⟨hl, herror⟩ := Prod.mk.inj hend
  obtain ⟨c', hc'⟩ := along_last h hr
    ⟨hfreed, hselects, hcurrent, l, b, hread, List.isEmpty_eq_false_iff.mp hl, herror⟩
  have hret : some [HandlerEntry.get 0] = some c'.calls :=
    hcalled.symm.trans (congrArg (fun r => r.toOption.map (·.1.calls)) hc'.returns)
  rw [hc'.calls, hnone] at hret
  cases hret

end SocksProxy
