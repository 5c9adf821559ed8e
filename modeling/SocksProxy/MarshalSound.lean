import SocksProxy.ListingSound

/-!
# The frame of `get_marshal`

The answer to a GET is checked against the room in the buffer by its first
argument only, and counts its arguments in one octet. Both agree with what is
sent exactly as far as `getMarshal_exact` says.
-/

namespace SocksProxy

open Lib

/-- The frame is appended if it fits, and refused otherwise. -/
def Marshals (heap : Heap) (b : Buffer) (status : PrawtosResponseStatus) (cmd nargs : UInt8) (args : List UInt8) :
    Prop :=
  if bufferWritePtr b < 3 + args.length then getMarshal heap b status cmd nargs args = .ok (b, -1)
  else ∃ b' : Buffer, getMarshal heap b status cmd nargs args = .ok (b', ((3 + args.length : Nat) : Int)) ∧
    b'.unread = b.unread ++ getFrame status cmd nargs args ∧ b'.limit = b.limit

/-- A sequence of `n` entries, each behind its length. -/
inductive ArgEntries : List UInt8 → Nat → Prop
  | nil : ArgEntries [] 0
  | cons (len : UInt8) (body : List UInt8) {rest : List UInt8} {n : Nat} (h : body.length = len.toNat)
      (ht : ArgEntries rest n) : ArgEntries (len :: (body ++ rest)) (n + 1)

theorem entries_unique {l : List UInt8} {n m : Nat} (h : ArgEntries l n) (h' : ArgEntries l m) : n = m := by
  induction h generalizing m with
  | nil =>
    cases h' with
    | nil => rfl
  | @cons len body rest n hlen ht ih =>
    generalize hl : len :: (body ++ rest) = l at h'
    cases h' with
    | nil => cases hl
    | @cons len' body' rest' m hlen' ht' =>
      rw [List.cons.injEq] at hl
      have hbody : body.length = body'.length := by rw [hlen, hlen', hl.1]
      have hrest := (List.append_inj hl.2 hbody).2
      rw [ih (hrest ▸ ht')]

theorem entries_listed {users : List User} (h : ∀ user ∈ users, user.Terminated) :
    ArgEntries (users.flatMap listed) users.length := by
  induction users with
  | nil => exact .nil
  | cons user users ih =>
    obtain ⟨hu, hrest⟩ := List.forall_mem_cons.mp h
    have hlen : user.username.length = user.ulen.toNat := by
      have := (terminated_length hu).2
      rw [User.ulen, UInt8.toNat_ofNat']
      omega
    exact .cons user.ulen user.username hlen (ih hrest)

theorem length_bigEndian (n k : Nat) : (bigEndian n k).length = k := by
  induction k with
  | zero => rfl
  | succ k ih => rw [bigEndian, List.length_cons, ih]

theorem entries_counter (len : UInt8) (n : Nat) : ArgEntries (len :: bigEndian n len.toNat) 1 := by
  have h := ArgEntries.cons len (bigEndian n len.toNat) (length_bigEndian n len.toNat) .nil
  rwa [List.append_nil] at h

section
variable (heap : Heap) (b : Buffer) (status : PrawtosResponseStatus) (cmd nargs : UInt8) (args : List UInt8)

theorem length_getFrame : (getFrame status cmd nargs args).length = 3 + args.length := by
  rw [getFrame, List.length_append]
  rfl

theorem getMarshal_refuses (h : bufferWritePtr b < (args.headD (heap.fresh 0)).toNat + 1) :
    getMarshal heap b status cmd nargs args = .ok (b, -1) := by
  unfold getMarshal
  rw [if_pos h]

theorem getMarshal_overflows (hfirst : (args.headD (heap.fresh 0)).toNat + 1 ≤ bufferWritePtr b)
    (h : bufferWritePtr b < 3 + args.length) :
    getMarshal heap b status cmd nargs args = .error .bufferOverflow := by
  have hno : (bufferMarshal b (getFrame status cmd nargs args)).2 = -1 := by
    unfold bufferMarshal
    rw [dif_neg]
    rw [length_getFrame]
    omega
  unfold getMarshal
  simp only [if_neg (Nat.not_lt.mpr hfirst), hno, if_true]

theorem marshals_iff : Marshals heap b status cmd nargs args ↔
    ((args.headD (heap.fresh 0)).toNat + 1 ≤ bufferWritePtr b ↔ 3 + args.length ≤ bufferWritePtr b) := by
  unfold Marshals
  by_cases hroom : bufferWritePtr b < 3 + args.length
  · rw [if_pos hroom]
    -- the code compares the room with the first argument, the frame is what it writes
    by_cases hfirst : bufferWritePtr b < (args.headD (heap.fresh 0)).toNat + 1
    · exact iff_of_true (getMarshal_refuses heap b status cmd nargs args hfirst) (by omega)
    · rw [getMarshal_overflows heap b status cmd nargs args (Nat.not_lt.mp hfirst) hroom]
      exact iff_of_false (fun h => by cases h) (by omega)
  · rw [if_neg hroom]
    by_cases hfirst : bufferWritePtr b < (args.headD (heap.fresh 0)).toNat + 1
    · rw [getMarshal_refuses heap b status cmd nargs args hfirst]
      refine iff_of_false ?_ (by omega)
      intro h
      obtain ⟨b', he, _⟩ := h
      have hret := (Prod.mk.inj (Except.ok.inj he)).2
      omega
    · refine iff_of_true ?_ (by omega)
      have hfits : (getFrame status cmd nargs args).length ≤ bufferWritePtr b := by
        rw [length_getFrame]
        omega
      refine ⟨_, ?_, unread_fill b _, limit_fill b ⟨_, hfits⟩⟩
      rw [(getMarshal_fits (Nat.not_lt.mp hfirst) hfits).1, bufferMarshal_fits hfits, length_getFrame]

end

/-! ## The number of arguments -/

section
variable {heap : Heap} {c : PrawtosConn} {cmd : UInt8}

theorem invoke_arguments (halloc : heap.allocates = true) (hcmd : cmd < 4) :
    ∃ d, invoke getHandlers .get cmd heap c = .ok (d, d.cmd.args.length) ∧
      d.cmd.args = (getArguments heap c.stats c.users cmd).2 ∧
        d.cmd.nargs = (getArguments heap c.stats c.users cmd).1 := by
  obtain ⟨f, hf, hargs⟩ := getHandler_arguments hcmd
  refine ⟨{ c with
    calls := c.calls ++ [.get cmd.toNat]
    cmd.args := (getArguments heap c.stats c.users cmd).2
    cmd.nargs := (getArguments heap c.stats c.users cmd).1
    cmd.status := .success }, ?_, rfl, rfl⟩
  unfold invoke
  rw [hf]
  simp only [hargs, getAnswer, halloc, if_true]

/-- The handler of a GET writes inside its block, and says how many entries it has put there. -/
def CountsEntries (heap : Heap) (c : PrawtosConn) (cmd : UInt8) : Prop :=
  (cmd = 0x03 → WritesInside heap c.users (reallocate heap [] 255, 0)) ∧
    ∃ d, invoke getHandlers .get cmd heap c = .ok (d, d.cmd.args.length) ∧ ArgEntries d.cmd.args d.cmd.nargs.toNat

theorem countsEntries_iff (hterm : ∀ user ∈ c.users, user.Terminated) (halloc : heap.allocates = true)
    (hcmd : cmd < 4) :
    CountsEntries heap c cmd ↔
      (cmd = 0x03 → c.users.length < 256 ∧ entriesLength c.users ≤ allUsersMax ∧ ¬ LongestAt 0 c.users) := by
  obtain ⟨d, hd, hargs, hnargs⟩ := @invoke_arguments heap c cmd halloc hcmd
  have hinside := writesInside_start heap hterm
  unfold CountsEntries
  by_cases h3 : cmd = 0x03
  · subst h3
    have hlisted : WritesInside heap c.users (reallocate heap [] 255, 0) →
        ArgEntries d.cmd.args c.users.length := by
      intro hin
      have hl := (writesInside_listed heap hterm (Nat.zero_le _) hin).2
      rw [List.take_zero, List.nil_append] at hl
      have hall : d.cmd.args = c.users.flatMap listed := hargs.trans hl
      rw [hall]
      exact entries_listed hterm
    -- `nargs` is an octet
    have hcount : d.cmd.nargs.toNat = c.users.length % 256 := by
      rw [hnargs]
      rfl
    simp only [true_implies, hinside]
    constructor
    · intro h
      obtain ⟨hin, d', hd', he⟩ := h
      obtain rfl : d = d' := (Prod.mk.inj (Except.ok.inj (hd.symm.trans hd'))).1
      have hlen := entries_unique he (hlisted (hinside.mpr hin))
      refine ⟨by omega, hin⟩
    · intro h
      refine ⟨h.2, d, hd, ?_⟩
      rw [hcount, Nat.mod_eq_of_lt h.1]
      exact hlisted (hinside.mpr h.2)
  · refine iff_of_true ⟨fun h => absurd h h3, d, hd, ?_⟩ fun h => absurd h h3
    rw [hargs, hnargs]
    rcases getCmd_cases hcmd with rfl | rfl | rfl | rfl
    · exact entries_counter 4 _
    · exact entries_counter 2 _
    · exact entries_counter 2 _
    · exact absurd rfl h3

/-- The space check is right exactly where the first argument fits just when the
frame does. For a command that there is, a list of C strings and a handler that
got its memory, the count is right exactly for fewer than 256 users. -/
theorem getMarshal_exact :
    (∀ b status nargs args, Marshals heap b status cmd nargs args ↔
      ((args.headD (heap.fresh 0)).toNat + 1 ≤ bufferWritePtr b ↔ 3 + args.length ≤ bufferWritePtr b)) ∧
    ((∀ user ∈ c.users, user.Terminated) → heap.allocates = true → cmd < 4 → (CountsEntries heap c cmd ↔
      (cmd = 0x03 → c.users.length < 256 ∧ entriesLength c.users ≤ allUsersMax ∧ ¬ LongestAt 0 c.users))) := by
  constructor
  · intro b status nargs args
    exact marshals_iff heap b status cmd nargs args
  · intro hterm halloc hcmd
    exact countsEntries_iff hterm halloc hcmd

end

theorem getMarshal_exact_first :
    (∀ b status nargs args, Marshals zeroHeap b status 0x03 nargs args ↔
      ((args.headD (zeroHeap.fresh 0)).toNat + 1 ≤ bufferWritePtr b ↔ 3 + args.length ≤ bufferWritePtr b)) ∧
    (CountsEntries zeroHeap firstPrawtosAccepted.conn 0x03 ↔
      ((0x03 : UInt8) = 0x03 → firstPrawtosAccepted.conn.users.length < 256 ∧
        entriesLength firstPrawtosAccepted.conn.users ≤ allUsersMax ∧
          ¬ LongestAt 0 firstPrawtosAccepted.conn.users)) := by
  obtain ⟨hmarshals, hcounts⟩ := @getMarshal_exact zeroHeap firstPrawtosAccepted.conn 0x03
  exact ⟨hmarshals, hcounts (fun user hu => named_terminated (initUserList_named user hu)) rfl (by decide)⟩

/-- An answer about 17 users with names of 253 characters, in an empty buffer. -/
theorem longAnswer_overflows :
    ¬ Marshals zeroHeap (bufferInit (List.replicate prawtosBufferSize 0)) .success 0x03 17
      ((List.replicate 17 (lettersUser 253 (by decide))).flatMap listed) := by
  have hlen : ((List.replicate 17 (lettersUser 253 (by decide))).flatMap listed).length = 4335 := by decide +kernel
  have hroom : bufferWritePtr (bufferInit (List.replicate prawtosBufferSize 0)) = 4096 := by decide +kernel
  have hfirst :
      (((List.replicate 17 (lettersUser 253 (by decide))).flatMap listed).headD (zeroHeap.fresh 0)).toNat =
        254 := by
    decide +kernel
  rw [marshals_iff, hlen, hroom, hfirst]
  decide

end SocksProxy
