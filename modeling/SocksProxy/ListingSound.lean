import SocksProxy.AllUsers
import SocksProxy.Client
import SocksProxy.Service

/-!
# Listing the users

The server sends the names one after the other, each behind its length. The
client takes the first length as an octet and the others as a `char`, so it
shows the names of a list exactly when no name but the first is longer than a
`char` can say (`listing_iff`).
-/

namespace SocksProxy

open Lib

/-! ## The list that the server sends -/

/-- The name is kept with its terminator, and has 1 to 254 characters. -/
def User.Named (user : User) : Prop :=
  ∃ name : List UInt8, user.username = name ++ [0] ∧ 0 ∉ name ∧ 1 ≤ name.length ∧ name.length ≤ 254

def User.name (user : User) : List UInt8 := user.username.dropLast

section
variable {user : User} (h : user.Named)
include h

theorem named_username : user.username = user.name ++ [0] := by
  obtain ⟨name, hu, _⟩ := h
  rw [User.name, hu, List.dropLast_concat]

theorem named_noNul : 0 ∉ user.name := by
  obtain ⟨name, hu, hn, _⟩ := h
  rwa [User.name, hu, List.dropLast_concat]

theorem named_length : 2 ≤ user.username.length ∧ user.username.length ≤ 255 := by
  obtain ⟨name, hu, _, h1, h2⟩ := h
  rw [hu, List.length_append, List.length_singleton]
  omega

theorem named_ulen : user.ulen.toNat = user.username.length := by
  have := (named_length h).2
  simp only [User.ulen, UInt8.toNat_ofNat']
  omega

theorem named_terminated : user.Terminated := ⟨user.name, named_username h, named_noNul h⟩

end

section
variable (heap : Heap) {user : User} {users : List User} {block : List UInt8} {cont k : Nat}

theorem roomFor_length (hb : 255 ≤ block.length) (hc : cont ≤ block.length) :
    cont < (roomFor heap user (block, cont)).length ∧ 255 ≤ (roomFor heap user (block, cont)).length := by
  rw [length_roomFor]
  by_cases hgrow : Grows user (block, cont)
  · rw [if_pos hgrow]
    simp only
    omega
  · rw [if_neg hgrow]
    unfold Grows at hgrow
    simp only at hgrow ⊢
    omega

theorem appendUser_listed (h : user.Named) (hc : cont ≤ block.length) (hb : 255 ≤ block.length)
    (hfits : cont = 0 ∨ user.username.length < 255) :
    let r := appendUser heap user (block, cont)
    r.2 ≤ r.1.length ∧ 255 ≤ r.1.length ∧ r.1.take r.2 = block.take cont ++ listed user := by
  have hroom := (roomFor_fits heap (named_length h).2 hb hc).mpr (by omega)
  obtain ⟨hlen, hle, htake⟩ := appendUser_entry heap (named_terminated h) hc hroom
  exact ⟨hle, hlen ▸ (roomFor_length heap hb hc).2, htake⟩

theorem appendUser_keeps (user : User) (hk : k ≤ block.length) (hc : k ≤ cont) :
    let r := appendUser heap user (block, cont)
    k ≤ r.1.length ∧ k ≤ r.2 ∧ r.1.take k = block.take k := by
  intro r
  have htake := roomFor_take heap cont user hk
  have hk' : k ≤ (roomFor heap user (block, cont)).length := by
    rw [length_roomFor]
    split
    · simp only; omega
    · exact hk
  obtain ⟨hlen, h1⟩ := store_keeps [user.ulen] hc hk'
  obtain ⟨hlen', h2⟩ := store_keeps (user.usernameString heap ++ [0]) (Nat.le_succ_of_le hc) hlen
  exact ⟨hlen', by simp only [r, appendUser_eq]; omega, h2.trans (h1.trans htake)⟩

theorem getAllUsersLoop_keeps (users : List User) (hk : k ≤ block.length) (hc : k ≤ cont) :
    let r := getAllUsersLoop heap users (block, cont)
    k ≤ r.2 ∧ r.1.take k = block.take k := by
  induction users generalizing heap block cont with
  | nil => exact ⟨hc, rfl⟩
  | cons user users ih =>
    obtain ⟨h1, h2, h3⟩ := appendUser_keeps heap user hk hc
    obtain ⟨h4, h5⟩ := ih heap.tail h1 h2
    exact ⟨h4, h5.trans h3⟩

/-- Every name but the first leaves room for its terminator and length. -/
theorem getAllUsersLoop_listed (h : ∀ user ∈ users, user.Named ∧ user.username.length < 255)
    (hc : cont ≤ block.length) (hb : 255 ≤ block.length) :
    let r := getAllUsersLoop heap users (block, cont)
    r.2 ≤ r.1.length ∧ 255 ≤ r.1.length ∧ r.1.take r.2 = block.take cont ++ users.flatMap listed := by
  induction users generalizing heap block cont with
  | nil => exact ⟨hc, hb, (List.append_nil _).symm⟩
  | cons user users ih =>
    obtain ⟨⟨hn, hlt⟩, h⟩ := List.forall_mem_cons.mp h
    obtain ⟨h1, h2, h3⟩ := appendUser_listed heap hn hc hb (Or.inr hlt)
    obtain ⟨h4, h5, h6⟩ := ih heap.tail h h1 h2
    refine ⟨h4, h5, ?_⟩
    rw [List.flatMap_cons, ← List.append_assoc, ← h3]
    exact h6

theorem getAllUsersLoop_append (s t : List User) (r : List UInt8 × Nat) :
    ∃ heap', getAllUsersLoop heap (s ++ t) r = getAllUsersLoop heap' t (getAllUsersLoop heap s r) := by
  induction s generalizing heap r with
  | nil => exact ⟨heap, rfl⟩
  | cons user s ih => exact ih heap.tail (appendUser heap user r)

theorem getAllUsersLoop_start (hn : user.Named) (h : ∀ user ∈ users, user.Named ∧ user.username.length < 255) :
    let r := getAllUsersLoop heap (user :: users) (reallocate heap [] 255, 0)
    r.2 ≤ r.1.length ∧ 255 ≤ r.1.length ∧ r.1.take r.2 = (user :: users).flatMap listed := by
  have hb : 255 ≤ (reallocate heap [] 255).length := Nat.le_of_eq (length_reallocate heap [] 255).symm
  obtain ⟨h1, h2, h3⟩ := appendUser_listed heap hn (Nat.zero_le _) hb (Or.inl rfl)
  rw [List.take_zero, List.nil_append] at h3
  rw [List.flatMap_cons, ← h3]
  exact getAllUsersLoop_listed heap.tail h h1 h2

theorem getAllUsers_listed (hn : user.Named) (h : ∀ user ∈ users, user.Named ∧ user.username.length < 255) :
    getAllUsers heap (user :: users) = (user :: users).flatMap listed :=
  (getAllUsersLoop_start heap hn h).2.2

/-- Up to the length of a name, the list does not depend on that name. -/
theorem getAllUsers_prefix (last : User) {t : List User} (hn : user.Named)
    (h : ∀ user ∈ users, user.Named ∧ user.username.length < 255) :
    ∃ rest, getAllUsers heap (user :: (users ++ last :: t)) =
      (user :: users).flatMap listed ++ last.ulen :: rest := by
  obtain ⟨heap', he⟩ := getAllUsersLoop_append heap (user :: users) (last :: t) (reallocate heap [] 255, 0)
  obtain ⟨h1, h2, h3⟩ := getAllUsersLoop_start heap hn h
  generalize getAllUsersLoop heap (user :: users) (reallocate heap [] 255, 0) = r at he h1 h2 h3
  have hoctet := appendUser_octet heap' last (roomFor_length heap' h2 h1).1 h1
  rw [h3] at hoctet
  change (appendUser heap' last r).1.take (r.2 + 1) = _ at hoctet
  have hlen : r.2 + 1 ≤ (appendUser heap' last r).1.length := by
    have h4 := congrArg List.length h3
    have h5 := congrArg List.length hoctet
    rw [List.length_take, Nat.min_eq_left h1] at h4
    rw [List.length_append, List.length_singleton, ← h4, List.length_take] at h5
    omega
  have hcont : r.2 + 1 ≤ (appendUser heap' last r).2 := Nat.le_add_right (r.2 + 1) last.username.length
  obtain ⟨h6, h7⟩ := getAllUsersLoop_keeps heap'.tail t hlen hcont
  change r.2 + 1 ≤ (getAllUsersLoop heap' (last :: t) r).2 at h6
  refine ⟨(getAllUsers heap (user :: (users ++ last :: t))).drop (r.2 + 1), ?_⟩
  have htake : (getAllUsers heap (user :: (users ++ last :: t))).take (r.2 + 1) =
      (user :: users).flatMap listed ++ [last.ulen] := by
    rw [getAllUsers, ← List.cons_append, he, List.take_take, Nat.min_eq_left h6]
    exact h7.trans hoctet
  calc getAllUsers heap (user :: (users ++ last :: t))
      = (getAllUsers heap (user :: (users ++ last :: t))).take (r.2 + 1) ++
          (getAllUsers heap (user :: (users ++ last :: t))).drop (r.2 + 1) := (List.take_append_drop _ _).symm
    _ = _ := by rw [htake, List.append_assoc]; rfl

end

/-! ## What the client makes of it -/

section
variable (mem : ClientMemory) {user : User} {users : List User}

theorem signedChar_eq (c : UInt8) : signedChar c = if c.toNat < 128 then (c.toNat : Int) else c.toNat - 256 := by
  have h : signedChar c = c.toBitVec.toInt := rfl
  have hc : c.toBitVec.toNat = c.toNat := rfl
  rw [h, BitVec.toInt_eq_toNat_cond, hc]
  split
  · rw [if_pos (by omega)]
  · rw [if_neg (by omega)]; rfl

theorem receivedName (h : user.Named) (l fresh : List UInt8) (hl : l.length ≤ 2)
    (hf : fresh.length = user.username.length + 2) :
    cString ((store fresh 0 (user.username ++ l)).set user.username.length 0) = user.name ∧
      octet (store fresh 0 (user.username ++ l)) user.username.length =
        (l ++ fresh.drop (user.username.length + l.length)).getD 0 0 := by
  have hu := named_username h
  have hstore : store fresh 0 (user.username ++ l) =
      user.username ++ (l ++ fresh.drop (user.username.length + l.length)) := by
    rw [store_front (by rw [List.length_append]; omega), List.append_assoc, List.length_append]
  rw [hstore]
  constructor
  · rw [List.set_append_right _ _ (Nat.le_refl _)]
    generalize
      (l ++ fresh.drop (user.username.length + l.length)).set (user.username.length - user.username.length) 0 = r
    rw [hu, List.append_assoc]
    exact cString_of_noNul (named_noNul h) r
  · rw [octet, List.getD_eq_getElem?_getD, List.getElem?_append_right (Nat.le_refl _), Nat.sub_self,
      List.getD_eq_getElem?_getD]

/-- One turn of the loop that is given the name, and what is received with it. -/
theorem otherUsersLoop_received (n i : Nat) (h : user.Named) {l stream rest : List UInt8} (hl : l.length ≤ 1)
    (hrecv : recv stream (user.username.length + 1) = .ok (user.username ++ l, rest)) :
    ∃ block next, cString block = user.name ∧ (∀ c, l = [c] → next = c) ∧
      otherUsersLoop mem (n + 1) i user.username.length stream =
        (otherUsersLoop mem n (i + 1) (signedChar next) rest).map (some block :: ·) := by
  have hlen := (named_length h).2
  have hsize : sizeT ((user.username.length : Int) + 2) = user.username.length + 2 := by
    unfold sizeT; omega
  have hmore : sizeT ((user.username.length : Int) + 1) = user.username.length + 1 := by
    unfold sizeT; omega
  have hmalloc : mallocs (user.username.length + 2) = true := decide_eq_true (by omega)
  have hroom : ¬ (user.username.length + 2 < (user.username ++ l).length ∨ (user.username.length : Int) < 0) := by
    rw [List.length_append]; omega
  let fresh := (List.range (user.username.length + 2)).map (mem.block i)
  obtain ⟨hname, hnext⟩ := receivedName h l fresh (by omega) (by simp [fresh])
  refine ⟨(store fresh 0 (user.username ++ l)).set user.username.length 0,
    octet (store fresh 0 (user.username ++ l)) user.username.length, hname, ?_, ?_⟩
  · rintro c rfl
    rw [hnext]
    rfl
  · simp only [otherUsersLoop, hsize, hmore, hmalloc, hrecv, bind, Except.bind, Int.toNat_natCast, if_neg hroom,
      pure, Except.pure]
    rw [if_neg (by simp)]
    simp only [fresh]
    cases otherUsersLoop mem n (i + 1) _ rest with
    | error f => rfl
    | ok result => rfl

theorem otherUsersLoop_name (n i : Nat) (h : user.Named) (c : UInt8) (stream : List UInt8) :
    ∃ block, cString block = user.name ∧
      otherUsersLoop mem (n + 1) i user.username.length (user.username ++ c :: stream) =
        (otherUsersLoop mem n (i + 1) (signedChar c) stream).map (some block :: ·) := by
  have hrecv : recv (user.username ++ c :: stream) (user.username.length + 1) =
      .ok (user.username ++ [c], stream) := by
    rw [recv, if_neg (by simp), List.append_cons]
    have hlen : user.username.length + 1 = (user.username ++ [c]).length := by rw [List.length_append]; rfl
    rw [hlen, List.take_left, List.drop_left]
  obtain ⟨block, next, hname, hnext, he⟩ := otherUsersLoop_received mem n i h (l := [c]) (Nat.le_refl _) hrecv
  rw [hnext c rfl] at he
  exact ⟨block, hname, he⟩

theorem otherUsersLoop_last (i : Nat) (h : user.Named) :
    ∃ block, cString block = user.name ∧
      otherUsersLoop mem 1 i user.username.length user.username = .ok [some block] := by
  have hlen := (named_length h).1
  have hne : user.username ≠ [] := by
    intro he
    rw [he] at hlen
    exact absurd hlen (by decide)
  have hrecv : recv user.username (user.username.length + 1) = .ok (user.username ++ [], []) := by
    rw [recv, if_neg (fun hn => hne hn.1), List.take_of_length_le (Nat.le_succ _), List.append_nil,
      List.drop_eq_nil_of_le (Nat.le_succ _)]
  obtain ⟨block, next, hname, _, he⟩ := otherUsersLoop_received mem 0 i h (l := []) (Nat.zero_le _) hrecv
  exact ⟨block, hname, he⟩

/-- Names whose lengths fit in a `char`, but for the first, are shown. -/
theorem otherUsersLoop_listed (i : Nat) (hn : user.Named) (h : ∀ v ∈ users, v.Named ∧ v.username.length < 128) :
    ∃ result, otherUsersLoop mem (users.length + 1) i user.username.length (user.username ++ users.flatMap listed) =
        .ok result ∧
      printed (users.length + 1) result = .ok ((user :: users).map User.name) := by
  induction users generalizing user i with
  | nil =>
    obtain ⟨block, hname, he⟩ := otherUsersLoop_last mem i hn
    refine ⟨[some block], by rw [List.flatMap_nil, List.append_nil]; exact he, ?_⟩
    rw [List.map_singleton, ← hname]
    rfl
  | cons v users ih =>
    obtain ⟨⟨hv, hlt⟩, h⟩ := List.forall_mem_cons.mp h
    obtain ⟨block, hname, he⟩ := otherUsersLoop_name mem (users.length + 1) i hn v.ulen
      (v.username ++ users.flatMap listed)
    obtain ⟨result, hr, hp⟩ := ih (i + 1) hv h
    have hnext : signedChar v.ulen = v.username.length := by
      rw [signedChar_eq, named_ulen hv, if_pos hlt]
    rw [hnext, hr] at he
    refine ⟨some block :: result, he, ?_⟩
    rw [List.length_cons, printed, hp, hname]
    rfl

/-- A length that does not fit in a `char` leaves the client without a name. -/
theorem otherUsersLoop_negative (n i : Nat) {a : Int} (ha : -128 ≤ a ∧ a < 0) (stream : List UInt8) :
    otherUsersLoop mem (n + 1) i a stream = .ok [none] ∨ ∃ f, otherUsersLoop mem (n + 1) i a stream = .error f := by
  simp only [otherUsersLoop, bind, Except.bind]
  split
  · exact Or.inl rfl
  · apply Or.inr
    cases recv stream (sizeT (a + 1)) with
    | error f => exact ⟨f, rfl⟩
    | ok r => exact ⟨.outOfBounds, by simp only [if_pos (Or.inr ha.2 : _ ∨ a < 0)]; rfl⟩

/-- The names up to the first one with such a length, other than the first of all. -/
theorem otherUsersLoop_large (k i : Nat) (hn : user.Named) (h : ∀ v ∈ users, v.Named ∧ v.username.length < 128)
    {c : UInt8} (hc : 128 ≤ c.toNat) (rest : List UInt8) :
    (∃ f, otherUsersLoop mem (users.length + 1 + (k + 1)) i user.username.length
        (user.username ++ (users.flatMap listed ++ c :: rest)) = .error f) ∨
      ∃ result f, otherUsersLoop mem (users.length + 1 + (k + 1)) i user.username.length
          (user.username ++ (users.flatMap listed ++ c :: rest)) = .ok result ∧
        printed (users.length + 1 + (k + 1)) result = .error f := by
  induction users generalizing user i with
  | nil =>
    obtain ⟨block, _, he⟩ := otherUsersLoop_name mem (k + 1) i hn c rest
    have hneg : -128 ≤ signedChar c ∧ signedChar c < 0 := by
      have := c.toNat_lt
      rw [signedChar_eq, if_neg (by omega)]
      omega
    rw [List.length_nil, Nat.zero_add, Nat.add_comm 1, List.flatMap_nil, List.nil_append, he]
    rcases otherUsersLoop_negative mem k (i + 1) hneg rest with hr | ⟨f, hr⟩
    · rw [hr]
      exact Or.inr ⟨[some block, none], .wildPointer, rfl, rfl⟩
    · rw [hr]
      exact Or.inl ⟨f, rfl⟩
  | cons v users ih =>
    obtain ⟨⟨hv, hlt⟩, h⟩ := List.forall_mem_cons.mp h
    obtain ⟨block, _, he⟩ := otherUsersLoop_name mem (users.length + 1 + (k + 1)) i hn v.ulen
      (v.username ++ (users.flatMap listed ++ c :: rest))
    have hnext : signedChar v.ulen = v.username.length := by
      rw [signedChar_eq, named_ulen hv, if_pos hlt]
    have hcount : (v :: users).length + 1 + (k + 1) = users.length + 1 + (k + 1) + 1 := by
      rw [List.length_cons]; omega
    have hstream : user.username ++ ((v :: users).flatMap listed ++ c :: rest) =
        user.username ++ v.ulen :: (v.username ++ (users.flatMap listed ++ c :: rest)) := by
      rw [List.flatMap_cons, listed, List.append_assoc]; rfl
    rw [hcount, hstream, he, hnext]
    rcases ih (i + 1) hv h with ⟨f, hr⟩ | ⟨result, f, hr, hp⟩
    · rw [hr]
      exact Or.inl ⟨f, rfl⟩
    · rw [hr]
      refine Or.inr ⟨some block :: result, f, rfl, ?_⟩
      rw [printed, hp]
      rfl

end

/-! ## The round trip -/

/-- A connection whose parser has read GET of the users, with an answer that
fits in the write buffer. -/
structure Listing where
  conn : PrawtosConn
  heap : Heap
  parsed : (Command.get 0x03 (by decide)).Parsed conn.cmd.parser
  allocates : heap.allocates = true
  named : ∀ user ∈ conn.users, user.Named
  nonempty : conn.users ≠ []
  count : conn.users.length ≤ 255
  idle : conn.writeBuffer.unread = []
  fits : 3 + (conn.users.map fun user => 1 + user.username.length).sum ≤ bufferWritePtr conn.writeBuffer

/-- The client shows the names in the list, in its order. -/
def Listing.RoundTrips (l : Listing) (mem : ClientMemory) : Prop :=
  ∃ d, cmdProcess l.heap l.conn = .ok (d, .cmdWrite) ∧
    getCommand mem 0x03 d.writeBuffer.unread = .ok (.users (l.conn.users.map User.name))

section
variable (heap : Heap) {user : User} {users : List User}

theorem getAllUsersLoop_cont (r : List UInt8 × Nat) :
    (getAllUsersLoop heap users r).2 = r.2 + (users.map fun user => 1 + user.username.length).sum := by
  induction users generalizing heap r with
  | nil => rfl
  | cons user users ih =>
    simp only [getAllUsersLoop, ih, List.map_cons, List.sum_cons, appendUser]
    omega

theorem getAllUsers_length_le (users : List User) :
    (getAllUsers heap users).length ≤ (users.map fun user => 1 + user.username.length).sum := by
  rw [getAllUsers, List.length_take, getAllUsersLoop_cont, Nat.zero_add]
  exact Nat.min_le_left _ _

theorem getAllUsers_head (h : ∀ v ∈ user :: users, v.Named) :
    ∃ args, getAllUsers heap (user :: users) = user.ulen :: args := by
  obtain ⟨hn, h⟩ := List.forall_mem_cons.mp h
  cases users with
  | nil => exact ⟨user.username, by rw [getAllUsers_listed heap hn (List.forall_mem_nil _)]; simp [listed]⟩
  | cons v users =>
    obtain ⟨rest, he⟩ := getAllUsers_prefix heap v (t := users) hn (List.forall_mem_nil _)
    exact ⟨user.username ++ v.ulen :: rest, by rw [List.nil_append] at he; rw [he]; simp [listed]⟩

end

/-- What the server has to send. -/
theorem listing_answer (l : Listing) : ∃ d, cmdProcess l.heap l.conn = .ok (d, .cmdWrite) ∧
    d.writeBuffer.unread =
      getFrame .success 0x03 (UInt8.ofNat l.conn.users.length) (getAllUsers l.heap l.conn.users) := by
  obtain ⟨ht, hget⟩ := l.parsed
  have hlen := getAllUsers_length_le l.heap l.conn.users
  have hfits := l.fits
  obtain ⟨user, users, husers⟩ := List.exists_cons_of_ne_nil l.nonempty
  obtain ⟨args, hargs⟩ := getAllUsers_head l.heap
      (show ∀ v ∈ user :: users, v.Named by rw [← husers]; exact l.named)
  have hroom : (getFrame .success 0x03 (UInt8.ofNat l.conn.users.length) (user.ulen :: args)).length ≤
      bufferWritePtr l.conn.writeBuffer := by
    rw [husers, hargs] at hlen
    rw [husers] at hfits
    simp only [getFrame, List.length_append, List.length_cons, List.length_nil] at hlen ⊢
    omega
  have hfirst : ((user.ulen :: args).headD (l.heap.fresh 0)).toNat + 1 ≤ bufferWritePtr l.conn.writeBuffer := by
    rw [List.headD_cons]
    rw [husers, List.map_cons, List.sum_cons] at hfits
    rw [named_ulen (l.named user (by rw [husers]; exact List.mem_cons_self))]
    omega
  obtain ⟨hmarshal, hret⟩ := getMarshal_fits hfirst hroom
  have hinvoke : invoke getHandlers .get l.conn.cmd.parser.get l.heap l.conn =
      getUsersFunc l.heap { l.conn with calls := l.conn.calls ++ [.get 3] } := by rw [hget]; rfl
  rw [← husers] at hargs
  unfold cmdProcess
  rw [if_pos ht, hinvoke, getUsersFunc, getAnswer, if_pos l.allocates]
  simp only [hget, getNusers, hargs, hmarshal, hret, if_false]
  refine ⟨_, rfl, ?_⟩
  simp only [bufferMarshal_fits hroom, unread_fill, l.idle, List.nil_append]

/-- The head of the answer, as the client reads it. -/
theorem getCommand_users (mem : ClientMemory) (n len : UInt8) (stream : List UInt8) :
    getCommand mem 0x03 (getFrame .success 0x03 n (len :: stream)) =
      (otherUsersLoop mem n.toNat 0 len.toNat stream).bind fun result =>
        (printed n.toNat result).map fun names => .users names := by
  have hrecv : recv (getFrame .success 0x03 n (len :: stream)) (answerLength 0x03) =
      .ok ([0x00, 0x03, n, len], stream) := rfl
  have hlen : ((List.range 1000).map mem.stack).length = 1000 := by rw [List.length_map, List.length_range]
  unfold getCommand
  generalize (List.range 1000).map mem.stack = stack at hlen
  have hanswer : store stack 0 [0x00, 0x03, n, len] = 0x00 :: 0x03 :: n :: len :: stack.drop 4 :=
    store_front (by rw [hlen]; simp)
  simp only [hrecv, bind, Except.bind, hanswer, getOtherUsers]
  generalize stack.drop 4 = r
  have h0 : octet (0x00 :: 0x03 :: n :: len :: r) 0 = 0x00 := rfl
  have h1 : octet (0x00 :: 0x03 :: n :: len :: r) 1 = 0x03 := rfl
  have h2 : octet (0x00 :: 0x03 :: n :: len :: r) 2 = n := rfl
  have h3 : octet (0x00 :: 0x03 :: n :: len :: r) 3 = len := rfl
  rw [if_pos h1, h2, h3]
  cases otherUsersLoop mem n.toNat 0 len.toNat stream with
  | error f => rfl
  | ok result =>
    simp only [getAnswerHandler, h0, h1, h2, bind, Except.bind]
    cases printed n.toNat result with
    | error f => rfl
    | ok names => rfl

/-- Where the first element without the property is, if there is one. -/
theorem all_or_first {α : Type*} (p : α → Prop) [DecidablePred p] (l : List α) :
    (∀ a ∈ l, p a) ∨ ∃ s a t, l = s ++ a :: t ∧ (∀ b ∈ s, p b) ∧ ¬ p a := by
  induction l with
  | nil => exact Or.inl (List.forall_mem_nil _)
  | cons a l ih =>
    by_cases ha : p a
    · rcases ih with h | ⟨s, b, t, rfl, hs, hb⟩
      · exact Or.inl (List.forall_mem_cons.mpr ⟨ha, h⟩)
      · exact Or.inr ⟨a :: s, b, t, rfl, List.forall_mem_cons.mpr ⟨ha, hs⟩, hb⟩
    · exact Or.inr ⟨[], a, l, rfl, List.forall_mem_nil _, ha⟩

section
variable {l : Listing} {user : User} {users : List User}

theorem roundTrips_iff (mem : ClientMemory) (h : l.conn.users = user :: users) :
    l.RoundTrips mem ↔ ∃ result,
      otherUsersLoop mem (users.length + 1) 0 user.username.length
          ((getAllUsers l.heap (user :: users)).drop 1) = .ok result ∧
        printed (users.length + 1) result = .ok ((user :: users).map User.name) := by
  have hnamed := l.named
  have hcount := l.count
  rw [h] at hnamed hcount
  have hn := hnamed user List.mem_cons_self
  obtain ⟨d, hd, hanswer⟩ := listing_answer l
  obtain ⟨args, hargs⟩ := getAllUsers_head l.heap hnamed
  have hnargs : (UInt8.ofNat (user :: users).length).toNat = users.length + 1 := by
    rw [UInt8.toNat_ofNat', List.length_cons]
    rw [List.length_cons] at hcount
    omega
  have hshown : getCommand mem 0x03 d.writeBuffer.unread =
      (otherUsersLoop mem (users.length + 1) 0 user.username.length args).bind fun result =>
        (printed (users.length + 1) result).map fun names => .users names := by
    rw [hanswer, h, hargs, getCommand_users, hnargs, named_ulen hn]
  rw [hargs, List.drop_one, List.tail_cons]
  constructor
  · rintro ⟨d', hd', hr⟩
    rw [hd] at hd'
    cases hd'
    rw [hshown] at hr
    cases hl : otherUsersLoop mem (users.length + 1) 0 user.username.length args with
    | error f => rw [hl] at hr; cases hr
    | ok result =>
      rw [hl] at hr
      cases hp : printed (users.length + 1) result with
      | error f => rw [Except.bind, hp] at hr; cases hr
      | ok names =>
        rw [Except.bind, hp] at hr
        refine ⟨result, rfl, ?_⟩
        injection hr with hr
        injection hr with hr
        rw [hp, hr, h]
  · rintro ⟨result, hl, hp⟩
    refine ⟨d, hd, ?_⟩
    rw [hshown, hl, Except.bind, hp, h]
    rfl

theorem listing_shown (mem : ClientMemory) (h : l.conn.users = user :: users)
    (hall : ∀ v ∈ users, v.username.length < 128) : l.RoundTrips mem := by
  have hnamed := l.named
  rw [h] at hnamed
  obtain ⟨hn, hrest⟩ := List.forall_mem_cons.mp hnamed
  rw [roundTrips_iff mem h,
    getAllUsers_listed l.heap hn fun v hv => ⟨hrest v hv, Nat.lt_trans (hall v hv) (by decide)⟩]
  exact otherUsersLoop_listed mem 0 hn fun v hv => ⟨hrest v hv, hall v hv⟩

theorem listing_lost (mem : ClientMemory) {s t : List User} {v : User} (h : l.conn.users = user :: (s ++ v :: t))
    (hs : ∀ w ∈ s, w.username.length < 128) (hv : 128 ≤ v.username.length) : ¬ l.RoundTrips mem := by
  have hnamed := l.named
  rw [h] at hnamed
  obtain ⟨hn, hrest⟩ := List.forall_mem_cons.mp hnamed
  have hs' : ∀ w ∈ s, w.Named := fun w hw => hrest w (List.mem_append_left _ hw)
  have hv' : v.Named := hrest v (List.mem_append_right _ List.mem_cons_self)
  obtain ⟨rest, hargs⟩ := getAllUsers_prefix l.heap v (t := t) hn
    (fun w hw => ⟨hs' w hw, Nat.lt_trans (hs w hw) (by decide)⟩)
  have hlen : (s ++ v :: t).length + 1 = s.length + 1 + (t.length + 1) := by
    simp only [List.length_cons, List.length_append]; omega
  have hdrop : (getAllUsers l.heap (user :: (s ++ v :: t))).drop 1 =
      user.username ++ (s.flatMap listed ++ v.ulen :: rest) := by
    rw [hargs, List.flatMap_cons, listed, List.cons_append, List.cons_append, List.append_assoc]
    rfl
  rw [roundTrips_iff mem h, hlen, hdrop]
  rintro ⟨result, hl, hp⟩
  rcases otherUsersLoop_large mem t.length 0 hn (fun w hw => ⟨hs' w hw, hs w hw⟩) (c := v.ulen)
    (by rw [named_ulen hv']; exact hv) rest with ⟨f, hf⟩ | ⟨result', f, hf, hpf⟩
  · rw [hl] at hf
    cases hf
  · rw [hl] at hf
    cases hf
    rw [hp] at hpf
    cases hpf

end

/-- The client shows the users of the server exactly when no name but the first,
with its terminator, is longer than 127. -/
theorem listing_iff (l : Listing) (mem : ClientMemory) :
    l.RoundTrips mem ↔ ∀ user ∈ l.conn.users.tail, user.username.length < 128 := by
  obtain ⟨user, users, h⟩ := List.exists_cons_of_ne_nil l.nonempty
  rw [h, List.tail_cons]
  constructor
  · intro hr
    -- the first name that is too long is where the client goes astray
    rcases all_or_first (fun v : User => v.username.length < 128) users with hall | ⟨s, v, t, rfl, hs, hv⟩
    · exact hall
    · exact absurd hr (listing_lost mem h hs (Nat.not_lt.mp hv))
  · exact listing_shown mem h

/-- A name of 127 characters. -/
def longUser : User where
  isAdmin := false
  username := List.replicate 127 97 ++ [0]
  password := [97, 0]
  length_username := by simp [maxLen]
  length_password := by decide

theorem longUser_length : longUser.username.length = 128 := by simp [longUser]

theorem longUser_named : longUser.Named :=
  ⟨List.replicate 127 97, rfl, by simp, by simp, by simp⟩

theorem initUserList_named : ∀ user ∈ initUserList zeroHeap, user.Named := by
  have h : ∀ user ∈ initUserList zeroHeap, user.username = user.username.dropLast ++ [0] ∧
      0 ∉ user.username.dropLast ∧ 1 ≤ user.username.dropLast.length ∧ user.username.dropLast.length ≤ 254 := by
    decide
  intro user hu
  exact ⟨user.username.dropLast, h user hu⟩

/-- The users of a new server, and one with a long name. -/
def longListing : Listing where
  conn :=
    { firstPrawtosAccepted.conn with
      users := initUserList zeroHeap ++ [longUser]
      cmd.parser := feedAll prawtosParserFeed (prawtosParserInit firstPrawtosAccepted.conn.cmd.parser)
        (Command.get 0x03 (by decide)).encode }
  heap := zeroHeap
  parsed := feedAll_encode _ _
  allocates := rfl
  named := List.forall_mem_append.mpr ⟨initUserList_named, List.forall_mem_singleton.mpr longUser_named⟩
  nonempty := List.append_ne_nil_of_right_ne_nil _ (List.cons_ne_nil _ _)
  count := by
    rw [List.length_append]
    decide
  idle := rfl
  fits := by
    have hroom : bufferWritePtr firstPrawtosAccepted.conn.writeBuffer = prawtosBufferSize := by
      have h : firstPrawtosAccepted.conn.writeBuffer = bufferInit (List.replicate prawtosBufferSize 0) := rfl
      simp [h, bufferWritePtr, bufferInit, Buffer.limit]
    simp only [hroom, List.map_append, List.sum_append, List.map_singleton, longUser_length]
    decide

theorem longListing_lost : ¬ longListing.RoundTrips ⟨fun _ => 0, fun _ _ => 0⟩ := by
  have hne : initUserList zeroHeap ≠ [] := by decide
  have h : longListing.conn.users =
      (initUserList zeroHeap).head hne :: ((initUserList zeroHeap).tail ++ longUser :: []) := by
    rw [← List.cons_append, List.cons_head_tail]
    simp only [longListing]
  exact listing_lost _ h (by decide) (Nat.le_of_eq longUser_length.symm)

end SocksProxy
