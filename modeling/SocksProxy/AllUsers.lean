import SocksProxy.UserUtils

/-!
# The growing block of `get_all_users`

The block starts with 255 octets and is doubled once a user where the entry
does not fit. That is enough for every entry but one: the longest name behind
255 octets of entries, whose terminator goes one octet past the doubled block.
-/

namespace SocksProxy

/-- The block of the name is its characters and a NUL. -/
def User.Terminated (user : User) : Prop := ∃ name : List UInt8, user.username = name ++ [0] ∧ 0 ∉ name

def listed (user : User) : List UInt8 := user.ulen :: user.username

def entriesLength (users : List User) : Nat := (users.map fun user => 1 + user.username.length).sum

/-! ## One pass -/

def Grows (user : User) (r : List UInt8 × Nat) : Prop :=
  r.1.length ≤ r.2 ∨ r.1.length ≤ r.2 + user.username.length

instance (user : User) (r : List UInt8 × Nat) : Decidable (Grows user r) := by
  unfold Grows; infer_instance

/-- The block that a pass writes into. -/
def roomFor (h : Heap) (user : User) (r : List UInt8 × Nat) : List UInt8 :=
  if Grows user r then reallocate h r.1 (2 * r.1.length) else r.1

/-- The indices of the length octet, and of what `strcpy` copies. -/
def passWrites (h : Heap) (user : User) (r : List UInt8 × Nat) : List Nat :=
  r.2 :: (List.range (user.usernameString h ++ [0]).length).map fun i => r.2 + 1 + i

/-- In every pass, `init *= 2` is an `int` and every index is inside the block. -/
def WritesInside : Heap → List User → List UInt8 × Nat → Prop
  | _, [], _ => True
  | h, user :: next, r =>
    ((Grows user r → ((2 * r.1.length : Nat) : Int) ≤ intMax) ∧
        ∀ i ∈ passWrites h user r, i < (roomFor h user r).length) ∧
      WritesInside h.tail next (appendUser h user r)

section
variable (heap : Heap) {user : User} {block : List UInt8} {cont : Nat}

theorem appendUser_eq (user : User) (r : List UInt8 × Nat) :
    appendUser heap user r =
      (store (store (roomFor heap user r) r.2 [user.ulen]) (r.2 + 1) (user.usernameString heap ++ [0]),
        r.2 + 1 + user.username.length) := rfl

theorem terminated_length (h : user.Terminated) : 1 ≤ user.username.length ∧ user.username.length ≤ 255 := by
  obtain ⟨name, hu, _⟩ := h
  refine ⟨?_, user.length_username⟩
  rw [hu, List.length_append]
  exact Nat.le_add_left 1 name.length

theorem terminated_string (h : user.Terminated) : user.usernameString heap ++ [0] = user.username := by
  obtain ⟨name, hu, hn⟩ := h
  rw [User.usernameString, hu, List.append_assoc]
  exact congrArg (· ++ [0]) (cString_of_noNul hn _)

theorem length_roomFor (user : User) (r : List UInt8 × Nat) :
    (roomFor heap user r).length = if Grows user r then 2 * r.1.length else r.1.length := by
  unfold roomFor
  split
  · exact length_reallocate heap r.1 _
  · rfl

theorem roomFor_take (cont : Nat) (user : User) {k : Nat} (hk : k ≤ block.length) :
    (roomFor heap user (block, cont)).take k = block.take k := by
  unfold roomFor
  split
  · exact reallocate_take heap hk (by simp only; omega)
  · rfl

/-- One doubling is enough but for the longest name at the end of the first block. -/
theorem roomFor_fits (hu : user.username.length ≤ 255) (hb : 255 ≤ block.length) (hc : cont ≤ block.length) :
    cont + 1 + user.username.length ≤ (roomFor heap user (block, cont)).length ↔
      ¬ (block.length = 255 ∧ cont = 255 ∧ user.username.length = 255) := by
  rw [length_roomFor]
  by_cases hgrow : Grows user (block, cont)
  · rw [if_pos hgrow]
    simp only
    omega
  · rw [if_neg hgrow]
    unfold Grows at hgrow
    simp only at hgrow ⊢
    omega

theorem passWrites_inside (h : user.Terminated) :
    (∀ i ∈ passWrites heap user (block, cont), i < (roomFor heap user (block, cont)).length) ↔
      cont + 1 + user.username.length ≤ (roomFor heap user (block, cont)).length := by
  have hu := (terminated_length h).1
  simp only [passWrites, terminated_string heap h, List.mem_cons, List.mem_map, List.mem_range, forall_eq_or_imp,
    forall_exists_index, and_imp, forall_apply_eq_imp_iff₂]
  constructor
  · intro hall
    have := hall.2 (user.username.length - 1) (by omega)
    omega
  · intro hle
    refine ⟨by omega, ?_⟩
    intro i hi
    omega

theorem appendUser_entry (h : user.Terminated) (hc : cont ≤ block.length)
    (hroom : cont + 1 + user.username.length ≤ (roomFor heap user (block, cont)).length) :
    let r := appendUser heap user (block, cont)
    r.1.length = (roomFor heap user (block, cont)).length ∧ r.2 ≤ r.1.length ∧
      r.1.take r.2 = block.take cont ++ listed user := by
  have htake := roomFor_take heap cont user hc
  simp only [appendUser_eq, terminated_string heap h]
  generalize roomFor heap user (block, cont) = block' at hroom htake
  have hlen : (store block' cont [user.ulen]).length = block'.length := length_store _ (by omega)
  have hwritten : (store block' cont [user.ulen]).take (cont + 1) = block.take cont ++ [user.ulen] := by
    rw [← htake]
    exact store_written (l := [user.ulen]) (by rw [List.length_singleton]; omega)
  have hfits : cont + 1 + user.username.length ≤ (store block' cont [user.ulen]).length := hlen ▸ hroom
  rw [length_store _ (by omega), hlen]
  refine ⟨rfl, hroom, ?_⟩
  rw [store_written hfits, hwritten, List.append_assoc]
  rfl

theorem appendUser_octet (user : User) (hc : cont < (roomFor heap user (block, cont)).length)
    (hle : cont ≤ block.length) :
    (appendUser heap user (block, cont)).1.take (cont + 1) = block.take cont ++ [user.ulen] := by
  have htake := roomFor_take heap cont user hle
  rw [appendUser_eq]
  generalize roomFor heap user (block, cont) = block' at hc htake
  have hlen : (store block' cont [user.ulen]).length = block'.length := length_store _ (Nat.le_of_lt hc)
  rw [store_take _ (Nat.le_refl _) (by rw [hlen]; omega), ← htake]
  exact store_written (l := [user.ulen]) hc

end

/-! ## All passes -/

/-- The block after some passes: it has been doubled `k` times, each time because it was full. -/
structure Grown (block : List UInt8) (cont k : Nat) : Prop where
  length : block.length = 255 * 2 ^ k
  room : cont ≤ block.length
  doubled : k = 0 ∨ block.length < 2 * cont

/-- The last size that can be doubled to is that of 23 doublings. -/
def allUsersMax : Nat := 255 * 2 ^ 23

theorem doubled_le {k : Nat} (hk : k ≤ 23) : ((2 * (255 * 2 ^ k) : Nat) : Int) ≤ intMax ↔ k < 23 := by
  constructor
  · intro h
    by_contra hlt
    obtain rfl : k = 23 := by omega
    exact absurd h (by decide)
  · intro h
    have hpow : 2 ^ k ≤ 2 ^ 22 := Nat.pow_le_pow_right (by decide) (by omega)
    have hmax : intMax = 2147483647 := rfl
    omega

section
variable (heap : Heap) {user : User} {users : List User} {block : List UInt8} {cont k : Nat}

theorem grown_255 (hg : Grown block cont k) : 255 ≤ block.length ∧ (cont = 255 → block.length = 255) := by
  obtain ⟨hlen, _, hd⟩ := hg
  have hpos : 1 ≤ 2 ^ k := Nat.one_le_two_pow
  refine ⟨by omega, ?_⟩
  intro hc
  rcases hd with hk | hlt
  · rw [hlen, hk]
    rfl
  · have hk : k = 0 := by
      by_contra hne
      have : 2 ^ 1 ≤ 2 ^ k := Nat.pow_le_pow_right (by decide) (by omega)
      omega
    rw [hlen, hk]
    rfl

theorem grown_pass (hg : Grown block cont k) (h : user.Terminated)
    (hroom : cont + 1 + user.username.length ≤ (roomFor heap user (block, cont)).length) :
    Grown (appendUser heap user (block, cont)).1 (appendUser heap user (block, cont)).2
      (if Grows user (block, cont) then k + 1 else k) := by
  obtain ⟨hlen, hle, _⟩ := appendUser_entry heap h hg.room hroom
  have hcont : (appendUser heap user (block, cont)).2 = cont + 1 + user.username.length := rfl
  rw [length_roomFor] at hlen
  by_cases hgrow : Grows user (block, cont)
  · rw [if_pos hgrow] at hlen ⊢
    simp only at hlen
    refine ⟨by rw [hlen, hg.length, Nat.pow_succ]; omega, hle, Or.inr ?_⟩
    rw [hlen, hcont]
    unfold Grows at hgrow
    simp only at hgrow
    omega
  · rw [if_neg hgrow] at hlen ⊢
    simp only at hlen
    refine ⟨by rw [hlen, hg.length], hle, ?_⟩
    rcases hg.doubled with hk | hlt
    · exact Or.inl hk
    · exact Or.inr (by rw [hlen, hcont]; omega)

/-- A user with the longest name behind 255 octets of entries, `cont` of which are there already. -/
def LongestAt (cont : Nat) (users : List User) : Prop :=
  ∃ s user t, users = s ++ user :: t ∧ cont + entriesLength s = 255 ∧ user.username.length = 255

theorem longestAt_cons (cont : Nat) (user : User) (users : List User) :
    LongestAt cont (user :: users) ↔
      (cont = 255 ∧ user.username.length = 255) ∨ LongestAt (cont + 1 + user.username.length) users := by
  constructor
  · intro h
    obtain ⟨s, u, t, hl, hc, hu⟩ := h
    cases s with
    | nil =>
      rw [List.nil_append, List.cons.injEq] at hl
      rw [hl.1]
      exact Or.inl ⟨hc, hu⟩
    | cons v s =>
      rw [List.cons_append, List.cons.injEq] at hl
      refine Or.inr ⟨s, u, t, hl.2, ?_, hu⟩
      rw [hl.1, ← hc, entriesLength, entriesLength, List.map_cons, List.sum_cons]
      omega
  · intro h
    rcases h with ⟨hc, hu⟩ | ⟨s, u, t, hl, hc, hu⟩
    · exact ⟨[], user, users, rfl, hc, hu⟩
    · refine ⟨user :: s, u, t, by rw [hl]; rfl, ?_, hu⟩
      rw [← hc, entriesLength, entriesLength, List.map_cons, List.sum_cons]
      omega

theorem writesInside_iff (hterm : ∀ user ∈ users, user.Terminated) (hg : Grown block cont k) (hk : k ≤ 23) :
    WritesInside heap users (block, cont) ↔
      cont + entriesLength users ≤ allUsersMax ∧ ¬ LongestAt cont users := by
  induction users generalizing heap block cont k with
  | nil =>
    have hpow : 2 ^ k ≤ 2 ^ 23 := Nat.pow_le_pow_right (by decide) hk
    have hroom := hg.room
    have hlen := hg.length
    refine iff_of_true trivial ⟨?_, ?_⟩
    · simp only [entriesLength, List.map_nil, List.sum_nil, allUsersMax]
      omega
    · intro h
      obtain ⟨s, user, t, hl, _⟩ := h
      simp at hl
  | cons user users ih =>
    obtain ⟨hu, hrest⟩ := List.forall_mem_cons.mp hterm
    have hle := (terminated_length hu).2
    obtain ⟨hb, h255⟩ := grown_255 hg
    have hin : (∀ i ∈ passWrites heap user (block, cont), i < (roomFor heap user (block, cont)).length) ↔
        ¬ (cont = 255 ∧ user.username.length = 255) := by
      rw [passWrites_inside heap hu, roomFor_fits heap hle hb hg.room]
      constructor
      · intro h hc
        exact h ⟨h255 hc.1, hc⟩
      · intro h hc
        exact h hc.2
    have hsum : entriesLength (user :: users) = 1 + user.username.length + entriesLength users := by
      rw [entriesLength, List.map_cons, List.sum_cons]
      rfl
    rw [WritesInside, hin, longestAt_cons, not_or, hsum]
    -- the byte after a name of 255 octets at the end of the block is the one that is not grown for
    by_cases hbad : cont = 255 ∧ user.username.length = 255
    · exact iff_of_false (fun h => h.1.2 hbad) (fun h => h.2.1 hbad)
    · have hroom := (roomFor_fits heap hle hb hg.room).mpr fun h => hbad h.2
      have hgrown := grown_pass heap hg hu hroom
      have hlen := hg.length
      -- The block cannot be doubled a 24th time, and then it is full.
      have hdefined : (Grows user (block, cont) → ((2 * block.length : Nat) : Int) ≤ intMax) ↔
          (Grows user (block, cont) → k < 23) := by
        rw [hlen, doubled_le hk]
      have hnext : (if Grows user (block, cont) then k + 1 else k) ≤ 23 →
          (WritesInside heap.tail users (appendUser heap user (block, cont)) ↔
            cont + 1 + user.username.length + entriesLength users ≤ allUsersMax ∧
              ¬ LongestAt (cont + 1 + user.username.length) users) := fun hk' => ih heap.tail hrest hgrown hk'
      have hadd : cont + (1 + user.username.length + entriesLength users) =
          cont + 1 + user.username.length + entriesLength users := by omega
      simp only [hdefined, hbad, not_false_eq_true, and_true, true_and, hadd]
      by_cases hgrow : Grows user (block, cont)
      · by_cases hk' : k < 23
        · rw [if_pos hgrow] at hnext
          simp only [hk', implies_true, true_and]
          exact hnext hk'
        · -- the block has its largest length, and this user would need more
          have hmax : allUsersMax ≤ block.length := by
            rw [hlen, allUsersMax, show k = 23 by omega]
          refine iff_of_false (fun h => hk' (h.1 hgrow)) ?_
          intro h
          unfold Grows at hgrow
          simp only at hgrow
          omega
      · rw [if_neg hgrow] at hnext
        simp only [hgrow, false_implies, true_and]
        exact hnext hk

theorem writesInside_listed (hterm : ∀ user ∈ users, user.Terminated) (hc : cont ≤ block.length)
    (h : WritesInside heap users (block, cont)) :
    let r := getAllUsersLoop heap users (block, cont)
    r.2 = cont + entriesLength users ∧ r.1.take r.2 = block.take cont ++ users.flatMap listed := by
  induction users generalizing heap block cont with
  | nil => exact ⟨rfl, (List.append_nil _).symm⟩
  | cons user users ih =>
    obtain ⟨hu, hrest⟩ := List.forall_mem_cons.mp hterm
    obtain ⟨⟨_, hin⟩, hnext⟩ := h
    have hroom := (passWrites_inside heap hu).mp hin
    obtain ⟨_, hle, htake⟩ := appendUser_entry heap hu hc hroom
    obtain ⟨hcont, hlist⟩ := ih heap.tail hrest hle hnext
    constructor
    · rw [entriesLength, List.map_cons, List.sum_cons]
      refine hcont.trans ?_
      simp only [appendUser_eq, entriesLength]
      omega
    · rw [List.flatMap_cons, ← List.append_assoc, ← htake]
      exact hlist

/-- `get_all_users` on a list: it stays inside its block, and returns the entries of all users. -/
structure ListsUsers (users : List User) : Prop where
  inside : WritesInside heap users (reallocate heap [] 255, 0)
  nwrite : (getAllUsersLoop heap users (reallocate heap [] 255, 0)).2 = entriesLength users
  entries : getAllUsers heap users = users.flatMap listed

theorem writesInside_start (hterm : ∀ user ∈ users, user.Terminated) :
    WritesInside heap users (reallocate heap [] 255, 0) ↔
      entriesLength users ≤ allUsersMax ∧ ¬ LongestAt 0 users := by
  have hg : Grown (reallocate heap [] 255) 0 0 := ⟨by rw [length_reallocate]; rfl, Nat.zero_le _, Or.inl rfl⟩
  have hiff := writesInside_iff heap hterm hg (Nat.zero_le 23)
  rw [Nat.zero_add] at hiff
  exact hiff

/-- The code lists the users exactly unless a longest name comes behind 255 octets of entries, or
the entries do not fit in a block whose size is an `int`. -/
theorem getAllUsers_iff (hterm : ∀ user ∈ users, user.Terminated) :
    ListsUsers heap users ↔ entriesLength users ≤ allUsersMax ∧ ¬ LongestAt 0 users := by
  rw [← writesInside_start heap hterm]
  constructor
  · intro h
    exact h.inside
  · intro h
    obtain ⟨hn, hl⟩ := writesInside_listed heap hterm (Nat.zero_le _) h
    exact ⟨h, hn.trans (Nat.zero_add _), hl⟩

end

theorem length_letters {n : Nat} (h : n < 255) : (List.replicate n 0x61 ++ [0] : List UInt8).length ≤ maxLen := by
  rw [List.length_append, List.length_replicate]
  exact h

/-- A user with a name of `n` letters. -/
def lettersUser (n : Nat) (h : n < 255) : User :=
  ⟨false, List.replicate n 0x61 ++ [0], [], length_letters h, Nat.zero_le _⟩

theorem lettersUser_terminated (n : Nat) (h : n < 255) : (lettersUser n h).Terminated := by
  refine ⟨List.replicate n 0x61, rfl, ?_⟩
  intro hmem
  have := (List.mem_replicate.mp hmem).2
  cases this

theorem lettersUsers_terminated :
    ∀ user ∈ [lettersUser 253 (by decide), lettersUser 254 (by decide)], user.Terminated := by
  intro user hu
  simp only [List.mem_cons, List.not_mem_nil, or_false] at hu
  rcases hu with hu | hu
  · rw [hu]
    exact lettersUser_terminated 253 _
  · rw [hu]
    exact lettersUser_terminated 254 _

theorem getAllUsers_iff_letters :
    ListsUsers zeroHeap [lettersUser 253 (by decide), lettersUser 254 (by decide)] ↔
      entriesLength [lettersUser 253 (by decide), lettersUser 254 (by decide)] ≤ allUsersMax ∧
        ¬ LongestAt 0 [lettersUser 253 (by decide), lettersUser 254 (by decide)] :=
  getAllUsers_iff zeroHeap lettersUsers_terminated

/-- 255 octets for a name of 253 characters, and then one of 254: the last NUL is written at 510. -/
theorem longest_overruns : ¬ ListsUsers zeroHeap [lettersUser 253 (by decide), lettersUser 254 (by decide)] := by
  intro h
  have hno := ((writesInside_start zeroHeap lettersUsers_terminated).mp h.inside).2
  exact hno ⟨[lettersUser 253 (by decide)], lettersUser 254 (by decide), [], rfl, by decide +kernel,
    by decide +kernel⟩

end SocksProxy
