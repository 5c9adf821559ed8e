import SocksProxy.Parser.Credentials

/-!
# The list of users (`user_utils.c`)

A user's name and password are blocks of the heap without a terminator of
their own. `Heap` says what lies behind them, and what is in a block that has
just been allocated; a name that contains its terminator does not depend on it.
-/

namespace SocksProxy

def intMax : Int := 2147483647

/-- What `malloc` gives, and the memory behind the blocks of each user. -/
structure Heap where
  allocates : Bool
  fresh : Nat → UInt8
  afterUsername : Nat → List UInt8
  afterPassword : Nat → List UInt8

/-- A heap of zeros. -/
def zeroHeap : Heap := ⟨true, fun _ => 0, fun _ => [], fun _ => []⟩

def Heap.tail (h : Heap) : Heap :=
  { h with afterUsername := fun i => h.afterUsername (i + 1), afterPassword := fun i => h.afterPassword (i + 1) }

/-- `ulen` and `upass` are the lengths of the two blocks. -/
structure User where
  isAdmin : Bool
  username : List UInt8
  password : List UInt8
  length_username : username.length ≤ maxLen
  length_password : password.length ≤ maxLen
  deriving DecidableEq, Repr

namespace User

variable (u : User)

def ulen : UInt8 := UInt8.ofNat u.username.length

/-- `username` and `password` of the first user, as strings. -/
def usernameString (h : Heap) : List UInt8 := cString (u.username ++ h.afterUsername 0)

def passwordString (h : Heap) : List UInt8 := cString (u.password ++ h.afterPassword 0)

end User

theorem length_toNat_le (c : UInt8) : c.toNat ≤ maxLen := Nat.lt_succ_iff.mp c.toNat_lt

/-- The new user; the arguments are the memory at the two pointers. -/
def newUser (username : List UInt8) (ulen : UInt8) (password : List UInt8) (plen : UInt8) (admin : Bool) :
    User where
  isAdmin := admin
  username := username.take ulen.toNat
  password := password.take plen.toNat
  length_username := Nat.le_trans (List.length_take_le _ _) (length_toNat_le _)
  length_password := Nat.le_trans (List.length_take_le _ _) (length_toNat_le _)

def addUserRec (username : List UInt8) (ulen : UInt8) (password : List UInt8) (plen : UInt8) (admin : Bool) :
    Heap → List User → List User × Bool
  | _, [] => ([newUser username ulen password plen admin], true)
  | h, first :: next =>
    if first.usernameString h = cString username then (first :: next, false)
    else
      let r := addUserRec username ulen password plen admin h.tail next
      (first :: r.1, r.2)

/-- `list->size` is the length of the list. -/
def addUser (h : Heap) (list : List User) (username : List UInt8) (ulen : UInt8) (password : List UInt8)
    (plen : UInt8) (admin : Bool) : List User × Bool :=
  addUserRec username ulen password plen admin h list

/-- The octets of the literals `admin2`, `alggo2`, `admin`, `alggo` and `pruebita`. -/
def admin2Literal : List UInt8 := [97, 100, 109, 105, 110, 50, 0]
def alggo2Literal : List UInt8 := [97, 108, 103, 103, 111, 50, 0]
def adminLiteral : List UInt8 := [97, 100, 109, 105, 110, 0]
def alggoLiteral : List UInt8 := [97, 108, 103, 103, 111, 0]
def pruebitaLiteral : List UInt8 := [112, 114, 117, 101, 98, 105, 116, 97, 0]

def initUserList (h : Heap) : List User :=
  let list := (addUser h [] admin2Literal 7 alggo2Literal 7 true).1
  let list := (addUser h list adminLiteral 6 alggoLiteral 6 true).1
  (addUser h list pruebitaLiteral 9 pruebitaLiteral 9 true).1

def deleteUser : Heap → List User → List UInt8 → List User × Bool
  | _, [], _ => ([], false)
  | h, curr :: next, username =>
    if curr.usernameString h = cString username then (next, true)
    else
      let r := deleteUser h.tail next username
      (curr :: r.1, r.2)

/-- A store of `l` at `i`; what would go past the end of the block is left out. -/
def store (block : List UInt8) (i : Nat) (l : List UInt8) : List UInt8 :=
  block.take i ++ l.take (block.length - i) ++ block.drop (i + l.length)

theorem length_store {block : List UInt8} {i : Nat} (l : List UInt8) (h : i ≤ block.length) :
    (store block i l).length = block.length := by
  simp only [store, List.length_append, List.length_take, List.length_drop]; omega

/-- `realloc`: the block keeps what fits of it. -/
def reallocate (h : Heap) (block : List UInt8) (n : Nat) : List UInt8 :=
  block.take n ++ (List.range (n - block.length)).map fun i => h.fresh (block.length + i)

theorem length_reallocate (h : Heap) (block : List UInt8) (n : Nat) : (reallocate h block n).length = n := by
  simp only [reallocate, List.length_append, List.length_take, List.length_map, List.length_range]; omega

section
variable {block l : List UInt8} {i k : Nat}

theorem store_take (l : List UInt8) (hi : k ≤ i) (hk : k ≤ block.length) :
    (store block i l).take k = block.take k := by
  have hlen : k ≤ (block.take i).length := by rw [List.length_take]; omega
  rw [store, List.append_assoc, List.take_append_of_le_length hlen, List.take_take, Nat.min_eq_left hi]

theorem store_keeps (l : List UInt8) (hi : k ≤ i) (hk : k ≤ block.length) :
    k ≤ (store block i l).length ∧ (store block i l).take k = block.take k := by
  refine ⟨?_, store_take l hi hk⟩
  simp only [store, List.length_append, List.length_take, List.length_drop]
  omega

theorem store_written (h : i + l.length ≤ block.length) :
    (store block i l).take (i + l.length) = block.take i ++ l := by
  have hl : l.take (block.length - i) = l := List.take_of_length_le (by omega)
  have hlen : (block.take i ++ l).length = i + l.length := by
    rw [List.length_append, List.length_take]; omega
  rw [store, hl, ← hlen, List.take_left]

theorem store_front (h : l.length ≤ block.length) : store block 0 l = l ++ block.drop l.length := by
  rw [store, List.take_zero, List.nil_append, Nat.sub_zero, List.take_of_length_le h, Nat.zero_add]

theorem reallocate_take (heap : Heap) {n : Nat} (hk : k ≤ block.length) (hn : k ≤ n) :
    (reallocate heap block n).take k = block.take k := by
  have hlen : k ≤ (block.take n).length := by rw [List.length_take]; omega
  rw [reallocate, List.take_append_of_le_length hlen, List.take_take, Nat.min_eq_left hn]

end

/-- The password is copied as a string into a block of `upass` octets. -/
def newPassword (h : Heap) (u : User) (password : List UInt8) (upass : UInt8) : User where
  isAdmin := u.isAdmin
  username := u.username
  password := store (reallocate h u.password upass.toNat) 0 (cString password ++ [0])
  length_username := u.length_username
  length_password := by
    rw [length_store _ (Nat.zero_le _), length_reallocate]; exact length_toNat_le _

def editUser : Heap → List User → List UInt8 → List UInt8 → UInt8 → List User × Bool
  | _, [], _, _, _ => ([], false)
  | h, curr :: next, username, password, upass =>
    if curr.usernameString h = cString username then (newPassword h curr password upass :: next, true)
    else
      let r := editUser h.tail next username password upass
      (curr :: r.1, r.2)

/-- One pass of the loop of `get_all_users`: the block, its size `init` being
its length, and `cont`. -/
def appendUser (h : Heap) (user : User) (r : List UInt8 × Nat) : List UInt8 × Nat :=
  let (allUsers, cont) := r
  let init := allUsers.length
  let allUsers :=
    if init ≤ cont ∨ init ≤ cont + user.username.length then reallocate h allUsers (2 * init) else allUsers
  let allUsers := store allUsers cont [user.ulen]
  let allUsers := store allUsers (cont + 1) (user.usernameString h ++ [0])
  (allUsers, cont + 1 + user.username.length)

def getAllUsersLoop : Heap → List User → List UInt8 × Nat → List UInt8 × Nat
  | _, [], r => r
  | h, user :: next, r => getAllUsersLoop h.tail next (appendUser h user r)

/-- The first `nwrite` octets of the block. -/
def getAllUsers (h : Heap) (list : List User) : List UInt8 :=
  let r := getAllUsersLoop h list (reallocate h [] 255, 0)
  r.1.take r.2

def getNusers (list : List User) : Nat := list.length

/-- The comparison in `user_check_credentials`, for the first user. -/
def User.Matches (u : User) (h : Heap) (uname passwd : List UInt8) : Prop :=
  cString uname = u.usernameString h ∧ cString passwd = u.passwordString h ∧ u.isAdmin = true

instance (u : User) (h : Heap) (uname passwd : List UInt8) : Decidable (u.Matches h uname passwd) := by
  unfold User.Matches; infer_instance

def userCheckCredentials : Heap → List User → List UInt8 → List UInt8 → Nat
  | _, [], _, _ => 1
  | h, current :: next, uname, passwd =>
    if current.Matches h uname passwd then 0 else userCheckCredentials h.tail next uname passwd

/-! ## What the functions read of their arguments -/

section
variable {username username' password password' : List UInt8} {ulen plen : UInt8}

theorem newUser_congr (admin : Bool) (hu : username.take ulen.toNat = username'.take ulen.toNat)
    (hp : password.take plen.toNat = password'.take plen.toNat) :
    newUser username ulen password plen admin = newUser username' ulen password' plen admin := by
  simp only [newUser, hu, hp]

theorem addUser_congr (h : Heap) (list : List User) (admin : Bool) (hs : cString username = cString username')
    (hu : username.take ulen.toNat = username'.take ulen.toNat)
    (hp : password.take plen.toNat = password'.take plen.toNat) :
    addUser h list username ulen password plen admin = addUser h list username' ulen password' plen admin := by
  unfold addUser
  induction list generalizing h with
  | nil => simp only [addUserRec, newUser_congr admin hu hp]
  | cons first next ih => simp only [addUserRec, hs, ih]

theorem deleteUser_congr (h : Heap) (list : List User) (hs : cString username = cString username') :
    deleteUser h list username = deleteUser h list username' := by
  induction list generalizing h with
  | nil => rfl
  | cons curr next ih => simp only [deleteUser, hs, ih]

theorem editUser_congr (h : Heap) (list : List User) (hs : cString username = cString username')
    (hp : cString password = cString password') :
    editUser h list username password plen = editUser h list username' password' plen := by
  induction list generalizing h with
  | nil => rfl
  | cons curr next ih => simp only [editUser, newPassword, hs, hp, ih]

theorem userCheckCredentials_congr (h : Heap) (list : List User) (hs : cString username = cString username')
    (hp : cString password = cString password') :
    userCheckCredentials h list username password = userCheckCredentials h list username' password' := by
  induction list generalizing h with
  | nil => rfl
  | cons current next ih => simp only [userCheckCredentials, User.Matches, hs, hp, ih]

end

end SocksProxy
