import SocksProxy.UserUtils
import SocksProxy.Lib.Chain
import SocksProxy.Lib.Run

/-!
# The linked list of users (`user_utils.c`)

The functions of `user_utils.c` on the nodes themselves: `list` points to the
first one, and each node leads to the next by its address. `UserUtils` has the
same functions on the users in order. A loop gets as many turns as there are
nodes, and one more; a list that needs more than that comes back to a node.
-/

namespace SocksProxy

open Lib

abbrev Nodes := Cells Nat User

/-- What the allocator and the memory behind the blocks do in one call. -/
structure Memory where
  allocates : Bool
  malloc : (nodes : Nodes) → {p : Nat // p ∉ nodes}
  fresh : Nat → UInt8
  afterUsername : Nat → List UInt8
  afterPassword : Nat → List UInt8

/-- How a call can fail to return. -/
inductive Stop where
  | refused
  | wildPointer
  | overflow
  | endless
  deriving DecidableEq, Repr

structure UserList where
  first : Option Nat
  size : Int
  nodes : Nodes

/-- The difference of the first octets that differ, as in the C library. -/
def strcmp : List UInt8 → List UInt8 → Int
  | a :: s, b :: t => if a = b ∧ a ≠ 0 then strcmp s t else a.toNat - b.toNat
  | a :: _, [] => a.toNat
  | [], b :: _ => -b.toNat
  | [], [] => 0

namespace Memory

variable (mem : Memory) (p : Nat) (user : User)

/-- The memory at `username` and at `password` of the node at `p`. -/
def username : List UInt8 := user.username ++ mem.afterUsername p

def password : List UInt8 := user.password ++ mem.afterPassword p

/-- The memory behind the blocks of the nodes at `addresses`, in their order. -/
def heap (addresses : List Nat) : Heap where
  allocates := mem.allocates
  fresh := mem.fresh
  afterUsername i := (addresses[i]?.map mem.afterUsername).getD []
  afterPassword i := (addresses[i]?.map mem.afterPassword).getD []

end Memory

def readNode (nodes : Nodes) (p : Nat) : Except Stop (Cell Nat User) :=
  match nodes.lookup p with
  | some node => .ok node
  | none => .error .wildPointer

namespace UserList

section
variable (mem : Memory) (username : List UInt8)

section
variable (ulen : UInt8) (password : List UInt8) (plen : UInt8) (admin : Bool)

/-- A failed `malloc` is not seen by the test of `aux`, which comes after its
first use. -/
def addUserRec : Nat → Nodes → Option Nat → Except Stop (Nodes × Option Nat × Bool)
  | 0, _, _ => .error .endless
  | _ + 1, nodes, none =>
    if mem.allocates then
      let aux := mem.malloc nodes
      .ok (nodes.insert aux ⟨newUser username ulen password plen admin, none⟩, some aux.val, true)
    else .error .refused
  | n + 1, nodes, some first => do
    let node ← readNode nodes first
    if strcmp (mem.username first node.item) username = 0 then return (nodes, some first, false)
    let (nodes, next, added) ← addUserRec n nodes node.next
    let node ← readNode nodes first
    return (nodes.insert first { node with next }, some first, added)

def addUser (list : UserList) : Except Stop (UserList × Bool) := do
  let (nodes, first, added) ←
    addUserRec mem username ulen password plen admin (list.nodes.keys.card + 1) list.nodes list.first
  if added then
    if list.size = intMax then throw .overflow
    return (⟨first, list.size + 1, nodes⟩, true)
  return (⟨first, list.size, nodes⟩, false)

end

/-- The loop of `delete_user`; that of `edit_user` does without `prev`. -/
def searchLoop (nodes : Nodes) : Nat → Option Nat → Option Nat → Int → Except Stop (Option Nat × Option Nat × Int)
  | 0, _, _, _ => .error .endless
  | _ + 1, prev, none, c => .ok (prev, none, c)
  | n + 1, prev, some curr, c =>
    if c = 0 then .ok (prev, some curr, c)
    else do
      let node ← readNode nodes curr
      let c := strcmp (mem.username curr node.item) username
      if c ≠ 0 then searchLoop nodes n (some curr) node.next c
      else searchLoop nodes n prev (some curr) c

def search (list : UserList) : Except Stop (Option Nat × Option Nat × Int) :=
  searchLoop mem username list.nodes (list.nodes.keys.card + 1) list.first list.first (-1)

/-- The blocks of the node that is freed stay allocated. -/
def deleteUser (list : UserList) : Except Stop (UserList × Bool) := do
  let (prev, curr, c) ← search mem username list
  if c ≠ 0 then return (list, false)
  let some curr := curr | throw .wildPointer
  let node ← readNode list.nodes curr
  let nodes := list.nodes.erase curr
  if some curr = list.first then return (⟨node.next, list.size - 1, nodes⟩, true)
  let some prev := prev | throw .wildPointer
  let before ← readNode nodes prev
  return (⟨list.first, list.size - 1, nodes.insert prev { before with next := node.next }⟩, true)

def editUser (password : List UInt8) (upass : UInt8) (list : UserList) : Except Stop (UserList × Bool) := do
  let (_, curr, c) ← search mem username list
  if c ≠ 0 then return (list, false)
  let some curr := curr | throw .wildPointer
  let node ← readNode list.nodes curr
  if strcmp (mem.username curr node.item) username = 0 then
    if ¬ mem.allocates then throw .refused
    let user := newPassword (mem.heap []) node.item password upass
    return ({ list with nodes := list.nodes.insert curr { node with item := user } }, true)
  return (list, false)

end

def checkLoop (mem : Memory) (uname passwd : List UInt8) (nodes : Nodes) : Nat → Option Nat → Except Stop Nat
  | 0, _ => .error .endless
  | _ + 1, none => .ok 1
  | n + 1, some current => do
    let node ← readNode nodes current
    if strcmp uname (mem.username current node.item) = 0 ∧ strcmp passwd (mem.password current node.item) = 0 ∧
        node.item.isAdmin = true then return 0
    checkLoop mem uname passwd nodes n node.next

def userCheckCredentials (mem : Memory) (uname passwd : List UInt8) (list : UserList) : Except Stop Nat :=
  checkLoop mem uname passwd list.nodes (list.nodes.keys.card + 1) list.first

/-- What `calloc` gives. -/
def empty : UserList := ⟨none, 0, ∅⟩

/-- Each of the three calls has a memory of its own. -/
def initUserList (mem mem' mem'' : Memory) : Except Stop UserList := do
  let (list, _) ← addUser mem admin2Literal 7 alggo2Literal 7 true empty
  let (list, _) ← addUser mem' adminLiteral 6 alggoLiteral 6 true list
  let (list, _) ← addUser mem'' pruebitaLiteral 9 pruebitaLiteral 9 true list
  return list

end UserList

end SocksProxy
