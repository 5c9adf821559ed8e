import SocksProxy.Parser.Consume
import SocksProxy.Stm

/-!
# The POP3 sniffer (`pop3sniff.c`)

`sniffer` is taken in its version with five parameters, and called so.
-/

namespace SocksProxy

def maxSizeUser : Nat := 255
def maxBufferPop3Size : Nat := 4096

/-- `raw` is a value that is none of the enumerators. -/
inductive Pop3State where
  | initial
  | user
  | readUser
  | password
  | readPassword
  | check
  | success
  | done
  | raw (v : UInt32)
  deriving DecidableEq, Repr

structure Pop3Sniff where
  state : Pop3State
  buffer : Buffer
  username : List UInt8
  password : List UInt8
  read : UInt8
  remaining : UInt8
  checkRead : UInt8
  checkRemaining : UInt8
  parsing : Bool
  deriving DecidableEq, Repr

/-- The sniffer of a session before `pop3_init`: every byte is 05, so the
state is no enumerator, the three pointers of the buffer are equal and
`parsing` reads as true. Reading a `bool` whose byte is 05 is undefined: this
is what the default build, at `-O3`, makes of it, and a build at `-O0` reads it
otherwise and calls `pop3_init`. -/
def Pop3Sniff.fill : Pop3Sniff where
  state := .raw 0x05050505
  buffer := bufferInit []
  username := List.replicate maxSizeUser 5
  password := List.replicate maxSizeUser 5
  read := 5
  remaining := 5
  checkRead := 5
  checkRemaining := 5
  parsing := true

/-- `"+OK"`, `"USER "`, `"PASS "` and `"-ERR"`. -/
def pop3Ok : List UInt8 := [0x2B, 0x4F, 0x4B]
def pop3User : List UInt8 := [0x55, 0x53, 0x45, 0x52, 0x20]
def pop3Password : List UInt8 := [0x50, 0x41, 0x53, 0x53, 0x20]
def pop3ErrorSniff : List UInt8 := [0x2D, 0x45, 0x52, 0x52]

def tolower (b : UInt8) : UInt8 := if 0x41 ≤ b ∧ b ≤ 0x5A then b + 0x20 else b

/-- `tolower(b) == tolower(*(s + i))`; past its last byte a string has its terminator. -/
def matchesAt (b : UInt8) (s : List UInt8) (i : UInt8) : Bool := tolower b == tolower (s.getD i.toNat 0)

def pop3Init (s : Pop3Sniff) : Pop3Sniff :=
  { s with
    state := .initial
    buffer := bufferInit (List.replicate maxBufferPop3Size 0)
    read := 0
    remaining := UInt8.ofNat pop3Ok.length
    parsing := true }

def initialMsg (s : Pop3Sniff) (b : UInt8) : Pop3Sniff × Pop3State :=
  if matchesAt b pop3Ok s.read then
    if s.remaining - 1 = 0 then ({ s with read := 0, remaining := UInt8.ofNat pop3User.length }, .user)
    else ({ s with read := s.read + 1, remaining := s.remaining - 1 }, .initial)
  else (s, .done)

def sniffer (s : Pop3Sniff) (b : UInt8) (sniffing : List UInt8) (initialState nextState : Pop3State) :
    Pop3Sniff × Pop3State :=
  if matchesAt b sniffing s.read then
    if s.remaining - 1 = 0 then ({ s with read := 0, remaining := s.remaining - 1 }, nextState)
    else ({ s with read := s.read + 1, remaining := s.remaining - 1 }, initialState)
  else if s.read ≠ 0 then ({ s with read := 0, remaining := UInt8.ofNat sniffing.length }, initialState)
  else (s, initialState)

/-- `password` follows `username` in the structure. -/
def storeUsername (s : Pop3Sniff) (i : Nat) (b : UInt8) : Pop3Sniff :=
  if i < maxSizeUser then { s with username := s.username.set i b }
  else { s with password := s.password.set (i - maxSizeUser) b }

/-- `read` follows `password` in the structure. -/
def storePassword (s : Pop3Sniff) (i : Nat) (b : UInt8) : Pop3Sniff :=
  if i < maxSizeUser then { s with password := s.password.set i b } else { s with read := b }

def readUser (s : Pop3Sniff) (b : UInt8) : Pop3Sniff × Pop3State :=
  if b ≠ 0x0A then
    if s.read.toNat < maxSizeUser then
      ({ storeUsername s s.read.toNat b with read := s.read + 1 }, .readUser)
    else (s, .readUser)
  else
    ({ storeUsername s s.read.toNat 0 with
        read := 0
        remaining := UInt8.ofNat pop3Password.length
        checkRead := 0
        checkRemaining := UInt8.ofNat pop3ErrorSniff.length }, .password)

def readPassword (s : Pop3Sniff) (b : UInt8) : Pop3Sniff × Pop3State :=
  if b ≠ 0x0A then
    if s.read.toNat < maxSizeUser then
      ({ storePassword s s.read.toNat b with read := s.read + 1 }, .readPassword)
    else (s, .readPassword)
  else ({ storePassword s s.read.toNat 0 with read := 0, checkRead := 0 }, .check)

def pop3Check (s : Pop3Sniff) (b : UInt8) : Pop3Sniff × Pop3State :=
  if matchesAt b pop3Ok s.read then
    ({ s with read := s.read + 1 }, if (s.read + 1).toNat = pop3Ok.length then .success else .check)
  else if matchesAt b pop3ErrorSniff s.checkRead then
    ({ s with checkRead := s.checkRead + 1 },
      if (s.checkRead + 1).toNat = pop3ErrorSniff.length then .user else .check)
  else (s, .check)

def pop3Parse (s : Pop3Sniff) (b : UInt8) : Pop3Sniff :=
  let (s, st) : Pop3Sniff × Pop3State :=
    match s.state with
    | .initial => initialMsg s b
    | .user => sniffer s b pop3User .user .readUser
    | .readUser => readUser s b
    | .password => sniffer s b pop3Password .password .readPassword
    | .readPassword => readPassword s b
    | .check => pop3Check s b
    | st => (s, st)
  { s with state := st }

def pop3Done (s : Pop3Sniff) : Bool := s.state == .done || s.state == .success

/-- On success the credentials are copied through the pointers `user` and
`passwd` of `register_info`, which nothing sets. -/
def pop3Consume (s : Pop3Sniff) : Except Fault Pop3Sniff :=
  let s :=
    if pop3Done s then s
    else
      let r := consume pop3Parse pop3Done s.buffer s
      { r.2 with buffer := r.1 }
  if s.state = .success then .error .wildPointer else .ok s

/-- `pop3sniff` of `copy.c` on the bytes relayed: what does not fit is left out. -/
def pop3sniff (s : Pop3Sniff) (bytes : List UInt8) : Except Fault Pop3Sniff :=
  let s := if s.parsing then s else pop3Init s
  if pop3Done s then .ok s
  else
    pop3Consume
      { s with
        buffer := bufferFill s.buffer ⟨bytes.take (bufferWritePtr s.buffer), List.length_take_le _ _⟩ }

/-- A sniffer that was never initialised has no room in its buffer, so it
stays as it is. -/
theorem pop3sniff_fill (bytes : List UInt8) : pop3sniff Pop3Sniff.fill bytes = .ok Pop3Sniff.fill := by
  simp [pop3sniff, Pop3Sniff.fill, pop3Done, pop3Consume, bufferInit, bufferWritePtr, Buffer.limit, bufferFill,
    bufferWriteAdv, bufferPoke, consume, bufferReadPtr, consumeLoop]

end SocksProxy
