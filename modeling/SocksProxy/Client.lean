import SocksProxy.Args

/-!
# The bundled management client (`client.c`)

What the client shows for the answer to a GET, from `get_command` on, and what
it sends to log in and to create, remove and modify a user. The connection is blocking:
`recv` waits for the first octets of the answer and takes what is there. `int`
is 32 bits wide and a `char` is signed.
-/

namespace SocksProxy

/-- What is in `answer` and in the blocks of the names before anything is stored there. -/
structure ClientMemory where
  stack : Nat → UInt8
  block : Nat → Nat → UInt8

/-- What keeps the client from showing an answer. -/
inductive ClientStop where
  | blocked
  | outOfBounds
  | wildPointer
  | exit
  deriving DecidableEq, Repr

inductive Shown where
  | bytesTransfered (bytes : Nat)
  | historicalConnections (bytes : Nat)
  | concurrentConnections (bytes : Nat)
  | users (names : List (List UInt8))
  | nothing
  deriving DecidableEq, Repr

/-- A `char` as an `int`. -/
def signedChar (c : UInt8) : Int := c.toInt8.toInt

/-- An `int` as an argument of type `size_t`. -/
def sizeT (n : Int) : Nat := (n % 18446744073709551616).toNat

/-- What the client asks for is small, or more than an object can have. -/
def mallocs (size : Nat) : Bool := decide (size ≤ 9223372036854775807)

/-- The octets that `recv` takes, and those it leaves. -/
def recv (stream : List UInt8) (n : Nat) : Except ClientStop (List UInt8 × List UInt8) :=
  if stream = [] ∧ n ≠ 0 then .error .blocked else .ok (stream.take n, stream.drop n)

def octet (block : List UInt8) (i : Nat) : UInt8 := block.getD i 0

/-- The loop of `get_other_users`; the pointers it stores are blocks, `none`
being NULL. -/
def otherUsersLoop (mem : ClientMemory) :
    Nat → Nat → Int → List UInt8 → Except ClientStop (List (Option (List UInt8)))
  | 0, _, _, _ => .ok []
  | n + 1, i, argsLen, stream => do
    let size := sizeT (argsLen + 2)
    if ¬ mallocs size then return [none]
    let (bytes, stream) ← recv stream (sizeT (argsLen + 1))
    if size < bytes.length ∨ argsLen < 0 then throw .outOfBounds
    let block := store ((List.range size).map (mem.block i)) 0 bytes
    let result ← otherUsersLoop mem n (i + 1) (signedChar (octet block argsLen.toNat)) stream
    return some (block.set argsLen.toNat 0) :: result

def getOtherUsers (mem : ClientMemory) (answer stream : List UInt8) :
    Except ClientStop (List (Option (List UInt8))) :=
  otherUsersLoop mem (octet answer 2).toNat 0 (octet answer 3).toNat stream

/-- The strings at the first pointers of `result`; those that have not been set lead nowhere. -/
def printed : Nat → List (Option (List UInt8)) → Except ClientStop (List (List UInt8))
  | 0, _ => .ok []
  | n + 1, some block :: result => do
    let names ← printed n result
    return cString block :: names
  | _ + 1, _ => .error .wildPointer

/-- An octet, as it is promoted for a shift. -/
def promote (c : UInt8) : BitVec 32 := c.toBitVec.setWidth 32

/-- An `int` as an `unsigned long`. -/
def unsignedLong (n : BitVec 32) : Nat := (n.signExtend 64).toNat

def getAnswerHandler (answer : List UInt8) (result : List (Option (List UInt8))) : Except ClientStop Shown := do
  if octet answer 0 ≠ 0x00 then throw .exit
  if octet answer 1 = 0x00 then
    return .bytesTransfered (unsignedLong (promote (octet answer 4) <<< 24 ||| promote (octet answer 5) <<< 16 |||
      promote (octet answer 6) <<< 8 ||| promote (octet answer 7)))
  if octet answer 1 = 0x01 then
    return .historicalConnections (unsignedLong (promote (octet answer 4) <<< 8 ||| promote (octet answer 5)))
  if octet answer 1 = 0x02 then
    return .concurrentConnections (unsignedLong (promote (octet answer 4) <<< 8 ||| promote (octet answer 5)))
  if octet answer 1 = 0x03 then
    let names ← printed (octet answer 2).toNat result
    return .users names
  return .nothing

/-- How much of the answer to the command is read at first. -/
def answerLength (cmd : UInt8) : Nat :=
  if cmd = 0x00 then 8 else if cmd = 0x01 then 6 else if cmd = 0x02 then 6 else if cmd = 0x03 then 4 else 0

/-- What `get_command` shows when the server answers with these octets. -/
def getCommand (mem : ClientMemory) (cmd : UInt8) (stream : List UInt8) : Except ClientStop Shown := do
  let (bytes, stream) ← recv stream (answerLength cmd)
  let answer := store ((List.range 1000).map mem.stack) 0 bytes
  let result ← if octet answer 1 = 0x03 then getOtherUsers mem answer stream else .ok []
  getAnswerHandler answer result

/-! ## Messages about users -/

def credentialsSize : Nat := 255

/-- What is in the buffers and in the message before anything is stored there. -/
structure MessageMemory where
  nameBuffer : Nat → UInt8
  passwordBuffer : Nat → UInt8
  message : Nat → UInt8

def uninitialised (content : Nat → UInt8) (size : Nat) : List UInt8 := (List.range size).map content

/-- A store of consecutive octets. -/
def put (block : List UInt8) (i : Nat) (l : List UInt8) : Except ClientStop (List UInt8) :=
  if i + l.length ≤ block.length then .ok (store block i l) else .error .outOfBounds

def strcpy (block : List UInt8) (i : Nat) (src : List UInt8) : Except ClientStop (List UInt8) :=
  put block i (cString src ++ [0])

/-- `scanf("%s", buffer)`, and what it leaves of the input; without a word in
the input the buffer is not stored to. -/
def scanf (buffer input : List UInt8) : Except ClientStop (List UInt8 × List UInt8) := do
  let input := input.dropWhile isSpace
  let word := input.takeWhile (fun c => !isSpace c)
  if word = [] then return (buffer, input)
  let buffer ← put buffer 0 (word ++ [0])
  return (buffer, input.dropWhile (fun c => !isSpace c))

/-- A buffer that holds no terminator is read past its end. -/
def strlen (block : List UInt8) : Except ClientStop Nat :=
  if 0 ∈ block then .ok (cString block).length else .error .outOfBounds

namespace Client

/-- The message of `first_message`, once the buffers are filled. -/
def loginMessage (mem : MessageMemory) (nameBuffer passwordBuffer : List UInt8) : Except ClientStop (List UInt8) :=
  do
  let nameLen ← strlen nameBuffer
  let passwordLen ← strlen passwordBuffer
  let message := uninitialised mem.message (3 + nameLen + passwordLen + 1)
  let message ← put message 0 [0x01]
  let message ← put message 1 [UInt8.ofNat nameLen]
  let message ← strcpy message 2 nameBuffer
  let message ← put message (2 + nameLen) [UInt8.ofNat passwordLen]
  let message ← strcpy message (nameLen + 3) passwordBuffer
  return message.take (3 + nameLen + passwordLen)

/-- What a pass of the loop of `first_message` sends. The next pass, if the
answer calls for one, starts from what the buffers hold then. -/
def firstMessage (mem : MessageMemory) (args : Socks5Args) (input : List UInt8) : Except ClientStop (List UInt8) :=
  do
  let nameBuffer := uninitialised mem.nameBuffer credentialsSize
  let passwordBuffer := uninitialised mem.passwordBuffer credentialsSize
  match args.users.getD 0 ⟨none, none⟩ with
  | ⟨some name, some pass⟩ =>
    let nameBuffer ← strcpy nameBuffer 0 name
    let nameBuffer ← strcpy nameBuffer 0 pass
    loginMessage mem nameBuffer passwordBuffer
  | _ =>
    let (nameBuffer, input) ← scanf nameBuffer input
    let (passwordBuffer, _) ← scanf passwordBuffer input
    loginMessage mem nameBuffer passwordBuffer

/-- The message that `add_new_user` sends. -/
def addNewUser (mem : MessageMemory) (admin : Bool) (input : List UInt8) : Except ClientStop (List UInt8) := do
  let (nameBuffer, input) ← scanf (uninitialised mem.nameBuffer credentialsSize) input
  let (passwordBuffer, _) ← scanf (uninitialised mem.passwordBuffer credentialsSize) input
  let nameLen := (cString nameBuffer).length
  let passwordLen := (cString passwordBuffer).length
  let message := uninitialised mem.message (7 + nameLen + passwordLen)
  let message ← put message 0 [0x01]
  let message ← put message 1 [0x00]
  let message ← put message 2 [if admin then 0x01 else 0x00]
  let message ← put message 3 [UInt8.ofNat (nameLen + 1)]
  let message ← strcpy message 4 nameBuffer
  let message ← put message (4 + nameLen + 1) [UInt8.ofNat (passwordLen + 1)]
  strcpy message (nameLen + 6) passwordBuffer

/-- The message that `remove_user` sends. -/
def removeUser (mem : MessageMemory) (input : List UInt8) : Except ClientStop (List UInt8) := do
  let (nameBuffer, _) ← scanf (uninitialised mem.nameBuffer credentialsSize) input
  let nameLen := (cString nameBuffer).length
  let message := uninitialised mem.message (4 + nameLen)
  let message ← put message 0 [0x01]
  let message ← put message 1 [0x01]
  let message ← put message 2 [UInt8.ofNat (nameLen + 1)]
  strcpy message 3 nameBuffer

/-- The message that `modify_user` sends. -/
def modifyUser (mem : MessageMemory) (input : List UInt8) : Except ClientStop (List UInt8) := do
  let (nameBuffer, input) ← scanf (uninitialised mem.nameBuffer credentialsSize) input
  let (passwordBuffer, _) ← scanf (uninitialised mem.passwordBuffer credentialsSize) input
  let nameLen := (cString nameBuffer).length
  let passwordLen := (cString passwordBuffer).length
  let message := uninitialised mem.message (6 + nameLen + passwordLen)
  let message ← put message 0 [0x01]
  let message ← put message 1 [0x02]
  let message ← put message 2 [UInt8.ofNat (nameLen + 1)]
  let message ← strcpy message 3 nameBuffer
  let message ← put message (3 + nameLen + 1) [UInt8.ofNat (passwordLen + 1)]
  strcpy message (nameLen + 5) passwordBuffer

end Client

end SocksProxy
