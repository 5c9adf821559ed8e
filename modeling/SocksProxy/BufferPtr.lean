import SocksProxy.Lib.Block
import SocksProxy.Lib.Fifo
import SocksProxy.Lib.Run
import SocksProxy.Buffer

/-!
# The I/O buffer with its pointers (`buffer.c`)

The functions of `buffer.c` over a memory and four addresses, assertions
included. `SocksProxy.Buffer` is this buffer seen as a block with two offsets.
-/

namespace SocksProxy

open Lib

/-- `struct buffer`, and the memory it points into. -/
structure BufferPtr where
  mem : Nat → UInt8
  data : Nat
  limit : Nat
  read : Nat
  write : Nat

inductive BufferFault where
  | assertFailed
  deriving DecidableEq, Repr

namespace BufferPtr

/-- The bytes between the two pointers. -/
def unread (b : BufferPtr) : List UInt8 := block b.mem b.read (b.write - b.read)

def bufferReset (b : BufferPtr) : BufferPtr := { b with read := b.data, write := b.data }

def bufferInit (b : BufferPtr) (n data : Nat) : BufferPtr :=
  let b := { b with data := data }
  let b := b.bufferReset
  { b with limit := b.data + n }

def bufferCanWrite (b : BufferPtr) : Bool := decide ((b.limit : Int) - b.write > 0)

/-- The count of `buffer_write_ptr`; the pointer is `write`. -/
def bufferWritePtr (b : BufferPtr) : Except BufferFault Nat :=
  if b.write ≤ b.limit then .ok (b.limit - b.write) else .error .assertFailed

def bufferCanRead (b : BufferPtr) : Bool := decide ((b.write : Int) - b.read > 0)

/-- The count of `buffer_read_ptr`; the pointer is `read`. -/
def bufferReadPtr (b : BufferPtr) : Except BufferFault Nat :=
  if b.read ≤ b.write then .ok (b.write - b.read) else .error .assertFailed

def bufferWriteAdv (b : BufferPtr) (bytes : Int) : Except BufferFault BufferPtr :=
  if bytes > -1 then
    let b := { b with write := b.write + bytes.toNat }
    if b.write ≤ b.limit then .ok b else .error .assertFailed
  else .ok b

def bufferCompact (b : BufferPtr) : BufferPtr :=
  if b.data = b.read then b
  else if b.read = b.write then { b with read := b.data, write := b.data }
  else
    let n := b.write - b.read
    { b with mem := move b.mem b.data b.read n, read := b.data, write := b.data + n }

def bufferReadAdv (b : BufferPtr) (bytes : Int) : Except BufferFault BufferPtr :=
  if bytes > -1 then
    let b := { b with read := b.read + bytes.toNat }
    if b.read ≤ b.write then .ok (if b.read = b.write then b.bufferCompact else b) else .error .assertFailed
  else .ok b

def bufferRead (b : BufferPtr) : Except BufferFault (UInt8 × BufferPtr) :=
  if b.bufferCanRead then do
    let ret := b.mem b.read
    let b ← b.bufferReadAdv 1
    return (ret, b)
  else .ok (0, b)

def bufferWrite (b : BufferPtr) (c : UInt8) : Except BufferFault BufferPtr :=
  if b.bufferCanWrite then
    let b := { b with mem := store b.mem b.write [c] }
    b.bufferWriteAdv 1
  else .ok b

end BufferPtr

/-- What is done with a buffer. `fill` stores `l` where `buffer_write_ptr` points
to and advances by `bytes`, which is negative after a failed `recv`. -/
inductive BufferOp where
  | write (c : UInt8)
  | read
  | fill (l : List UInt8) (bytes : Int)
  | readAdv (bytes : Int)
  | compact
  | reset
  deriving DecidableEq, Repr

namespace BufferPtr

def step (b : BufferPtr) : BufferOp → Except BufferFault BufferPtr
  | .write c => b.bufferWrite c
  | .read => (b.bufferRead).map Prod.snd
  | .fill l bytes => bufferWriteAdv { b with mem := store b.mem b.write l } bytes
  | .readAdv bytes => b.bufferReadAdv bytes
  | .compact => .ok b.bufferCompact
  | .reset => .ok b.bufferReset

/-- What callers keep to: they store and advance within the counts they were given. -/
def inCount (b : BufferPtr) : BufferOp → Bool
  | .fill l bytes => b.bufferWritePtr.toOption.any fun count => decide (l.length ≤ count ∧ bytes ≤ l.length)
  | .readAdv bytes => b.bufferReadPtr.toOption.any fun count => decide (bytes ≤ count)
  | _ => true

end BufferPtr

end SocksProxy
