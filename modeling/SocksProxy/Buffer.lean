import Mathlib.Algebra.Ring.Nat
import Mathlib.Data.List.Basic
import Mathlib.Data.List.TakeDrop
import Mathlib.Tactic.Common

/-!
# The I/O buffer (`buffer.c`)

A block with a read and a write offset. `unread` is what a reader of the
buffer still gets; the lemmas of this file say what each operation does to it
and to the room left, so that nothing later looks at the offsets.
-/

namespace SocksProxy

/-- `struct buffer`: the block from `data` to `limit`, and the two pointers as
offsets into it. -/
structure Buffer where
  data : List UInt8
  read : Nat
  write : Nat
  read_le : read ≤ write
  write_le : write ≤ data.length
  deriving DecidableEq, Repr

/-- At most `n` bytes: what goes into a region of `n` bytes. -/
abbrev Chunk (n : Nat) := { l : List UInt8 // l.length ≤ n }

def Buffer.limit (b : Buffer) : Nat := b.data.length

def bufferReset (b : Buffer) : Buffer :=
  { b with read := 0, write := 0, read_le := Nat.le_refl _, write_le := Nat.zero_le _ }

def bufferInit (data : List UInt8) : Buffer :=
  ⟨data, 0, 0, Nat.le_refl _, Nat.zero_le _⟩

def bufferCanWrite (b : Buffer) : Bool := decide (0 < b.limit - b.write)

/-- The count that `buffer_write_ptr` gives; its pointer is the offset `write`. -/
def bufferWritePtr (b : Buffer) : Nat := b.limit - b.write

def bufferCanRead (b : Buffer) : Bool := decide (0 < b.write - b.read)

/-- The region `buffer_read_ptr` points to, as long as the count it gives. -/
def bufferReadPtr (b : Buffer) : List UInt8 := (b.data.drop b.read).take (b.write - b.read)

/-- A store of `l` through the pointer `buffer_write_ptr` gave. -/
def bufferPoke (b : Buffer) (l : Chunk (bufferWritePtr b)) : Buffer where
  data := b.data.take b.write ++ l.1 ++ b.data.drop (b.write + l.1.length)
  read := b.read
  write := b.write
  read_le := b.read_le
  write_le := by
    have := b.write_le
    simp only [List.length_append, List.length_take]; omega

/-- The bound is the one the C function asserts. -/
def bufferWriteAdv (b : Buffer) (n : Nat) (h : n ≤ bufferWritePtr b) : Buffer :=
  { b with
    write := b.write + n
    read_le := Nat.le_add_right_of_le b.read_le
    write_le := by
      have := b.write_le
      unfold bufferWritePtr Buffer.limit at h; omega }

def bufferCompact (b : Buffer) : Buffer :=
  if b.read = 0 then b
  else if b.read = b.write then bufferReset b
  else
    { data := bufferReadPtr b ++ b.data.drop (b.write - b.read)
      read := 0
      write := b.write - b.read
      read_le := Nat.zero_le _
      write_le := by
        have := b.write_le
        simp only [bufferReadPtr, List.length_append, List.length_take, List.length_drop]; omega }

def bufferReadAdv (b : Buffer) (n : Nat) (h : n ≤ (bufferReadPtr b).length) : Buffer :=
  let b' : Buffer :=
    { b with
      read := b.read + n
      read_le := by
        have := b.read_le
        have := b.write_le
        simp only [bufferReadPtr, List.length_take, List.length_drop] at h; omega }
  if b'.read = b'.write then bufferCompact b' else b'

/-! ## What is unread, and the room left -/

abbrev Buffer.unread (b : Buffer) : List UInt8 := bufferReadPtr b

theorem length_unread (b : Buffer) : b.unread.length = b.write - b.read := by
  have := b.write_le
  simp only [Buffer.unread, bufferReadPtr, List.length_take, List.length_drop]; omega

theorem canRead_iff (b : Buffer) : bufferCanRead b = true ↔ b.unread ≠ [] := by
  rw [← List.length_pos_iff, length_unread, bufferCanRead, decide_eq_true_eq]

theorem canRead_eq_false (b : Buffer) : bufferCanRead b = false ↔ b.unread = [] := by
  rw [← Bool.not_eq_true, canRead_iff, not_not]

theorem canWrite_iff (b : Buffer) : bufferCanWrite b = true ↔ 0 < bufferWritePtr b := by
  rw [bufferCanWrite, bufferWritePtr, decide_eq_true_eq]

@[simp] theorem unread_init (l : List UInt8) : (bufferInit l).unread = [] := by
  simp [Buffer.unread, bufferReadPtr, bufferInit]

@[simp] theorem room_init (l : List UInt8) : bufferWritePtr (bufferInit l) = l.length := rfl

@[simp] theorem unread_reset (b : Buffer) : (bufferReset b).unread = [] := by
  simp [Buffer.unread, bufferReadPtr, bufferReset]

@[simp] theorem limit_poke (b : Buffer) (l : Chunk (bufferWritePtr b)) : (bufferPoke b l).limit = b.limit := by
  have h := l.2
  have := b.write_le
  unfold bufferWritePtr Buffer.limit at h
  simp only [bufferPoke, Buffer.limit, List.length_append, List.length_take, List.length_drop]; omega

@[simp] theorem writePtr_poke (b : Buffer) (l : Chunk (bufferWritePtr b)) :
    bufferWritePtr (bufferPoke b l) = bufferWritePtr b := by
  rw [bufferWritePtr, bufferWritePtr, limit_poke]; rfl

@[simp] theorem unread_compact (b : Buffer) : (bufferCompact b).unread = b.unread := by
  have := b.write_le
  unfold bufferCompact
  split
  · rfl
  · split
    · rename_i h
      rw [unread_reset]
      exact (List.eq_nil_of_length_eq_zero (by rw [length_unread, h, Nat.sub_self])).symm
    · have hl : (bufferReadPtr b).length = b.write - b.read := length_unread b
      conv_lhs => simp only [Buffer.unread, bufferReadPtr, List.drop_zero, Nat.sub_zero]
      exact List.take_left' hl

@[simp] theorem limit_compact (b : Buffer) : (bufferCompact b).limit = b.limit := by
  have := b.write_le
  have := b.read_le
  unfold bufferCompact
  split
  · rfl
  · split
    · rfl
    · simp only [Buffer.limit, bufferReadPtr, List.length_append, List.length_take, List.length_drop]; omega

@[simp] theorem unread_readAdv (b : Buffer) (n : Nat) (h : n ≤ b.unread.length) :
    (bufferReadAdv b n h).unread = b.unread.drop n := by
  have hd : ((b.data.drop (b.read + n)).take (b.write - (b.read + n))) = b.unread.drop n := by
    simp only [Buffer.unread, bufferReadPtr, List.drop_take, List.drop_drop, Nat.sub_sub]
  unfold bufferReadAdv
  simp only
  split
  · rw [unread_compact]; exact hd
  · exact hd

@[simp] theorem limit_readAdv (b : Buffer) (n : Nat) (h : n ≤ b.unread.length) :
    (bufferReadAdv b n h).limit = b.limit := by
  unfold bufferReadAdv
  simp only
  split
  · exact limit_compact _
  · rfl

theorem writePtr_readAdv_all (b : Buffer) (n : Nat) (h : n ≤ b.unread.length) (he : b.unread.drop n = [])
    (hn : b.unread ≠ []) : bufferWritePtr (bufferReadAdv b n h) = b.limit := by
  have hp := length_unread b
  have hpos := List.length_pos_iff.mpr hn
  have hn' : n = b.write - b.read := by
    have := List.drop_eq_nil_iff.mp he; omega
  have hrw : b.read + n = b.write := by omega
  unfold bufferReadAdv
  simp only [hrw, ite_true]
  unfold bufferCompact
  have : ¬ b.write = 0 := by omega
  simp only [this, ite_false, ite_true, bufferReset, bufferWritePtr, Buffer.limit, Nat.sub_zero]

/-! ## Filling

`recv` and the marshalling functions store at the write pointer and then
advance it by what they stored. -/

def bufferFill (b : Buffer) (l : Chunk (bufferWritePtr b)) : Buffer :=
  bufferWriteAdv (bufferPoke b l) l.1.length (by rw [writePtr_poke]; exact l.2)

@[simp] theorem limit_fill (b : Buffer) (l : Chunk (bufferWritePtr b)) : (bufferFill b l).limit = b.limit :=
  limit_poke b l

@[simp] theorem unread_fill (b : Buffer) (l : Chunk (bufferWritePtr b)) :
    (bufferFill b l).unread = b.unread ++ l.1 := by
  have hw := b.write_le
  have hr := b.read_le
  have hl := l.2
  unfold bufferWritePtr Buffer.limit at hl
  have hsub : b.write + l.1.length - b.read = (b.write - b.read) + l.1.length := by omega
  have htake : (b.data.take b.write).length = b.write := by rw [List.length_take]; omega
  have hdrop : ((b.data.take b.write).drop b.read).length = b.write - b.read := by
    rw [List.length_drop, htake]
  simp only [Buffer.unread, bufferReadPtr, bufferFill, bufferWriteAdv, bufferPoke]
  rw [hsub, List.append_assoc, List.drop_append_of_le_length (by omega), ← List.append_assoc,
    List.take_append_of_le_length (by simp only [List.length_append, hdrop]; omega),
    List.take_of_length_le (by simp only [List.length_append, hdrop]; omega), List.drop_take]

theorem writePtr_fill (b : Buffer) (l : Chunk (bufferWritePtr b)) :
    bufferWritePtr (bufferFill b l) = bufferWritePtr b - l.1.length := by
  have h : (bufferFill b l).write = b.write + l.1.length := rfl
  simp only [bufferWritePtr, limit_fill, h, Nat.sub_sub]

/-- What the marshalling functions do: append all of `l` and return its
length, or return -1 if it does not fit. -/
def bufferMarshal (b : Buffer) (l : List UInt8) : Buffer × Int :=
  if h : l.length ≤ bufferWritePtr b then (bufferFill b ⟨l, h⟩, l.length) else (b, -1)

theorem bufferMarshal_fits {b : Buffer} {l : List UInt8} (h : l.length ≤ bufferWritePtr b) :
    bufferMarshal b l = (bufferFill b ⟨l, h⟩, (l.length : Int)) := dif_pos h

theorem bufferMarshal_ok {b : Buffer} {l : List UInt8} (h : (bufferMarshal b l).2 ≠ -1) :
    (bufferMarshal b l).1.unread = b.unread ++ l := by
  unfold bufferMarshal at h ⊢
  split
  · exact unread_fill b _
  · rename_i hno
    simp [hno] at h

@[simp] theorem limit_marshal (b : Buffer) (l : List UInt8) : (bufferMarshal b l).1.limit = b.limit := by
  unfold bufferMarshal
  split
  · exact limit_fill b _
  · rfl

/-! ## One byte at a time -/

def bufferRead (b : Buffer) : UInt8 × Buffer :=
  if h : bufferCanRead b = true then
    (b.data.getD b.read 0, bufferReadAdv b 1 (List.length_pos_iff.mpr ((canRead_iff b).mp h)))
  else (0, b)

def bufferWrite (b : Buffer) (c : UInt8) : Buffer :=
  if h : bufferCanWrite b = true then bufferFill b ⟨[c], (canWrite_iff b).mp h⟩ else b

theorem bufferRead_cons {b : Buffer} {c : UInt8} {l : List UInt8} (h : b.unread = c :: l) :
    (bufferRead b).1 = c ∧ (bufferRead b).2.unread = l ∧ (bufferRead b).2.limit = b.limit := by
  have hc : bufferCanRead b = true := (canRead_iff b).mpr (by rw [h]; exact List.cons_ne_nil _ _)
  unfold bufferRead
  rw [dif_pos hc]
  have h1 : 1 ≤ b.unread.length := List.length_pos_iff.mpr ((canRead_iff b).mp hc)
  refine ⟨?_, by rw [unread_readAdv b 1 h1, h]; rfl, limit_readAdv b 1 h1⟩
  have h0 : b.unread[0]? = some c := by rw [h]; rfl
  have hpos : 0 < b.write - b.read := by rw [← length_unread, h]; exact Nat.succ_pos _
  simp only [Buffer.unread, bufferReadPtr, List.getElem?_take, hpos, ite_true, List.getElem?_drop,
    Nat.add_zero] at h0
  rw [List.getD_eq_getElem?_getD, h0]; rfl

/-! ## Compaction

`buffer_read_adv` compacts a buffer that has been read to its end, so that an
empty buffer always has its whole block free. -/

def Rewound (b : Buffer) : Prop := b.unread = [] → bufferWritePtr b = b.limit

theorem rewound_of_read {b : Buffer} (h : b.read = 0) : Rewound b := by
  intro hu
  have hl := length_unread b
  rw [hu, List.length_nil, h, Nat.sub_zero] at hl
  rw [bufferWritePtr, ← hl, Nat.sub_zero]

theorem rewound_init (l : List UInt8) : Rewound (bufferInit l) := rewound_of_read rfl

theorem rewound_fill {b : Buffer} (h : Rewound b) (l : Chunk (bufferWritePtr b)) : Rewound (bufferFill b l) := by
  intro hu
  rw [unread_fill] at hu
  obtain ⟨hb, hl⟩ := List.append_eq_nil_iff.mp hu
  rw [writePtr_fill, limit_fill, hl, List.length_nil, Nat.sub_zero]
  exact h hb

theorem rewound_compact (b : Buffer) : Rewound (bufferCompact b) := by
  apply rewound_of_read
  unfold bufferCompact
  split
  · assumption
  · split
    · rfl
    · rfl

theorem rewound_readAdv (b : Buffer) (n : Nat) (h : n ≤ b.unread.length) : Rewound (bufferReadAdv b n h) := by
  unfold bufferReadAdv
  simp only
  split
  · exact rewound_compact _
  · rename_i hne
    intro hu
    -- there is something left to read
    have hl := congrArg List.length hu
    rw [length_unread, List.length_nil] at hl
    simp only at hl
    have hb := length_unread b
    have := b.read_le
    omega

theorem rewound_marshal {b : Buffer} (h : Rewound b) (l : List UInt8) : Rewound (bufferMarshal b l).1 := by
  unfold bufferMarshal
  split
  · exact rewound_fill h _
  · exact h

theorem rewound_read {b : Buffer} (h : Rewound b) : Rewound (bufferRead b).2 := by
  unfold bufferRead
  split
  · rename_i hc
    exact rewound_readAdv b 1 (List.length_pos_iff.mpr ((canRead_iff b).mp hc))
  · exact h

theorem canWrite_of_rewound {b : Buffer} (h : Rewound b) (hu : b.unread = []) (hl : 0 < b.limit) :
    bufferCanWrite b = true := by
  rw [canWrite_iff, h hu]; exact hl

end SocksProxy
