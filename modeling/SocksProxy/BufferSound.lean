import SocksProxy.BufferPtr

/-!
# The buffer is a bounded queue

The pointers refine the block with two offsets (`Points`), which refines a
bounded queue (`Holds`): what is unread is the queue, and what can be written is
its room. A history of operations refines the history of the queue.
-/

namespace SocksProxy

open Lib

/-! ## The block with two offsets is a queue -/

section
variable {n : Nat} {b : Buffer} {q : Fifo UInt8 n}

structure Holds (b : Buffer) (q : Fifo UInt8 n) : Prop where
  limit : b.limit = n
  items : b.unread = q.items
  room : bufferWritePtr b = q.room

theorem holds_init (l : List UInt8) : Holds (bufferInit l) (Fifo.empty UInt8 l.length) :=
  ⟨rfl, unread_init l, rfl⟩

theorem holds_reset (h : Holds b q) : Holds (bufferReset b) (Fifo.empty UInt8 n) :=
  ⟨h.limit, unread_reset b, h.limit⟩

theorem writePtr_compact (b : Buffer) : bufferWritePtr (bufferCompact b) = b.limit - b.unread.length := by
  have hread : (bufferCompact b).read = 0 := by
    unfold bufferCompact
    split
    · assumption
    · split
      · rfl
      · rfl
  have hunread := length_unread (bufferCompact b)
  rw [hread, Nat.sub_zero, unread_compact] at hunread
  rw [bufferWritePtr, limit_compact, hunread]

theorem holds_compact (h : Holds b q) : Holds (bufferCompact b) q.settle := by
  refine ⟨(limit_compact b).trans h.limit, (unread_compact b).trans h.items, ?_⟩
  rw [writePtr_compact, h.limit, h.items]
  rfl

theorem holds_readAdv (h : Holds b q) {k : Nat} (hk : k ≤ b.unread.length) :
    Holds (bufferReadAdv b k hk) (q.drop k) := by
  refine ⟨(limit_readAdv b k hk).trans h.limit, (unread_readAdv b k hk).trans (by rw [h.items]; rfl), ?_⟩
  have hlen : q.items.length = b.write - b.read := by rw [← h.items, length_unread]
  rw [h.items] at hk
  have := b.read_le
  change _ = if q.items.length ≤ k then n else q.room
  unfold bufferReadAdv
  by_cases hall : b.read + k = b.write
  · -- what is left is nothing, and compacting frees the block
    simp only [hall, if_true]
    rw [if_pos (by omega), writePtr_compact, length_unread, Nat.sub_self, Nat.sub_zero]
    exact h.limit
  · simp only [hall, if_false]
    rw [if_neg (by omega)]
    exact h.room

/-- A store through the write pointer of which the first `k` bytes count. -/
def bufferPokeAdv (b : Buffer) (l : Chunk (bufferWritePtr b)) (k : Nat) (hk : k ≤ l.1.length) : Buffer :=
  bufferWriteAdv (bufferPoke b l) k (by rw [writePtr_poke]; exact Nat.le_trans hk l.2)

theorem unread_pokeAdv (b : Buffer) (l : Chunk (bufferWritePtr b)) (k : Nat) (hk : k ≤ l.1.length) :
    (bufferPokeAdv b l k hk).unread = b.unread ++ l.1.take k := by
  have hr := b.read_le
  have hfill := unread_fill b l
  have hsub : (bufferPokeAdv b l k hk).unread = (bufferFill b l).unread.take (b.write + k - b.read) := by
    change ((bufferPoke b l).data.drop b.read).take (b.write + k - b.read) =
      (((bufferPoke b l).data.drop b.read).take (b.write + l.1.length - b.read)).take (b.write + k - b.read)
    rw [List.take_take, Nat.min_eq_left (by omega)]
  have hcount : b.write + k - b.read = b.unread.length + k := by
    rw [length_unread]
    omega
  rw [hsub, hfill, hcount, List.take_length_add_append]

theorem holds_pokeAdv (h : Holds b q) (l : Chunk (bufferWritePtr b)) (k : Nat) (hk : k ≤ l.1.length) :
    Holds (bufferPokeAdv b l k hk) (q.append (l.1.take k)) := by
  have hl : (l.1.take k).length ≤ q.room := by
    rw [← h.room, List.length_take]
    exact Nat.le_trans (Nat.min_le_right _ _) l.2
  refine ⟨(limit_poke b l).trans h.limit, ?_, ?_⟩
  · rw [unread_pokeAdv, h.items]
    change _ = q.items ++ (l.1.take k).take q.room
    rw [List.take_of_length_le hl]
  · have hroom := h.room
    have hlimit : (bufferPokeAdv b l k hk).limit = b.limit := limit_poke b l
    change (bufferPokeAdv b l k hk).limit - (b.write + k) = q.room - (l.1.take k).length
    rw [hlimit, List.length_take, Nat.min_eq_left hk, ← hroom, bufferWritePtr, Nat.sub_sub]

end

/-! ## The pointers are the block with two offsets -/

structure Points (p : BufferPtr) (b : Buffer) : Prop where
  limit : p.limit = p.data + b.limit
  read : p.read = p.data + b.read
  write : p.write = p.data + b.write
  bytes : b.data = block p.mem p.data b.limit

section
variable {p : BufferPtr} {b : Buffer}

theorem points_init (p : BufferPtr) (n data : Nat) :
    Points (p.bufferInit n data) (bufferInit (block p.mem data n)) := by
  have hlimit : (bufferInit (block p.mem data n)).limit = n := length_block _ _ _
  exact ⟨by rw [hlimit]; rfl, rfl, rfl, by rw [hlimit]; rfl⟩

theorem points_reset (h : Points p b) : Points p.bufferReset (bufferReset b) := ⟨h.limit, rfl, rfl, h.bytes⟩

theorem points_canRead (h : Points p b) : p.bufferCanRead = bufferCanRead b := by
  have := b.read_le
  rw [BufferPtr.bufferCanRead, bufferCanRead, decide_eq_decide, h.read, h.write]
  omega

theorem points_canWrite (h : Points p b) : p.bufferCanWrite = bufferCanWrite b := by
  have := b.write_le
  rw [BufferPtr.bufferCanWrite, bufferCanWrite, decide_eq_decide, h.limit, h.write]
  unfold Buffer.limit
  omega

theorem points_writePtr (h : Points p b) : p.bufferWritePtr = .ok (bufferWritePtr b) := by
  have hle : p.write ≤ p.limit := by
    rw [h.write, h.limit]
    exact Nat.add_le_add_left b.write_le _
  rw [BufferPtr.bufferWritePtr, if_pos hle, h.write, h.limit, Nat.add_sub_add_left]
  rfl

theorem points_readPtr (h : Points p b) : p.bufferReadPtr = .ok b.unread.length := by
  have hle : p.read ≤ p.write := by
    rw [h.read, h.write]
    exact Nat.add_le_add_left b.read_le _
  rw [BufferPtr.bufferReadPtr, if_pos hle, h.read, h.write, Nat.add_sub_add_left, length_unread]

/-- What is unread is what lies between the two pointers. -/
theorem points_unread (h : Points p b) : b.unread = p.unread := by
  have hw := b.write_le
  unfold BufferPtr.unread
  rw [Buffer.unread, bufferReadPtr, h.bytes, drop_block, take_block _ _ (by unfold Buffer.limit; omega), h.read,
    h.write, Nat.add_sub_add_left]

/-- Moving what is unread to the front is what `memmove` does. -/
theorem points_compact (h : Points p b) : Points p.bufferCompact (bufferCompact b) := by
  have hw := b.write_le
  have hr := b.read_le
  have hunread := points_unread h
  unfold BufferPtr.bufferCompact bufferCompact
  by_cases h0 : b.read = 0
  · rw [if_pos h0, if_pos (by rw [h.read, h0, Nat.add_zero])]
    exact h
  · rw [if_neg h0, if_neg (by rw [h.read]; omega)]
    by_cases heq : b.read = b.write
    · rw [if_pos heq, if_pos (by rw [h.read, h.write, heq])]
      exact points_reset h
    · rw [if_neg heq, if_neg (by rw [h.read, h.write]; omega)]
      have hn : p.write - p.read = b.write - b.read := by rw [h.read, h.write, Nat.add_sub_add_left]
      have hlimit : (bufferReadPtr b ++ b.data.drop (b.write - b.read)).length = b.limit := by
        rw [List.length_append, List.length_drop, ← Buffer.unread, length_unread, Buffer.limit]
        omega
      refine ⟨?_, rfl, ?_, ?_⟩
      · exact h.limit.trans (congrArg (p.data + ·) hlimit.symm)
      · exact congrArg (p.data + ·) hn
      · have hstore := block_store p.mem p.data 0 b.limit (block p.mem p.read (p.write - p.read))
          (by rw [length_block, hn, Buffer.limit]; omega)
        rw [List.take_zero, List.nil_append, length_block, Nat.zero_add, ← h.bytes, hn] at hstore
        change bufferReadPtr b ++ b.data.drop (b.write - b.read) =
          block (move p.mem p.data p.read (p.write - p.read)) p.data
            (bufferReadPtr b ++ b.data.drop (b.write - b.read)).length
        rw [hlimit, move, ← Buffer.unread, hunread, BufferPtr.unread, hn]
        exact hstore.symm

theorem points_readAdv (h : Points p b) {bytes : Int} (hb : bytes > -1) (hk : bytes.toNat ≤ b.unread.length) :
    ∃ p', p.bufferReadAdv bytes = .ok p' ∧ Points p' (bufferReadAdv b bytes.toNat hk) := by
  have hlen := length_unread b
  have hr := b.read_le
  have hmoved : Points { p with read := p.read + bytes.toNat }
      { b with read := b.read + bytes.toNat, read_le := by omega } :=
    ⟨h.limit, by rw [h.read, Nat.add_assoc], h.write, h.bytes⟩
  have hle : p.read + bytes.toNat ≤ p.write := by
    rw [h.read, h.write]
    omega
  unfold BufferPtr.bufferReadAdv bufferReadAdv
  rw [if_pos hb]
  dsimp only
  rw [if_pos hle]
  refine ⟨_, rfl, ?_⟩
  by_cases hall : b.read + bytes.toNat = b.write
  · rw [if_pos hall, if_pos (by rw [h.read, h.write]; omega)]
    exact points_compact hmoved
  · rw [if_neg hall, if_neg (by rw [h.read, h.write]; omega)]
    exact hmoved

theorem points_pokeAdv (h : Points p b) (l : Chunk (bufferWritePtr b)) {k : Nat} (hk : k ≤ l.1.length) :
    Points { p with mem := store p.mem p.write l.1, write := p.write + k } (bufferPokeAdv b l k hk) := by
  have hl := l.2
  have hw := b.write_le
  have hroom : b.write + l.1.length ≤ b.limit := by
    unfold bufferWritePtr at hl
    unfold Buffer.limit at hl ⊢
    omega
  have hlimit : (bufferPokeAdv b l k hk).limit = b.limit := limit_poke b l
  refine ⟨?_, h.read, ?_, ?_⟩
  · rw [hlimit]
    exact h.limit
  · change p.write + k = p.data + (b.write + k)
    rw [h.write, Nat.add_assoc]
  · rw [hlimit, h.write, block_store _ _ _ _ _ hroom, ← h.bytes]
    rfl

end

/-! ## Operations and histories -/

/-- What an operation does to the queue. -/
def BufferOp.enqueue {n : Nat} (q : Fifo UInt8 n) : BufferOp → Fifo UInt8 n
  | .write c => q.append [c]
  | .read => q.drop 1
  | .fill l bytes => q.append (l.take bytes.toNat)
  | .readAdv bytes => q.drop bytes.toNat
  | .compact => q.settle
  | .reset => Fifo.empty UInt8 n

section
variable {n : Nat} {p : BufferPtr} {q : Fifo UInt8 n}

/-- The pointers refine the queue: they are in order, the queue lies between the
read and the write pointer, and its room after that. -/
structure RefinesQueue (p : BufferPtr) (q : Fifo UInt8 n) : Prop where
  data_le : p.data ≤ p.read
  read_le : p.read ≤ p.write
  write_le : p.write ≤ p.limit
  limit : p.limit = p.data + n
  items : p.unread = q.items
  room : p.limit - p.write = q.room

/-- The block with two offsets stands between the pointers and the queue. -/
def Models (p : BufferPtr) (q : Fifo UInt8 n) : Prop := ∃ b, Points p b ∧ Holds b q

theorem refinesQueue_of_models (h : Models p q) : RefinesQueue p q := by
  obtain ⟨b, hp, hq⟩ := h
  have hr := b.read_le
  have hw := b.write_le
  have hlimit := hq.limit
  refine ⟨?_, ?_, ?_, ?_, ?_, ?_⟩
  · rw [hp.read]
    exact Nat.le_add_right _ _
  · rw [hp.read, hp.write]
    exact Nat.add_le_add_left hr _
  · rw [hp.write, hp.limit]
    exact Nat.add_le_add_left hw _
  · rw [hp.limit, hlimit]
  · rw [← points_unread hp, hq.items]
  · rw [← hq.room, hp.limit, hp.write, Nat.add_sub_add_left]
    rfl

theorem models_init (p : BufferPtr) (n data : Nat) : Models (p.bufferInit n data) (Fifo.empty UInt8 n) := by
  have hholds := holds_init (block p.mem data n)
  rw [length_block] at hholds
  exact ⟨_, points_init p n data, hholds⟩

theorem models_readAdv (h : Models p q) (bytes : Int) (hk : bytes ≤ q.items.length) :
    ∃ p', p.bufferReadAdv bytes = .ok p' ∧ Models p' (q.drop bytes.toNat) := by
  obtain ⟨b, hp, hq⟩ := h
  by_cases hb : bytes > -1
  · have hcount : bytes.toNat ≤ b.unread.length := by
      rw [hq.items]
      omega
    obtain ⟨p', hstep, hp'⟩ := points_readAdv hp hb hcount
    exact ⟨p', hstep, _, hp', holds_readAdv hq hcount⟩
  · have hzero : bytes.toNat = 0 := by omega
    rw [hzero, Fifo.drop_zero]
    exact ⟨p, if_neg hb, b, hp, hq⟩

theorem models_fill (h : Models p q) (l : List UInt8) (bytes : Int) (hl : l.length ≤ q.room)
    (hk : bytes ≤ l.length) :
    ∃ p', BufferPtr.bufferWriteAdv { p with mem := store p.mem p.write l } bytes = .ok p' ∧
      Models p' (q.append (l.take bytes.toNat)) := by
  obtain ⟨b, hp, hq⟩ := h
  have hl' : l.length ≤ bufferWritePtr b := by
    rw [hq.room]
    exact hl
  by_cases hb : bytes > -1
  · have hcount : bytes.toNat ≤ l.length := by omega
    have hp' := points_pokeAdv hp ⟨l, hl'⟩ hcount
    have hle : p.write + bytes.toNat ≤ p.limit := by
      have := (bufferPokeAdv b ⟨l, hl'⟩ bytes.toNat hcount).write_le
      have hlimit : p.limit = p.data + _ := hp'.limit
      have hwrite : p.write + bytes.toNat = p.data + _ := hp'.write
      rw [hlimit, hwrite]
      exact Nat.add_le_add_left this _
    refine ⟨_, ?_, _, hp', holds_pokeAdv hq ⟨l, hl'⟩ _ hcount⟩
    unfold BufferPtr.bufferWriteAdv
    rw [if_pos hb]
    exact if_pos hle
  · -- what was stored does not count
    have hzero : bytes.toNat = 0 := by omega
    rw [hzero]
    exact ⟨_, if_neg hb, _, points_pokeAdv hp ⟨l, hl'⟩ (Nat.zero_le _), holds_pokeAdv hq ⟨l, hl'⟩ 0 (Nat.zero_le _)⟩

theorem canWrite_of_models (h : Models p q) : p.bufferCanWrite = decide (0 < q.room) := by
  obtain ⟨b, hp, hq⟩ := h
  rw [points_canWrite hp, ← hq.room]
  rfl

theorem canRead_of_models (h : Models p q) : p.bufferCanRead = decide (q.items ≠ []) := by
  obtain ⟨b, hp, hq⟩ := h
  rw [points_canRead hp, Bool.eq_iff_iff, canRead_iff, hq.items, decide_eq_true_eq]

/-- A byte that finds no room is dropped, and the buffer is as it was. -/
theorem models_write (h : Models p q) (c : UInt8) :
    ∃ p', p.bufferWrite c = .ok p' ∧ Models p' (q.append [c]) ∧ (q.room = 0 → p' = p) := by
  have hcan := canWrite_of_models h
  unfold BufferPtr.bufferWrite
  by_cases hroom : 0 < q.room
  · rw [hcan, if_pos (decide_eq_true hroom)]
    obtain ⟨p', hstep, hp'⟩ := models_fill h [c] 1 hroom (by simp)
    exact ⟨p', hstep, hp', fun hz => absurd hroom (by omega)⟩
  · have hz : q.room = 0 := by omega
    rw [hcan, if_neg (by simp [hroom]), Fifo.append_full hz]
    exact ⟨p, rfl, h, fun _ => rfl⟩

/-- A read gives the first byte, and 0 when there is none. -/
theorem models_read (h : Models p q) :
    ∃ p', p.bufferRead = .ok (q.items.headD 0, p') ∧ Models p' (q.drop 1) := by
  have hcan := canRead_of_models h
  unfold BufferPtr.bufferRead
  cases hitems : q.items with
  | nil =>
    rw [hcan, if_neg (by simp [hitems]), Fifo.drop_empty hitems]
    exact ⟨p, rfl, h⟩
  | cons c rest =>
    obtain ⟨p', hstep, hp'⟩ := models_readAdv h 1 (by rw [hitems, List.length_cons]; omega)
    have hfirst : p.mem p.read = c := block_cons ((refinesQueue_of_models h).items.trans hitems)
    rw [hcan, if_pos (by simp [hitems]), hstep, hfirst]
    exact ⟨p', rfl, hp'⟩

theorem models_step (h : Models p q) {op : BufferOp} (hop : p.inCount op = true) :
    ∃ p', p.step op = .ok p' ∧ Models p' (op.enqueue q) := by
  cases op with
  | write c =>
    obtain ⟨p', hstep, hp', -⟩ := models_write h c
    exact ⟨p', hstep, hp'⟩
  | read =>
    obtain ⟨p', hstep, hp'⟩ := models_read h
    exact ⟨p', by unfold BufferPtr.step; rw [hstep]; rfl, hp'⟩
  | fill l bytes =>
    obtain ⟨b, hp, hq⟩ := h
    unfold BufferPtr.inCount at hop
    rw [points_writePtr hp, hq.room] at hop
    obtain ⟨hl, hb⟩ := of_decide_eq_true hop
    exact models_fill ⟨b, hp, hq⟩ l bytes hl hb
  | readAdv bytes =>
    obtain ⟨b, hp, hq⟩ := h
    unfold BufferPtr.inCount at hop
    rw [points_readPtr hp, hq.items] at hop
    exact models_readAdv ⟨b, hp, hq⟩ bytes (of_decide_eq_true hop)
  | compact =>
    obtain ⟨b, hp, hq⟩ := h
    exact ⟨_, rfl, _, points_compact hp, holds_compact hq⟩
  | reset =>
    obtain ⟨b, hp, hq⟩ := h
    exact ⟨_, rfl, _, points_reset hp, holds_reset hq⟩

theorem models_run (h : Models p q) {ops : List BufferOp}
    (hops : Along BufferPtr.step (fun p op => p.inCount op = true) p ops) :
    ∃ p', run BufferPtr.step p ops = .ok p' ∧ Models p' (ops.foldl BufferOp.enqueue q) := by
  induction ops generalizing p q with
  | nil => exact ⟨p, rfl, h⟩
  | cons op ops ih =>
    obtain ⟨p₁, hstep, h₁⟩ := models_step h hops.1
    obtain ⟨p', hrun, hp'⟩ := ih h₁ (hops.2 p₁ hstep)
    exact ⟨p', (run_cons_of_ok ops hstep).trans hrun, hp'⟩

/-- Every history of operations within the counts runs without a failed
assertion, and leaves pointers that refine the queue of the same history;
compacting them keeps what is unread, a read gives the first byte, an empty
buffer gives 0 and has all its capacity free, and one that cannot be written
drops the byte and can be read. -/
theorem buffer_refinesQueue (p : BufferPtr) {n : Nat} (hn : 1 ≤ n) (data : Nat) {ops : List BufferOp}
    (hops : Along BufferPtr.step (fun p op => p.inCount op = true) (p.bufferInit n data) ops) :
    ∃ p', ∃ q : Fifo UInt8 n, run BufferPtr.step (p.bufferInit n data) ops = .ok p' ∧
      ops.foldl BufferOp.enqueue (Fifo.empty UInt8 n) = q ∧ RefinesQueue p' q ∧
      p'.bufferCompact.unread = p'.unread ∧
      (p'.bufferRead).map Prod.fst = .ok (q.items.headD 0) ∧
      (p'.bufferCanRead = false → p'.bufferRead = .ok (0, p') ∧ p'.bufferWritePtr = .ok n) ∧
      (p'.bufferCanWrite = false → p'.bufferCanRead = true ∧ ∀ c, p'.bufferWrite c = .ok p') := by
  obtain ⟨p', hrun, hp'⟩ := models_run (models_init p n data) hops
  generalize hq : ops.foldl BufferOp.enqueue (Fifo.empty UInt8 n) = q at hp'
  have hrefines := refinesQueue_of_models hp'
  refine ⟨p', q, hrun, rfl, hrefines, ?_, ?_, fun hempty => ⟨?_, ?_⟩, fun hfull => ⟨?_, fun c => ?_⟩⟩
  · obtain ⟨b, hp, -⟩ := hp'
    rw [← points_unread (points_compact hp), unread_compact, points_unread hp]
  · obtain ⟨p'', hread, -⟩ := models_read hp'
    rw [hread]
    rfl
  · unfold BufferPtr.bufferRead
    rw [hempty, if_neg Bool.false_ne_true]
  · rw [canRead_of_models hp', decide_eq_false_iff_not, not_not] at hempty
    obtain ⟨b, hp, hq'⟩ := hp'
    rw [points_writePtr hp, hq'.room, q.free hempty]
  · rw [canWrite_of_models hp', decide_eq_false_iff_not, Nat.not_lt, Nat.le_zero] at hfull
    rw [canRead_of_models hp']
    exact decide_eq_true (Fifo.ne_nil_of_full hn hfull)
  · unfold BufferPtr.bufferWrite
    rw [hfull, if_neg Bool.false_ne_true]

end

/-- The drawing of `buffer.h`, up to the compaction. -/
def drawnOps : List BufferOp :=
  [.fill [72, 79, 76, 65] 4, .read, .read, .read, .fill [32, 77] 2, .compact]

theorem buffer_refinesQueue_drawn : ∃ p',
    run BufferPtr.step ((⟨fun _ => 0, 0, 0, 0, 0⟩ : BufferPtr).bufferInit 6 100) drawnOps = .ok p' ∧
      p'.unread = [65, 32, 77] ∧ p'.limit - p'.write = 3 := by
  obtain ⟨p', q, hrun, hq, hrefines, -⟩ :=
    @buffer_refinesQueue ⟨fun _ => 0, 0, 0, 0, 0⟩ 6 (by decide) 100 drawnOps (by decide +kernel)
  subst hq
  exact ⟨p', hrun, hrefines.items, hrefines.room⟩

end SocksProxy
