import SocksProxy.Parser.AuthParser
import SocksProxy.Parser.HelloParser
import SocksProxy.Parser.PrawtosParser
import SocksProxy.Parser.RequestParser

/-!
# Streams in chunks

However a stream is cut, consuming it chunk by chunk until the parser is done
is consuming it at once: a call that does not make the parser done drains the
buffer, which then has its whole block free for the next chunk.
-/

namespace SocksProxy

open Lib

section
variable {P : Type*} (feed : P → UInt8 → P) (isDone : P → Bool × Bool)

/-- A byte is fed, and the test whether the parser is done raises the flag. -/
def feedErrored (p : P × Bool) (c : UInt8) : P × Bool := (feed p.1 c, p.2 || (isDone (feed p.1 c)).2)

def stopsErrored (p : P × Bool) : Bool := (isDone p.1).1

/-- The consume loop with the flag it raises. -/
def consumeErrored (b : Buffer) (p : P) (errored : Bool) : Buffer × (P × Bool) :=
  consume (feedErrored feed isDone) (stopsErrored isDone) b (p, errored)

/-- The region at the write pointer is filled and the pointer advanced; the
region must have room. -/
def bufferAppend (b : Buffer) (l : List UInt8) : Buffer :=
  if h : l.length ≤ bufferWritePtr b then bufferFill b ⟨l, h⟩ else b

structure ChunkRun (P : Type*) where
  buffer : Buffer
  parser : P
  errored : Bool
  consumed : Nat
  rest : List (List UInt8)

/-- Each chunk is appended and consumed, until the parser is done. -/
def consumeChunks : Buffer → P → Bool → Nat → List (List UInt8) → ChunkRun P
  | b, p, errored, consumed, [] => ⟨b, p, errored, consumed, []⟩
  | b, p, _, consumed, chunk :: chunks =>
    let b := bufferAppend b chunk
    let (b', p', errored) := consumeErrored feed isDone b p false
    let consumed := consumed + (b.unread.length - b'.unread.length)
    if (isDone p').1 then ⟨b', p', errored, consumed, chunks⟩ else consumeChunks b' p' errored consumed chunks

variable {feed isDone}

/-! ## The flag -/

variable (feed) in
theorem feedUntil_errored (hquiet : ∀ p, (isDone p).1 = false → (isDone p).2 = false) (p : P) (e : Bool)
    (l : List UInt8) :
    let s := feedUntil feed (fun p => (isDone p).1) p l
    feedUntil (feedErrored feed isDone) (stopsErrored isDone) (p, e) l =
      ((s.1, e || (!l.isEmpty && (isDone s.1).2)), s.2) := by
  induction l generalizing p e with
  | nil => simp [feedUntil]
  | cons c l ih =>
    cases hd : (isDone (feed p c)).1 with
    | true => simp [feedUntil, feedErrored, stopsErrored, hd]
    | false =>
      have hq := hquiet _ hd
      have ih := ih (feed p c) e
      simp only [feedUntil, feedErrored, stopsErrored, hd, hq, Bool.or_false, Bool.false_eq_true, if_false] at ih ⊢
      rw [ih]
      cases l with
      | nil => simp [feedUntil, hq]
      | cons => simp

variable (feed) in
theorem consumeErrored_spec (hquiet : ∀ p, (isDone p).1 = false → (isDone p).2 = false) (b : Buffer) (p : P) :
    let s := feedUntil feed (fun p => (isDone p).1) p b.unread
    (consumeErrored feed isDone b p false).2 = (s.1, !b.unread.isEmpty && (isDone s.1).2) ∧
      (consumeErrored feed isDone b p false).1.unread = s.2 ∧
      (consumeErrored feed isDone b p false).1.limit = b.limit := by
  obtain ⟨h1, h2, h3⟩ := consume_spec (feedErrored feed isDone) (stopsErrored isDone) b (p, false)
  have hs := feedUntil_errored feed hquiet p false b.unread
  rw [hs] at h1 h2
  simp only [Bool.false_or] at h1
  exact ⟨h1, h2, h3⟩

/-! ## Chunks -/

theorem append_drained {b : Buffer} {l : List UInt8} (hu : b.unread = []) (hr : Rewound b)
    (hl : l.length ≤ b.limit) :
    (bufferAppend b l).unread = l ∧ (bufferAppend b l).limit = b.limit ∧ Rewound (bufferAppend b l) := by
  have hroom : l.length ≤ bufferWritePtr b := by rw [hr hu]; exact hl
  unfold bufferAppend
  rw [dif_pos hroom]
  exact ⟨by rw [unread_fill, hu, List.nil_append], limit_fill b _, rewound_fill hr _⟩

/-- Chunks that are not empty, and that a drained buffer has room for one after the other. -/
def Fit (b : Buffer) (chunks : List (List UInt8)) : Prop :=
  b.unread = [] ∧ Rewound b ∧ ∀ c ∈ chunks, c ≠ [] ∧ c.length ≤ b.limit

variable (feed) in
theorem consumeChunks_spec (hquiet : ∀ p, (isDone p).1 = false → (isDone p).2 = false) :
    ∀ (chunks : List (List UInt8)) (b : Buffer) (p : P) (e : Bool) (n : Nat), Fit b chunks →
      let r := consumeChunks feed isDone b p e n chunks
      let s := feedUntil feed (fun p => (isDone p).1) p chunks.flatten
      r.parser = s.1 ∧ r.errored = (if chunks = [] then e else (isDone s.1).2) ∧
        r.buffer.unread ++ r.rest.flatten = s.2 ∧ r.consumed = n + (chunks.flatten.length - s.2.length) := by
  intro chunks
  induction chunks with
  | nil =>
    intro b p e n hfit
    obtain ⟨hu, -, -⟩ := hfit
    simp [consumeChunks, feedUntil, hu]
  | cons c chunks ih =>
    intro b p e n hb
    obtain ⟨hu, hr, hfit⟩ := hb
    obtain ⟨hne, hlen⟩ := hfit c List.mem_cons_self
    obtain ⟨hunread, hlimit, hrew⟩ := append_drained hu hr hlen
    obtain ⟨hparser, hleft, hlimit'⟩ := consumeErrored_spec feed hquiet (bufferAppend b c) p
    have hrew' : Rewound (consumeErrored feed isDone (bufferAppend b c) p false).1 :=
      consume_rewound _ _ _ hrew
    have hsome : (!c.isEmpty) = true := by simpa using hne
    rw [hunread] at hparser hleft
    rw [hsome, Bool.true_and] at hparser
    simp only [consumeChunks, hparser, hunread, List.flatten_cons, List.cons_ne_nil, if_false]
    rcases feedUntil_cases feed (fun p => (isDone p).1) p c with ⟨hundone, he⟩ | ⟨u, x, t, rfl, hundone, hd, he⟩
    · -- the chunk is drained, and the rest of the stream goes on from there
      have hd := undone_done hundone hne
      rw [he] at hleft ⊢
      simp only [hd, Bool.false_eq_true, if_false]
      have hfit' : Fit (consumeErrored feed isDone (bufferAppend b c) p false).1 chunks := by
        refine ⟨hleft, hrew', fun c' hc' => ?_⟩
        rw [hlimit', hlimit]
        exact hfit c' (List.mem_cons_of_mem c hc')
      obtain ⟨h1, h2, h3, h4⟩ := ih _ (feedAll feed p c) (isDone (feedAll feed p c)).2
        (n + (c.length - (consumeErrored feed isDone (bufferAppend b c) p false).1.unread.length)) hfit'
      rw [feedUntil_append hundone]
      refine ⟨h1, ?_, h3, ?_⟩
      · rw [h2]
        split
        · rename_i hnil
          rw [hnil]
          rfl
        · rfl
      · have hle : (feedUntil feed (fun p => (isDone p).1) (feedAll feed p c) chunks.flatten).2.length ≤
            chunks.flatten.length := (feedUntil_suffix feed _ _ _).length_le
        rw [h4, hleft, List.length_append, List.length_nil]
        omega
    · -- the parser is done inside the chunk
      rw [he] at hleft ⊢
      have hstop : feedUntil feed (fun p => (isDone p).1) p (u ++ x :: t ++ chunks.flatten) =
          (feedAll feed p (u ++ [x]), t ++ chunks.flatten) := by
        rw [List.append_assoc, List.cons_append]
        rw [feedAll_append] at hd
        exact feedUntil_done hundone hd _
      rw [hstop]
      simp only [hd, if_true]
      refine ⟨trivial, trivial, by rw [hleft], ?_⟩
      simp only [hleft, List.length_append, List.length_cons]
      omega

/-- A run over the chunks of a stream ends as one call on the whole stream. -/
structure SameAsAtOnce (stream : List UInt8) (r : ChunkRun P) (w : Buffer × (P × Bool)) : Prop where
  parser : r.parser = w.2.1
  errored : r.errored = w.2.2
  consumed : r.consumed = stream.length - w.1.unread.length
  left : w.1.unread = stream.drop r.consumed
  unread : r.buffer.unread ++ r.rest.flatten = w.1.unread

variable (feed isDone) in
def Segments (p : P) (b b' : Buffer) (chunks : List (List UInt8)) : Prop :=
  SameAsAtOnce chunks.flatten (consumeChunks feed isDone b p false 0 chunks)
    (consumeErrored feed isDone (bufferAppend b' chunks.flatten) p false)

theorem segments_of_quiet (hquiet : ∀ p, (isDone p).1 = false → (isDone p).2 = false) (p : P)
    {chunks : List (List UInt8)} {b b' : Buffer} (hb : Fit b chunks) (hu : b'.unread = []) (hr : Rewound b')
    (hl : chunks.flatten.length ≤ b'.limit) : Segments feed isDone p b b' chunks := by
  obtain ⟨hparser, herrored, hunread, hconsumed⟩ := consumeChunks_spec feed hquiet chunks b p false 0 hb
  obtain ⟨hw, hleft, _⟩ := consumeErrored_spec feed hquiet (bufferAppend b' chunks.flatten) p
  rw [(append_drained hu hr hl).1] at hw hleft
  -- no chunk is empty, so an empty stream has been cut into nothing
  have hempty : chunks = [] ↔ chunks.flatten = [] := by
    rw [List.flatten_eq_nil_iff]
    constructor
    · rintro rfl _ hc
      cases hc
    · intro hnil
      refine List.eq_nil_iff_forall_not_mem.mpr fun c hc => ?_
      exact (hb.2.2 c hc).1 (hnil c hc)
  constructor
  · rw [hw]
    exact hparser
  · rw [hw, herrored]
    by_cases hc : chunks = []
    · simp [hc]
    · have hsome : chunks.flatten.isEmpty = false := by
        rw [List.isEmpty_eq_false_iff]
        exact fun h => hc (hempty.mpr h)
      simp only [hc, if_false, hsome, Bool.not_false, Bool.true_and]
  · rw [hconsumed, hleft, Nat.zero_add]
  · rw [hconsumed, hleft, Nat.zero_add]
    exact List.suffix_iff_eq_drop.mp (feedUntil_suffix feed _ p chunks.flatten)
  · rw [hunread, hleft]

end

/-! ## The four parsers -/

section
variable {α : Type*} (onAuthenticationMethod : Option (α → UInt8 → α))

/-- Each of the parsers comes to the same state, with the same flag and having
consumed the same bytes, whether a stream is consumed in chunks or at once; the
bytes after the message stay in the buffer and in the chunks that are left. -/
theorem parsers_segment (hp : HelloParser × α) (ap : AuthParser) (rp : RequestParser) (pp : PrawtosParser)
    (chunks : List (List UInt8)) (b b' : Buffer) (hb : Fit b chunks) (hu : b'.unread = []) (hr : Rewound b')
    (hl : chunks.flatten.length ≤ b'.limit) :
    Segments (helloParserFeed onAuthenticationMethod) (fun p => helloIsDone p.1.state) hp b b' chunks ∧
      Segments authParserFeed (fun p => authIsDone p.state) ap b b' chunks ∧
      Segments requestParserFeed (fun p => requestIsDone p.state) rp b b' chunks ∧
      Segments prawtosParserFeed (fun p => prawtosIsDone p.state) pp b b' chunks := by
  refine ⟨?_, ?_, ?_, ?_⟩
  · refine segments_of_quiet ?_ hp hb hu hr hl
    intro p
    cases p.1.state with
    | errorUnsupportedVersion => intro h; cases h
    | _ => exact fun _ => rfl
  · refine segments_of_quiet ?_ ap hb hu hr hl
    intro p
    cases p.state with
    | error | errorUnsupportedVersion => intro h; cases h
    | _ => exact fun _ => rfl
  · refine segments_of_quiet ?_ rp hb hu hr hl
    intro p
    cases p.state with
    | error | errorUnsupportedVersion | errorUnsupportedAtype => intro h; cases h
    | _ => exact fun _ => rfl
  · refine segments_of_quiet ?_ pp hb hu hr hl
    intro p
    cases p.state with
    | error | errorUnsupportedType | errorUnsupportedCmd | errorUnsupportedAdmin => intro h; cases h
    | _ => exact fun _ => rfl

end

/-- A hello in two chunks, with a byte of the next message behind it. -/
theorem parsers_segment_hello :
    Segments (helloParserFeed (some fun ms m => ms ++ [m])) (fun p => helloIsDone p.1.state) (helloParserInit, [])
      (bufferInit [0, 0, 0]) (bufferInit [0, 0, 0, 0]) [[0x05, 0x01], [0x00, 0x05]] :=
  (parsers_segment (some fun ms m => ms ++ [m]) (helloParserInit, []) authParserInit
    ⟨Request.zero, .version, 0, 0⟩ ⟨⟨.zero, 0, 0⟩, 0, ⟨0, 0⟩, 0, .type⟩ [[0x05, 0x01], [0x00, 0x05]]
    (bufferInit [0, 0, 0]) (bufferInit [0, 0, 0, 0])
    ⟨rfl, rewound_init _, by decide⟩ rfl (rewound_init _) (by decide)).1

end SocksProxy
