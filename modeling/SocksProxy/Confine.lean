import SocksProxy.Lib.Share
import SocksProxy.SessionRun

/-!
# What a session touches

An event on a session makes its calls on descriptors of the session, or on one
it has just been given, and what it does to the process are actions on these
alone (`Moved`). `Confined` is the same of a callback.
-/

namespace SocksProxy

open Lib

/-! ## Actions -/

/-- The handler that a connection is registered with. -/
def Ptr.handler : Ptr → Handler
  | .session _ => .client
  | .prawtos _ => .prawtos

/-- The connection at `d` registers nothing but itself. -/
def Action.By (d : Ptr) : Action → Prop
  | .register h _ p => p = d ∧ h = d.handler
  | _ => True

/-- An action on a descriptor of `own`, or on the counters, by the connection at `d`. -/
def ActsOnce (own : Int → Prop) (d : Ptr) (p q : Process) : Prop :=
  ∃ x a, q = p.act x a ∧ (own x ∨ ∃ s, a = .count s) ∧ a.By d

def Acts (own : Int → Prop) (d : Ptr) : Process → Process → Prop := Relation.ReflTransGen (ActsOnce own d)

section
variable {own own' : Int → Prop} {d : Ptr} {p q : Process}

theorem acts_mono (h : Acts own d p q) (ho : ∀ x, own x → own' x) : Acts own' d p q := by
  refine Relation.ReflTransGen.mono (fun p q hpq => ?_) _ _ h
  obtain ⟨x, a, hq, hx, hd⟩ := hpq
  exact ⟨x, a, hq, hx.imp_left (ho x), hd⟩

theorem acts_once {x : Int} {a : Action} (hx : own x) (hd : a.By d) :
    Acts own d p (p.act x a) :=
  Relation.ReflTransGen.single ⟨x, a, rfl, Or.inl hx, hd⟩

theorem acts_count (s : Stadistics) : Acts own d p { p with stats := s } :=
  Relation.ReflTransGen.single ⟨0, .count s, rfl, Or.inr ⟨s, rfl⟩, trivial⟩

theorem acts_fdSize (h : Acts own d p q) (hp : fdSetsize < p.sel.fdSize) : fdSetsize < q.sel.fdSize := by
  induction h with
  | refl => exact hp
  | tail _ hq ih =>
    obtain ⟨x, a, rfl, -, -⟩ := hq
    exact (act_changedAt ih x a).1 ▸ ih

end

/-! ## A callback -/

/-- The descriptors that a session has been given and not lost since. -/
def Record.Holds (r : Record) (x : Int) : Prop := 0 ≤ x ∧ (x = r.clientFd ∨ x = r.server.fd)

/-- A descriptor named in the session or in the event. -/
def NamedIn (k : Key) (c : Conn) (x : Int) : Prop := x = k.fd ∨ x = c.clientFd ∨ x = c.server.fd

def Mine (k : Key) (c : Conn) (x : Int) : Prop := 0 ≤ x ∧ (NamedIn k c x ∨ x ∉ c.openFds)

/-- The origin's descriptor stays, or a session that has none asks for one, and
what is open then. -/
inductive OriginMoves (c d : Conn) : List Int → Prop
  | stays (same : d.server.fd = c.server.fd) : OriginMoves c d c.openFds
  | fails (none : c.server.fd < 0) (failed : d.server.fd < 0) : OriginMoves c d c.openFds
  | opens (none : c.server.fd < 0) (n : Nat) (fresh : (n : Int) ∉ c.openFds) (fd : d.server.fd = n) :
      OriginMoves c d (n :: c.openFds)

/-- What others can see of a session: its name, its descriptors, the calls it
has made and the process. -/
def Conn.outside (c : Conn) : Nat × Int × Bool × Int × List Syscall × Process :=
  (c.self, c.clientFd, c.freed, c.server.fd, c.log, c.toProcess)

structure Confined (k : Key) (c d : Conn) : Prop where
  self : d.self = c.self
  clientFd : d.clientFd = c.clientFd
  freed : d.freed = c.freed
  origin : OriginMoves c d d.openFds
  log : ∃ l, d.log = c.log ++ l ∧ ∀ s ∈ l, 0 ≤ s.on → Mine k c s.on
  acts : Acts (Mine k c) (.session c.self) c.toProcess d.toProcess

section
variable {k : Key} {c d x : Conn}

theorem originMoves_trans {l l' : List Int} (h : OriginMoves c d l) (hl : d.openFds = l) (h' : OriginMoves d x l') :
    OriginMoves c x l' := by
  subst hl
  generalize ho : d.openFds = l at h
  cases h' with
  | stays same =>
    rw [ho]
    cases h with
    | stays same' => exact .stays (same.trans same')
    | fails none failed => exact .fails none (same ▸ failed)
    | opens none n fresh fd => exact .opens none n fresh (same.trans fd)
  | fails none failed =>
    rw [ho]
    cases h with
    | stays same' => exact .fails (same' ▸ none) failed
    | fails none' failed' => exact .fails none' failed
    | opens none' n fresh fd => omega
  | opens none n fresh fd =>
    rw [ho] at fresh ⊢
    cases h with
    | stays same' => exact .opens (same' ▸ none) n fresh fd
    | fails none' failed' => exact .opens none' n fresh fd
    | opens none' m fresh' fd' => omega

theorem originMoves_opens {l : List Int} (h : OriginMoves c d l) {y : Int} (hy : y ∈ c.openFds) : y ∈ l := by
  cases h with
  | stays | fails => exact hy
  | opens none n fresh fd => exact List.mem_cons_of_mem _ hy

theorem originMoves_cases {l : List Int} (h : OriginMoves c d l) :
    d.server.fd = c.server.fd ∨ d.server.fd < 0 ∨ (d.server.fd ∉ c.openFds ∧ d.server.fd ∈ l) := by
  cases h with
  | stays same => exact Or.inl same
  | fails none failed => exact Or.inr (Or.inl failed)
  | opens none n fresh fd => exact Or.inr (Or.inr ⟨fd ▸ fresh, fd ▸ List.mem_cons_self⟩)

theorem mine_back (h : Confined k c d) {y : Int} (hy : Mine k d y) : Mine k c y := by
  refine ⟨hy.1, ?_⟩
  rcases hy.2 with (he | he | he) | hno
  · exact Or.inl (Or.inl he)
  · exact Or.inl (Or.inr (Or.inl (he.trans h.clientFd)))
  · rcases originMoves_cases h.origin with ho | ho | ⟨ho, -⟩
    · exact Or.inl (Or.inr (Or.inr (he.trans ho)))
    · exact absurd hy.1 (by omega)
    · exact Or.inr (he ▸ ho)
  · exact Or.inr fun hc => hno (originMoves_opens h.origin hc)

theorem confined_trans (h : Confined k c d) (h' : Confined k d x) : Confined k c x where
  self := h'.self.trans h.self
  clientFd := h'.clientFd.trans h.clientFd
  freed := h'.freed.trans h.freed
  origin := originMoves_trans h.origin rfl h'.origin
  log := by
    obtain ⟨l, hl, hon⟩ := h.log
    obtain ⟨l', hl', hon'⟩ := h'.log
    refine ⟨l ++ l', by rw [hl', hl, List.append_assoc], fun s hs hpos => ?_⟩
    rcases List.mem_append.mp hs with hs | hs
    · exact hon s hs hpos
    · exact mine_back h (hon' s hs hpos)
  acts := by
    have hacts := acts_mono h'.acts fun y hy => mine_back h hy
    exact h.acts.trans (h.self ▸ hacts)

/-- No call has been added to the log. -/
theorem log_same (hlog : d.log = c.log) : ∃ l, d.log = c.log ++ l ∧ ∀ s ∈ l, 0 ≤ s.on → Mine k c s.on :=
  ⟨[], by rw [hlog, List.append_nil], fun _ hs => absurd hs List.not_mem_nil⟩

theorem confined_same (h : d.outside = c.outside) : Confined k c d := by
  simp only [Conn.outside, Prod.mk.injEq] at h
  obtain ⟨hself, hclient, hfreed, horigin, hlog, hprocess⟩ := h
  refine ⟨hself, hclient, hfreed, ?_, log_same hlog, ?_⟩
  · rw [hprocess]
    exact .stays horigin
  · exact hprocess ▸ Relation.ReflTransGen.refl

theorem confined_refl (c : Conn) : Confined k c c := confined_same rfl

/-- A call on a descriptor of its own. -/
theorem confined_note {s : Syscall} (hs : NamedIn k c s.on) : Confined k c (c.note s) where
  self := rfl
  clientFd := rfl
  freed := rfl
  origin := .stays rfl
  log := ⟨[s], rfl, fun t ht hpos => by rw [List.mem_singleton] at ht; subst ht; exact ⟨hpos, Or.inl hs⟩⟩
  acts := Relation.ReflTransGen.refl

/-- An action of its own on the selector; on no descriptor it does nothing. -/
theorem confined_sel {y : Int} {a : Action} {sel : Selector Handler Ptr} (hy : NamedIn k c y)
    (hact : c.toProcess.act y a = { c.toProcess with sel := sel }) (hd : a.By (.session c.self))
    (hneg : y < 0 → sel = c.sel) :
    Confined k c { c with sel := sel } := by
  by_cases hpos : 0 ≤ y
  · refine ⟨rfl, rfl, rfl, .stays rfl, log_same rfl, ?_⟩
    · have honce : Acts (Mine k c) (.session c.self) c.toProcess (c.toProcess.act y a) :=
        acts_once ⟨hpos, Or.inl hy⟩ hd
      rwa [hact] at honce
  · rw [hneg (Int.not_le.mp hpos)]
    exact confined_refl c

theorem invalidFd_neg {y : Int} (h : y < 0) : invalidFd y = true := decide_eq_true (Or.inl h)

theorem confined_setInterest {y : Int} (hy : NamedIn k c y) (i : FdInterest) :
    Confined k c (c.setInterest y i).1 := by
  refine confined_sel (a := .setInterest i) hy rfl trivial fun hneg => ?_
  simp only [selectorSetInterest, invalidFd_neg hneg, if_true]

theorem confined_register {y : Int} (hy : NamedIn k c y) (i : FdInterest) :
    Confined k c (c.register y .client i).1 := by
  refine confined_sel (a := .register .client i (.session c.self)) hy rfl ⟨rfl, rfl⟩ fun hneg => ?_
  simp only [selectorRegister, invalidFd_neg hneg, true_or, if_true]

theorem confined_stats (s : Stadistics) : Confined k c { c with stats := s } :=
  ⟨rfl, rfl, rfl, .stays rfl, log_same rfl, acts_count s⟩

/-- The descriptor of a new socket is the origin's from then on. -/
theorem confined_socket (hnone : c.server.fd < 0) (domain : Nat) (answer : Option Nat) :
    Confined k c { (c.socket domain answer).1 with
      request.serverFd := (c.socket domain answer).2, server.fd := (c.socket domain answer).2 } := by
  unfold Conn.socket
  cases hn : c.newFd answer with
  | none =>
    refine ⟨rfl, rfl, rfl, .fails hnone (Int.negSucc_lt_zero 0), ?_, Relation.ReflTransGen.refl⟩
    refine ⟨[.socket domain (-1)], rfl, fun s hs hpos => ?_⟩
    rw [List.mem_singleton] at hs
    subst hs
    exact absurd hpos (Int.not_le.mpr (Int.negSucc_lt_zero 0))
  | some n =>
    have hfree : (n : Int) ∉ c.openFds := by
      obtain ⟨-, hfree⟩ := Option.filter_eq_some_iff.mp hn
      exact of_decide_eq_true hfree
    have hmine : Mine k c (n : Int) := ⟨Int.natCast_nonneg n, Or.inr hfree⟩
    refine ⟨rfl, rfl, rfl, .opens hnone n hfree rfl, ?_, ?_⟩
    · refine ⟨[.socket domain n], rfl, fun s hs _ => ?_⟩
      rw [List.mem_singleton] at hs
      subst hs
      exact hmine
    · have honce : Acts (Mine k c) (.session c.self) c.toProcess (c.toProcess.act (n : Int) .opened) :=
        acts_once hmine trivial
      rwa [Process.act, if_neg hfree] at honce

theorem namedIn_key : NamedIn k c k.fd := Or.inl rfl

theorem namedIn_client : NamedIn k c c.clientFd := Or.inr (Or.inl rfl)

theorem namedIn_origin : NamedIn k c c.server.fd := Or.inr (Or.inr rfl)

theorem namedIn_copyFd (s : Side) : NamedIn k c (c.copyFd s) := by
  cases s with
  | client => exact namedIn_client
  | server => exact namedIn_origin

theorem confined_ite {p : Prop} [Decidable p] {a b : Conn} (ha : Confined k c a) (hb : Confined k c b) :
    Confined k c (if p then a else b) := by
  split
  · exact ha
  · exact hb

end

/-! ## The callbacks -/

section
variable (k : Key) (c : Conn)

theorem helloConsumed_confined : Confined k c (helloConsumed k c).1 := by
  unfold helloConsumed
  simp only
  split
  · have hset := confined_setInterest (c := c) (namedIn_key (k := k)) opWrite
    generalize c.setInterest k.fd opWrite = r at hset
    obtain ⟨c₁, status⟩ := r
    cases status with
    | success => exact confined_trans hset (confined_same rfl)
    | _ => exact hset
  · exact confined_refl c

theorem received_confined (l : Option (List UInt8)) : Confined k c (c.note (.recv k.fd l)) :=
  confined_note namedIn_key

theorem helloRead_confined : Confined k c (helloRead k c).1 := by
  unfold helloRead
  split
  · exact received_confined k c none
  · rename_i l b _
    simp only
    split
    · exact received_confined k c (some l)
    · refine confined_trans ?_ (helloConsumed_confined k _)
      exact confined_trans (received_confined k c (some l)) (confined_same rfl)

/-- An answer is sent, and the interest set when all of it has been. -/
theorem sent_confined (l : List UInt8) (b : Buffer) :
    Confined k c { c.note (.send k.fd (some l)) with output := b } :=
  confined_trans (confined_note namedIn_key) (confined_same rfl)

theorem sentThenRead_confined (l : List UInt8) (b : Buffer) :
    Confined k c (Conn.setInterest { c.note (.send k.fd (some l)) with output := b } k.fd opRead).1 :=
  confined_trans (sent_confined k c l b) (confined_setInterest namedIn_key opRead)

theorem helloWrite_confined : Confined k c (helloWrite k c).1 := by
  unfold helloWrite
  split
  · exact confined_note namedIn_key
  · rename_i l b _
    simp only
    split
    · exact sent_confined k c l b
    · have hset := sentThenRead_confined k c l b
      generalize Conn.setInterest { c.note (.send k.fd (some l)) with output := b } k.fd opRead = r at hset
      obtain ⟨c₁, status⟩ := r
      cases status <;> exact hset

theorem requestWrite_confined : Confined k c (requestWrite k c).1 := by
  unfold requestWrite
  split
  · exact confined_note namedIn_key
  · rename_i l b _
    simp only
    split
    · exact sent_confined k c l b
    · have hset := sentThenRead_confined k c l b
      generalize Conn.setInterest { c.note (.send k.fd (some l)) with output := b } k.fd opRead = r at hset
      obtain ⟨c₁, status⟩ := r
      cases status <;> exact hset

theorem queueReply_confined : Confined k c (queueReply c).1 := confined_same rfl

theorem connectOrigin_confined (fdRegistered : Bool) : Confined k c (connectOrigin k fdRegistered c).1 := by
  unfold connectOrigin
  have hnote : Confined k c (c.note (.connect c.server.fd c.server.address c.server.addressLen k.sys.connect)) :=
    confined_note namedIn_origin
  have hfd : (c.note (.connect c.server.fd c.server.address c.server.addressLen k.sys.connect)).server.fd =
      c.server.fd := rfl
  simp only
  generalize c.note (.connect c.server.fd c.server.address c.server.addressLen k.sys.connect) = c₁ at hnote hfd ⊢
  rw [← hfd]
  split
  · exact hnote
  · rename_i errno _
    split
    · have hset := confined_trans hnote (confined_setInterest (c := c₁) (namedIn_key (k := k)) opNoop)
      have hfd₂ : (c₁.setInterest k.fd opNoop).1.server.fd = c₁.server.fd := rfl
      generalize c₁.setInterest k.fd opNoop = r at hset hfd₂ ⊢
      obtain ⟨c₂, status⟩ := r
      simp only at hfd₂
      cases status with
      | success =>
        refine confined_trans hset ?_
        rw [← hfd₂]
        cases fdRegistered with
        | true => exact confined_setInterest namedIn_origin _
        | false => exact confined_register namedIn_origin _
      | _ => exact hset
    · have hreply : Confined k c (queueReply { c₁ with request.status := errnoToSocks errno }).1 := by
        refine confined_trans (confined_trans hnote ?_) (queueReply_confined k _)
        exact confined_same rfl
      split
      · exact hreply
      · refine confined_trans hreply (confined_trans ?_ (confined_register namedIn_origin _))
        exact confined_setInterest namedIn_client opWrite

/-- No descriptor of an origin has to be closed first. -/
theorem requestConnect_confined (hno : c.request.serverFd = -1) (hnone : c.server.fd < 0) :
    Confined k c (requestConnect k c).1 := by
  unfold requestConnect
  have hreg : decide (c.request.serverFd ≠ -1) = false := decide_eq_false (not_not.mpr hno)
  simp only [hreg, Bool.false_eq_true, if_false, Bool.not_true]
  have hsocket := confined_socket (k := k) hnone c.server.domain k.sys.socket
  split
  · exact hsocket
  · split
    · exact hsocket
    · exact confined_trans hsocket (connectOrigin_confined k _ _)

theorem requestProcess_confined (hno : c.request.serverFd = -1) (hnone : c.server.fd < 0) :
    Confined k c (requestProcess k c).1 := by
  unfold requestProcess
  simp only
  split
  · split
    · refine confined_trans ?_ (requestConnect_confined k _ ?_ ?_)
      · exact confined_same rfl
      · exact hno
      · exact hnone
    · split
      · refine confined_trans ?_ (requestConnect_confined k _ ?_ ?_)
        · exact confined_same rfl
        · exact hno
        · exact hnone
      · split
        · exact confined_refl c
        · refine confined_trans ?_ (confined_setInterest namedIn_key _)
          exact confined_same rfl
  · exact confined_same rfl

theorem requestConsumed_confined (hno : c.request.serverFd = -1) (hnone : c.server.fd < 0) :
    Confined k c (requestConsumed k c).1 := by
  unfold requestConsumed
  simp only
  split
  · exact requestProcess_confined k c hno hnone
  · exact confined_refl c

theorem requestRead_confined (hno : c.request.serverFd = -1) (hnone : c.server.fd < 0) :
    Confined k c (requestRead k c).1 := by
  unfold requestRead
  split
  · exact received_confined k c none
  · rename_i l b _
    simp only
    split
    · exact received_confined k c (some l)
    · refine confined_trans ?_ (requestConsumed_confined k _ ?_ ?_)
      · exact confined_trans (received_confined k c (some l)) (confined_same rfl)
      · exact hno
      · exact hnone

theorem requestConnecting_confined : Confined k c (requestConnecting k c).1 := by
  unfold requestConnecting
  have hnote : Confined k c (c.note (.getsockopt c.server.fd k.sys.getsockopt)) := confined_note namedIn_origin
  generalize c.note (.getsockopt c.server.fd k.sys.getsockopt) = c₁ at hnote
  simp only
  split
  · exact hnote
  · rename_i error _
    have hset := confined_trans hnote (confined_setInterest (c := c₁) (namedIn_client (k := k)) opWrite)
    generalize (c₁.setInterest c₁.clientFd opWrite).1 = c₂ at hset
    have hstatus : Confined k c (if error = 0 then { c₂ with request.status := .succeeded } else c₂) :=
      confined_trans hset (confined_ite (confined_same rfl) (confined_refl c₂))
    have hfd : (if error = 0 then { c₂ with request.status := .succeeded } else c₂ : Conn).server.fd =
        c₂.server.fd := by
      split <;> rfl
    generalize (if error = 0 then { c₂ with request.status := .succeeded } else c₂ : Conn) = c₃ at hstatus hfd
    have hreply := confined_trans hstatus (queueReply_confined k c₃)
    split
    · exact hreply
    · rw [← hfd]
      exact confined_trans hreply (confined_setInterest namedIn_origin opRead)

theorem setDuplex_confined (s : Side) (i : FdInterest) : Confined k c (c.setDuplex s i) := by
  cases s <;> exact confined_same rfl

theorem setReadBuff_confined (s : Side) (b : Buffer) : Confined k c (c.setReadBuff s b) := by
  cases s <;> exact confined_same rfl

theorem shut_confined (s : Side) (how : Shutdown) (i : FdInterest) :
    Confined k c ((c.note (.shutdown (c.copyFd s) how)).setDuplex s i) :=
  confined_trans (confined_note (namedIn_copyFd s)) (setDuplex_confined k _ s i)

theorem shutdownRead_confined (s : Side) : Confined k c (shutdownRead c s) := by
  unfold shutdownRead
  have hself := shut_confined k c s .rd { c.duplex s with read := false }
  exact confined_ite (confined_trans hself (shut_confined k _ s.other .wr _)) hself

theorem shutdownWrite_confined (s : Side) : Confined k c (shutdownWrite c s) := by
  unfold shutdownWrite
  have hself := shut_confined k c s .wr { c.duplex s with write := false }
  exact confined_ite (confined_trans hself (shut_confined k _ s.other .rd _)) hself

variable {k c} {c' : Conn}

theorem sniffOrigin_confined {l : List UInt8} (h : sniffOrigin k c l = .ok c') : Confined k c c' := by
  unfold sniffOrigin at h
  split at h
  · split at h
    · rw [Except.ok.injEq] at h; subst h; exact confined_same rfl
    · cases h
  · rw [Except.ok.injEq] at h; subst h; exact confined_refl c

theorem checkInterest_confined {s : Side} (h : checkInterest c s = .ok c') : Confined k c c' := by
  unfold checkInterest at h
  split at h
  · have hset := confined_setInterest (c := c) (namedIn_copyFd (k := k) s) (copyInterest c s)
    generalize c.setInterest (c.copyFd s) (copyInterest c s) = r at h hset
    obtain ⟨c₁, status⟩ := r
    cases status with
    | success => simp only [Except.ok.injEq] at h; exact h ▸ hset
    | _ => cases h
  · rw [Except.ok.injEq] at h; subst h; exact confined_refl c

theorem copyFinish_confined {s : Side} {st : SessionState} (h : copyFinish c s = .ok (c', st)) :
    Confined k c c' := by
  unfold copyFinish at h
  split at h
  · cases h
  · rename_i c₁ h₁
    split at h
    · cases h
    · rename_i c₂ h₂
      simp only [Except.ok.injEq, Prod.mk.injEq] at h
      exact h.1 ▸ confined_trans (checkInterest_confined h₁) (checkInterest_confined h₂)

theorem copyRead_confined {st : SessionState} (h : copyRead k c = .ok (c', st)) : Confined k c c' := by
  unfold copyRead at h
  simp only at h
  split at h
  · cases h
  · split at h
    · exact confined_trans (confined_trans (received_confined k c _) (shutdownRead_confined k _ _))
        (copyFinish_confined h)
    · split at h
      · exact confined_trans (confined_trans (received_confined k c _) (shutdownRead_confined k _ _))
          (copyFinish_confined h)
      · split at h
        · cases h
        · rename_i c₁ h₁
          exact confined_trans (confined_trans (received_confined k c _) (sniffOrigin_confined h₁))
            (confined_trans (setReadBuff_confined k _ _ _) (copyFinish_confined h))

theorem copyWrite_confined {st : SessionState} (h : copyWrite k c = .ok (c', st)) : Confined k c c' := by
  unfold copyWrite at h
  simp only at h
  split at h
  · cases h
  · split at h
    · exact confined_trans (confined_trans (confined_note namedIn_key) (shutdownWrite_confined k _ _))
        (copyFinish_confined h)
    · rename_i l b _
      split at h
      · cases h
      · rename_i c₁ h₁
        refine confined_trans ?_ (confined_trans (setReadBuff_confined k _ _ _) (copyFinish_confined h))
        refine confined_trans ?_ (sniffOrigin_confined h₁)
        exact confined_trans (confined_note (s := .send k.fd (some l)) namedIn_key) (confined_stats _)

/-! ## An event -/

theorem returning_confined {f : Key → Conn → Conn × SessionState} (hf : Confined k c (f k c).1) {ret : Nat}
    (h : returning f k c = .ok (c', ret)) : Confined k c c' := by
  simp only [returning, Except.ok.injEq, Prod.mk.injEq] at h
  exact h.1 ▸ hf

theorem mayFault_confined {f : Key → Conn → Except Fault (Conn × SessionState)}
    (hf : ∀ c c' st, f k c = .ok (c', st) → Confined k c c') {ret : Nat} (h : mayFault f k c = .ok (c', ret)) :
    Confined k c c' := by
  unfold mayFault at h
  cases hr : f k c with
  | error e => rw [hr] at h; cases h
  | ok r =>
    rw [hr] at h
    simp only [Except.map, Except.ok.injEq, Prod.mk.injEq] at h
    exact h.1 ▸ hf c r.1 r.2 hr

theorem arrive_confined (i : Nat) (k : Key) (c : Conn) : Confined k c (arrive sessionStateDef i k c) := by
  match i with
  | 0 | 1 | 2 | 3 | 4 | 5 | 6 | 7 => exact confined_same rfl
  | i + 8 => exact confined_refl c

theorem callback_confined {st : SessionState} {r : Readiness} {g : Key → Conn → Except Fault (Conn × Nat)}
    {ret : Nat} (hno : st = .requestRead → c.request.serverFd = -1 ∧ c.server.fd < 0) (hg : handlerOf st r = some g)
    (h : g k c = .ok (c', ret)) :
    Confined k c c' := by
  match r, st with
  | .read, .helloRead => cases hg; exact returning_confined (helloRead_confined k c) h
  | .write, .helloWrite => cases hg; exact returning_confined (helloWrite_confined k c) h
  | .read, .requestRead => cases hg; exact returning_confined (requestRead_confined k c (hno rfl).1 (hno rfl).2) h
  | .write, .requestConnecting => cases hg; exact returning_confined (requestConnecting_confined k c) h
  | .write, .requestWrite => cases hg; exact returning_confined (requestWrite_confined k c) h
  | .read, .copy => cases hg; exact mayFault_confined (fun _ _ _ => copyRead_confined) h
  | .write, .copy => cases hg; exact mayFault_confined (fun _ _ _ => copyWrite_confined) h
  | .write, .helloRead | .read, .helloWrite | .write, .requestRead => cases hg
  | .read, .requestConnecting | .read, .requestWrite => cases hg
  | .read, .error | .write, .error | .read, .done | .write, .done | .read, .authRead | .write, .authRead
  | .read, .authWrite | .write, .authWrite => cases hg

/-! ## An event on the session -/

/-- What a session can touch: what it holds, and what is not open. -/
def Conn.Grasps (c : Conn) (x : Int) : Prop := c.Holds x ∨ (0 ≤ x ∧ x ∉ c.openFds)

/-- What an event has done. Only `close_session` closes a descriptor, the client's, and twice. -/
structure Moved (c d : Conn) : Prop where
  self : d.self = c.self
  clientFd : d.clientFd = c.clientFd
  origin : ∃ l, OriginMoves c d l ∧
    d.openFds = if d.freed = true then (l.erase c.clientFd).erase c.clientFd else l
  log : ∃ l, d.log = c.log ++ l ∧ ∀ s ∈ l, 0 ≤ s.on → c.Grasps s.on
  acts : Acts c.Grasps (.session c.self) c.toProcess d.toProcess

theorem grasps_mine (hk : k.fd = c.clientFd ∨ k.fd = c.server.fd) {x : Int} (h : Mine k c x) : c.Grasps x := by
  obtain ⟨hpos, (he | he | he) | hno⟩ := h
  · exact Or.inl ⟨hpos, hk.imp he.trans he.trans⟩
  · exact Or.inl ⟨hpos, Or.inl he⟩
  · exact Or.inl ⟨hpos, Or.inr he⟩
  · exact Or.inr ⟨hpos, hno⟩

theorem moved_refl (hf : c.freed = false) : Moved c c :=
  ⟨rfl, rfl, ⟨_, .stays rfl, (if_neg (hf ▸ Bool.false_ne_true)).symm⟩,
    ⟨[], (List.append_nil _).symm, fun _ hs => absurd hs List.not_mem_nil⟩, Relation.ReflTransGen.refl⟩

theorem moved_confined (hf : c.freed = false) (hk : k.fd = c.clientFd ∨ k.fd = c.server.fd) (h : Confined k c c') :
    Moved c c' where
  self := h.self
  clientFd := h.clientFd
  origin := ⟨_, h.origin, (if_neg (h.freed.trans hf ▸ Bool.false_ne_true)).symm⟩
  log := by
    obtain ⟨l, hl, hon⟩ := h.log
    exact ⟨l, hl, fun s hs hpos => grasps_mine hk (hon s hs hpos)⟩
  acts := acts_mono h.acts fun _ hx => grasps_mine hk hx

/-- Nothing but the client's descriptor is closed. -/
theorem moved_opens (h : Moved c c') {x : Int} (hx : x ∈ c.openFds) (hne : c'.freed = true → x ≠ c.clientFd) :
    x ∈ c'.openFds := by
  obtain ⟨l, hl, ho⟩ := h.origin
  have hkept := originMoves_opens hl hx
  rw [ho]
  split
  · rename_i hf
    exact (List.mem_erase_of_ne (hne hf)).mpr ((List.mem_erase_of_ne (hne hf)).mpr hkept)
  · exact hkept

/-- What `close_session` does to the process. -/
theorem closeSession_process (h : ClientCarried c.sel c.toRecord) :
    ∃ s, (closeSession c).toProcess =
      { ((c.toProcess.act c.clientFd .unregister).act c.clientFd .closed).act c.clientFd .closed with
        stats := s } := by
  obtain ⟨hv, hu, hd⟩ := h
  obtain ⟨h1, -, -⟩ := selectorUnregisterFd_used hv hu
  have hi : ((selectorUnregisterFd c.sel c.clientFd).2.2.bind (·.data)) = some (.session c.self) := by
    rw [h1]
    exact hd
  unfold closeSession
  simp only [hi, if_true]
  split
  · exact ⟨_, rfl⟩
  · exact ⟨_, rfl⟩

theorem closeSession_moved {fd : Nat} {i : FdInterest} {o : Option (Nat × FdInterest)} (hf : c.freed = false)
    (hk : k.fd = c.clientFd ∨ k.fd = c.server.fd) (h : Confined k c c') (hl : Live c' fd i o) :
    Moved c (closeSession c') := by
  have hcar := clientCarried_live hl
  obtain ⟨stats, hprocess⟩ := closeSession_process hcar
  obtain ⟨hfreed, hfd, hserver, hlog, hself, -⟩ := closeSession_carried hcar
  have hclient : c.Grasps c'.clientFd := by
    refine Or.inl ⟨?_, Or.inl h.clientFd⟩
    rw [hl.clientFd]
    exact Int.natCast_nonneg fd
  have hbefore := moved_confined hf hk h
  refine ⟨hself.trans h.self, hfd.trans h.clientFd, ⟨c'.openFds, ?_, ?_⟩, ?_, ?_⟩
  · exact originMoves_trans h.origin rfl (.stays (congrArg _ hserver))
  · rw [if_pos hfreed, ← h.clientFd]
    exact congrArg Process.openFds hprocess
  · obtain ⟨l, hl, hon⟩ := hbefore.log
    refine ⟨l ++ [.close c'.clientFd, .close c'.clientFd], by rw [hlog, hl, List.append_assoc], fun s hs hpos => ?_⟩
    rcases List.mem_append.mp hs with hs | hs
    · exact hon s hs hpos
    · simp only [List.mem_cons, List.not_mem_nil, or_false, or_self] at hs
      exact hs ▸ hclient
  · rw [hprocess]
    refine hbefore.acts.trans ?_
    refine (acts_once (a := .unregister) hclient trivial).trans ?_
    refine (acts_once (a := .closed) hclient trivial).trans ?_
    exact (acts_once (a := .closed) hclient trivial).trans (acts_count _)

theorem settle_confined (st : SessionState) (n : Nat) (h : Confined k c c') :
    Confined k c { (if n = st.toNat then c' else arrive sessionStateDef n k c') with
      sMachine := { stmCreate with current := some n } } := by
  have harrive : Confined k c' (if n = st.toNat then c' else arrive sessionStateDef n k c') :=
    confined_ite (confined_refl c') (arrive_confined n k c')
  exact confined_trans (confined_trans h harrive) (confined_same rfl)

theorem settle_moved {fd : Nat} {st : SessionState} {r : Conn × SessionState} (hf : c.freed = false)
    (hk : k.fd = c.clientFd ∨ k.fd = c.server.fd) (h : Confined k c r.1) (hgo : Goes k fd st r) :
    Moved c (settle k st r.1 r.2.toNat) := by
  have hset := settle_confined st r.2.toNat h
  rcases hgo with ⟨hret, i, o, hl⟩ | hp
  · have harrive : (if r.2.toNat = st.toNat then r.1 else arrive sessionStateDef r.2.toNat k r.1) = r.1 := by
      rcases hret with hret | hret
      · rw [hret]; exact ite_self _
      · rw [hret]; exact ite_self _
    have hfinal : r.2.toNat = SessionState.error.toNat ∨ r.2.toNat = SessionState.done.toNat :=
      hret.imp (congrArg _) (congrArg _)
    unfold settle
    rw [harrive] at hset ⊢
    rw [if_pos hfinal]
    exact closeSession_moved hf hk hset (live_machine hl _)
  · have hgoing : ¬ (r.2.toNat = SessionState.error.toNat ∨ r.2.toNat = SessionState.done.toNat) := by
      generalize r.2 = st' at hp
      cases hp <;> decide
    unfold settle
    rw [if_neg hgoing]
    exact moved_confined hf hk hset

theorem phase_requestFd {fd : Nat} (hp : Phase c fd .requestRead) :
    c.request.serverFd = -1 ∧ c.server.fd < 0 := by
  cases hp with
  | requestRead ms h u live g r => exact ⟨r.requestFd, by rw [r.serverFd]; decide⟩

theorem phase_names {fd : Nat} {st : SessionState} {e : Event} (hp : Phase c fd st) (hs : Selects c e) :
    e.key.fd = c.clientFd ∨ e.key.fd = c.server.fd := by
  obtain ⟨i, o, hl⟩ := phase_live hp
  rcases selects_live hl hs with ⟨he, -⟩ | ⟨j, hj, -⟩
  · exact Or.inl ((key_client he).trans hl.clientFd.symm)
  · exact Or.inr (hl.serverFd _ _ hj).symm

theorem dispatch_moved {e : Event} (h : Inv c) (hf : c.freed = false) (hd : dispatch c e = .ok c') :
    Moved c c' := by
  rcases h with hfreed | ⟨fd, st, hst, hp⟩
  · exact absurd (hf.symm.trans hfreed) Bool.false_ne_true
  rw [dispatch_inState hst hf] at hd
  by_cases hs : Selects c e
  · rw [if_pos hs] at hd
    have hk := phase_names hp hs
    obtain ⟨i₀, o₀, hlive⟩ := phase_live hp
    rcases phase_leads hp hs with ⟨g, r, hh, hg, hgo, -⟩ | hnone | ⟨rfl, -, hr, ha⟩
    · rw [callbackStep_ok hh hg hgo, Except.ok.injEq] at hd
      have hcall : Confined e.key c r.1 := by
        refine callback_confined (fun he => ?_) hh hg
        subst he
        exact phase_requestFd hp
      exact hd ▸ settle_moved hf hk hcall hgo
    · rw [callbackStep_none hnone] at hd; cases hd
    · rw [callbackStep_authRead (by rw [hr]; rfl) ha] at hd; cases hd
  · rw [if_neg hs, Except.ok.injEq] at hd
    exact hd ▸ moved_refl hf

end

end SocksProxy
