import SocksProxy.Pop3Sound

/-!
# What the POP3 sniffer reaches

The accesses of a byte are read off the sniffer before it (`pop3Accesses`;
`parse_stores` ties them to the arrays). They stay inside the arrays, the
patterns and the counters until a line of 255 bytes ends or a login fails.
-/

namespace SocksProxy

open Lib
open scoped List

/-! ## Accesses -/

/-- The last two are `n++` and `n--` of an `uint8_t`. -/
inductive SniffAccess where
  | username (i : Nat) (c : UInt8)
  | password (i : Nat) (c : UInt8)
  | pattern (w : List UInt8) (i : Nat)
  | increment (n : UInt8)
  | decrement (n : UInt8)
  deriving DecidableEq, Repr

def SniffAccess.apply (s : Pop3Sniff) : SniffAccess → Pop3Sniff
  | .username i c => storeUsername s i c
  | .password i c => storePassword s i c
  | _ => s

/-- A pattern may be read up to its terminator. -/
def SniffAccess.Inside : SniffAccess → Prop
  | .username i _ => i < maxSizeUser
  | .password i _ => i < maxSizeUser
  | .pattern w i => i ≤ w.length
  | .increment n => n.toNat + 1 < 256
  | .decrement n => 0 < n.toNat

/-- `initial_msg` and `sniffer`. -/
def wordAccesses (s : Pop3Sniff) (b : UInt8) (w : List UInt8) : List SniffAccess :=
  .pattern w s.read.toNat :: if matchesAt b w s.read then [.increment s.read, .decrement s.remaining] else []

/-- `read_user` and `read_password`. -/
def lineAccesses (s : Pop3Sniff) (b : UInt8) (store : Nat → UInt8 → SniffAccess) : List SniffAccess :=
  if b ≠ 0x0A then
    if s.read.toNat < maxSizeUser then [store s.read.toNat b, .increment s.read] else []
  else [store s.read.toNat 0]

def checkAccesses (s : Pop3Sniff) (b : UInt8) : List SniffAccess :=
  .pattern pop3Ok s.read.toNat ::
    if matchesAt b pop3Ok s.read then [.increment s.read] else [.pattern pop3ErrorSniff s.checkRead.toNat]

def pop3Accesses (s : Pop3Sniff) (b : UInt8) : List SniffAccess :=
  match s.state with
  | .initial => wordAccesses s b pop3Ok
  | .user => wordAccesses s b pop3User
  | .readUser => lineAccesses s b .username
  | .password => wordAccesses s b pop3Password
  | .readPassword => lineAccesses s b .password
  | .check => checkAccesses s b
  | _ => []

def AccessesInside (g : Sniffing) (b : UInt8) : Prop := ∀ a ∈ pop3Accesses g.sniff b, a.Inside

/-- While a word is looked for, the counters add up to its length. -/
structure AddsUp (g : Sniffing) : Prop where
  user : g.sniff.state = .user → g.sniff.read.toNat + g.sniff.remaining.toNat = pop3User.length
  password : g.sniff.state = .password → g.sniff.read.toNat + g.sniff.remaining.toNat = pop3Password.length

/-- A line ends before it has filled its array, and no login fails. -/
structure WithinLimits (g : Sniffing) (b : UInt8) : Prop where
  username : g.sniff.state = .readUser → b = 0x0A → g.since.length < maxSizeUser
  password : g.sniff.state = .readPassword → b = 0x0A → g.since.length < maxSizeUser
  accepted : g.sniff.state = .check → ¬ lower pop3ErrorSniff <+ lower (g.since ++ [b])

section
variable {s : Pop3Sniff} {w l : List UInt8} {b : UInt8}

/-- The octets of the two arrays. -/
def Pop3Sniff.arrays (s : Pop3Sniff) : List UInt8 × List UInt8 := (s.username, s.password)

theorem wordAccesses_stores (s : Pop3Sniff) (b : UInt8) (w : List UInt8) :
    (wordAccesses s b w).foldl SniffAccess.apply s = s := by
  unfold wordAccesses
  split
  · rfl
  · rfl

theorem checkAccesses_stores (s : Pop3Sniff) (b : UInt8) : (checkAccesses s b).foldl SniffAccess.apply s = s := by
  unfold checkAccesses
  split
  · rfl
  · rfl

theorem initialMsg_arrays (s : Pop3Sniff) (b : UInt8) : (initialMsg s b).1.arrays = s.arrays := by
  unfold initialMsg
  split
  · split
    · rfl
    · rfl
  · rfl

theorem sniffer_arrays (s : Pop3Sniff) (b : UInt8) (w : List UInt8) (st next : Pop3State) :
    (sniffer s b w st next).1.arrays = s.arrays := by
  unfold sniffer
  split
  · split
    · rfl
    · rfl
  · split
    · rfl
    · rfl

theorem pop3Check_arrays (s : Pop3Sniff) (b : UInt8) : (pop3Check s b).1.arrays = s.arrays := by
  unfold pop3Check
  split
  · rfl
  · split
    · rfl
    · rfl

theorem readUser_arrays (s : Pop3Sniff) (b : UInt8) :
    (readUser s b).1.arrays = ((lineAccesses s b .username).foldl SniffAccess.apply s).arrays := by
  unfold readUser lineAccesses
  split
  · split
    · rfl
    · rfl
  · rfl

theorem readPassword_arrays (s : Pop3Sniff) (b : UInt8) :
    (readPassword s b).1.arrays = ((lineAccesses s b .password).foldl SniffAccess.apply s).arrays := by
  unfold readPassword lineAccesses
  split
  · split
    · rfl
    · rfl
  · rfl

theorem parse_stores (s : Pop3Sniff) (b : UInt8) :
    (pop3Parse s b).arrays = ((pop3Accesses s b).foldl SniffAccess.apply s).arrays := by
  unfold pop3Parse pop3Accesses
  cases s.state with
  | initial =>
    simp only [wordAccesses_stores]
    exact initialMsg_arrays s b
  | user =>
    simp only [wordAccesses_stores]
    exact sniffer_arrays s b _ _ _
  | readUser => exact readUser_arrays s b
  | password =>
    simp only [wordAccesses_stores]
    exact sniffer_arrays s b _ _ _
  | readPassword => exact readPassword_arrays s b
  | check =>
    simp only [checkAccesses_stores]
    exact pop3Check_arrays s b
  | _ => rfl

/-! ## The counters -/

/-- What `read` and `remaining` are in each state, `l` being the bytes since it was entered. -/
def Placed : Pop3State → Pop3Sniff → List UInt8 → Prop
  | .initial, s, l => Armed s pop3Ok l
  | .user, s, l => Armed s pop3User l
  | .readUser, s, l => s.read.toNat = min l.length maxSizeUser
  | .password, s, l => Armed s pop3Password l
  | .readPassword, s, l => s.read.toNat = min l.length maxSizeUser ∧ s.remaining = 0
  | .check, s, l => Counting s l
  | _, _, _ => True

theorem wordAccesses_inside (h : Armed s w l) (hw : w.length < 256) (b : UInt8) :
    ∀ a ∈ wordAccesses s b w, a.Inside := by
  have hlt := armed_lt h
  intro a ha
  rcases List.mem_cons.mp ha with rfl | ha
  · exact Nat.le_of_lt hlt
  · split at ha
    · rcases List.mem_pair.mp ha with rfl | rfl
      · change s.read.toNat + 1 < 256
        omega
      · exact h.pos
    · cases ha

theorem lineAccesses_inside (store : Nat → UInt8 → SniffAccess)
    (hstore : ∀ i c, (store i c).Inside ↔ i < maxSizeUser) (h : s.read.toNat = min l.length maxSizeUser)
    (b : UInt8) :
    (∀ a ∈ lineAccesses s b store, a.Inside) ↔ (b = 0x0A → l.length < maxSizeUser) := by
  unfold lineAccesses
  by_cases hb : b = 0x0A
  · rw [if_neg (not_not_intro hb), List.forall_mem_singleton, hstore, h]
    simp only [hb, true_implies]
    omega
  · rw [if_pos hb]
    refine iff_of_true ?_ fun hb' => absurd hb' hb
    intro a ha
    split at ha
    · rename_i hlt
      rcases List.mem_pair.mp ha with rfl | rfl
      · exact (hstore _ _).mpr hlt
      · exact Nat.succ_lt_succ hlt
    · cases ha

theorem checkAccesses_inside (h : Counting s l) (b : UInt8) : ∀ a ∈ checkAccesses s b, a.Inside := by
  have hok : s.read.toNat < 3 := h.ok.bound
  intro a ha
  rcases List.mem_cons.mp ha with rfl | ha
  · exact Nat.le_of_lt hok
  · split at ha
    · obtain rfl := List.mem_singleton.mp ha
      change s.read.toNat + 1 < 256
      omega
    · obtain rfl := List.mem_singleton.mp ha
      exact Nat.le_of_lt h.error.bound

/-- The next index in a line: at the end of the array it stays. -/
theorem line_next {n : UInt8} {k : Nat} (h : n.toNat = min k maxSizeUser) :
    (if n.toNat < maxSizeUser then n + 1 else n).toNat = min (k + 1) maxSizeUser := by
  unfold maxSizeUser at h ⊢
  split
  · rename_i hlt
    rw [counter_succ hlt]
    omega
  · omega

theorem readUser_more (s : Pop3Sniff) (hb : b ≠ 0x0A) : (readUser s b).2 = .readUser ∧
    (readUser s b).1.read = if s.read.toNat < maxSizeUser then s.read + 1 else s.read := by
  unfold readUser
  rw [if_pos hb]
  split
  · exact ⟨rfl, rfl⟩
  · exact ⟨rfl, rfl⟩

theorem readPassword_more (s : Pop3Sniff) (hb : b ≠ 0x0A) : (readPassword s b).2 = .readPassword ∧
    (readPassword s b).1.read = if s.read.toNat < maxSizeUser then s.read + 1 else s.read := by
  unfold readPassword
  rw [if_pos hb]
  split
  · exact ⟨rfl, rfl⟩
  · exact ⟨rfl, rfl⟩

theorem initialMsg_match (h : matchesAt b pop3Ok s.read = true) (hlast : s.remaining ≠ 1) :
    initialMsg s b = sniffer s b pop3Ok .initial .user := by
  rw [sniffer_match h hlast, initialMsg, if_pos h, if_neg (fun h' => hlast (last_letter.mp h'))]

/-- A byte of the greeting. -/
theorem initialMsg_step (h : Armed s pop3Ok l) (b : UInt8) :
    ((initialMsg s b).2 = .initial ∧ Armed (initialMsg s b).1 pop3Ok (l ++ [b])) ∨
      ((initialMsg s b).2 = .user ∧ Armed (initialMsg s b).1 pop3User []) ∨ (initialMsg s b).2 = .done := by
  rcases initialMsg_states s b with hnext | hnext | hnext
  · left
    refine ⟨hnext, ?_⟩
    by_cases hm : matchesAt b pop3Ok s.read = true
    · by_cases hlast : s.remaining = 1
      · rw [initialMsg, if_pos hm, if_pos (last_letter.mpr hlast)] at hnext
        cases hnext
      · rw [initialMsg_match hm hlast] at hnext ⊢
        rcases armed_step h (by decide) b .initial .user with ⟨-, hstill⟩ | ⟨hother, -⟩
        · exact hstill
        · cases hnext.symm.trans hother
    · rw [initialMsg, if_neg hm] at hnext
      cases hnext
  · obtain ⟨hread, hrem⟩ := initialMsg_user hnext
    exact Or.inr (Or.inl ⟨hnext, armed_zero hread hrem (by decide) (by decide) _⟩)
  · exact Or.inr (Or.inr hnext)

/-! ## Runs -/

variable {g g' : Sniffing}

theorem accesses_inside_iff (h : Placed g.sniff.state g.sniff g.since) (b : UInt8) :
    AccessesInside g b ↔ (g.sniff.state = .readUser → b = 0x0A → g.since.length < maxSizeUser) ∧
      (g.sniff.state = .readPassword → b = 0x0A → g.since.length < maxSizeUser) := by
  unfold AccessesInside pop3Accesses
  cases hst : g.sniff.state with
  | initial =>
    rw [hst] at h
    exact iff_of_true (wordAccesses_inside h (by decide) b) ⟨nofun, nofun⟩
  | user =>
    rw [hst] at h
    exact iff_of_true (wordAccesses_inside h (by decide) b) ⟨nofun, nofun⟩
  | password =>
    rw [hst] at h
    exact iff_of_true (wordAccesses_inside h (by decide) b) ⟨nofun, nofun⟩
  | readUser =>
    rw [hst] at h
    have hline := lineAccesses_inside .username (fun _ _ => Iff.rfl) h b
    exact hline.trans ⟨fun hlen => ⟨fun _ => hlen, nofun⟩, fun hlen => hlen.1 rfl⟩
  | readPassword =>
    rw [hst] at h
    have hline := lineAccesses_inside .password (fun _ _ => Iff.rfl) h.1 b
    exact hline.trans ⟨fun hlen => ⟨nofun, fun _ => hlen⟩, fun hlen => hlen.2 rfl⟩
  | check =>
    rw [hst] at h
    exact iff_of_true (checkAccesses_inside h b) ⟨nofun, nofun⟩
  | _ => exact iff_of_true nofun ⟨nofun, nofun⟩

theorem placed_after {r : Pop3Sniff × Pop3State} (hr : pop3Parse g.sniff b = { r.1 with state := r.2 })
    (hstep : sniffStep g b = .ok g')
    (h : Placed r.2 { r.1 with state := r.2 } (if r.2 = g.sniff.state then g.since ++ [b] else [])) :
    Placed g'.sniff.state g'.sniff g'.since :=
  sniffStep_after (P := fun g => Placed g.sniff.state g.sniff g.since) hr hstep h

theorem placed_initial (h : Placed g.sniff.state g.sniff g.since) (hst : g.sniff.state = .initial)
    (hstep : sniffStep g b = .ok g') : Placed g'.sniff.state g'.sniff g'.since := by
  rw [hst] at h
  apply placed_after (r := initialMsg g.sniff b) (by rw [pop3Parse, hst]) hstep
  rcases initialMsg_step h b with ⟨hnext, hstill⟩ | ⟨hnext, hword⟩ | hnext
  · simp only [hnext, hst, ite_true]
    exact armed_state hstill _
  · simp only [hnext, hst]
    exact armed_state hword _
  · simp only [hnext]
    trivial

theorem placed_user (h : Placed g.sniff.state g.sniff g.since) (hst : g.sniff.state = .user)
    (hstep : sniffStep g b = .ok g') : Placed g'.sniff.state g'.sniff g'.since := by
  rw [hst] at h
  apply placed_after (parse_user hst b) hstep
  rcases armed_step h (by decide) b .user .readUser with ⟨hnext, hstill⟩ | ⟨hnext, hread, -⟩
  · -- the word goes on, or it is complete and the argument begins
    simp only [hnext, hst, ite_true]
    exact armed_state hstill _
  · simp only [hnext, hst]
    exact congrArg UInt8.toNat hread

theorem placed_readUser (h : Placed g.sniff.state g.sniff g.since) (hst : g.sniff.state = .readUser)
    (hstep : sniffStep g b = .ok g') : Placed g'.sniff.state g'.sniff g'.since := by
  rw [hst] at h
  apply placed_after (r := readUser g.sniff b) (by rw [pop3Parse, hst]) hstep
  by_cases hb : b = 0x0A
  · -- the end of the line starts the next word; before it `read` counts the octets of the argument
    rw [hb]
    exact armed_zero rfl rfl (by decide) (by decide) _
  · obtain ⟨hnext, hread⟩ := readUser_more g.sniff hb
    simp only [hnext, hst, ite_true, Placed, hread, List.length_append, List.length_singleton]
    exact line_next h

theorem placed_password (h : Placed g.sniff.state g.sniff g.since) (hst : g.sniff.state = .password)
    (hstep : sniffStep g b = .ok g') : Placed g'.sniff.state g'.sniff g'.since := by
  rw [hst] at h
  apply placed_after (parse_password hst b) hstep
  rcases armed_step h (by decide) b .password .readPassword with ⟨hnext, hstill⟩ | ⟨hnext, hread, hrem⟩
  · simp only [hnext, hst, ite_true]
    exact armed_state hstill _
  · simp only [hnext, hst]
    exact ⟨congrArg UInt8.toNat hread, hrem⟩

theorem placed_readPassword (h : Placed g.sniff.state g.sniff g.since) (hst : g.sniff.state = .readPassword)
    (hstep : sniffStep g b = .ok g') : Placed g'.sniff.state g'.sniff g'.since := by
  rw [hst] at h
  obtain ⟨hread, hzero⟩ := h
  apply placed_after (r := readPassword g.sniff b) (by rw [pop3Parse, hst]) hstep
  -- a password does not touch `remaining`, which its word has left at 0
  have hrem := (readPassword_states g.sniff b).1.trans hzero
  by_cases hb : b = 0x0A
  · rw [hb] at hrem ⊢
    rw [hst]
    exact ⟨hrem, heard_zero (by decide), heard_zero (by decide)⟩
  · obtain ⟨hnext, hmore⟩ := readPassword_more g.sniff hb
    simp only [hnext, hst, ite_true, Placed, hmore, List.length_append, List.length_singleton]
    exact ⟨line_next hread, hrem⟩

theorem placed_check (h : Placed g.sniff.state g.sniff g.since) (hst : g.sniff.state = .check)
    (hno : ¬ lower pop3ErrorSniff <+ lower (g.since ++ [b])) (hstep : sniffStep g b = .ok g') :
    Placed g'.sniff.state g'.sniff g'.since := by
  rw [hst] at h
  apply placed_after (parse_check hst b) hstep
  rcases check_step h b with ⟨hnext, hstill⟩ | ⟨hnext, -⟩ | hnext
  · simp only [hnext, hst, ite_true]
    exact counting_state hstill _
  · -- back to POP3_USER, with `remaining` still 0
    exact absurd ((check_user h b).mp hnext) hno
  · simp only [hnext]
    trivial

/-- A byte keeps the counters in place unless a login fails. -/
theorem placed_step (h : Placed g.sniff.state g.sniff g.since)
    (hno : g.sniff.state = .check → ¬ lower pop3ErrorSniff <+ lower (g.since ++ [b]))
    (hstep : sniffStep g b = .ok g') : Placed g'.sniff.state g'.sniff g'.since := by
  cases hst : g.sniff.state with
  | initial => exact placed_initial h hst hstep
  | user => exact placed_user h hst hstep
  | readUser => exact placed_readUser h hst hstep
  | password => exact placed_password h hst hstep
  | readPassword => exact placed_readPassword h hst hstep
  | check => exact placed_check h hst (hno hst) hstep
  | _ =>
    -- no counter is read again in a state that ends the session
    apply placed_after (r := (g.sniff, g.sniff.state)) (by rw [pop3Parse, hst]) hstep
    simp only [hst]
    trivial

theorem placed_addsUp (h : Placed g.sniff.state g.sniff g.since) : AddsUp g := by
  constructor
  · intro hst
    rw [hst] at h
    exact Armed.count h
  · intro hst
    rw [hst] at h
    exact Armed.count h

theorem check_failed (h : Counting s l) (hnext : (pop3Check s b).2 = .user) :
    (pop3Check s b).1.read = s.read ∧ (pop3Check s b).1.remaining = 0 := by
  rcases check_cases h b with ⟨-, -, he⟩ | ⟨-, -, he⟩ | ⟨-, -, he⟩
  · rw [he] at hnext
    simp only at hnext
    split at hnext
    · cases hnext
    · cases hnext
  · rw [he]
    exact ⟨rfl, h.remaining⟩
  · rw [he] at hnext
    cases hnext

/-- After a login that failed `remaining` is 0, and `read` is less than 3. -/
theorem failed_not_addsUp (h : Counting g.sniff g.since) (hst : g.sniff.state = .check)
    (hfail : lower pop3ErrorSniff <+ lower (g.since ++ [b])) (hstep : sniffStep g b = .ok g') : ¬ AddsUp g' := by
  apply sniffStep_after (parse_check hst b) hstep
  intro hsums
  have hnext := (check_user h b).mpr hfail
  have hsum := hsums.user hnext
  obtain ⟨hread, hrem⟩ := check_failed h hnext
  have hok : g.sniff.read.toNat < 3 := h.ok.bound
  simp only [hread, hrem] at hsum
  change g.sniff.read.toNat + 0 = 5 at hsum
  omega

theorem limits_iff (h : Placed g.sniff.state g.sniff g.since) (b : UInt8) :
    AccessesInside g b ∧ (∀ g', sniffStep g b = .ok g' → AddsUp g') ↔ WithinLimits g b := by
  rw [accesses_inside_iff h]
  constructor
  · rintro ⟨⟨husername, hpassword⟩, hsums⟩
    refine ⟨husername, hpassword, fun hst hfail => ?_⟩
    rw [hst] at h
    exact failed_not_addsUp h hst hfail rfl (hsums _ rfl)
  · intro hc
    refine ⟨⟨hc.username, hc.password⟩, fun g' hstep => ?_⟩
    exact placed_addsUp (placed_step h hc.accepted hstep)

end

/-- The accesses of a stream stay inside and the counters add up exactly as long
as every line ends before it has filled its array, and no login fails. -/
theorem sniffer_inside_iff (s : Pop3Sniff) (l : List UInt8) :
    Along sniffStep AccessesInside (Sniffing.start s) l ∧ Always sniffStep AddsUp (Sniffing.start s) l ↔
      Along sniffStep WithinLimits (Sniffing.start s) l := by
  have hstart : Placed (Sniffing.start s).sniff.state (Sniffing.start s).sniff (Sniffing.start s).since :=
    armed_zero rfl rfl (by decide) (by decide) _
  rw [always_iff_along, and_iff_right (placed_addsUp hstart), ← along_and]
  apply along_iff (J := fun g => Placed g.sniff.state g.sniff g.since) _ _ l hstart
  · intro g b h
    exact limits_iff h b
  · intro g b g' h hc hstep
    exact placed_step h hc.accepted hstep

/-- `"+OKUSER "`, and a name as long as its array. -/
def longName : List UInt8 := pop3Ok ++ pop3User ++ List.replicate maxSizeUser 0x61

def afterName : Sniffing := final sniffStep (Sniffing.start Pop3Sniff.fill) longName

def afterFailure : Sniffing := final sniffStep (Sniffing.start Pop3Sniff.fill) failedLogin

/-- The terminator of the name is stored behind its array, and the counters
do not add up after a login that failed. -/
theorem sniffer_overruns :
    ¬ Along sniffStep AccessesInside (Sniffing.start Pop3Sniff.fill) (longName ++ [0x0A]) ∧
      ¬ Always sniffStep AddsUp (Sniffing.start Pop3Sniff.fill) failedLogin := by
  constructor
  · intro h
    have hr : run sniffStep (Sniffing.start Pop3Sniff.fill) longName = .ok afterName :=
      run_final (by decide +kernel)
    have hstore : SniffAccess.username maxSizeUser 0 ∈ pop3Accesses afterName.sniff 0x0A := by decide +kernel
    exact Nat.lt_irrefl _ (along_last h hr _ hstore)
  · intro h
    have hr : run sniffStep (Sniffing.start Pop3Sniff.fill) failedLogin = .ok afterFailure :=
      run_final (by decide +kernel)
    exact absurd ((always_run h hr).user (by decide +kernel)) (by decide +kernel)

end SocksProxy
